/-
The three forms of the list of kept segments (`src/record/segment_recorder.cpp`,
`src/record/hls_playlist.cpp`).

A recorder runs from a directory that it has scanned.  File operations succeed,
and a media file that it makes did not exist before.

* `RecBooks` — the books of the archive are kept, the playlist is ended while no
  session is ready, and the open segment is a new file of a ready session;
* `step` — a call of `process_frame`, or the end of the writer;
* `FormsAgree` — the playlist lists the kept segments of the current day, and
  other days that lost a segment are settled;
* **`forms_agree`** — they agree after every run.
-/
import IpcMini.KeptListings
import IpcMini.RecorderCalls
import IpcMini.RecorderPlaylists
import IpcMini.Run

namespace IpcMini

open Archive Interleaving

namespace Recorder

variable {v : Disk} {init : String → Bool} {s t : Recorder} {env : Env}

structure RecBooks (v : Disk) (init : String → Bool) (s : Recorder) : Prop where
  recorder : s.RecInv v
  books : Books v init s.archive
  ended : s.sessionReady = false → s.archive.playlist.path ≠ none →
    s.archive.playlist.ended = true
  media : s.muxer.segmentOpen = true → ∀ path ∈ s.currentMediaPath, s.sessionReady = true ∧
    path ∈ s.archive.mediaFiles ∧ path ∉ s.archive.kept.map KeptSegment.path

/-! ### Segments and sessions -/

/-- A segment lasts a millisecond or more. -/
theorem long_segmentDuration (h : 0 < s.archive.config.segmentSec) :
    1 / 1000 ≤ s.segmentDuration := by
  have hsec : (1 : ℚ) ≤ (s.archive.config.segmentSec : ℚ) := by exact_mod_cast h
  rw [segmentDuration]
  generalize (if 0 ≤ s.segmentStartPtsMs ∧ s.segmentStartPtsMs ≤ s.segmentLastPtsMs then
    ((s.segmentLastPtsMs - s.segmentStartPtsMs : ℤ) : ℚ) / 1000 else 0) = duration
  split
  · linarith
  · linarith

/-- The books after the open segment is closed; with `end_playlist` the playlist
is ended. -/
theorem rec_books_close (h : RecBooks v init s) (env : Env) (endPlaylist : Bool) :
    RecBooks v init (s.closeCurrentSegment env endPlaylist) ∧
      (endPlaylist = true → (s.closeCurrentSegment env endPlaylist).archive.playlist.path ≠
        none → (s.closeCurrentSegment env endPlaylist).archive.playlist.ended = true) := by
  obtain ⟨hrec, hclosed⟩ := rec_inv_closeCurrentSegment env h.recorder endPlaylist
  -- the segment is remembered if it has a path, and then the session is ready
  obtain ⟨a, heq, hbooks, hended⟩ : ∃ a : Archive,
      (s.closeCurrentSegment env endPlaylist).archive =
        (if endPlaylist then a.endPlaylist else a) ∧ Books v init a ∧
      (s.sessionReady = false → a.playlist.path ≠ none → a.playlist.ended = true) := by
    cases hopen : s.muxer.segmentOpen with
    | false =>
      refine ⟨s.archive, ?_, h.books, h.ended⟩
      rw [closeCurrentSegment, hopen]
    | true =>
      cases hpath : s.currentMediaPath with
      | none =>
        refine ⟨s.archive, ?_, h.books, h.ended⟩
        rw [closeCurrentSegment, hopen, hpath]
      | some path =>
        obtain ⟨hgen, hday, hactive⟩ := h.recorder.media hopen path hpath
        obtain ⟨hready, hmem, hnew⟩ := h.media hopen path hpath
        refine ⟨s.archive.closeSegment path s.segmentDuration env.bytes, ?_,
          books_closeSegment h.books hgen hday hactive hmem hnew
            (long_segmentDuration h.books.segmentSec) _, fun hno => ?_⟩
        · rw [closeCurrentSegment, hopen, hpath]
        · rw [hready] at hno
          cases hno
  have hmedia : (s.closeCurrentSegment env endPlaylist).muxer.segmentOpen = true →
      ∀ path ∈ (s.closeCurrentSegment env endPlaylist).currentMediaPath,
        (s.closeCurrentSegment env endPlaylist).sessionReady = true ∧
        path ∈ (s.closeCurrentSegment env endPlaylist).archive.mediaFiles ∧
        path ∉ (s.closeCurrentSegment env endPlaylist).archive.kept.map KeptSegment.path := by
    intro ho
    rw [hclosed] at ho
    cases ho
  cases endPlaylist with
  | true =>
    rw [if_pos rfl] at heq
    obtain ⟨hend, hlast⟩ := books_endPlaylist hbooks
    exact ⟨⟨hrec, heq ▸ hend, fun _ hp => heq ▸ hlast (heq ▸ hp), hmedia⟩,
      fun _ hp => heq ▸ hlast (heq ▸ hp)⟩
  | false =>
    rw [if_neg (by simp)] at heq
    exact ⟨⟨hrec, heq ▸ hbooks, fun hs hp => heq ▸ hended hs (heq ▸ hp), hmedia⟩,
      fun hno => absurd hno (by simp)⟩

/-- The books do not mention the current day. -/
theorem books_currentDay {a : Archive} (h : Books v init a) (day : String) :
    Books v init { a with currentDay := day } := by
  refine ⟨⟨⟨h.keeps, h.kept, h.listing, h.named⟩, h.inactive, h.active⟩, h.segmentSec,
    h.generated, h.nodup, h.media, h.long, h.entries, fun d hd hr => ?_⟩
  rcases h.settled d hd hr with hended | hgone
  · exact .inl hended
  · exact .inr ⟨hgone.index, hgone.init, hgone.media⟩

theorem rec_books_endDay (h : RecBooks v init s) : RecBooks v init (s.endDay env) := by
  obtain ⟨hclose, hended⟩ := rec_books_close h env true
  refine ⟨rec_inv_endDay h.recorder, books_currentDay hclose.books "", fun _ hp => ?_,
    fun ho => ?_⟩
  · exact hended rfl hp
  · rw [endDay] at ho
    dsimp only at ho
    rw [Muxer.segmentOpen_endSession] at ho
    cases ho

theorem rec_books_beginSession (h : RecBooks v init s) (he : env.Rewrites)
    (hs : s.sessionReady = false) (day : String) :
    RecBooks v init (s.beginSession env day).2 := by
  have hrec := rec_inv_beginSession h.recorder he hs day
  rcases s.beginSession_cases env day with ⟨muxer, hclosed, hb⟩ | ⟨hno, -⟩ |
    ⟨-, muxer, hclosed, hb⟩
  · rw [hb] at hrec ⊢
    exact ⟨hrec, h.books, h.ended, fun ho => absurd ho (by simp [hclosed])⟩
  · simp [he.playlistBegun] at hno
  · rw [hb] at hrec ⊢
    exact ⟨hrec, books_listDay h.books (h.ended hs) day, fun hno => absurd hno (by simp),
      fun ho => absurd ho (by simp [hclosed])⟩

theorem rec_books_restartSession (h : RecBooks v init s) (he : env.Rewrites) (day : String) :
    RecBooks v init (s.restartSession env day).2 := by
  have hrec := rec_inv_restartSession h.recorder he day
  obtain ⟨hclose, hended⟩ := rec_books_close h env true
  rcases s.restartSession_cases env day with ⟨muxer, hclosed, hr⟩ | ⟨muxer, hclosed, hr⟩
  · rw [hr] at hrec ⊢
    exact ⟨hrec, hclose.books, fun _ hp => hended rfl hp,
      fun ho => absurd ho (by simp [hclosed])⟩
  · rw [hr, he.playlistRebegun] at hrec ⊢
    exact ⟨hrec, books_listDay hclose.books (hended rfl) day, fun hno => absurd hno (by simp),
      fun ho => absurd ho (by simp [hclosed])⟩

/-- A media file that did not exist is opened. -/
theorem rec_books_openMedia (h : RecBooks v init s) {keyframe : MediaFrame} {time : LocalTime}
    (hs : s.sessionReady = true) (hday : s.archive.currentDay = time.day)
    (hfresh : (s.openMedia env keyframe time).2.archive.mediaFiles.Nodup) :
    RecBooks v init (s.openMedia env keyframe time).2 := by
  have hrec : (s.openMedia env keyframe time).2.RecInv v :=
    rec_inv_openMedia h.recorder hs hday keyframe
  have hpath := h.recorder.session hs
  rcases s.openMedia_cases env keyframe time with ⟨muxer, hclosed, he⟩ | ⟨muxer, he⟩
  · rw [he] at hrec ⊢
    exact ⟨hrec, h.books, h.ended, fun ho => absurd ho (by simp [hclosed])⟩
  · rw [he] at hrec hfresh ⊢
    refine ⟨hrec, books_add_media h.books hday.symm hpath, fun hno => ?_, fun _ path hp => ?_⟩
    · exact absurd (hs.symm.trans hno) (by simp)
    · obtain rfl : nextMediaPath time env.suffix = path := by simpa using hp
      refine ⟨hs, List.mem_append_right _ (List.mem_singleton_self _), fun hmem => ?_⟩
      -- the kept segments have their files, and this one is new
      obtain ⟨item, hitem, hpath'⟩ := List.mem_map.mp hmem
      have hold := h.books.media item hitem
      exact (List.nodup_append.mp hfresh).2.2 _ hold _ (List.mem_singleton_self _) hpath'

/-- The operations of a call keep the books. -/
theorem preserved_rec_books (he : env.Rewrites) :
    Preserved env (fun a => a.mediaFiles.Nodup) (RecBooks v init) where
  congr h ha hs hp hm := by
    refine ⟨h.recorder.congr ha hs hp hm, ha ▸ h.books, ?_, ?_⟩
    · rw [ha, hs]
      exact h.ended
    · rw [ha, hs, hm, hp]
      exact h.media
  close endPlaylist h := (rec_books_close h env endPlaylist).1
  endDay h := rec_books_endDay h
  beginSession day h hs := rec_books_beginSession h he hs day
  restartSession day h := rec_books_restartSession h he day
  openMedia _ _ h hs hday hfresh := rec_books_openMedia h hs hday hfresh

theorem rec_books_endWriter (h : RecBooks v init s) : RecBooks v init (s.endWriter env) := by
  obtain ⟨hclose, hended⟩ := rec_books_close h env true
  refine ⟨rec_inv_endWriter h.recorder, hclose.books, fun _ hp => hended rfl hp, fun ho => ?_⟩
  rw [endWriter] at ho
  dsimp only at ho
  rw [Muxer.segmentOpen_endSession] at ho
  cases ho

end Recorder

/-! ### Runs -/

namespace PlaylistForms

inductive Label
  /-- `process_frame` -/
  | frame (frame : MediaFrame) (env : Env)
  /-- the writer leaves its loop -/
  | finish (env : Env)
  deriving DecidableEq, Repr

/-- The recorder comes back from a call in which its playlists were written; the
media file that it made, if any, is a new one. -/
def returned (env : Env) (r : Recorder) : Option Recorder :=
  if env.playlistBegun = true ∧ env.playlistRebegun = true ∧ r.archive.mediaFiles.Nodup then
    some r
  else none

def step (s : Recorder) : Label → Option Recorder
  | .frame frame env => returned env (s.processFrame env frame)
  | .finish env => returned env (s.endWriter env)

/-- `start`, after the scan of the directory. -/
def started (config : RecordConfig) (kept : List KeptSegment) (mediaFiles : List File) :
    Recorder :=
  .new (Archive.pruneRetained ⟨config, kept, .empty, "", mediaFiles, []⟩)

/-- What `scan_existing_segments` finds: files with generated names, which count
as segments of the configured duration. -/
structure Scanned (config : RecordConfig) (kept : List KeptSegment) (mediaFiles : List File) :
    Prop where
  segmentSec : 0 < config.segmentSec
  generated : ∀ item ∈ kept, Generated item.path
  duration : ∀ item ∈ kept, item.durationSec = config.segmentSec
  nodup : (kept.map KeptSegment.path).Nodup
  media : ∀ item ∈ kept, item.path ∈ mediaFiles

/-- While a session is ready the playlist lists the kept segments of the current
day; every other day on which a segment was pruned is settled.  `index` and `init`
are the playlist files and init files before the start. -/
structure FormsAgree (index : String → Option (List Char)) (init : String → Bool)
    (kept : List KeptSegment) (s : Recorder) : Prop where
  playlist : s.sessionReady = true →
    s.archive.playlist.entries = entriesOfDay s.archive.kept s.archive.currentDay
  others : ∀ day, day ≠ s.archive.currentDay → Removed s.archive.effects day →
    Settled ⟨kept, index, [], none⟩ init s.archive day

theorem forms_agree_of_books {index : String → Option (List Char)} {init : String → Bool}
    {kept : List KeptSegment} {s : Recorder}
    (h : Recorder.RecBooks ⟨kept, index, [], none⟩ init s) : FormsAgree index init kept s where
  playlist hs := h.books.entries _ (h.recorder.session hs)
  others := by
    intro day hday hr
    by_cases hp : s.archive.playlist.path = some (.index day)
    · -- the playlist is still that of another day, so that its session is over
      cases hs : s.sessionReady with
      | true =>
        have hcurrent := (h.recorder.session hs).symm.trans hp
        exact absurd (by simpa [File.index] using hcurrent.symm) hday
      | false => exact h.books.settled_of_ended hp (h.ended hs (by simp [hp]))
    · exact h.books.settled day hp hr

/-- A recorder that was just started. -/
theorem rec_books_started {config : RecordConfig} {kept : List KeptSegment}
    {mediaFiles : List File} (hscan : Scanned config kept mediaFiles)
    (index : String → Option (List Char)) (init : String → Bool) :
    Recorder.RecBooks ⟨kept, index, [], none⟩ init (started config kept mediaFiles) := by
  have hlong : ∀ item ∈ kept, 1 / 1000 ≤ item.durationSec := by
    intro item hitem
    have hsec : (1 : ℚ) ≤ (config.segmentSec : ℚ) := by exact_mod_cast hscan.segmentSec
    rw [hscan.duration item hitem]
    linarith
  have hbooks : Books ⟨kept, index, [], none⟩ init ⟨config, kept, .empty, "", mediaFiles, []⟩ :=
    ⟨⟨⟨fun _ hd => absurd hd (by simp), rfl, rfl, named_of_generated hscan.generated⟩,
      fun _ => rfl, fun hp => absurd rfl hp⟩, hscan.segmentSec, hscan.generated, hscan.nodup,
      hscan.media, hlong, fun _ hp => absurd hp (by simp [HlsPlaylist.empty]),
      fun _ _ hr => absurd hr (by simp [Removed])⟩
  have hpruned := books_pruneRetained hbooks (.inr ⟨rfl, rfl⟩)
  obtain ⟨-, hpath, -⟩ := inv_pruneRetained hbooks.toArchiveInv fun hp => absurd rfl hp
  refine ⟨.of_closed hpruned.toArchiveInv rfl (by simp [started, Recorder.new]), hpruned,
    fun _ hp => absurd hpath hp, by simp [started, Recorder.new, Muxer.new, Muxer.segmentOpen]⟩

theorem rec_books_step {v : Disk} {init : String → Bool} {s t : Recorder} {l : Label}
    (h : s.RecBooks v init) (hstep : step s l = some t) : t.RecBooks v init := by
  have hreturned : ∀ {env : Env} {r : Recorder}, returned env r = some t →
      r = t ∧ env.Rewrites ∧ t.archive.mediaFiles.Nodup := by
    intro env r hr
    rw [returned] at hr
    split at hr
    next hok =>
      obtain rfl := Option.some.inj hr
      exact ⟨rfl, ⟨hok.1, hok.2.1⟩, hok.2.2⟩
    · cases hr
  cases l with
  | frame frame env =>
    obtain ⟨rfl, hrewrites, hfresh⟩ := hreturned hstep
    exact (Recorder.preserved_rec_books hrewrites).processFrame h frame hfresh
  | finish env =>
    obtain ⟨rfl, -, -⟩ := hreturned hstep
    exact Recorder.rec_books_endWriter h

/-- **After every run the three forms of the list agree.** -/
theorem forms_agree {config : RecordConfig} {kept : List KeptSegment} {mediaFiles : List File}
    (hscan : Scanned config kept mediaFiles) (index : String → Option (List Char))
    (init : String → Bool) {ls : List Label} {s : Recorder}
    (hrun : run step (started config kept mediaFiles) ls = some s) :
    FormsAgree index init kept s :=
  forms_agree_of_books
    (run_preserves (fun _ _ _ h hstep => rec_books_step h hstep)
      (rec_books_started hscan index init) hrun)

/-! ### A run -/

/-- A segment of five minutes, recorded on the first of January. -/
def recording (minute : ℕ) : KeptSegment :=
  ⟨nextMediaPath ⟨2024, 1, 1, 12, minute, 0⟩ none, 300, 1⟩

/-- The retention time allows for one of the two segments that are found. -/
def restarted : Recorder :=
  started { retainSec := 500 } [recording 0, recording 5]
    [(recording 0).path, (recording 5).path]

/-- A call on the second of January. -/
def nextDay : Env := { Env.sample with
  dayPaths := some ⟨2024, 1, 2, 8, 0, 0⟩
  sessionPaths := some ⟨2024, 1, 2, 8, 0, 0⟩ }

/-- A segment is pruned at the start, and a session begins on the next day. -/
theorem nextDay_agrees : ∃ s, run step restarted [.frame (.video 0 .Key 0 1) nextDay] = some s ∧
    s.sessionReady = true ∧
    s.archive.playlist.entries = entriesOfDay s.archive.kept "2024-01-02" ∧
    Settled ⟨[recording 0, recording 5], fun _ => none, [], none⟩ (fun _ => true) s.archive
      "2024-01-01" := by
  have hscan : Scanned { retainSec := 500 } [recording 0, recording 5]
      [(recording 0).path, (recording 5).path] := by
    refine ⟨by decide, fun item hitem => ?_, fun item hitem => ?_, by decide +kernel, ?_⟩
    · rcases List.mem_cons.mp hitem with rfl | hitem
      · exact ⟨⟨2024, 1, 1, 12, 0, 0⟩, none, rfl⟩
      · obtain rfl := List.mem_singleton.mp hitem
        exact ⟨⟨2024, 1, 1, 12, 5, 0⟩, none, rfl⟩
    · rcases List.mem_cons.mp hitem with rfl | hitem
      · simp [recording]
      · obtain rfl := List.mem_singleton.mp hitem
        simp [recording]
    · simp
  obtain ⟨s, hs⟩ : ∃ s, run step restarted [.frame (.video 0 .Key 0 1) nextDay] = some s :=
    Option.isSome_iff_exists.mp (by decide +kernel)
  have hsession : (run step restarted [.frame (.video 0 .Key 0 1) nextDay]).map
      (fun s => (s.sessionReady, s.archive.currentDay)) = some (true, "2024-01-02") := by
    decide +kernel
  have hpruned : (run step restarted [.frame (.video 0 .Key 0 1) nextDay]).map
      (fun s => s.archive.effects.contains (.unlink (recording 0).path)) = some true := by
    decide +kernel
  have hday : (recording 0).path.day = "2024-01-01" := by decide +kernel
  rw [hs, Option.map_some] at hsession hpruned
  obtain ⟨hready, hcurrent⟩ := Prod.mk.inj (Option.some.inj hsession)
  obtain ⟨hplaylist, hothers⟩ := forms_agree hscan (fun _ => none) (fun _ => true) hs
  refine ⟨s, hs, hready, hcurrent ▸ hplaylist hready, hothers _ (by rw [hcurrent]; decide) ?_⟩
  exact ⟨_, List.contains_iff_mem.mp (Option.some.inj hpruned), hday⟩

end PlaylistForms

end IpcMini
