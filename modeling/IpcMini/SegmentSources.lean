/-
Where the names in the playlists come from (`src/record/segment_recorder.cpp`).

A segment's name enters a playlist when the segment is closed, in a call that
also queues the upload of the segment, or when a playlist is written anew from
the kept segments, which were closed before.  So a set of files that has every
upload queued in a call has every segment that the call lists.

* `Within` — the files that a playlist lists are in the set;
* `Sourced` — so are the kept segments and the files in every playlist written;
* `Works` — an operation adds effects and preserves `Sourced`;
* `RecSourced` — `Sourced` for the sets that have the uploads queued so far;
* **`preserved_sourced`** — the operations of a call preserve it.
-/
import IpcMini.RecorderCalls
import IpcMini.RecorderPlaylists

namespace IpcMini

variable {A : File → Prop}

/-! ### Playlists -/

namespace HlsPlaylist

/-- Every file that the playlist lists is in `A`. -/
def Within (A : File → Prop) (p : HlsPlaylist) : Prop :=
  ∀ file ∈ p.path, ∀ name ∈ p.names, A ⟨file.day, name⟩

variable {B : File → Prop} {p : HlsPlaylist}

theorem Within.mono (h : p.Within A) (hAB : ∀ file, A file → B file) : p.Within B :=
  fun file hfile name hname => hAB _ (h file hfile name hname)

theorem within_begin (path : File) (target : ℤ) : (begin path target).Within A :=
  fun _ _ name hname => absurd hname (by simp)

theorem Within.append (h : p.Within A) {filename : String}
    (hname : ∀ file ∈ p.path, A ⟨file.day, filename⟩) (duration : ℚ) :
    (p.append filename duration).1.Within A := by
  rw [HlsPlaylist.append]
  split
  · exact h
  · intro file hfile name hmem
    rw [names, List.map_append, List.mem_append] at hmem
    rcases hmem with hmem | hmem
    · exact h file hfile name hmem
    · obtain rfl : name = filename := by simpa using hmem
      exact hname file hfile

theorem Within.drop_front (h : p.Within A) (filename : String) :
    (p.dropFrontIf filename).1.Within A := by
  rw [dropFrontIf]
  split
  · exact h
  next front rest hentries =>
    split
    · exact h
    · intro file hfile name hmem
      refine h file hfile name ?_
      rw [names, hentries]
      exact List.mem_cons_of_mem _ hmem

theorem Within.finish (h : p.Within A) : p.finish.1.Within A := by
  rw [HlsPlaylist.finish]
  split
  · exact h
  · exact fun file hfile name hmem => h file hfile name hmem

end HlsPlaylist

/-- A playlist is written with files in `A` only, and nothing is queued without
an upload URL. -/
def Effect.Fits (A : File → Prop) (uploadUrl : String) : Effect → Prop
  | .rewrite p => p.Within A
  | .enqueue _ | .enqueueDelete _ => uploadUrl ≠ ""
  | _ => True

theorem Effect.Fits.mono {B : File → Prop} {uploadUrl : String} {e : Effect}
    (h : e.Fits A uploadUrl) (hAB : ∀ file, A file → B file) : e.Fits B uploadUrl := by
  cases e with
  | rewrite p => exact HlsPlaylist.Within.mono h hAB
  | _ => exact h

namespace Archive

variable {a b c : Archive}

/-- The kept segments, the playlist and the playlists written have files in `A`
only. -/
structure Sourced (A : File → Prop) (a : Archive) : Prop where
  kept : ∀ item ∈ a.kept, A item.path
  playlist : a.playlist.Within A
  effects : ∀ e ∈ a.effects, e.Fits A a.config.uploadUrl

theorem Sourced.mono {B : File → Prop} (h : Sourced A a) (hAB : ∀ file, A file → B file) :
    Sourced B a :=
  ⟨fun item hitem => hAB _ (h.kept item hitem), h.playlist.mono hAB,
    fun e he => (h.effects e he).mono hAB⟩

/-- What became of one archive is another one, with more effects. -/
structure Works (A : File → Prop) (a b : Archive) : Prop where
  config : b.config = a.config
  effects : ∀ e ∈ a.effects, e ∈ b.effects
  sourced : Sourced A a → Sourced A b

/-- Moreover the playlist is still that of the same day. -/
structure Stays (A : File → Prop) (a b : Archive) : Prop extends Works A a b where
  path : b.playlist.path = a.playlist.path
  currentDay : b.currentDay = a.currentDay

namespace Works

theorem trans (h : Works A a b) (h' : Works A b c) : Works A a c :=
  ⟨h'.config.trans h.config, fun e he => h'.effects e (h.effects e he),
    fun hs => h'.sourced (h.sourced hs)⟩

/-- The effects are added at the end. -/
theorem of_append {es : List Effect} (hc : b.config = a.config)
    (hb : b.effects = a.effects ++ es) (hk : Sourced A a → ∀ item ∈ b.kept, A item.path)
    (hp : Sourced A a → b.playlist.Within A)
    (hes : Sourced A a → ∀ e ∈ es, e.Fits A a.config.uploadUrl) : Works A a b := by
  refine ⟨hc, fun e he => ?_, fun h => ⟨hk h, hp h, fun e he => ?_⟩⟩
  · rw [hb]
    exact List.mem_append_left _ he
  · rw [hc]
    rw [hb] at he
    rcases List.mem_append.mp he with he | he
    · exact h.effects e he
    · exact hes h e he

/-- No effect is added. -/
theorem of_effects_eq (hc : b.config = a.config) (hb : b.effects = a.effects)
    (hk : b.kept = a.kept) (hp : Sourced A a → b.playlist.Within A) : Works A a b := by
  refine ⟨hc, fun e he => hb ▸ he, fun h => ⟨hk ▸ h.kept, hp h, ?_⟩⟩
  rw [hb, hc]
  exact h.effects

end Works

namespace Stays

theorem refl (a : Archive) : Stays A a a := ⟨⟨rfl, fun _ he => he, id⟩, rfl, rfl⟩

theorem trans (h : Stays A a b) (h' : Stays A b c) : Stays A a c :=
  ⟨h.toWorks.trans h'.toWorks, h'.path.trans h.path, h'.currentDay.trans h.currentDay⟩

end Stays

/-! ### Operations -/

theorem stays_emit (a : Archive) {e : Effect} (he : e.Fits A a.config.uploadUrl) :
    Stays A a (a.emit e) :=
  ⟨.of_append rfl rfl Sourced.kept Sourced.playlist fun _ e' he' => by
    obtain rfl := List.mem_singleton.mp he'
    exact he, rfl, rfl⟩

theorem stays_upload (a : Archive) (file : File) : Stays A a (a.uploadRelative file) := by
  rw [uploadRelative]
  split
  · exact .refl a
  next hurl => exact stays_emit a hurl

theorem stays_delete (a : Archive) (file : File) : Stays A a (a.deleteRelative file) := by
  rw [deleteRelative]
  split
  · exact .refl a
  next hurl => exact stays_emit a hurl

theorem stays_updatePlaylist (a : Archive) {op : HlsPlaylist × Bool}
    (hpath : op.1.path = a.playlist.path) (h : a.playlist.Within A → op.1.Within A) :
    Stays A a (a.updatePlaylist op) := by
  rw [updatePlaylist]
  split
  · refine ⟨.of_append rfl rfl Sourced.kept (fun hs => h hs.playlist) fun hs e he => ?_,
      hpath, rfl⟩
    obtain rfl := List.mem_singleton.mp he
    exact h hs.playlist
  · exact ⟨.of_effects_eq rfl rfl rfl fun hs => h hs.playlist, hpath, rfl⟩

theorem append_path (p : HlsPlaylist) (filename : String) (duration : ℚ) :
    (p.append filename duration).1.path = p.path := by
  rw [HlsPlaylist.append]
  split <;> rfl

theorem drop_front_path (p : HlsPlaylist) (filename : String) :
    (p.dropFrontIf filename).1.path = p.path := by
  rw [HlsPlaylist.dropFrontIf]
  split
  · rfl
  · split <;> rfl

/-- Listing files in `A` one behind another. -/
theorem within_appendAll {p : HlsPlaylist} (hp : p.Within A) (uploadUrl : String)
    {items : List KeptSegment}
    (hitems : ∀ file ∈ p.path, ∀ item ∈ items, A ⟨file.day, item.filename⟩) :
    (appendAll p items).1.Within A ∧ (appendAll p items).1.path = p.path ∧
      ∀ e ∈ (appendAll p items).2, e.Fits A uploadUrl := by
  induction items using List.reverseRecOn with
  | nil => exact ⟨hp, rfl, fun e he => absurd he (by simp [appendAll])⟩
  | append_singleton items item ih =>
    obtain ⟨hw, hpath, hes⟩ := ih fun file hfile i hi =>
      hitems file hfile i (List.mem_append_left _ hi)
    rw [appendAll] at hw hpath hes ⊢
    rw [List.foldl_append, List.foldl_cons, List.foldl_nil]
    generalize items.foldl _ (p, []) = acc at hw hpath hes ⊢
    dsimp only
    have hnext := hw.append (fun file hfile => hitems file (hpath ▸ hfile) item (by simp))
      item.durationSec
    refine ⟨hnext, (append_path _ _ _).trans hpath, fun e he => ?_⟩
    split at he
    · rcases List.mem_append.mp he with he | he
      · exact hes e he
      · obtain rfl := List.mem_singleton.mp he
        exact hnext
    · exact hes e he

/-- The kept segments of a day are listed in a playlist of the day. -/
theorem within_list {day : String} {p : HlsPlaylist} (h : Sourced A a)
    (hpath : p.path = some (.index day)) :
    ∀ file ∈ p.path, ∀ item ∈ ofDay a.kept day, A ⟨file.day, item.filename⟩ := by
  intro file hfile item hitem
  obtain ⟨hmem, hday⟩ := List.mem_filter.mp hitem
  obtain rfl : File.index day = file := by simpa [hpath] using hfile
  obtain rfl : item.path.day = day := of_decide_eq_true hday
  exact h.kept item hmem

theorem stays_rewriteDayPlaylist (a : Archive) (day : String) (ended : Bool) :
    Stays A a (a.rewriteDayPlaylist day ended) := by
  -- what is kept is sourced, and so is the playlist that is built from it
  have hall : Sourced A a → _ := fun h => within_appendAll
    (HlsPlaylist.within_begin (.index day) a.config.segmentSec) a.config.uploadUrl
    (within_list h rfl)
  rw [rewriteDayPlaylist]
  split
  · exact .refl a
  dsimp only
  generalize appendAll (.begin (.index day) a.config.segmentSec) (ofDay a.kept day) = r
    at hall ⊢
  obtain ⟨playlist, rewrites⟩ := r
  dsimp only at hall ⊢
  generalize hlast : (if ended && playlist.finish.2 then [Effect.rewrite playlist.finish.1]
    else []) = last
  have hfits : Sourced A a → ∀ e ∈ [Effect.startListing day,
      .rewrite (.begin (.index day) a.config.segmentSec)] ++ (rewrites ++
      ([Effect.endListing] ++ last)), e.Fits A a.config.uploadUrl := by
    intro h e he
    obtain ⟨hw, -, hes⟩ := hall h
    rcases List.mem_append.mp he with he | he
    · simp only [List.mem_cons, List.not_mem_nil, or_false] at he
      rcases he with rfl | rfl
      · trivial
      · exact HlsPlaylist.within_begin _ _
    rcases List.mem_append.mp he with he | he
    · exact hes e he
    rcases List.mem_append.mp he with he | he
    · obtain rfl := List.mem_singleton.mp he
      trivial
    · rw [← hlast] at he
      split at he
      · obtain rfl := List.mem_singleton.mp he
        exact hw.finish
      · exact absurd he (by simp)
  refine Stays.trans ?_ (stays_upload _ _)
  refine ⟨.of_append rfl ?_ Sourced.kept Sourced.playlist hfits, rfl, rfl⟩
  simp only [List.append_assoc]

theorem stays_pruneFront {a : Archive} {old : KeptSegment} {rest : List KeptSegment}
    (hrest : ∀ item ∈ rest, A item.path) : Stays A a (a.pruneFront old rest) := by
  have hpop : Stays A a ({ a with kept := rest }.emit .popKept) :=
    ⟨.of_append rfl rfl (fun _ => hrest) Sourced.playlist fun _ e he => by
      obtain rfl := List.mem_singleton.mp he
      trivial, rfl, rfl⟩
  have hdelete : ∀ b : Archive, Stays A b
      (({ b with mediaFiles := b.mediaFiles.filter (· ≠ old.path) }.emit
        (.unlink old.path)).deleteRelative old.path) := by
    intro b
    refine Stays.trans ?_ (stays_delete _ _)
    refine ⟨.of_append rfl rfl Sourced.kept Sourced.playlist fun _ e he => ?_, rfl, rfl⟩
    obtain rfl := List.mem_singleton.mp he
    trivial
  rw [pruneFront]
  dsimp only
  have hunlink := (hpop.trans (stays_updatePlaylist _ (drop_front_path _ old.filename)
    fun h => h.drop_front old.filename)).trans (hdelete _)
  refine hunlink.trans ?_
  generalize deleteRelative _ old.path = b
  split
  · exact .refl b
  split
  · -- the day has no segment left
    refine (stays_emit b (e := .unlink (.init old.day)) trivial).trans ?_
    refine (stays_emit _ (e := .unlink (.index old.day)) trivial).trans ?_
    refine (stays_delete _ (.init old.day)).trans ?_
    refine (stays_delete _ (.index old.day)).trans ?_
    exact stays_emit _ (e := .rmdir old.day) trivial
  · exact stays_rewriteDayPlaylist b _ _

theorem stays_pruneLoop {a : Archive} {items : List KeptSegment}
    (hitems : ∀ item ∈ items, A item.path) : Stays A a (a.pruneLoop items) := by
  induction items generalizing a with
  | nil => exact .refl a
  | cons old rest ih =>
    have hrest : ∀ item ∈ rest, A item.path :=
      fun item hi => hitems item (List.mem_cons_of_mem _ hi)
    rw [pruneLoop]
    split
    · exact (stays_pruneFront hrest).trans (ih hrest)
    · exact .refl a

theorem stays_pruneRetained (a : Archive) : Stays A a a.pruneRetained := by
  -- that effects are added does not depend on the set
  have hall : Stays (fun _ => True) a a.pruneRetained := stays_pruneLoop fun _ _ => trivial
  exact ⟨⟨hall.config, hall.effects, fun h => (stays_pruneLoop h.kept).sourced h⟩, hall.path,
    hall.currentDay⟩

theorem stays_endPlaylist (a : Archive) : Stays A a a.endPlaylist := by
  have hpath : a.playlist.finish.1.path = a.playlist.path := finish_path a.playlist
  rw [endPlaylist]
  split
  · exact (stays_updatePlaylist a hpath HlsPlaylist.Within.finish).trans (stays_upload _ _)
  · exact .refl a

/-- What `close_segment` does before and after it queues the segment. -/
theorem stays_remember {a : Archive} {path : File} (hA : A path)
    (hpath : ∀ index ∈ a.playlist.path, index.day = path.day) (duration : ℚ) (bytes : ℕ) :
    Stays A a ((a.updatePlaylist (a.playlist.append path.name duration)).rememberClosedSegment
      path duration bytes) := by
  refine (stays_updatePlaylist a (append_path _ _ _) fun h => h.append (fun index hi => ?_)
    duration).trans ⟨.of_append rfl rfl (fun h item hitem => ?_) Sourced.playlist fun _ e he => ?_,
      rfl, rfl⟩
  · rw [hpath index hi]
    exact hA
  · rcases List.mem_append.mp hitem with hitem | hitem
    · exact h.kept item hitem
    · obtain rfl := List.mem_singleton.mp hitem
      exact hA
  · obtain rfl := List.mem_singleton.mp he
    trivial

theorem stays_after_upload (a : Archive) :
    Stays A a (match a.pruneRetained.playlist.path with
      | some index => a.pruneRetained.uploadRelative index
      | none => a.pruneRetained) := by
  refine (stays_pruneRetained a).trans ?_
  split
  · exact stays_upload _ _
  · exact .refl _

/-- Closing a segment of the playlist's day. -/
theorem stays_closeSegment {a : Archive} {path : File} (hA : A path)
    (hpath : ∀ index ∈ a.playlist.path, index.day = path.day) (duration : ℚ) (bytes : ℕ) :
    Stays A a (a.closeSegment path duration bytes) :=
  ((stays_remember hA hpath duration bytes).trans (stays_upload _ _)).trans (stays_after_upload _)

/-- The segment that is closed is queued. -/
theorem enqueue_mem_closeSegment {a : Archive} (hurl : a.config.uploadUrl ≠ "") (path : File)
    (duration : ℚ) (bytes : ℕ) :
    Effect.enqueue path ∈ (a.closeSegment path duration bytes).effects := by
  have hconfig : ((a.updatePlaylist (a.playlist.append path.name duration)).rememberClosedSegment
      path duration bytes).config = a.config := by
    rw [rememberClosedSegment, updatePlaylist]
    split <;> rfl
  refine (stays_after_upload (A := fun _ => True) _).effects _ ?_
  rw [uploadRelative, if_neg (by rw [hconfig]; exact hurl)]
  exact List.mem_append_right _ List.mem_cons_self

theorem works_beginPlaylist (a : Archive) (day : String) (rewritten : Bool) :
    Works A a (a.beginPlaylist day rewritten) ∧
      (a.beginPlaylist day rewritten).playlist.path = some (.index day) := by
  rw [beginPlaylist]
  split
  · refine ⟨.of_append rfl rfl Sourced.kept (fun _ => HlsPlaylist.within_begin _ _)
      fun _ e he => ?_, rfl⟩
    simp only [List.mem_cons, List.not_mem_nil, or_false] at he
    rcases he with rfl | rfl
    · trivial
    · exact HlsPlaylist.within_begin _ _
  · exact ⟨.of_effects_eq rfl rfl rfl fun _ => HlsPlaylist.within_begin _ _, rfl⟩

/-- The kept segments of the day are listed in the playlist of the day. -/
theorem works_listDay {a : Archive} {day : String}
    (hpath : a.playlist.path = some (.index day)) :
    Works A a (a.listDay day) ∧ (a.listDay day).playlist.path = some (.index day) := by
  have hall : Sourced A a → _ := fun h => within_appendAll h.playlist a.config.uploadUrl
    (within_list h hpath)
  have hall' : (appendAll a.playlist (ofDay a.kept day)).1.path = a.playlist.path :=
    (within_appendAll (A := fun _ => True) (fun _ _ _ _ => trivial) "" fun _ _ _ _ => trivial).2.1
  rw [listDay]
  generalize appendAll a.playlist (ofDay a.kept day) = r at hall hall' ⊢
  obtain ⟨playlist, rewrites⟩ := r
  dsimp only at hall hall' ⊢
  rw [hall', hpath]
  dsimp only
  have hlisted : Works A a { a with
      currentDay := day
      playlist := playlist
      effects := a.effects ++ rewrites ++ [Effect.endListing] } := by
    refine .of_append rfl (List.append_assoc _ _ _) Sourced.kept (fun h => (hall h).1)
      fun h e he => ?_
    rcases List.mem_append.mp he with he | he
    · exact (hall h).2.2 e he
    · obtain rfl := List.mem_singleton.mp he
      trivial
  have huploads := (stays_upload (A := A) { a with
    currentDay := day
    playlist := playlist
    effects := a.effects ++ rewrites ++ [Effect.endListing] } (.init day)).trans
      (stays_upload _ (.index day))
  exact ⟨hlisted.trans huploads.toWorks, huploads.path.trans (hall'.trans hpath)⟩

/-- The set has every segment whose upload is queued. -/
def Queued (A : File → Prop) (a : Archive) : Prop :=
  ∀ file, Generated file → a.config.uploadUrl = "" ∨ .enqueue file ∈ a.effects → A file

/-- What the recorder does in between: the set has the segments that are closed. -/
structure Follows (A : File → Prop) (a b : Archive) : Prop where
  grows : Works (fun _ => True) a b
  works : Queued A b → Works A a b

namespace Follows

theorem queued (h : Follows A a b) (hq : Queued A b) : Queued A a := by
  intro file hfile hqueued
  refine hq file hfile ?_
  rw [h.grows.config]
  exact hqueued.imp_right (h.grows.effects _)

theorem trans (h : Follows A a b) (h' : Follows A b c) : Follows A a c :=
  ⟨h.grows.trans h'.grows, fun hq => (h.works (h'.queued hq)).trans (h'.works hq)⟩

theorem of_works (h : ∀ A : File → Prop, Works A a b) : Follows A a b := ⟨h _, fun _ => h A⟩

end Follows

end Archive

open Archive

/-! ### Calls -/

namespace Recorder

variable {s t : Recorder} {env : Env} {uploadUrl : String}

/-- The open segment and a ready session belong to the playlist's day, and a set
that has the segments queued has those in the archive. -/
structure RecSourced (A : File → Prop) (uploadUrl : String) (s : Recorder) : Prop where
  uploadUrl : s.archive.config.uploadUrl = uploadUrl
  session : s.sessionReady = true →
    s.archive.playlist.path = some (.index s.archive.currentDay)
  media : s.muxer.segmentOpen = true → ∀ path ∈ s.currentMediaPath,
    Generated path ∧ s.archive.playlist.path = some (.index path.day)
  sourced : Queued A s.archive → Sourced A s.archive

/-- What becomes of the archive while no segment is open. -/
theorem RecSourced.of_closed (h : RecSourced A uploadUrl s)
    (hf : Follows A s.archive t.archive) (hm : t.muxer.segmentOpen = false)
    (hs : t.sessionReady = true →
      t.archive.playlist.path = some (.index t.archive.currentDay)) :
    RecSourced A uploadUrl t :=
  ⟨(congrArg RecordConfig.uploadUrl hf.grows.config).trans h.uploadUrl, hs,
    fun ho => absurd ho (by simp [hm]),
    fun hq => (hf.works hq).sourced (h.sourced (hf.queued hq))⟩

theorem segmentOpen_closeCurrentSegment (s : Recorder) (env : Env) (endPlaylist : Bool) :
    (s.closeCurrentSegment env endPlaylist).muxer.segmentOpen = false := by
  rw [closeCurrentSegment]
  dsimp only
  split
  · exact Muxer.segmentOpen_closeSegment _
  next hopen => simpa using hopen

/-- Closing the current segment queues it. -/
theorem follows_closeCurrentSegment (h : RecSourced A uploadUrl s) (env : Env)
    (endPlaylist : Bool) :
    Follows A s.archive (s.closeCurrentSegment env endPlaylist).archive ∧
      (s.closeCurrentSegment env endPlaylist).archive.playlist.path = s.archive.playlist.path ∧
      (s.closeCurrentSegment env endPlaylist).archive.currentDay = s.archive.currentDay := by
  -- what stays of the archive when the segment is closed
  obtain ⟨a, heq, hf, hp, hd⟩ : ∃ a : Archive,
      (s.closeCurrentSegment env endPlaylist).archive =
        (if endPlaylist then a.endPlaylist else a) ∧
      Follows A s.archive a ∧ a.playlist.path = s.archive.playlist.path ∧
      a.currentDay = s.archive.currentDay := by
    have hsame : ∀ b : Archive, Follows A b b := fun b => .of_works fun _ => (Stays.refl b).toWorks
    cases hopen : s.muxer.segmentOpen with
    | false =>
      refine ⟨s.archive, ?_, hsame _, rfl, rfl⟩
      rw [closeCurrentSegment, hopen]
    | true =>
      cases hpath : s.currentMediaPath with
      | none =>
        refine ⟨s.archive, ?_, hsame _, rfl, rfl⟩
        rw [closeCurrentSegment, hopen, hpath]
      | some path =>
        obtain ⟨hgen, hindex⟩ := h.media hopen path hpath
        have hday : ∀ index ∈ s.archive.playlist.path, index.day = path.day := by
          intro index hi
          obtain rfl : File.index path.day = index := by simpa [hindex] using hi
          rfl
        have hall : Stays (fun _ => True) s.archive
            (s.archive.closeSegment path s.segmentDuration env.bytes) :=
          stays_closeSegment trivial hday _ _
        refine ⟨s.archive.closeSegment path s.segmentDuration env.bytes, ?_,
          ⟨hall.toWorks, fun hq => ?_⟩, hall.path, hall.currentDay⟩
        · rw [closeCurrentSegment, hopen, hpath]
        · have hA : A path := by
            refine hq path hgen ?_
            rw [hall.config]
            by_cases hurl : s.archive.config.uploadUrl = ""
            · exact .inl hurl
            · exact .inr (enqueue_mem_closeSegment hurl _ _ _)
          exact (stays_closeSegment hA hday _ _).toWorks
  rw [heq]
  split
  · have hend : ∀ A : File → Prop, Stays A a a.endPlaylist := fun _ => stays_endPlaylist a
    exact ⟨hf.trans (.of_works fun A => (hend A).toWorks), (hend A).path.trans hp,
      (hend A).currentDay.trans hd⟩
  · exact ⟨hf, hp, hd⟩

theorem sourced_closeCurrentSegment (h : RecSourced A uploadUrl s) (env : Env)
    (endPlaylist : Bool) :
    RecSourced A uploadUrl (s.closeCurrentSegment env endPlaylist) := by
  obtain ⟨hf, hp, hd⟩ := follows_closeCurrentSegment h env endPlaylist
  refine h.of_closed hf (segmentOpen_closeCurrentSegment s env endPlaylist) fun hs => ?_
  rw [hp, hd]
  exact h.session hs

/-- The session that ends leaves the rest of the archive alone. -/
theorem sourced_endDay (h : RecSourced A uploadUrl s) :
    RecSourced A uploadUrl (s.endDay env) := by
  have hclosed := sourced_closeCurrentSegment h env true
  refine hclosed.of_closed (.of_works fun A => ?_) (Muxer.segmentOpen_endSession _)
    (by simp [endDay])
  exact ⟨rfl, fun _ he => he, fun hs => ⟨hs.kept, hs.playlist, hs.effects⟩⟩

theorem sourced_endWriter (h : RecSourced A uploadUrl s) :
    RecSourced A uploadUrl (s.endWriter env) := by
  have hclosed := sourced_closeCurrentSegment h env true
  exact hclosed.of_closed (.of_works fun _ => (Stays.refl _).toWorks)
    (Muxer.segmentOpen_endSession _) (by simp [endWriter])

/-- A day is listed for a session that has no segment yet. -/
theorem sourced_listed_day (h : RecSourced A uploadUrl s) (day : String) (rewritten : Bool)
    {muxer : Muxer} (hclosed : muxer.segmentOpen = false) :
    RecSourced A uploadUrl { s with
      muxer := muxer
      archive := (s.archive.beginPlaylist day rewritten).listDay day
      sessionReady := true } := by
  have hbegin : ∀ A : File → Prop, _ := fun A =>
    works_beginPlaylist (A := A) s.archive day rewritten
  have hlist : ∀ A : File → Prop, _ := fun A => works_listDay (A := A) (hbegin A).2
  refine h.of_closed (.of_works fun A => (hbegin A).1.trans (hlist A).1) hclosed fun _ => ?_
  rw [currentDay_listDay]
  exact (hlist A).2

theorem sourced_beginSession (h : RecSourced A uploadUrl s) (hs : s.sessionReady = false)
    (day : String) : RecSourced A uploadUrl (s.beginSession env day).2 := by
  rcases s.beginSession_cases env day with ⟨muxer, hclosed, hb⟩ | ⟨-, muxer, hclosed, hb⟩ |
    ⟨-, muxer, hclosed, hb⟩
  · rw [hb]
    exact h.of_closed (.of_works fun _ => (Stays.refl _).toWorks) hclosed
      fun hr => absurd hr (by simp [hs])
  · rw [hb]
    exact h.of_closed (.of_works fun A => (works_beginPlaylist s.archive day false).1) hclosed
      fun hr => absurd hr (by simp [hs])
  · rw [hb]
    exact sourced_listed_day h day true hclosed

theorem sourced_restartSession (h : RecSourced A uploadUrl s) (day : String) :
    RecSourced A uploadUrl (s.restartSession env day).2 := by
  have hclose := sourced_closeCurrentSegment h env true
  rcases s.restartSession_cases env day with ⟨muxer, hclosed, hr⟩ | ⟨muxer, hclosed, hr⟩
  · rw [hr]
    exact hclose.of_closed (.of_works fun _ => (Stays.refl _).toWorks) hclosed (by simp)
  · rw [hr]
    exact sourced_listed_day hclose day env.playlistRebegun hclosed

theorem sourced_openMedia (h : RecSourced A uploadUrl s) {time : LocalTime}
    (hs : s.sessionReady = true) (hday : s.archive.currentDay = time.day)
    (keyframe : MediaFrame) : RecSourced A uploadUrl (s.openMedia env keyframe time).2 := by
  have hpath := h.session hs
  rcases s.openMedia_cases env keyframe time with ⟨muxer, hclosed, he⟩ | ⟨muxer, he⟩
  · rw [he]
    exact h.of_closed (.of_works fun _ => (Stays.refl _).toWorks) hclosed h.session
  · rw [he]
    refine ⟨h.uploadUrl, h.session, fun _ path hp => ?_, fun hq => ?_⟩
    · obtain rfl : nextMediaPath time env.suffix = path := by simpa using hp
      exact ⟨⟨time, env.suffix, rfl⟩, hpath.trans (congrArg (some <| File.index ·) hday)⟩
    · obtain ⟨hkept, hplaylist, heffects⟩ := h.sourced hq
      exact ⟨hkept, hplaylist, heffects⟩

/-- **The operations of a call queue every segment that they list.** -/
theorem preserved_sourced (A : File → Prop) (uploadUrl : String) (env : Env) :
    Preserved env (fun _ => True) (RecSourced A uploadUrl) where
  congr h ha hs hp hm := by
    refine ⟨ha ▸ h.uploadUrl, ?_, ?_, ha ▸ h.sourced⟩
    · rw [ha, hs]
      exact h.session
    · rw [ha, hm, hp]
      exact h.media
  close endPlaylist h := sourced_closeCurrentSegment h env endPlaylist
  endDay h := sourced_endDay h
  beginSession day h hs := sourced_beginSession h hs day
  restartSession day h := sourced_restartSession h day
  openMedia keyframe _ h hs hday _ := sourced_openMedia h hs hday keyframe

end Recorder

end IpcMini
