/-
Where the kept segments are listed (`src/record/segment_recorder.cpp`,
`src/record/hls_playlist.cpp`).

The recorder has its kept segments in its list, those of the current day also in
its playlist, and those of other days in playlist files that it wrote when it
pruned there.  An operation works on the files of one day; on every other day
the files and the list agree as they did before.

* `entriesOfDay` — what lists the kept segments of a day;
* `Removed`, `Settled` — the recorder unlinked a file of the day; its playlist
  file lists the kept segments and is ended, or its files are gone;
* `Touches` — an operation works on one day;
* `Books` — the playlist lists its day, and the other days are settled;
* **`books_pruneRetained`**, **`books_closeSegment`**, **`books_endPlaylist`**,
  **`books_listDay`** — the operations of the archive preserve it.
-/
import IpcMini.DayPlaylists

namespace IpcMini

/-! ### Files of a day -/

/-- The days that may have an `init.mp4`: `start_session` writes it before the
playlist of a session is begun.  A playlist that is written anew counts as well. -/
def initExec (init : String → Bool) : Effect → String → Bool
  | .startListing day => Function.update init day true
  | .unlink file => if file = .init file.day then Function.update init file.day false else init
  | _ => init

def inits (init : String → Bool) (es : List Effect) : String → Bool := es.foldl initExec init

/-- A file of the day was unlinked. -/
def Removed (es : List Effect) (day : String) : Prop :=
  ∃ file, Effect.unlink file ∈ es ∧ file.day = day

/-- The effect works on the files of no other day. -/
def Effect.Touches (day : String) : Effect → Prop
  | .rewrite p => p.path = some (.index day)
  | .unlink file => file.day = day
  | .startListing d => d = day
  | _ => True

theorem index_exec_of_touches {e : Effect} {day d : String} (h : e.Touches day) (hd : d ≠ day)
    (v : Disk) : (v.exec e).index d = v.index d := by
  cases e with
  | rewrite p =>
    rw [Disk.exec_rewrite h]
    exact Function.update_of_ne hd _ _
  | unlink file =>
    obtain rfl : file.day = day := h
    rw [Disk.exec]
    split
    · exact Function.update_of_ne hd _ _
    · rfl
  | _ => rfl

theorem inits_exec_of_touches {e : Effect} {day d : String} (h : e.Touches day) (hd : d ≠ day)
    (init : String → Bool) : initExec init e d = init d := by
  cases e with
  | startListing other =>
    obtain rfl : other = day := h
    exact Function.update_of_ne hd _ _
  | unlink file =>
    obtain rfl : file.day = day := h
    rw [initExec]
    split
    · exact Function.update_of_ne hd _ _
    · rfl
  | _ => rfl

theorem index_execs_of_touches {es : List Effect} {day d : String}
    (h : ∀ e ∈ es, e.Touches day) (hd : d ≠ day) (v : Disk) :
    (v.execs es).index d = v.index d := by
  induction es generalizing v with
  | nil => rfl
  | cons e es ih =>
    rw [Disk.execs_cons, ih (fun e' he => h e' (List.mem_cons_of_mem _ he))]
    exact index_exec_of_touches (h e List.mem_cons_self) hd v

theorem inits_of_touches {es : List Effect} {day d : String} (h : ∀ e ∈ es, e.Touches day)
    (hd : d ≠ day) (init : String → Bool) : inits init es d = init d := by
  induction es generalizing init with
  | nil => rfl
  | cons e es ih =>
    rw [inits, List.foldl_cons]
    refine (ih (fun e' he => h e' (List.mem_cons_of_mem _ he)) _).trans ?_
    exact inits_exec_of_touches (h e List.mem_cons_self) hd init

namespace Archive

/-- The entries that list the kept segments of a day. -/
def entriesOfDay (kept : List KeptSegment) (day : String) : List (String × ℚ) :=
  (ofDay kept day).map fun item => (item.filename, item.durationSec)

/-- The playlist file lists the kept segments of the day and is ended. -/
def Ended (v : Disk) (a : Archive) (day : String) : Prop :=
  ∃ p : HlsPlaylist, (a.disk v).index day = some p.text ∧
    p.entries = entriesOfDay a.kept day ∧ p.ended = true

/-- The day has no segment, no playlist file and no init file. -/
structure Gone (v : Disk) (init : String → Bool) (a : Archive) (day : String) : Prop where
  index : (a.disk v).index day = none
  init : inits init a.effects day = false
  media : ∀ file ∈ a.mediaFiles, file.day ≠ day

def Settled (v : Disk) (init : String → Bool) (a : Archive) (day : String) : Prop :=
  Ended v a day ∨ Gone v init a day

/-- What became of one archive is another one, and the difference is on one day. -/
structure Touches (day : String) (a b : Archive) : Prop where
  config : b.config = a.config
  kept : ∀ d, d ≠ day → entriesOfDay b.kept d = entriesOfDay a.kept d
  media : ∀ file ∈ b.mediaFiles, file.day ≠ day → file ∈ a.mediaFiles
  effects : ∃ es, b.effects = a.effects ++ es ∧ ∀ e ∈ es, e.Touches day

variable {v : Disk} {init : String → Bool} {a b c : Archive} {day : String}

namespace Touches

theorem refl (day : String) (a : Archive) : Touches day a a :=
  ⟨rfl, fun _ _ => rfl, fun _ hf _ => hf, [], by simp, by simp⟩

theorem trans (h : Touches day a b) (h' : Touches day b c) : Touches day a c := by
  obtain ⟨es, hb, hes⟩ := h.effects
  obtain ⟨fs, hc, hfs⟩ := h'.effects
  refine ⟨h'.config.trans h.config, fun d hd => (h'.kept d hd).trans (h.kept d hd),
    fun file hf hd => h.media file (h'.media file hf hd) hd, es ++ fs, ?_, ?_⟩
  · rw [hc, hb, List.append_assoc]
  · intro e he
    rcases List.mem_append.mp he with he | he
    · exact hes e he
    · exact hfs e he

theorem index (h : Touches day a b) {d : String} (hd : d ≠ day) :
    (b.disk v).index d = (a.disk v).index d := by
  obtain ⟨es, hb, hes⟩ := h.effects
  rw [disk, hb, Disk.execs_append]
  exact index_execs_of_touches hes hd _

theorem inits (h : Touches day a b) {d : String} (hd : d ≠ day) :
    inits init b.effects d = IpcMini.inits init a.effects d := by
  obtain ⟨es, hb, hes⟩ := h.effects
  rw [hb, IpcMini.inits, List.foldl_append]
  exact inits_of_touches hes hd _

theorem removed (h : Touches day a b) {d : String} (hd : d ≠ day) (hr : Removed b.effects d) :
    Removed a.effects d := by
  obtain ⟨es, hb, hes⟩ := h.effects
  obtain ⟨file, hmem, rfl⟩ := hr
  rw [hb] at hmem
  rcases List.mem_append.mp hmem with hmem | hmem
  · exact ⟨file, hmem, rfl⟩
  · exact absurd (hes _ hmem) hd

/-- Other days stay settled. -/
theorem settled (h : Touches day a b) {d : String} (hd : d ≠ day) (hs : Settled v init a d) :
    Settled v init b d := by
  rcases hs with ⟨p, hindex, hentries, hended⟩ | hgone
  · exact .inl ⟨p, (h.index hd).trans hindex, hentries.trans (h.kept d hd).symm, hended⟩
  · refine .inr ⟨(h.index hd).trans hgone.index, (h.inits hd).trans hgone.init, ?_⟩
    rintro file hf rfl
    exact hgone.media file (h.media file hf hd) rfl

end Touches

/-! ### Operations on one day -/

theorem touches_emit {e : Effect} (a : Archive) (he : e.Touches day) : Touches day a (a.emit e) :=
  ⟨rfl, fun _ _ => rfl, fun _ hf _ => hf, [e], rfl, by simpa using he⟩

theorem touches_upload (day : String) (a : Archive) (file : File) :
    Touches day a (a.uploadRelative file) := by
  rw [uploadRelative]
  split
  · exact .refl day a
  · exact touches_emit a trivial

theorem touches_delete (day : String) (a : Archive) (file : File) :
    Touches day a (a.deleteRelative file) := by
  rw [deleteRelative]
  split
  · exact .refl day a
  · exact touches_emit a trivial

theorem touches_updatePlaylist (a : Archive) {op : HlsPlaylist × Bool}
    (h : op.2 = true → op.1.path = some (.index day)) :
    Touches day a (a.updatePlaylist op) := by
  rw [updatePlaylist]
  split
  next hop =>
    refine ⟨rfl, fun _ _ => rfl, fun _ hf _ => hf, [_], rfl, fun e he => ?_⟩
    obtain rfl := List.mem_singleton.mp he
    exact h hop
  · exact ⟨rfl, fun _ _ => rfl, fun _ hf _ => hf, [], by simp, by simp⟩

theorem disk_emit (v : Disk) (a : Archive) (e : Effect) :
    (a.emit e).disk v = (a.disk v).exec e := by
  rw [disk, emit, Disk.execs_append]
  rfl

theorem disk_upload (v : Disk) (a : Archive) (file : File) :
    (a.uploadRelative file).disk v = a.disk v := by
  rw [uploadRelative]
  split
  · rfl
  · exact disk_emit v a _

theorem disk_delete (v : Disk) (a : Archive) (file : File) :
    (a.deleteRelative file).disk v = a.disk v := by
  rw [deleteRelative]
  split
  · rfl
  · exact disk_emit v a _

/-! ### Entries -/

theorem entriesOfDay_cons_of_eq {old : KeptSegment} (h : old.day = day)
    (rest : List KeptSegment) : entriesOfDay (old :: rest) day =
      (old.filename, old.durationSec) :: entriesOfDay rest day := by
  rw [entriesOfDay, ofDay, List.filter_cons_of_pos (by simp [h])]
  rfl

theorem entriesOfDay_cons_of_ne {old : KeptSegment} (h : old.day ≠ day)
    (rest : List KeptSegment) : entriesOfDay (old :: rest) day = entriesOfDay rest day := by
  rw [entriesOfDay, ofDay, List.filter_cons_of_neg (by simp [h])]
  rfl

theorem entriesOfDay_concat_of_eq (kept : List KeptSegment) {item : KeptSegment}
    (h : item.day = day) : entriesOfDay (kept ++ [item]) day =
      entriesOfDay kept day ++ [(item.filename, item.durationSec)] := by
  rw [entriesOfDay, entriesOfDay, ofDay, ofDay, List.filter_append, List.map_append,
    List.filter_cons_of_pos (by simp [h])]
  rfl

theorem entriesOfDay_concat_of_ne (kept : List KeptSegment) {item : KeptSegment}
    (h : item.day ≠ day) : entriesOfDay (kept ++ [item]) day = entriesOfDay kept day := by
  rw [entriesOfDay, entriesOfDay, ofDay, ofDay, List.filter_append, List.map_append,
    List.filter_cons_of_neg (by simp [h])]
  simp

/-- A segment of a millisecond or more is listed with its duration. -/
theorem append_of_long {p : HlsPlaylist} {filename : String} (hp : p.path ≠ none)
    (hf : filename ≠ "") {duration : ℚ} (hd : 1 / 1000 ≤ duration) :
    (p.append filename duration).2 = true ∧
      (p.append filename duration).1.path = p.path ∧
      (p.append filename duration).1.entries = p.entries ++ [(filename, duration)] ∧
      (p.append filename duration).1.ended = false := by
  rw [HlsPlaylist.append, if_neg (by simp [hp, hf])]
  refine ⟨rfl, rfl, ?_, rfl⟩
  dsimp only
  split
  · rfl
  next hlt =>
    -- the bound itself is what shorter segments are listed with
    rw [le_antisymm hd (not_lt.mp hlt)]

/-- The segments of a day are listed one behind another. -/
theorem appendAll_entries {p : HlsPlaylist} {items : List KeptSegment}
    (hp : p.path = some (.index day)) (hended : p.ended = false)
    (hitems : ∀ item ∈ items, item.filename ≠ "" ∧ 1 / 1000 ≤ item.durationSec) :
    ∃ q rewrites, appendAll p items = (q, rewrites) ∧ q.path = some (.index day) ∧
      q.entries = p.entries ++ items.map (fun item => (item.filename, item.durationSec)) ∧
      q.ended = false ∧ ∀ e ∈ rewrites, e.Touches day := by
  induction items using List.reverseRecOn with
  | nil => exact ⟨p, [], rfl, hp, by simp, hended, by simp⟩
  | append_singleton items item ih =>
    obtain ⟨q, rewrites, hall, hq, hentries, -, hrewrites⟩ :=
      ih fun i hi => hitems i (List.mem_append_left _ hi)
    obtain ⟨hname, hlong⟩ := hitems item (by simp)
    obtain ⟨hop, hpath, happended, hnot⟩ :=
      append_of_long (p := q) (by simp [hq]) hname hlong
    refine ⟨_, _, appendAll_concat hall hop, hpath.trans hq, ?_, hnot, ?_⟩
    · rw [happended, hentries, List.map_append, List.append_assoc]
      rfl
    · intro e he
      rcases List.mem_append.mp he with he | he
      · exact hrewrites e he
      · obtain rfl := List.mem_singleton.mp he
        exact hpath.trans hq

/-! ### The invariant -/

/-- The playlist lists its day, and every other day on which a file was unlinked
is settled. -/
structure Books (v : Disk) (init : String → Bool) (a : Archive) : Prop extends ArchiveInv v a where
  segmentSec : 0 < a.config.segmentSec
  generated : ∀ item ∈ a.kept, Generated item.path
  nodup : (a.kept.map KeptSegment.path).Nodup
  media : ∀ item ∈ a.kept, item.path ∈ a.mediaFiles
  long : ∀ item ∈ a.kept, 1 / 1000 ≤ item.durationSec
  entries : ∀ day, a.playlist.path = some (.index day) →
    a.playlist.entries = entriesOfDay a.kept day
  settled : ∀ day, a.playlist.path ≠ some (.index day) → Removed a.effects day →
    Settled v init a day

/-- A generated file has a day. -/
theorem day_ne_empty {file : File} (h : Generated file) : file.day ≠ "" := by
  obtain ⟨t, suffix, rfl⟩ := h
  intro he
  have := congrArg String.toList he
  simp [nextMediaPath, LocalTime.day] at this

/-- What the books say of the kept segments lets a day be listed. -/
theorem Books.listable (h : Books v init a) (day : String) :
    ∀ item ∈ ofDay a.kept day, item.filename ≠ "" ∧ 1 / 1000 ≤ item.durationSec := by
  intro item hitem
  have hmem := (List.mem_filter.mp hitem).1
  exact ⟨(h.generated item hmem).plain.name_ne_empty, h.long item hmem⟩

/-- The ended playlist of a day settles it. -/
theorem Books.settled_of_ended (h : Books v init a) (hp : a.playlist.path = some (.index day))
    (hended : a.playlist.ended = true) : Settled v init a day :=
  .inl ⟨a.playlist, (h.written hp).index, h.entries day hp, hended⟩

/-! ### Pruning -/

/-- `drop_front_if` drops the oldest segment from the playlist of its day, and
leaves other playlists alone. -/
theorem drop_front_spec (h : Books v init a) {old : KeptSegment} {rest : List KeptSegment}
    (hkept : a.kept = old :: rest) (hp : a.playlist.path = some (.index day)) :
    (old.day = day → (a.playlist.dropFrontIf old.filename).2 = true ∧
      (a.playlist.dropFrontIf old.filename).1.path = a.playlist.path ∧
      (a.playlist.dropFrontIf old.filename).1.entries = entriesOfDay rest day) ∧
    (old.day ≠ day → a.playlist.dropFrontIf old.filename = (a.playlist, false)) := by
  have hentries := h.entries day hp
  rw [hkept] at hentries
  refine ⟨fun hday => ?_, fun hday => ?_⟩
  · rw [entriesOfDay_cons_of_eq hday] at hentries
    rw [HlsPlaylist.dropFrontIf, hentries]
    dsimp only
    rw [if_neg (by simp)]
    exact ⟨rfl, rfl, rfl⟩
  · rw [entriesOfDay_cons_of_ne hday] at hentries
    refine dropFrontIf_of_ne fun hhead => ?_
    -- a segment of another day has another name
    have hmem := List.mem_of_mem_head? hhead
    rw [HlsPlaylist.names, hentries, entriesOfDay, List.map_map] at hmem
    obtain ⟨item, hitem, hname⟩ := List.mem_map.mp hmem
    obtain ⟨hmem, hd⟩ := List.mem_filter.mp hitem
    have happart := h.named.apart old (by rw [hkept]; exact List.mem_cons_self) item
      (by rw [hkept]; exact List.mem_cons_of_mem _ hmem) hname.symm
    exact hday (happart.trans (of_decide_eq_true hd))

/-- What `rewrite_day_playlist` leaves behind. -/
theorem rewriteDayPlaylist_spec (v : Disk) (a : Archive) {day : String}
    (hitems : ∀ item ∈ ofDay a.kept day, item.filename ≠ "" ∧ 1 / 1000 ≤ item.durationSec)
    (hday : day ≠ "") (hne : day ≠ a.currentDay) :
    Touches day a (a.rewriteDayPlaylist day true) ∧
      Ended v (a.rewriteDayPlaylist day true) day ∧
      (a.rewriteDayPlaylist day true).mediaFiles = a.mediaFiles := by
  obtain ⟨p, rewrites, hall, hpath, hentries, hnot, hrewrites⟩ :=
    appendAll_entries (p := .begin (.index day) a.config.segmentSec) rfl rfl hitems
  -- the playlist that is built was not ended before
  have hfinish : p.finish = ({ p with ended := true }, true) := by
    rw [HlsPlaylist.finish, if_neg (by simp [hpath, hnot])]
  have hlast : ({ p with ended := true } : HlsPlaylist).path = some (.index day) := hpath
  rw [rewriteDayPlaylist, if_neg (by simp [hday, hne])]
  dsimp only
  rw [hall]
  dsimp only
  rw [hfinish, if_pos (by simp)]
  generalize hb : ({ a with
    effects := a.effects ++ [Effect.startListing day,
      .rewrite (.begin (.index day) a.config.segmentSec)] ++ rewrites ++ [Effect.endListing] ++
      [Effect.rewrite { p with ended := true }] } : Archive) = b
  have hkept : b.kept = a.kept := by rw [← hb]
  have htouches : Touches day a b := by
    rw [← hb]
    refine ⟨rfl, fun _ _ => rfl, fun _ hf _ => hf, _, by simp only [List.append_assoc]; rfl, ?_⟩
    intro e he
    simp only [List.mem_append, List.mem_cons, List.not_mem_nil, or_false] at he
    rcases he with (rfl | rfl) | he | rfl | rfl
    · rfl
    · rfl
    · exact hrewrites e he
    · trivial
    · exact hlast
  -- the last rewrite is what the index holds
  have hindex : (b.disk v).index day = some ({ p with ended := true } : HlsPlaylist).text := by
    rw [← hb, disk, Disk.execs_append, Disk.execs_singleton, Disk.exec_rewrite hlast]
    exact Function.update_self _ _ _
  refine ⟨htouches.trans (touches_upload day b _), ⟨{ p with ended := true }, ?_, ?_, rfl⟩, ?_⟩
  · rw [disk_upload]
    exact hindex
  · rw [(sameDay_upload b _).kept, hkept]
    exact hentries.trans (List.nil_append _)
  · rw [uploadRelative]
    split
    · rw [← hb]
    · rw [emit, ← hb]

/-- What the removal of a day's files leaves behind. -/
theorem remove_day_spec (v : Disk) (init : String → Bool) (a : Archive) (day : String)
    (hmedia : ∀ file ∈ a.mediaFiles, file.day ≠ day) :
    ∀ b, b = ((((a.emit (.unlink (.init day))).emit (.unlink (.index day))).deleteRelative
        (.init day)).deleteRelative (.index day)).emit (.rmdir day) →
      Touches day a b ∧ Gone v init b day ∧ b.mediaFiles = a.mediaFiles := by
  rintro b rfl
  generalize hc : (a.emit (.unlink (.init day))).emit (.unlink (.index day)) = c
  have htouches : Touches day a c := by
    have hinit : Effect.Touches day (.unlink (.init day)) := rfl
    have hindex : Effect.Touches day (.unlink (.index day)) := rfl
    rw [← hc]
    exact (touches_emit a hinit).trans (touches_emit _ hindex)
  have hcmedia : c.mediaFiles = a.mediaFiles := by rw [← hc]; rfl
  have hindex : (c.disk v).index day = none := by
    rw [← hc, disk_emit]
    exact (congrArg (Disk.index · day) (if_pos rfl)).trans (Function.update_self _ _ _)
  have hinit : inits init c.effects day = false := by
    rw [← hc, emit, emit, inits, List.foldl_append, List.foldl_append]
    simp [initExec, File.init, File.index]
  -- the deletions on the server change nothing here
  have hmedia' : ∀ (b : Archive) (file : File),
      (b.deleteRelative file).mediaFiles = b.mediaFiles := by
    intro b file
    rw [deleteRelative]
    split <;> rfl
  have hinits : ∀ (b : Archive) (file : File),
      inits init (b.deleteRelative file).effects = inits init b.effects := by
    intro b file
    rw [deleteRelative]
    split
    · rfl
    · rw [emit, inits, List.foldl_append]
      rfl
  refine ⟨?_, ⟨?_, ?_, ?_⟩, ?_⟩
  · exact ((htouches.trans (touches_delete day c _)).trans (touches_delete day _ _)).trans
      (touches_emit _ trivial)
  · rw [disk_emit]
    show ((((c.deleteRelative _).deleteRelative _).disk v)).index day = none
    rw [disk_delete, disk_delete]
    exact hindex
  · rw [emit, inits, List.foldl_append]
    show inits init ((c.deleteRelative _).deleteRelative _).effects day = false
    rw [hinits, hinits]
    exact hinit
  · show ∀ file ∈ ((c.deleteRelative _).deleteRelative _).mediaFiles, file.day ≠ day
    rw [hmedia', hmedia', hcmedia]
    exact hmedia
  · show ((c.deleteRelative _).deleteRelative _).mediaFiles = a.mediaFiles
    rw [hmedia', hmedia', hcmedia]

/-- The oldest segment leaves the list, the playlist of its day and the disk. -/
structure Popped (a b : Archive) (old : KeptSegment) (rest : List KeptSegment) : Prop where
  touches : Touches old.day a b
  kept : b.kept = rest
  media : b.mediaFiles = a.mediaFiles.filter (· ≠ old.path)
  entries : ∀ day, a.playlist.path = some (.index day) →
    b.playlist.entries = entriesOfDay rest day

theorem popped_drop_front (h : Books v init a) {old : KeptSegment} {rest : List KeptSegment}
    (hkept : a.kept = old :: rest) (hlists : a.playlist.path = none ∨
      a.playlist.path = some (.index a.currentDay)) :
    ∀ b, b = (Archive.emit { a with kept := rest } .popKept).updatePlaylist
        (a.playlist.dropFrontIf old.filename) →
      ∀ c, c = (Archive.emit { b with mediaFiles := b.mediaFiles.filter (· ≠ old.path) }
        (.unlink old.path)).deleteRelative old.path → Popped a c old rest := by
  rintro b hb c rfl
  -- the front of `kept` is of the day of `old`
  have hpop : Touches old.day a (Archive.emit { a with kept := rest } .popKept) := by
    refine ⟨rfl, fun d hd => ?_, fun _ hf _ => hf, [.popKept], rfl, by simp [Effect.Touches]⟩
    rw [hkept, entriesOfDay_cons_of_ne (Ne.symm hd)]
    rfl
  -- the playlist is written again only if its first segment is the one removed
  have hop : (a.playlist.dropFrontIf old.filename).2 = true →
      (a.playlist.dropFrontIf old.filename).1.path = some (.index old.day) := by
    intro htrue
    rcases hlists with hnone | hp
    · rw [HlsPlaylist.dropFrontIf, h.inactive hnone] at htrue
      cases htrue
    · by_cases hday : old.day = a.currentDay
      · rw [((drop_front_spec h hkept hp).1 hday).2.1, hp, hday]
      · rw [(drop_front_spec h hkept hp).2 hday] at htrue
        cases htrue
  have hbtouch : Touches old.day a b := hb ▸ hpop.trans (touches_updatePlaylist _ hop)
  have hbmedia : b.mediaFiles = a.mediaFiles := by
    rw [hb, updatePlaylist]
    split <;> rfl
  have hbkept : b.kept = rest := by
    rw [hb, updatePlaylist]
    split <;> rfl
  have hbplaylist : b.playlist = (a.playlist.dropFrontIf old.filename).1 := by
    rw [hb, updatePlaylist_playlist]
  have hdrop : Touches old.day b (Archive.emit
      { b with mediaFiles := b.mediaFiles.filter (· ≠ old.path) } (.unlink old.path)) :=
    ⟨rfl, fun _ _ => rfl, fun _ hf _ => (List.mem_filter.mp hf).1, [.unlink old.path], rfl,
      by simp [Effect.Touches, KeptSegment.day]⟩
  have hsame := sameDay_delete (Archive.emit
    { b with mediaFiles := b.mediaFiles.filter (· ≠ old.path) } (.unlink old.path)) old.path
  refine ⟨(hbtouch.trans hdrop).trans (touches_delete old.day _ _), hsame.kept.trans hbkept, ?_,
    fun day hp => ?_⟩
  · rw [deleteRelative]
    split
    · exact congrArg (List.filter _) hbmedia
    · exact congrArg (List.filter _) hbmedia
  · rw [hsame.playlist]
    show b.playlist.entries = _
    rw [hbplaylist]
    by_cases hday : old.day = day
    · exact ((drop_front_spec h hkept hp).1 hday).2.2
    · rw [(drop_front_spec h hkept hp).2 hday, h.entries day hp, hkept,
        entriesOfDay_cons_of_ne hday]

/-- What a popped archive becomes when the day of the segment is put in order. -/
theorem Books.of_popped (h : Books v init a) {old : KeptSegment} {rest : List KeptSegment}
    (hkept : a.kept = old :: rest) (hc : Popped a c old rest) (hbc : Touches old.day c b)
    (hinv : ArchiveInv v b) (hbkept : b.kept = rest) (hbmedia : b.mediaFiles = c.mediaFiles)
    (hbplaylist : b.playlist = c.playlist) (hbpath : b.playlist.path = a.playlist.path)
    (hsettled : a.playlist.path ≠ some (.index old.day) → Settled v init b old.day) :
    Books v init b := by
  have htouches := hc.touches.trans hbc
  have hsub : ∀ item ∈ rest, item ∈ a.kept := fun item hitem =>
    hkept ▸ List.mem_cons_of_mem _ hitem
  have hnodup := h.nodup
  rw [hkept, List.map_cons, List.nodup_cons] at hnodup
  refine ⟨hinv, ?_, ?_, ?_, ?_, ?_, ?_, ?_⟩
  · rw [htouches.config]
    exact h.segmentSec
  · exact fun item hitem => h.generated item (hsub item (hbkept ▸ hitem))
  · rw [hbkept]
    exact hnodup.2
  · intro item hitem
    rw [hbkept] at hitem
    rw [hbmedia, hc.media, List.mem_filter]
    refine ⟨h.media item (hsub item hitem), decide_eq_true fun he => hnodup.1 ?_⟩
    -- no other segment has the file that was unlinked
    exact he ▸ List.mem_map_of_mem hitem
  · exact fun item hitem => h.long item (hsub item (hbkept ▸ hitem))
  · intro day hp
    rw [hbplaylist, hbkept]
    exact hc.entries day (hbpath ▸ hp)
  · intro day hp hr
    rw [hbpath] at hp
    by_cases hday : day = old.day
    · subst hday
      exact hsettled hp
    · exact htouches.settled hday (h.settled day hp (htouches.removed hday hr))

/-- One turn of the loop of `prune_retained`. -/
theorem books_pruneFront (h : Books v init a) {old : KeptSegment} {rest : List KeptSegment}
    (hkept : a.kept = old :: rest)
    (hcur : a.playlist.path = some (.index a.currentDay) ∨
      a.playlist.path = none ∧ a.currentDay = "") :
    Books v init (a.pruneFront old rest) := by
  have hactive : a.playlist.path ≠ none → a.playlist.path = some (.index a.currentDay) := by
    intro hne
    rcases hcur with hp | ⟨hp, -⟩
    · exact hp
    · exact absurd hp hne
  obtain ⟨hinv, hk, hp, hd⟩ := inv_pruneFront h.toArchiveInv hkept hactive
  have hold : Generated old.path := h.generated old (hkept ▸ List.mem_cons_self)
  rw [pruneFront] at hinv hk hp hd ⊢
  dsimp only at hinv hk hp hd ⊢
  generalize hb : (Archive.emit { a with kept := rest } .popKept).updatePlaylist
    ((Archive.emit { a with kept := rest } .popKept).playlist.dropFrontIf old.filename) = b
    at hinv hk hp hd ⊢
  generalize hc : (Archive.emit { b with mediaFiles := b.mediaFiles.filter (· ≠ old.path) }
    (.unlink old.path)).deleteRelative old.path = c at hinv hk hp hd ⊢
  have hpopped : Popped a c old rest :=
    popped_drop_front h hkept (hcur.symm.imp And.left id) b hb.symm c hc.symm
  have hcday : c.currentDay = a.currentDay := by
    rw [← hc, (sameDay_delete _ old.path).currentDay]
    show b.currentDay = a.currentDay
    rw [← hb, updatePlaylist_currentDay]
    rfl
  by_cases hday : old.day = c.currentDay
  · rw [if_pos hday] at hinv hk hp hd ⊢
    refine h.of_popped hkept hpopped (.refl _ c) hinv hk rfl rfl hp fun hne => ?_
    -- the segment is of the current day, which has the playlist
    rcases hcur with hpath | ⟨-, hempty⟩
    · rw [hpath, ← hcday, ← hday] at hne
      exact absurd rfl hne
    · rw [hcday, hempty] at hday
      exact absurd hday (day_ne_empty hold)
  rw [if_neg hday] at hinv hk hp hd ⊢
  by_cases hmedia : (c.mediaFiles.any fun file => file.day = old.day) = true
  · rw [if_neg (by simp [hmedia])] at hinv hk hp hd ⊢
    have hitems : ∀ item ∈ ofDay c.kept old.day,
        item.filename ≠ "" ∧ 1 / 1000 ≤ item.durationSec := by
      intro item hitem
      obtain ⟨hmem, hd'⟩ := List.mem_filter.mp hitem
      rw [hpopped.kept] at hmem
      have hmem' : item ∈ a.kept := hkept ▸ List.mem_cons_of_mem _ hmem
      exact h.listable old.day item (List.mem_filter.mpr ⟨hmem', hd'⟩)
    obtain ⟨htouches, hended, hm⟩ :=
      rewriteDayPlaylist_spec v c hitems (day_ne_empty hold) hday
    have hplaylist : (c.rewriteDayPlaylist old.day true).playlist = c.playlist := by
      rw [rewriteDayPlaylist]
      split
      · rfl
      · exact (sameDay_upload _ _).playlist
    exact h.of_popped hkept hpopped htouches hinv hk hm hplaylist hp fun _ => .inl hended
  · rw [if_pos (by simpa using hmedia)] at hinv hk hp hd ⊢
    have hnone : ∀ file ∈ c.mediaFiles, file.day ≠ old.day := by
      intro file hfile he
      exact hmedia (List.any_eq_true.mpr ⟨file, hfile, by simp [he]⟩)
    obtain ⟨htouches, hgone, hm⟩ := remove_day_spec v init c old.day hnone _ rfl
    refine h.of_popped hkept hpopped htouches hinv hk hm ?_ hp fun _ => .inr hgone
    exact ((sameDay_delete _ _).playlist.trans (sameDay_delete _ _).playlist)

theorem books_pruneLoop {items : List KeptSegment} : ∀ {a : Archive}, Books v init a →
    a.kept = items →
    (a.playlist.path = some (.index a.currentDay) ∨
      a.playlist.path = none ∧ a.currentDay = "") →
    Books v init (a.pruneLoop items) := by
  induction items with
  | nil => exact fun h _ _ => h
  | cons old rest ih =>
    intro a h hkept hcur
    rw [pruneLoop]
    split
    · have hactive : a.playlist.path ≠ none → a.playlist.path = some (.index a.currentDay) := by
        intro hne
        rcases hcur with hp | ⟨hp, -⟩
        · exact hp
        · exact absurd hp hne
      obtain ⟨-, hk, hp, hd⟩ := inv_pruneFront h.toArchiveInv hkept hactive
      exact ih (books_pruneFront h hkept hcur) hk (by rw [hp, hd]; exact hcur)
    · exact h

/-- **Pruning preserves the invariant** while the active playlist is that of the
current day, or there is neither. -/
theorem books_pruneRetained (h : Books v init a)
    (hcur : a.playlist.path = some (.index a.currentDay) ∨
      a.playlist.path = none ∧ a.currentDay = "") : Books v init a.pruneRetained :=
  books_pruneLoop h rfl hcur

/-! ### Segments and sessions -/

/-- An upload changes nothing that the books speak of. -/
theorem Books.upload (h : Books v init a) (file : File)
    (hinv : ArchiveInv v (a.uploadRelative file)) : Books v init (a.uploadRelative file) := by
  have hsame := sameDay_upload a file
  have hmedia : (a.uploadRelative file).mediaFiles = a.mediaFiles := by
    rw [uploadRelative]
    split <;> rfl
  refine ⟨hinv, ?_, ?_, ?_, ?_, ?_, ?_, ?_⟩
  · rw [(touches_upload "" a file).config]
    exact h.segmentSec
  · rw [hsame.kept]
    exact h.generated
  · rw [hsame.kept]
    exact h.nodup
  · rw [hsame.kept, hmedia]
    exact h.media
  · rw [hsame.kept]
    exact h.long
  · rw [hsame.playlist, hsame.kept]
    exact h.entries
  · intro day hp hr
    rw [hsame.playlist] at hp
    -- an upload touches no day at all
    obtain ⟨other, hother⟩ : ∃ other : String, day ≠ other := by
      by_cases hempty : day = ""
      · exact ⟨"x", by simp [hempty]⟩
      · exact ⟨"", hempty⟩
    have htouches := touches_upload other a file
    exact htouches.settled hother (h.settled day hp (htouches.removed hother hr))

/-- The archive with a segment that the playlist lists and the recorder remembers. -/
theorem books_append_remember (h : Books v init a) {path : File} (hgen : Generated path)
    (hday : path.day = a.currentDay) (hp : a.playlist.path = some (.index a.currentDay))
    (hmedia : path ∈ a.mediaFiles) (hnew : path ∉ a.kept.map KeptSegment.path) {duration : ℚ}
    (hlong : 1 / 1000 ≤ duration) (bytes : ℕ) :
    ∀ b, b = (a.updatePlaylist (a.playlist.append path.name duration)).rememberClosedSegment
        path duration bytes → Books v init b := by
  intro b hb
  obtain ⟨hinv, hbp, -⟩ := inv_append_remember h.toArchiveInv hgen hday hp duration bytes b hb
  obtain ⟨hop, hoppath, happended, -⟩ := append_of_long (p := a.playlist) (by simp [hp])
    hgen.plain.name_ne_empty hlong
  rw [rememberClosedSegment, updatePlaylist, if_pos hop] at hb
  have hkept : b.kept = a.kept ++ [⟨path, duration, bytes⟩] := by rw [hb]; rfl
  have hbmedia : b.mediaFiles = a.mediaFiles := by rw [hb]; rfl
  have hentries : b.playlist.entries = a.playlist.entries ++ [(path.name, duration)] := by
    rw [hb]
    exact happended
  -- the active playlist is the one of the current day, so only that day is touched
  have htouches : Touches a.currentDay a b := by
    rw [hb]
    refine ⟨rfl, fun d hd => ?_, fun _ hf _ => hf,
      [.rewrite (a.playlist.append path.name duration).1, .pushKept ⟨path, duration, bytes⟩],
      by simp [emit], ?_⟩
    · refine entriesOfDay_concat_of_ne a.kept ?_
      show path.day ≠ d
      rw [hday]
      exact hd.symm
    · intro e he
      rcases List.mem_cons.mp he with rfl | he
      · exact hoppath.trans hp
      · obtain rfl := List.mem_singleton.mp he
        trivial
  have hmem : ∀ {item}, item ∈ b.kept → item ∈ a.kept ∨ item = ⟨path, duration, bytes⟩ := by
    intro item hitem
    rw [hkept] at hitem
    exact (List.mem_append.mp hitem).imp_right List.mem_singleton.mp
  refine ⟨hinv, ?_, fun item hitem => ?_, ?_, fun item hitem => ?_, fun item hitem => ?_,
    fun day hpath => ?_, fun day hpath hr => ?_⟩
  · rw [htouches.config]
    exact h.segmentSec
  · rcases hmem hitem with hitem | rfl
    · exact h.generated item hitem
    · exact hgen
  -- the segment is new, so it stands in `kept` only once
  · rw [hkept, List.map_append, List.nodup_append]
    refine ⟨h.nodup, by simp, fun file hfile other hone he => ?_⟩
    obtain rfl : other = path := by simpa using hone
    exact hnew (he ▸ hfile)
  · rw [hbmedia]
    rcases hmem hitem with hitem | rfl
    · exact h.media item hitem
    · exact hmedia
  · rcases hmem hitem with hitem | rfl
    · exact h.long item hitem
    · exact hlong
  -- the playlist and `kept` get the same entry at the end
  · rw [hbp] at hpath
    have hcurrent : day = a.currentDay := by
      have := hpath.symm.trans hp
      simpa [File.index] using this
    rw [hentries, hkept, h.entries day hpath]
    have hitem : (⟨path, duration, bytes⟩ : KeptSegment).day = day := hday.trans hcurrent.symm
    exact (entriesOfDay_concat_of_eq a.kept hitem).symm
  · rw [hbp] at hpath
    have hcurrent : day ≠ a.currentDay := fun he => hpath (he ▸ hp)
    exact htouches.settled hcurrent (h.settled day hpath (htouches.removed hcurrent hr))

/-- **A closed segment joins the list and the playlist of its day.** -/
theorem books_closeSegment (h : Books v init a) {path : File} (hgen : Generated path)
    (hday : path.day = a.currentDay) (hp : a.playlist.path = some (.index a.currentDay))
    (hmedia : path ∈ a.mediaFiles) (hnew : path ∉ a.kept.map KeptSegment.path) {duration : ℚ}
    (hlong : 1 / 1000 ≤ duration) (bytes : ℕ) :
    Books v init (a.closeSegment path duration bytes) := by
  obtain ⟨hinv, -, -⟩ := inv_closeSegment h.toArchiveInv hgen hday hp duration bytes
  rw [closeSegment] at hinv ⊢
  generalize hb : (a.updatePlaylist (a.playlist.append path.name duration)).rememberClosedSegment
    path duration bytes = b at hinv ⊢
  have hbooks := books_append_remember h hgen hday hp hmedia hnew hlong bytes b hb.symm
  obtain ⟨-, hbp, hbd⟩ := inv_append_remember h.toArchiveInv hgen hday hp duration bytes b hb.symm
  have hup := hbooks.upload path
    (hbooks.toArchiveInv.upload path fun d hd => absurd hd (hgen.plain.ne_index d)).1
  have hsame := sameDay_upload b path
  have hcur : (b.uploadRelative path).playlist.path =
      some (.index (b.uploadRelative path).currentDay) := by
    rw [hsame.playlist, hsame.currentDay, hbp, hbd]
    exact hp
  have hpruned := books_pruneRetained hup (.inl hcur)
  cases hpath : (b.uploadRelative path).pruneRetained.playlist.path with
  | none => exact hpruned
  | some index =>
    dsimp only at hinv ⊢
    rw [hpath] at hinv
    exact hpruned.upload index hinv

/-- **The end of a day's playlist preserves the invariant**, and the playlist is
ended. -/
theorem books_endPlaylist (h : Books v init a) :
    Books v init a.endPlaylist ∧
      (a.endPlaylist.playlist.path ≠ none → a.endPlaylist.playlist.ended = true) := by
  obtain ⟨hinv, -, -⟩ := inv_endPlaylist h.toArchiveInv
  rw [endPlaylist] at hinv ⊢
  cases hp : a.playlist.path with
  | none => exact ⟨h, fun hne => absurd hp hne⟩
  | some index =>
    rw [hp] at hinv
    dsimp only at hinv ⊢
    obtain ⟨day, hshows⟩ := h.active (by simp [hp])
    have hpd := hshows.path
    have hended : a.playlist.finish.1.ended = true := by
      rw [HlsPlaylist.finish]
      split
      next hor => exact hor.resolve_left (by simp [hp])
      · rfl
    have hentries : a.playlist.finish.1.entries = a.playlist.entries := by
      rw [HlsPlaylist.finish]
      split <;> rfl
    generalize hb : a.updatePlaylist a.playlist.finish = b at hinv ⊢
    have hbp : b.playlist = a.playlist.finish.1 := by rw [← hb, updatePlaylist_playlist]
    have hbk : b.kept = a.kept ∧ b.mediaFiles = a.mediaFiles := by
      rw [← hb, updatePlaylist]
      split
      · exact ⟨rfl, rfl⟩
      · exact ⟨rfl, rfl⟩
    have htouches : Touches day a b := by
      rw [← hb]
      exact touches_updatePlaylist a fun _ => (finish_path _).trans hpd
    have hsame := sameDay_upload b index
    have hlast := touches_upload day b index
    have hbmedia : (b.uploadRelative index).mediaFiles = b.mediaFiles := by
      rw [uploadRelative]
      split <;> rfl
    have hpath : (b.uploadRelative index).playlist.path = a.playlist.path := by
      rw [hsame.playlist, hbp, finish_path]
    refine ⟨⟨hinv, ?_, ?_, ?_, ?_, ?_, fun d hd => ?_, fun d hd hr => ?_⟩, fun _ => ?_⟩
    · rw [hlast.config, htouches.config]
      exact h.segmentSec
    · rw [hsame.kept, hbk.1]
      exact h.generated
    · rw [hsame.kept, hbk.1]
      exact h.nodup
    · rw [hsame.kept, hbk.1, hbmedia, hbk.2]
      exact h.media
    · rw [hsame.kept, hbk.1]
      exact h.long
    · rw [hpath] at hd
      rw [hsame.playlist, hbp, hentries, hsame.kept, hbk.1]
      exact h.entries d hd
    · rw [hpath] at hd
      have hne : d ≠ day := fun he => hd (he ▸ hpd)
      have hall := htouches.trans hlast
      exact hall.settled hne (h.settled d hd (hall.removed hne hr))
    · rw [hsame.playlist, hbp]
      exact hended

/-- **The day of a new session is listed**, and the day of the ended playlist is
settled. -/
theorem books_listDay (h : Books v init a)
    (hended : a.playlist.path ≠ none → a.playlist.ended = true) (day : String) :
    Books v init ((a.beginPlaylist day true).listDay day) := by
  obtain ⟨hinv, hpath, -⟩ := inv_listDay h.toArchiveInv day
  -- the playlist is begun anew and takes every kept segment of the day
  obtain ⟨p, rewrites, hall, hp, hentries, -, hrewrites⟩ :=
    appendAll_entries (p := .begin (.index day) a.config.segmentSec) rfl rfl
      (fun item hitem => h.listable day item hitem)
  generalize hb : ({ a with
    currentDay := day
    playlist := p
    effects := a.effects ++ [Effect.startListing day,
      .rewrite (.begin (.index day) a.config.segmentSec)] ++ rewrites ++
        [Effect.endListing] } : Archive) = b
  have heq : (a.beginPlaylist day true).listDay day =
      (b.uploadRelative (.init day)).uploadRelative (.index day) := by
    rw [listDay_eq a day hall hp, hb]
  -- all of this is about one day
  have htouches : Touches day a b := by
    rw [← hb]
    refine ⟨rfl, fun _ _ => rfl, fun _ hf _ => hf, _, by simp only [List.append_assoc]; rfl, ?_⟩
    intro e he
    simp only [List.mem_append, List.mem_cons, List.not_mem_nil, or_false] at he
    rcases he with (rfl | rfl) | he | rfl
    · rfl
    · rfl
    · exact hrewrites e he
    · trivial
  rw [heq] at hinv hpath ⊢
  have huploads := (touches_upload day b (.init day)).trans (touches_upload day _ (.index day))
  have hsame := (sameDay_upload b (.init day)).trans (sameDay_upload _ (.index day))
  generalize hc : (b.uploadRelative (.init day)).uploadRelative (.index day) = c
    at hinv hpath huploads hsame ⊢
  have hcall := htouches.trans huploads
  have hbk : b.kept = a.kept ∧ b.mediaFiles = a.mediaFiles ∧ b.playlist = p := by
    rw [← hb]
    exact ⟨rfl, rfl, rfl⟩
  have hcmedia : c.mediaFiles = a.mediaFiles := by
    rw [← hc, ← hbk.2.1, uploadRelative, uploadRelative]
    split_ifs <;> rfl
  refine ⟨hinv, ?_, ?_, ?_, ?_, ?_, fun d hd => ?_, fun d hd hr => ?_⟩
  · rw [hcall.config]
    exact h.segmentSec
  · rw [hsame.kept, hbk.1]
    exact h.generated
  · rw [hsame.kept, hbk.1]
    exact h.nodup
  · rw [hsame.kept, hbk.1, hcmedia]
    exact h.media
  · rw [hsame.kept, hbk.1]
    exact h.long
  · obtain rfl : day = d := by
      have := hpath.symm.trans hd
      simpa [File.index] using this
    rw [hsame.playlist, hbk.2.2, hsame.kept, hbk.1]
    exact hentries.trans (List.nil_append _)
  -- another day is settled: its playlist was the ended one, or was settled before
  · have hne : d ≠ day := fun he => hd (he ▸ hpath)
    refine hcall.settled hne ?_
    by_cases hold : a.playlist.path = some (.index d)
    · exact h.settled_of_ended hold (hended (by simp [hold]))
    · exact h.settled d hold (hcall.removed hne hr)

/-- A media file of the current day is made. -/
theorem books_add_media (h : Books v init a) {path : File} (hday : path.day = a.currentDay)
    (hp : a.playlist.path = some (.index a.currentDay)) :
    Books v init { a with mediaFiles := a.mediaFiles ++ [path] } := by
  have htouches : Touches a.currentDay a { a with mediaFiles := a.mediaFiles ++ [path] } := by
    refine ⟨rfl, fun _ _ => rfl, fun file hf hd => ?_, [], by simp, by simp⟩
    rcases List.mem_append.mp hf with hf | hf
    · exact hf
    · obtain rfl := List.mem_singleton.mp hf
      exact absurd hday hd
  refine ⟨⟨⟨h.keeps, h.kept, h.listing, h.named⟩, h.inactive, h.active⟩, h.segmentSec,
    h.generated, h.nodup, fun item hitem => List.mem_append_left _ (h.media item hitem), h.long,
    h.entries, fun day hd hr => ?_⟩
  have hne : day ≠ a.currentDay := fun he => hd (he ▸ hp)
  exact htouches.settled hne (h.settled day hd hr)

end Archive

end IpcMini
