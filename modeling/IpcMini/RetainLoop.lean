/-
What `prune_retained` drops (`src/record/segment_recorder.cpp`).

The loop takes the oldest segment off the list while two sums over the list are
above what is configured.  Each turn unlinks the segment's file, offers a delete
to the uploader, and then removes the directory of a day that is empty, or
writes the playlist of another day anew and uploads it.

* `pruneRetainedIn` — the loop, with the answers of the file system;
* `Retained` — a list that the loop leaves alone;
* `Turn` — what one turn does, in order;
* `relativeKey_absolutePath` — the key of a file in the recording directory;
* **`pruneRetained_spec`** — the longest end of the list that may stay does,
  and the rest goes, oldest first, one turn for each segment.
-/
import Mathlib.Algebra.BigOperators.Group.List.Basic
import Mathlib.Data.List.Infix
import IpcMini.Archive

namespace IpcMini

/-- The effect writes a playlist. -/
def Effect.Writes (e : Effect) : Prop := ∃ p, e = .rewrite p

/-- What may follow the delete in the turn of a segment of the day: the other
files of the day go, or its playlist is written and uploaded. -/
def Effect.Follows (day : String) : Effect → Prop
  | .unlink file | .enqueueDelete file => file = .init day ∨ file = .index day
  | .enqueue file => file = .index day
  | .rmdir d | .startListing d => d = day
  | .rewrite _ | .endListing => True
  | .pushKept _ | .popKept => False

namespace Archive

/-! ### The loop and the file system -/

/-- What the file system answers in a turn: whether the file was unlinked,
whether the day's directory still has a media file, and whether the playlist of
the day could be begun. -/
structure Answers where
  unlinked : Bool
  hasMedia : Bool
  begun : Bool
  deriving DecidableEq, Repr

/-- One turn of the loop of `prune_retained`, for the oldest segment. -/
def pruneFrontIn (answers : Answers) (a : Archive) (old : KeptSegment)
    (rest : List KeptSegment) : Archive :=
  let a := { a with kept := rest }.emit .popKept
  let a := a.updatePlaylist (a.playlist.dropFrontIf old.filename)
  let a := { a with
    mediaFiles := if answers.unlinked then a.mediaFiles.filter (· ≠ old.path) else a.mediaFiles
    }.emit (.unlink old.path)
  let a := a.deleteRelative old.path
  if old.day = a.currentDay then a
  else if !answers.hasMedia then
    let a := (a.emit (.unlink (.init old.day))).emit (.unlink (.index old.day))
    let a := (a.deleteRelative (.init old.day)).deleteRelative (.index old.day)
    a.emit (.rmdir old.day)
  else if answers.begun then a.rewriteDayPlaylist old.day true
  else a

/-- `prune_retained` on the segments that are left to look at; the file system
answers `env`. -/
def pruneLoopIn (env : Archive → KeptSegment → Answers) (a : Archive) :
    List KeptSegment → Archive
  | [] => a
  | old :: rest =>
    if overRetain a.config (old :: rest) then
      pruneLoopIn env (a.pruneFrontIn (env a old) old rest) rest
    else a

/-- `prune_retained`; the file system answers `env`. -/
def pruneRetainedIn (env : Archive → KeptSegment → Answers) (a : Archive) : Archive :=
  a.pruneLoopIn env a.kept

/-- A file system that does what it is asked to. -/
def obliging (a : Archive) (old : KeptSegment) : Answers where
  unlinked := true
  hasMedia := (a.mediaFiles.filter (· ≠ old.path)).any fun file => file.day = old.day
  begun := true

variable {a b c : Archive} {config : RecordConfig} {kept : List KeptSegment}

theorem mediaFiles_updatePlaylist (a : Archive) (op : HlsPlaylist × Bool) :
    (a.updatePlaylist op).mediaFiles = a.mediaFiles := by
  rw [updatePlaylist]
  split <;> rfl

theorem mediaFiles_delete (a : Archive) (file : File) :
    (a.deleteRelative file).mediaFiles = a.mediaFiles := by
  rw [deleteRelative]
  split <;> rfl

theorem pruneFront_eq (a : Archive) (old : KeptSegment) (rest : List KeptSegment) :
    a.pruneFront old rest = a.pruneFrontIn (obliging a old) old rest := by
  rw [pruneFront, pruneFrontIn]
  dsimp only
  have hmedia := mediaFiles_updatePlaylist (Archive.emit { a with kept := rest } .popKept)
    (HlsPlaylist.dropFrontIf (Archive.emit { a with kept := rest } .popKept).playlist
      old.filename)
  generalize updatePlaylist _ _ = b at hmedia ⊢
  have hscan : (obliging a old).hasMedia = (deleteRelative (Archive.emit { b with
      mediaFiles := b.mediaFiles.filter (· ≠ old.path) } (.unlink old.path))
        old.path).mediaFiles.any fun file => file.day = old.day := by
    rw [mediaFiles_delete]
    show ((a.mediaFiles.filter _).any _) = ((b.mediaFiles.filter _).any _)
    rw [hmedia]
    rfl
  rw [hscan]
  rfl

/-- `prune_retained` is the loop over an obliging file system. -/
theorem pruneRetained_eq (a : Archive) : a.pruneRetained = a.pruneRetainedIn obliging := by
  suffices h : ∀ (items : List KeptSegment) (a : Archive),
      a.pruneLoop items = a.pruneLoopIn obliging items from h a.kept a
  intro items
  induction items with
  | nil => exact fun a => rfl
  | cons old rest ih =>
    intro a
    rw [pruneLoop, pruneLoopIn, ← pruneFront_eq, ih]

/-! ### The bounds -/

/-- How long the segments are together. -/
def totalDuration (kept : List KeptSegment) : ℚ := (kept.map KeptSegment.durationSec).sum

/-- The sizes of the segments together. -/
def totalBytes (kept : List KeptSegment) : ℕ := (kept.map KeptSegment.bytes).sum

/-- At most one segment, or as long and as large as both bounds allow, of those
that are enabled. -/
def Retained (config : RecordConfig) (kept : List KeptSegment) : Prop :=
  kept.length ≤ 1 ∨
    ((0 < config.retainSec → totalDuration kept ≤ config.retainSec) ∧
      (0 < config.maxBytesMb → (totalBytes kept : ℤ) ≤ config.maxBytesMb * 2 ^ 20))

/-- The loop goes on exactly while the list may not stay. -/
theorem overRetain_iff (config : RecordConfig) (kept : List KeptSegment) :
    overRetain config kept = true ↔ ¬ Retained config kept := by
  have hduration : (kept.map KeptSegment.durationSec).foldl (· + ·) 0 = totalDuration kept := by
    rw [totalDuration, List.sum_eq_foldl]
  have hbytes : (kept.map KeptSegment.bytes).foldl (· + ·) 0 = totalBytes kept := by
    rw [totalBytes, List.sum_eq_foldl]
  -- the cap in bytes, with 0 for no cap
  have hsize : (0 < (if 0 < config.maxBytesMb then config.maxBytesMb.toNat * 1024 * 1024
        else 0) ∧ (if 0 < config.maxBytesMb then config.maxBytesMb.toNat * 1024 * 1024
        else 0) < totalBytes kept) ↔
      ¬ (0 < config.maxBytesMb → (totalBytes kept : ℤ) ≤ config.maxBytesMb * 2 ^ 20) := by
    split
    next hmb => omega
    next hmb => exact ⟨fun h => absurd h.1 (by omega), fun h => absurd (fun h' => absurd h' hmb) h⟩
  rw [overRetain, Retained, hduration, hbytes, not_or, not_and_or]
  dsimp only
  generalize (if 0 < config.maxBytesMb then config.maxBytesMb.toNat * 1024 * 1024
    else 0) = cap at hsize ⊢
  rw [← hsize]
  split
  next hlen => exact ⟨fun h => absurd h (by simp), fun h => absurd hlen h.1⟩
  next hlen =>
    split
    next htime =>
      refine ⟨fun _ => ⟨hlen, .inl fun h => ?_⟩, fun _ => rfl⟩
      exact absurd (h htime.1) (not_le.mpr htime.2)
    next htime =>
      have htime' : 0 < config.retainSec → totalDuration kept ≤ config.retainSec :=
        fun hpos => not_lt.mp fun hlt => htime ⟨hpos, hlt⟩
      split
      next hover => exact ⟨fun _ => ⟨hlen, .inr hover⟩, fun _ => rfl⟩
      next hover =>
        exact ⟨fun h => absurd h (by simp), fun h => (h.2.resolve_left (not_not.mpr htime')).elim
          fun h1 h2 => absurd ⟨h1, h2⟩ hover⟩

/-! ### Effects -/

/-- One archive has become another one, with these effects and the same list. -/
structure Emits (a b : Archive) (es : List Effect) : Prop where
  kept : b.kept = a.kept
  config : b.config = a.config
  effects : b.effects = a.effects ++ es

namespace Emits

theorem refl (a : Archive) : Emits a a [] := ⟨rfl, rfl, (List.append_nil _).symm⟩

theorem trans {es fs : List Effect} (h : Emits a b es) (h' : Emits b c fs) :
    Emits a c (es ++ fs) := by
  refine ⟨h'.kept.trans h.kept, h'.config.trans h.config, ?_⟩
  rw [h'.effects, h.effects, List.append_assoc]

end Emits

theorem emits_emit (a : Archive) (e : Effect) : Emits a (a.emit e) [e] := ⟨rfl, rfl, rfl⟩

/-- What `delete_relative` offers to the uploader. -/
def deletes (config : RecordConfig) (file : File) : List Effect :=
  if config.uploadUrl = "" then [] else [.enqueueDelete file]

/-- What `upload_relative` offers to the uploader. -/
def uploads (config : RecordConfig) (file : File) : List Effect :=
  if config.uploadUrl = "" then [] else [.enqueue file]

theorem emits_delete (a : Archive) (file : File) :
    Emits a (a.deleteRelative file) (deletes a.config file) := by
  rw [deleteRelative, deletes]
  split
  · exact .refl a
  · exact emits_emit a _

theorem emits_upload (a : Archive) (file : File) :
    Emits a (a.uploadRelative file) (uploads a.config file) := by
  rw [uploadRelative, uploads]
  split
  · exact .refl a
  · exact emits_emit a _

theorem emits_updatePlaylist (a : Archive) (op : HlsPlaylist × Bool) :
    ∃ es, Emits a (a.updatePlaylist op) es ∧ ∀ e ∈ es, e.Writes := by
  rw [updatePlaylist]
  split
  · refine ⟨[.rewrite op.1], ⟨rfl, rfl, rfl⟩, fun e he => ⟨op.1, ?_⟩⟩
    exact List.mem_singleton.mp he
  · exact ⟨[], ⟨rfl, rfl, (List.append_nil _).symm⟩, fun e he => absurd he (by simp)⟩

theorem rewrites_appendAll (p : HlsPlaylist) (items : List KeptSegment) :
    ∀ e ∈ (appendAll p items).2, e.Writes := by
  induction items using List.reverseRecOn with
  | nil => exact fun e he => absurd he (by simp [appendAll])
  | append_singleton items item ih =>
    intro e he
    rw [appendAll, List.foldl_concat, ← appendAll] at he
    dsimp only at he
    split at he
    · rcases List.mem_append.mp he with he | he
      · exact ih e he
      · exact ⟨_, List.mem_singleton.mp he⟩
    · exact ih e he

theorem emits_rewriteDayPlaylist (a : Archive) (day : String) (ended : Bool) :
    ∃ es, Emits a (a.rewriteDayPlaylist day ended) es ∧ ∀ e ∈ es, e.Follows day := by
  rw [rewriteDayPlaylist]
  split
  · exact ⟨[], .refl a, fun e he => absurd he (by simp)⟩
  dsimp only
  have hrewrites := rewrites_appendAll (.begin (.index day) a.config.segmentSec)
    (ofDay a.kept day)
  generalize appendAll _ _ = listed at hrewrites ⊢
  have hlast : ∀ e ∈ (if (ended && listed.1.finish.2) = true then
      [Effect.rewrite listed.1.finish.1] else []), e.Writes := by
    intro e he
    split at he
    · exact ⟨_, List.mem_singleton.mp he⟩
    · exact absurd he (by simp)
  generalize (if (ended && listed.1.finish.2) = true then
    [Effect.rewrite listed.1.finish.1] else []) = last at hlast ⊢
  have hwrites : ∀ e : Effect, e.Writes → e.Follows day := by
    rintro e ⟨p, rfl⟩
    exact trivial
  have hwritten : Emits a { a with
      effects := a.effects ++ [Effect.startListing day,
        .rewrite (.begin (.index day) a.config.segmentSec)] ++ listed.2 ++
        [Effect.endListing] ++ last }
      ([Effect.startListing day, .rewrite (.begin (.index day) a.config.segmentSec)] ++
        listed.2 ++ [Effect.endListing] ++ last) := ⟨rfl, rfl, by simp⟩
  refine ⟨_, hwritten.trans (emits_upload _ (.index day)), fun e he => ?_⟩
  rcases List.mem_append.mp he with he | he
  -- one effect after the other, in the order of their writing
  · simp only [List.mem_append, List.mem_cons, List.not_mem_nil, or_false] at he
    obtain (((rfl | rfl) | he) | rfl) | he := he
    · exact rfl
    · exact trivial
    · exact hwrites e (hrewrites e he)
    · exact trivial
    · exact hwrites e (hlast e he)
  · rw [uploads] at he
    split at he
    · exact absurd he (by simp)
    · obtain rfl := List.mem_singleton.mp he
      exact rfl

/-! ### A turn -/

/-- A turn of the loop: the segment leaves the list and perhaps the current
playlist, its file is unlinked, a delete for it is offered if uploads are on,
and then the rest of its day is seen to. -/
def Turn (config : RecordConfig) (old : KeptSegment) (es : List Effect) : Prop :=
  ∃ before after, es = .popKept :: before ++ .unlink old.path :: deletes config old.path ++ after ∧
    (∀ e ∈ before, e.Writes) ∧ ∀ e ∈ after, e.Follows old.day

theorem turn_pruneFront (answers : Answers) (a : Archive) (old : KeptSegment)
    (rest : List KeptSegment) :
    ∃ es, Emits { a with kept := rest } (a.pruneFrontIn answers old rest) es ∧
      Turn a.config old es := by
  rw [pruneFrontIn]
  dsimp only
  have hpop := emits_emit { a with kept := rest } .popKept
  generalize Archive.emit { a with kept := rest } .popKept = popped at hpop ⊢
  obtain ⟨before, hdrop, hbefore⟩ := emits_updatePlaylist popped
    (popped.playlist.dropFrontIf old.filename)
  generalize updatePlaylist popped _ = dropped at hdrop ⊢
  have hunlink : Emits dropped (Archive.emit { dropped with
      mediaFiles := if answers.unlinked then dropped.mediaFiles.filter (· ≠ old.path)
        else dropped.mediaFiles } (.unlink old.path)) [.unlink old.path] := ⟨rfl, rfl, rfl⟩
  generalize Archive.emit _ (.unlink old.path) = unlinked at hunlink ⊢
  have hdelete := emits_delete unlinked old.path
  have hconfig : unlinked.config = a.config :=
    hunlink.config.trans (hdrop.config.trans hpop.config)
  rw [hconfig] at hdelete
  have hstart := ((hpop.trans hdrop).trans hunlink).trans hdelete
  generalize deleteRelative unlinked old.path = d at hstart ⊢
  -- what is left of the turn follows the delete
  have hturn : ∀ (e : Archive) (after : List Effect), Emits d e after →
      (∀ x ∈ after, x.Follows old.day) →
      ∃ es, Emits { a with kept := rest } e es ∧ Turn a.config old es := by
    intro e after he hafter
    exact ⟨_, hstart.trans he, before, after, by simp, hbefore, hafter⟩
  split
  · exact hturn d [] (.refl d) fun e he => absurd he (by simp)
  split
  · refine hturn _ _ (((((emits_emit d (.unlink (.init old.day))).trans
      (emits_emit _ (.unlink (.index old.day)))).trans
      (emits_delete _ (.init old.day))).trans (emits_delete _ (.index old.day))).trans
      (emits_emit _ (.rmdir old.day))) fun e he => ?_
    have hfollows : ∀ file, file = .init old.day ∨ file = .index old.day →
        ∀ config, ∀ e ∈ deletes config file, e.Follows old.day := by
      intro file hfile config e he
      rw [deletes] at he
      split at he
      · exact absurd he (by simp)
      · obtain rfl := List.mem_singleton.mp he
        exact hfile
    simp only [List.mem_append, List.mem_singleton] at he
    obtain (((rfl | rfl) | he) | he) | rfl := he
    · exact .inl rfl
    · exact .inr rfl
    · exact hfollows _ (.inl rfl) _ e he
    · exact hfollows _ (.inr rfl) _ e he
    · exact rfl
  split
  · obtain ⟨after, hrewrite, hafter⟩ := emits_rewriteDayPlaylist d old.day true
    exact hturn _ after hrewrite hafter
  · exact hturn d [] (.refl d) fun e he => absurd he (by simp)

/-! ### The whole loop -/

/-- What the loop has done to the list: `removed` went, oldest first, and no
longer end of the list may stay. -/
structure Pruned (a b : Archive) (removed : List KeptSegment) : Prop where
  kept : a.kept = removed ++ b.kept
  retained : Retained a.config b.kept
  longest : ∀ part, part <:+ a.kept → Retained a.config part → part <:+ b.kept
  newest : b.kept.getLast? = a.kept.getLast?
  turns : ∃ turns, List.Forall₂ (Turn a.config) removed turns ∧
    b.effects = a.effects ++ turns.flatten

/-- The loop stops at once. -/
theorem pruned_refl (h : Retained a.config a.kept) : Pruned a a [] :=
  ⟨rfl, h, fun _ hpart _ => hpart, rfl, [], .nil, (List.append_nil _).symm⟩

/-- A turn, and the rest of the loop. -/
theorem Pruned.cons {old : KeptSegment} {rest removed : List KeptSegment} {es : List Effect}
    (hkept : a.kept = old :: rest) (hover : ¬ Retained a.config (old :: rest))
    (hb : Emits { a with kept := rest } b es) (hturn : Turn a.config old es)
    (h : Pruned b c removed) : Pruned a c (old :: removed) := by
  have hrest : b.kept = rest := hb.kept
  have hconfig : b.config = a.config := hb.config
  obtain ⟨turns, hturns, heffects⟩ := h.turns
  refine ⟨?_, hconfig ▸ h.retained, fun part hpart hstay => ?_, ?_, es :: turns,
    .cons hturn (hconfig ▸ hturns), ?_⟩
  · rw [hkept, List.cons_append, ← h.kept, hrest]
  · rw [hkept] at hpart
    rcases List.suffix_cons_iff.mp hpart with rfl | hpart
    · exact absurd hstay hover
    · exact h.longest part (hrest ▸ hpart) (hconfig ▸ hstay)
  · -- a list that has to go on has two segments
    have hne : rest ≠ [] := by
      rintro rfl
      exact hover (.inl (Nat.le_refl 1))
    rw [h.newest, hrest, hkept, List.getLast?_cons_of_ne_nil hne]
  · rw [heffects, hb.effects, List.flatten_cons, List.append_assoc]

theorem pruned_loop (env : Archive → KeptSegment → Answers) {items : List KeptSegment} :
    ∀ {a : Archive}, a.kept = items → ∃ removed, Pruned a (a.pruneLoopIn env items) removed := by
  induction items with
  | nil =>
    intro a hkept
    exact ⟨[], pruned_refl (.inl (by simp [hkept]))⟩
  | cons old rest ih =>
    intro a hkept
    rw [pruneLoopIn]
    split
    next hover =>
      obtain ⟨es, hb, hturn⟩ := turn_pruneFront (env a old) a old rest
      obtain ⟨removed, hrest⟩ := ih (a := a.pruneFrontIn (env a old) old rest) hb.kept
      exact ⟨old :: removed, .cons hkept ((overRetain_iff _ _).mp hover) hb hturn hrest⟩
    next hstay =>
      refine ⟨[], pruned_refl ?_⟩
      rw [hkept]
      by_contra hover
      exact hstay ((overRetain_iff _ _).mpr hover)

/-- **What `prune_retained` drops.**  For every list, configuration and answers
of the file system the loop ends with the longest end of the list that has at
most one segment or is within the enabled bounds.  The segments before it are
removed oldest first, in one turn each, which unlinks the file once and, if
uploads are on, offers one delete for it before the playlist of its day is
uploaded; the newest segment stays. -/
theorem pruneRetained_spec (env : Archive → KeptSegment → Answers) (a : Archive) :
    ∃ removed, Pruned a (a.pruneRetainedIn env) removed :=
  pruned_loop env rfl

end Archive

/-! ### Keys -/

/-- `join_path`. -/
def joinPath (directory name : List Char) : List Char :=
  if directory = [] then name
  else if directory.getLast? = some '/' then directory ++ name
  else directory ++ '/' :: name

/-- The path that the recorder uses for a file of its directory. -/
def absolutePath (directory : List Char) (file : File) : List Char :=
  joinPath (joinPath directory file.day.toList) file.name.toList

/-- `relative_key`. -/
def relativeKey (directory absolutePath : List Char) : List Char :=
  if directory.isPrefixOf absolutePath then
    match absolutePath.drop directory.length with
    | '/' :: key => key
    | key => key
  else absolutePath

/-- A name is joined to a directory with one separator at most. -/
theorem joinPath_eq (directory name : List Char) : ∃ separator,
    joinPath directory name = directory ++ separator ++ name ∧
      (separator = [] ∨ separator = ['/']) := by
  rw [joinPath]
  split
  next hnil => exact ⟨[], by rw [hnil]; rfl, .inl rfl⟩
  split
  · exact ⟨[], by rw [List.append_nil], .inl rfl⟩
  · exact ⟨['/'], by rw [List.append_assoc]; rfl, .inr rfl⟩

/-- **The key of a file** in the recording directory is its day and its name,
whether the directory is given with a trailing slash or without. -/
theorem relativeKey_absolutePath (directory : List Char) {file : File}
    (hday : file.day.toList ≠ []) (hslash : '/' ∉ file.day.toList) :
    relativeKey directory (absolutePath directory file) =
      file.day.toList ++ '/' :: file.name.toList := by
  obtain ⟨separator, hjoin, hseparator⟩ := joinPath_eq directory file.day.toList
  have hlast : (directory ++ separator ++ file.day.toList).getLast? ≠ some '/' := by
    rw [List.getLast?_append_of_ne_nil _ hday]
    exact fun h => hslash (List.mem_of_getLast? h)
  have hne : directory ++ separator ++ file.day.toList ≠ [] := by simp [hday]
  have hpath : absolutePath directory file = directory ++
      (separator ++ (file.day.toList ++ '/' :: file.name.toList)) := by
    rw [absolutePath, hjoin, joinPath, if_neg hne, if_neg hlast]
    simp
  rw [hpath, relativeKey, if_pos (List.isPrefixOf_iff_prefix.mpr (List.prefix_append _ _)),
    List.drop_left]
  rcases hseparator with rfl | rfl
  · obtain ⟨first, more, hfirst⟩ := List.exists_cons_of_ne_nil hday
    have hfirst' : first ≠ '/' := by
      rintro rfl
      exact hslash (hfirst ▸ List.mem_cons_self)
    rw [hfirst]
    dsimp only [List.nil_append, List.cons_append]
    split
    next heq => exact absurd (List.cons.inj heq).1 hfirst'
    next => rfl
  · rfl

end IpcMini
