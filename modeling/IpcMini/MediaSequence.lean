/-
The media sequence numbers of the playlists (`src/record/hls_playlist.cpp`,
`src/record/segment_recorder.cpp`).

A playlist that drops its first segment counts it, so that the others keep their
numbers.  A playlist that is begun anew counts from zero.  The sequence of the
contents of a day's file is followed through the effects of a recorder: which
segments the day has had since the first content, and how many of them were
dropped.

* `Steady` — a segment keeps its number, and the first number never decreases;
* `tally` — what the effects do to one day;
* `Unbroken` — no playlist is begun anew after a segment that it listed was
  dropped;
* `Numbered` — the numbers count the segments of the day;
* **`mediaSequence_steady`** — without such a beginning the contents are steady.
-/
import Mathlib.Data.List.Nodup
import IpcMini.PlaylistForms
import IpcMini.RetainLoop

namespace IpcMini

open Archive Interleaving

/-! ### Numbers -/

namespace HlsPlaylist

/-- The listed names, with their media sequence numbers. -/
def numbered (p : HlsPlaylist) : List (String × ℕ) := p.names.zipIdx p.mediaSequence

end HlsPlaylist

/-- A segment has one number in all contents, and the number of the first one
never decreases. -/
structure Steady (contents : List HlsPlaylist) : Prop where
  same : ∀ p ∈ contents, ∀ q ∈ contents, ∀ x ∈ p.numbered, ∀ y ∈ q.numbered,
    x.1 = y.1 → x.2 = y.2
  increasing : contents.Pairwise fun p q => p.mediaSequence ≤ q.mediaSequence

/-! ### What the effects do to a day -/

/-- What the effects have done to one day. -/
structure Tally where
  kept : List KeptSegment
  /-- the contents of the day's playlist file -/
  contents : List HlsPlaylist
  /-- the names that the day has had since the first content -/
  listed : List String
  /-- how many of these were dropped -/
  dropped : ℕ

namespace Tally

def exec (day : String) (t : Tally) : Effect → Tally
  | .pushKept item => { t with
      kept := t.kept ++ [item]
      listed := if item.day = day then t.listed ++ [item.filename] else t.listed }
  | .popKept =>
    match t.kept with
    | [] => t
    | old :: rest =>
      if old.day ≠ day then { t with kept := rest }
      else if t.contents = [] then { t with kept := rest, listed := t.listed.tail }
      else { t with kept := rest, dropped := t.dropped + 1 }
  | .rewrite p =>
    if p.path = some (.index day) then { t with contents := t.contents ++ [p] } else t
  | _ => t

end Tally

/-- The day after the effects of a recorder that has found these segments. -/
def tally (kept : List KeptSegment) (day : String) (es : List Effect) : Tally :=
  es.foldl (Tally.exec day) ⟨kept, [], namesOfDay kept day, 0⟩

/-- If the effect begins a playlist, its day has lost no segment since the first
content of the playlist's file. -/
def Effect.Resumes (kept : List KeptSegment) (done : List Effect) : Effect → Prop
  | .startListing day => (tally kept day done).dropped = 0
  | _ => True

instance (kept : List KeptSegment) (done : List Effect) :
    (e : Effect) → Decidable (e.Resumes kept done)
  | .startListing day => inferInstanceAs (Decidable ((tally kept day done).dropped = 0))
  | .pushKept _ | .popKept | .rewrite _ | .unlink _ | .rmdir _ | .enqueue _
  | .enqueueDelete _ | .endListing => .isTrue trivial

/-- No playlist is begun anew after a segment of its day was dropped that an
earlier content of its file listed. -/
def Unbroken (kept : List KeptSegment) (es : List Effect) : Prop :=
  ∀ n (h : n < es.length), es[n].Resumes kept (es.take n)

instance (kept : List KeptSegment) (es : List Effect) : Decidable (Unbroken kept es) :=
  inferInstanceAs (Decidable (∀ n (h : n < es.length), es[n].Resumes kept (es.take n)))

/-- The segment that the effect adds to the list. -/
def Effect.added : Effect → Option KeptSegment
  | .pushKept item => some item
  | _ => none

/-- What the effect writes to the playlist file of the day. -/
def Effect.content (day : String) : Effect → Option HlsPlaylist
  | .rewrite p => if p.path = some (.index day) then some p else none
  | _ => none

/-! ### Counting -/

/-- The numbers count the segments of the day, and the contents list them from
their first number on. -/
structure Tally.Numbered (day : String) (t : Tally) : Prop where
  kept : namesOfDay t.kept day = t.listed.drop t.dropped
  bound : t.dropped ≤ t.listed.length
  new : t.contents = [] → t.dropped = 0
  contents : ∀ p ∈ t.contents, p.names <+: t.listed.drop p.mediaSequence ∧
    p.mediaSequence ≤ t.dropped
  increasing : t.contents.Pairwise fun p q => p.mediaSequence ≤ q.mediaSequence

namespace Tally

variable {day : String} {t : Tally}

/-- A number tells the segment. -/
theorem Numbered.listed_of_mem (h : t.Numbered day) {p : HlsPlaylist} (hp : p ∈ t.contents)
    {x : String × ℕ} (hx : x ∈ p.numbered) : t.listed[x.2]? = some x.1 := by
  obtain ⟨hpre, -⟩ := h.contents p hp
  rw [HlsPlaylist.numbered] at hx
  obtain ⟨i, hi, rfl⟩ := List.mem_iff_getElem.mp hx
  rw [List.length_zipIdx] at hi
  rw [List.getElem_zipIdx]
  dsimp only
  rw [← List.getElem?_drop]
  obtain ⟨rest, hrest⟩ := hpre
  rw [← hrest, List.getElem?_append_left hi, List.getElem?_eq_getElem hi]

/-- If the names of the day differ, the contents are steady. -/
theorem Numbered.steady (h : t.Numbered day) (hnodup : t.listed.Nodup) : Steady t.contents := by
  refine ⟨fun p hp q hq x hx y hy hname => ?_, h.increasing⟩
  have hxl := h.listed_of_mem hp hx
  have hyl := h.listed_of_mem hq hy
  rw [← hname] at hyl
  obtain ⟨hlt, -⟩ := List.getElem?_eq_some_iff.mp hxl
  exact (List.getElem?_inj hlt hnodup).mp (hxl.trans hyl.symm)

/-- A segment is added. -/
theorem Numbered.push (h : t.Numbered day) (item : KeptSegment) :
    (t.exec day (.pushKept item)).Numbered day := by
  rw [exec]
  by_cases hday : item.day = day
  · rw [if_pos hday]
    refine ⟨?_, ?_, h.new, fun p hp => ?_, h.increasing⟩
    · show namesOfDay (t.kept ++ [item]) day = (t.listed ++ [item.filename]).drop t.dropped
      rw [namesOfDay_concat _ hday, h.kept, List.drop_append_of_le_length h.bound]
    · show t.dropped ≤ (t.listed ++ [item.filename]).length
      rw [List.length_append]
      exact h.bound.trans (Nat.le_add_right _ _)
    · obtain ⟨hpre, hle⟩ := h.contents p hp
      refine ⟨?_, hle⟩
      show p.names <+: (t.listed ++ [item.filename]).drop p.mediaSequence
      rw [List.drop_append_of_le_length (hle.trans h.bound)]
      exact hpre.trans (List.prefix_append _ _)
  · rw [if_neg hday]
    refine ⟨?_, h.bound, h.new, h.contents, h.increasing⟩
    show namesOfDay (t.kept ++ [item]) day = _
    rw [← h.kept, namesOfDay, namesOfDay, ofDay, ofDay, List.filter_append,
      List.filter_cons_of_neg (by simp [hday])]
    simp

/-- The oldest segment is dropped. -/
theorem Numbered.pop (h : t.Numbered day) : (t.exec day .popKept).Numbered day := by
  rw [exec]
  cases hkept : t.kept with
  | nil => exact h
  | cons old rest =>
    have hnames := h.kept
    rw [hkept] at hnames
    dsimp only
    split
    next hday =>
      rw [namesOfDay_cons_of_ne hday] at hnames
      exact ⟨hnames, h.bound, h.new, h.contents, h.increasing⟩
    next hday =>
      rw [namesOfDay_cons_of_eq (not_not.mp hday)] at hnames
      -- the names that are left are those after the first one
      have hrest : namesOfDay rest day = t.listed.drop (t.dropped + 1) := by
        rw [← List.drop_drop, ← hnames]
        rfl
      split
      next hnone =>
        have hzero := h.new hnone
        rw [hzero, Nat.zero_add] at hrest
        refine ⟨?_, ?_, h.new, ?_, h.increasing⟩
        · show namesOfDay rest day = t.listed.tail.drop t.dropped
          rw [hzero, List.drop_zero, hrest, List.drop_one]
        · show t.dropped ≤ _
          rw [hzero]
          exact Nat.zero_le _
        · intro p hp
          exact absurd hp (by simp [hnone])
      next hsome =>
        refine ⟨hrest, ?_, fun hnone => absurd hnone hsome, fun p hp => ?_, h.increasing⟩
        · show t.dropped + 1 ≤ t.listed.length
          have hlen := congrArg List.length hnames
          rw [List.length_cons, List.length_drop] at hlen
          omega
        · obtain ⟨hpre, hle⟩ := h.contents p hp
          exact ⟨hpre, hle.trans (Nat.le_succ _)⟩

/-- The playlist is written, from the first kept segment on. -/
theorem Numbered.rewrite (h : t.Numbered day) {p : HlsPlaylist}
    (hp : p.path = some (.index day)) (hnames : p.names <+: namesOfDay t.kept day)
    (hseq : p.mediaSequence = t.dropped) : (t.exec day (.rewrite p)).Numbered day := by
  rw [exec, if_pos hp]
  refine ⟨h.kept, h.bound, fun hnil => absurd hnil (by simp), fun q hq => ?_, ?_⟩
  · rcases List.mem_append.mp hq with hq | hq
    · exact h.contents q hq
    · obtain rfl := List.mem_singleton.mp hq
      rw [hseq, ← h.kept]
      exact ⟨hnames, Nat.le_refl _⟩
  · rw [List.pairwise_append]
    refine ⟨h.increasing, List.pairwise_singleton _ _, fun q hq p' hp' => ?_⟩
    obtain rfl := List.mem_singleton.mp hp'
    rw [hseq]
    exact (h.contents q hq).2

end Tally

/-! ### Listings -/

/-- The effect writes at most the playlist of the day, from the number `n` on, with
names from the list. -/
def Effect.Lists (day : String) (n : ℕ) (names : List String) : Effect → Prop
  | .pushKept _ | .popKept => False
  | .rewrite p => p.path = some (.index day) ∧ p.names <+: names ∧ p.mediaSequence = n
  | _ => True

namespace Tally

variable {day : String} {t : Tally}

/-- The day's playlist is written any number of times. -/
theorem Numbered.lists {es : List Effect} : ∀ {t : Tally}, t.Numbered day →
    (∀ e ∈ es, e.Lists day t.dropped (namesOfDay t.kept day)) →
    (es.foldl (exec day) t).Numbered day ∧ (es.foldl (exec day) t).dropped = t.dropped := by
  induction es with
  | nil => exact fun h _ => ⟨h, rfl⟩
  | cons e es ih =>
    intro t h hes
    have he := hes e List.mem_cons_self
    have hrest := fun e he => hes e (List.mem_cons_of_mem _ he)
    cases e with
    | rewrite p =>
      obtain ⟨hp, hnames, hseq⟩ := he
      have hexec : t.exec day (.rewrite p) = { t with contents := t.contents ++ [p] } :=
        if_pos hp
      obtain ⟨hn, hd⟩ := ih (h.rewrite hp hnames hseq) (by rw [hexec]; exact hrest)
      exact ⟨hn, hd.trans (by rw [hexec])⟩
    | pushKept _ => exact he.elim
    | popKept => exact he.elim
    | unlink _ | rmdir _ | enqueue _ | enqueueDelete _ | startListing _ | endListing =>
      exact ih h hrest

/-- Contents are only added. -/
theorem contents_foldl (day : String) (es : List Effect) (t : Tally) :
    t.contents <+: (es.foldl (exec day) t).contents := by
  induction es generalizing t with
  | nil => exact List.prefix_refl _
  | cons e es ih =>
    refine List.IsPrefix.trans ?_ (ih (t.exec day e))
    cases e with
    | rewrite p =>
      rw [exec]
      split
      · exact List.prefix_append _ _
      · exact List.prefix_refl _
    | popKept =>
      rw [exec]
      cases t.kept with
      | nil => exact List.prefix_refl _
      | cons old rest =>
        dsimp only
        split_ifs <;> exact List.prefix_refl _
    | pushKept _ => exact List.prefix_refl _
    | unlink _ | rmdir _ | enqueue _ | enqueueDelete _ | startListing _ | endListing =>
      exact List.prefix_refl _

/-- Other days are left alone. -/
theorem foldl_lists_of_ne {d : String} {es : List Effect} (hd : d ≠ day) {n : ℕ}
    {names : List String} : ∀ t : Tally, (∀ e ∈ es, e.Lists day n names) →
    es.foldl (exec d) t = t := by
  induction es with
  | nil => exact fun _ _ => rfl
  | cons e es ih =>
    intro t hes
    have he := hes e List.mem_cons_self
    have hrest := ih t fun e he => hes e (List.mem_cons_of_mem _ he)
    cases e with
    | rewrite p =>
      have hexec : t.exec d (.rewrite p) = t := by
        rw [exec, if_neg]
        rw [he.1]
        simpa [File.index] using hd.symm
      rw [List.foldl_cons, hexec, hrest]
    | pushKept _ => exact he.elim
    | popKept => exact he.elim
    | unlink _ | rmdir _ | enqueue _ | enqueueDelete _ | startListing _ | endListing =>
      exact hrest

/-- A segment is listed by the playlist and then added. -/
theorem Numbered.append (h : t.Numbered day) {item : KeptSegment} {q : HlsPlaylist}
    (hq : q.path = some (.index day)) (hday : item.day = day)
    (hnames : q.names = namesOfDay t.kept day ++ [item.filename])
    (hseq : q.mediaSequence = t.dropped) :
    ((t.exec day (.rewrite q)).exec day (.pushKept item)).Numbered day := by
  have hswap : (t.exec day (.rewrite q)).exec day (.pushKept item) =
      (t.exec day (.pushKept item)).exec day (.rewrite q) := by
    simp only [exec, if_pos hq]
  rw [hswap]
  refine (h.push item).rewrite hq ?_ (hseq.trans rfl)
  show q.names <+: namesOfDay (t.kept ++ [item]) day
  rw [hnames, namesOfDay_concat _ hday]

end Tally

theorem tally_append (kept : List KeptSegment) (day : String) (es fs : List Effect) :
    tally kept day (es ++ fs) = fs.foldl (Tally.exec day) (tally kept day es) :=
  List.foldl_append

theorem contents_append {kept : List KeptSegment} {day : String} {es : List Effect}
    (h : (tally kept day es).contents ≠ []) (fs : List Effect) :
    (tally kept day (es ++ fs)).contents ≠ [] := by
  rw [tally_append]
  intro hnil
  have hpre := Tally.contents_foldl day fs (tally kept day es)
  rw [hnil, List.prefix_nil] at hpre
  exact h hpre

/-- The list is that of the disk. -/
theorem tally_kept (v : Disk) (day : String) (es : List Effect) :
    (tally v.kept day es).kept = (v.execs es).kept := by
  suffices h : ∀ (v : Disk) (t : Tally), t.kept = v.kept →
      (es.foldl (Tally.exec day) t).kept = (v.execs es).kept from h v _ rfl
  induction es with
  | nil => exact fun _ _ h => h
  | cons e es ih =>
    intro v t h
    refine ih (v.exec e) (t.exec day e) ?_
    cases e with
    | pushKept item => exact congrArg (· ++ [item]) h
    | popKept =>
      rw [Tally.exec, Disk.exec, ← h]
      cases hkept : t.kept with
      | nil => exact hkept
      | cons old rest =>
        dsimp only
        split_ifs <;> rfl
    | rewrite p =>
      rw [Tally.exec, Disk.exec]
      have hkept : (if p.path = some (.index day) then
          { t with contents := t.contents ++ [p] } else t).kept = t.kept := by
        split <;> rfl
      rw [hkept, h]
      cases p.path <;> rfl
    | unlink file =>
      rw [Disk.exec]
      split <;> exact h
    | rmdir _ | enqueue _ | enqueueDelete _ | startListing _ | endListing => exact h

theorem Unbroken.of_append {kept : List KeptSegment} {es fs : List Effect}
    (h : Unbroken kept (es ++ fs)) : Unbroken kept es := by
  intro n hn
  have hresumes := h n (by rw [List.length_append]; omega)
  rwa [List.getElem_append_left hn, List.take_append_of_le_length hn.le] at hresumes

/-! ### The archive -/

namespace Archive

variable {v : Disk} {a b c : Archive}

/-- The playlists of all days count their segments, and so does the one in memory. -/
structure Counted (v : Disk) (a : Archive) : Prop where
  days : ∀ day, (tally v.kept day a.effects).Numbered day
  playlist : ∀ day, a.playlist.path = some (.index day) →
    a.playlist.mediaSequence = (tally v.kept day a.effects).dropped ∧
      (tally v.kept day a.effects).contents ≠ []

/-- What became of one archive is another one, and if no playlist was begun anew
too late, the numbers count as before. -/
structure Continues (v : Disk) (a b : Archive) : Prop where
  grows : ∃ es, b.effects = a.effects ++ es
  counted : Unbroken v.kept b.effects → Counted v a → Counted v b

theorem Continues.refl (a : Archive) : Continues v a a :=
  ⟨⟨[], (List.append_nil _).symm⟩, fun _ h => h⟩

theorem Continues.trans (h : Continues v a b) (h' : Continues v b c) : Continues v a c := by
  obtain ⟨es, hb⟩ := h.grows
  obtain ⟨fs, hc⟩ := h'.grows
  refine ⟨⟨es ++ fs, by rw [hc, hb, List.append_assoc]⟩, fun hun hcount => ?_⟩
  refine h'.counted hun (h.counted ?_ hcount)
  rw [hc] at hun
  exact hun.of_append

/-- The playlist of one day is written, and it may be the one in memory. -/
theorem Counted.lists (h : Counted v a) (hinv : ArchiveInv v a) (day : String)
    {es : List Effect} (hb : b.effects = a.effects ++ es)
    (hes : ∀ e ∈ es, e.Lists day (tally v.kept day a.effects).dropped
      (namesOfDay a.kept day))
    (hp : ∀ d, b.playlist.path = some (.index d) →
      b.playlist.mediaSequence = (tally v.kept d a.effects).dropped ∧
        (tally v.kept d b.effects).contents ≠ []) : Counted v b := by
  have hkept : (tally v.kept day a.effects).kept = a.kept :=
    (tally_kept v day a.effects).trans hinv.kept
  obtain ⟨hnumbered, hdropped⟩ := (h.days day).lists (by rw [hkept]; exact hes)
  have hother : ∀ d, d ≠ day → tally v.kept d b.effects = tally v.kept d a.effects := by
    intro d hd
    rw [hb, tally_append]
    exact Tally.foldl_lists_of_ne hd _ hes
  constructor
  · intro d
    by_cases hd : d = day
    · subst hd
      rw [hb, tally_append]
      exact hnumbered
    · rw [hother d hd]
      exact h.days d
  · intro d hpath
    obtain ⟨hseq, hcontents⟩ := hp d hpath
    refine ⟨?_, hcontents⟩
    by_cases hd : d = day
    · subst hd
      rw [hseq, hb, tally_append, hdropped]
    · rw [hother d hd]
      exact hseq


/-- What touches neither list nor playlists. -/
theorem Continues.of_quiet (hinv : ArchiveInv v a) (es : List Effect)
    (hb : b.effects = a.effects ++ es) (hp : b.playlist = a.playlist)
    (hes : ∀ e ∈ es, ∀ day n names, e.Lists day n names) : Continues v a b := by
  refine ⟨⟨es, hb⟩, fun _ h => ?_⟩
  refine h.lists hinv "" hb (fun e he => hes e he _ _ _) fun d hpath => ?_
  rw [hp] at hpath ⊢
  obtain ⟨hseq, hcontents⟩ := h.playlist d hpath
  exact ⟨hseq, hb ▸ contents_append hcontents es⟩

theorem continues_emit (hinv : ArchiveInv v a) {e : Effect}
    (he : ∀ day n names, e.Lists day n names) :
    Continues v a (a.emit e) := by
  refine .of_quiet hinv [e] rfl rfl fun e' he' => ?_
  obtain rfl := List.mem_singleton.mp he'
  exact he

theorem continues_upload (hinv : ArchiveInv v a) (file : File) :
    Continues v a (a.uploadRelative file) := by
  rw [uploadRelative]
  split
  · exact .refl a
  · exact continues_emit hinv fun _ _ _ => trivial

/-! ### Writing a playlist anew -/

/-- The appends to a playlist count on from its first number. -/
theorem appendAll_counts {start : HlsPlaylist} {day : String}
    (hstart : start.path = some (.index day)) {items : List KeptSegment}
    (hitems : ∀ item ∈ items, item.filename ≠ "") :
    ∃ q rewrites, appendAll start items = (q, rewrites) ∧ q.path = some (.index day) ∧
      q.mediaSequence = start.mediaSequence ∧
      q.names = start.names ++ items.map KeptSegment.filename ∧
      ∀ e ∈ rewrites, e.Lists day start.mediaSequence
        (start.names ++ items.map KeptSegment.filename) := by
  -- from the back, as the loop appends
  induction items using List.reverseRecOn with
  | nil => exact ⟨start, [], rfl, hstart, rfl, by simp, by simp⟩
  | append_singleton items item ih =>
    obtain ⟨q, rewrites, hall, hq, hseq, hnames, hrewrites⟩ :=
      ih fun i hi => hitems i (List.mem_append_left _ hi)
    obtain ⟨hop, hpath, hnames'⟩ := HlsPlaylist.append_of_ne q item.filename (by simp [hq])
      (hitems item (by simp)) item.durationSec
    have hseq' : (q.append item.filename item.durationSec).1.mediaSequence =
        start.mediaSequence := by
      rw [← hseq, HlsPlaylist.append]
      split <;> rfl
    have hlisted : (q.append item.filename item.durationSec).1.names =
        start.names ++ (items ++ [item]).map KeptSegment.filename := by
      rw [hnames', hnames, List.map_append, List.append_assoc]
      rfl
    refine ⟨_, _, appendAll_concat hall hop, hpath.trans hq, hseq', hlisted, fun e he => ?_⟩
    rcases List.mem_append.mp he with he | he
    · have hold := hrewrites e he
      cases e with
      | rewrite p =>
        obtain ⟨hp, hpre, hn⟩ := hold
        refine ⟨hp, hpre.trans ?_, hn⟩
        rw [List.map_append, ← List.append_assoc]
        exact List.prefix_append _ _
      | pushKept _ => exact hold
      | popKept => exact hold
      | unlink _ | rmdir _ | enqueue _ | enqueueDelete _ | startListing _ | endListing =>
        trivial
    · obtain rfl := List.mem_singleton.mp he
      exact ⟨hpath.trans hq, by rw [hlisted], hseq'⟩

/-- What is written between the start of a listing and its end. -/
theorem rebuild_counts (hinv : ArchiveInv v a) (day : String) :
    ∃ q rewrites, appendAll (.begin (.index day) a.config.segmentSec) (ofDay a.kept day) =
        (q, rewrites) ∧ q.path = some (.index day) ∧ q.mediaSequence = 0 ∧
      q.names = namesOfDay a.kept day ∧
      ∀ e ∈ [Effect.startListing day, .rewrite (.begin (.index day) a.config.segmentSec)] ++
        rewrites ++ [Effect.endListing], e.Lists day 0 (namesOfDay a.kept day) := by
  obtain ⟨q, rewrites, hall, hq, hseq, hnames, hrewrites⟩ :=
    @appendAll_counts (.begin (.index day) a.config.segmentSec) day rfl (ofDay a.kept day)
      fun item hitem => (hinv.named.plain item (List.mem_filter.mp hitem).1).name_ne_empty
  refine ⟨q, rewrites, hall, hq, hseq, hnames, fun e he => ?_⟩
  simp only [List.mem_append, List.mem_cons, List.not_mem_nil, or_false] at he
  obtain ((rfl | rfl) | he) | rfl := he
  · trivial
  · exact ⟨rfl, List.nil_prefix, rfl⟩
  · exact hrewrites e he
  · trivial

/-- A list of effects that begins a playlist anew does so while its day has lost
no segment. -/
theorem dropped_of_unbroken {day : String} {es : List Effect}
    (h : Unbroken v.kept (a.effects ++ Effect.startListing day :: es)) :
    (tally v.kept day a.effects).dropped = 0 := by
  have hresumes := h a.effects.length (by simp)
  rw [List.getElem_append_right (Nat.le_refl _), List.take_left] at hresumes
  simp only [Nat.sub_self, List.getElem_cons_zero] at hresumes
  exact hresumes

theorem uploads_lists {config : RecordConfig} {file : File} {day : String} {n : ℕ}
    {names : List String} : ∀ e ∈ uploads config file, e.Lists day n names := by
  intro e he
  rw [uploads] at he
  split at he
  · exact absurd he (by simp)
  · obtain rfl := List.mem_singleton.mp he
    trivial

/-- A day's playlist is written anew beside the one in memory. -/
theorem continues_rewriteDayPlaylist (hinv : ArchiveInv v a) (day : String) (ended : Bool) :
    Continues v a (a.rewriteDayPlaylist day ended) := by
  rw [rewriteDayPlaylist]
  split
  · exact .refl a
  obtain ⟨q, rewrites, hall, hq, hseq, hnames, hes⟩ := rebuild_counts hinv day
  dsimp only
  rw [hall]
  dsimp only
  have hlast : ∀ e ∈ (if (ended && q.finish.2) = true then [Effect.rewrite q.finish.1] else []),
      e.Lists day 0 (namesOfDay a.kept day) := by
    intro e he
    split at he
    · obtain rfl := List.mem_singleton.mp he
      refine ⟨(finish_path q).trans hq, by rw [finish_names, hnames], ?_⟩
      rw [← hseq, HlsPlaylist.finish]
      split <;> rfl
    · exact absurd he (by simp)
  generalize (if (ended && q.finish.2) = true then [Effect.rewrite q.finish.1] else []) = last
    at hlast ⊢
  generalize hb : ({ a with
    effects := a.effects ++ [Effect.startListing day,
      .rewrite (.begin (.index day) a.config.segmentSec)] ++ rewrites ++ [Effect.endListing] ++
      last } : Archive) = b
  have hup := emits_upload b (.index day)
  have hplaylist : (b.uploadRelative (.index day)).playlist = a.playlist := by
    rw [(sameDay_upload b _).playlist, ← hb]
  have heffects : (b.uploadRelative (.index day)).effects = a.effects ++
      Effect.startListing day :: (Effect.rewrite (.begin (.index day) a.config.segmentSec) ::
        (rewrites ++ [Effect.endListing] ++ last ++ uploads b.config (.index day))) := by
    rw [hup.effects, ← hb]
    simp
  refine ⟨⟨_, heffects⟩, fun hun h => ?_⟩
  rw [heffects] at hun
  -- a day that is written anew has lost no segment, so it is counted from zero
  have hzero := dropped_of_unbroken hun
  refine h.lists hinv day heffects (fun e he => ?_) fun d hpath => ?_
  · rw [hzero]
    have he' : e ∈ [Effect.startListing day, .rewrite (.begin (.index day) a.config.segmentSec)]
        ++ rewrites ++ [Effect.endListing] ∨ e ∈ last ∨ e ∈ uploads b.config (.index day) := by
      simpa [or_assoc] using he
    rcases he' with he | he | he
    · exact hes e he
    · exact hlast e he
    · exact uploads_lists e he
  · rw [hplaylist] at hpath ⊢
    obtain ⟨hd, hcontents⟩ := h.playlist d hpath
    exact ⟨hd, heffects ▸ contents_append hcontents _⟩

/-- A session's playlist is written anew. -/
theorem continues_listDay (hinv : ArchiveInv v a) (day : String) :
    Continues v a ((a.beginPlaylist day true).listDay day) := by
  obtain ⟨q, rewrites, hall, hq, hseq, hnames, hes⟩ := rebuild_counts hinv day
  generalize hb : ({ a with
    currentDay := day
    playlist := q
    effects := a.effects ++ [Effect.startListing day,
      .rewrite (.begin (.index day) a.config.segmentSec)] ++ rewrites ++
        [Effect.endListing] } : Archive) = b
  have heq : (a.beginPlaylist day true).listDay day =
      (b.uploadRelative (.init day)).uploadRelative (.index day) := by
    rw [listDay_eq a day hall hq, hb]
  have hup := (emits_upload b (.init day)).trans (emits_upload _ (.index day))
  have hsame := (sameDay_upload b (.init day)).trans (sameDay_upload _ (.index day))
  have hplaylist : ((b.uploadRelative (.init day)).uploadRelative (.index day)).playlist = q := by
    rw [hsame.playlist, ← hb]
  have hups : ∀ e ∈ uploads b.config (.init day) ++
      uploads (b.uploadRelative (.init day)).config (.index day),
      e.Lists day 0 (namesOfDay a.kept day) := by
    intro e he
    rcases List.mem_append.mp he with he | he <;> exact uploads_lists e he
  rw [heq]
  generalize uploads b.config (.init day) ++
    uploads (b.uploadRelative (.init day)).config (.index day) = ups at hup hups
  generalize (b.uploadRelative (.init day)).uploadRelative (.index day) = c at hup hplaylist ⊢
  have heffects : c.effects = a.effects ++ Effect.startListing day ::
      (Effect.rewrite (.begin (.index day) a.config.segmentSec) ::
        (rewrites ++ [Effect.endListing] ++ ups)) := by
    rw [hup.effects, ← hb]
    simp
  refine ⟨⟨_, heffects⟩, fun hun h => ?_⟩
  rw [heffects] at hun
  have hzero := dropped_of_unbroken hun
  refine h.lists hinv day heffects (fun e he => ?_) fun d hpath => ?_
  · rw [hzero]
    have he' : e ∈ [Effect.startListing day, .rewrite (.begin (.index day) a.config.segmentSec)]
        ++ rewrites ++ [Effect.endListing] ∨ e ∈ ups := by
      simpa [or_assoc] using he
    rcases he' with he | he
    · exact hes e he
    · exact hups e he
  · -- the playlist in memory is the one that was written
    rw [hplaylist, hq] at hpath
    obtain rfl : day = d := by simpa [File.index] using hpath
    rw [hplaylist, hseq, hzero]
    refine ⟨rfl, ?_⟩
    rw [heffects, tally_append, List.foldl_cons, List.foldl_cons]
    intro hnil
    have hpre := Tally.contents_foldl day (rewrites ++ [Effect.endListing] ++ ups)
      (((tally v.kept day a.effects).exec day (.startListing day)).exec day
        (.rewrite (.begin (.index day) a.config.segmentSec)))
    rw [hnil, List.prefix_nil, Tally.exec, if_pos (by rfl)] at hpre
    exact absurd hpre (by simp)

/-! ### Pruning -/

theorem deletes_lists {config : RecordConfig} {file : File} {day : String} {n : ℕ}
    {names : List String} : ∀ e ∈ deletes config file, e.Lists day n names := by
  intro e he
  rw [deletes] at he
  split at he
  · exact absurd he (by simp)
  · obtain rfl := List.mem_singleton.mp he
    trivial

/-- The oldest segment heads the playlist of its day, and no other one. -/
theorem drop_front_cases (hinv : ArchiveInv v a) {old : KeptSegment} {rest : List KeptSegment}
    (hkept : a.kept = old :: rest) :
    (a.playlist.path = some (.index old.day) ∧ ∃ q, a.playlist.dropFrontIf old.filename =
      (q, true) ∧ q.path = a.playlist.path ∧ q.mediaSequence = a.playlist.mediaSequence + 1 ∧
        q.names = namesOfDay rest old.day) ∨
    (a.playlist.path ≠ some (.index old.day) ∧
      a.playlist.dropFrontIf old.filename = (a.playlist, false)) := by
  by_cases hp : a.playlist.path = some (.index old.day)
  · refine .inl ⟨hp, ?_⟩
    have hnames := (hinv.written hp).names
    rw [hinv.kept, hkept, namesOfDay_cons_of_eq rfl] at hnames
    obtain ⟨front, entries, he, hfront, hrest⟩ := List.map_eq_cons_iff.mp hnames
    rw [HlsPlaylist.dropFrontIf, he]
    dsimp only
    rw [if_neg (by simp [hfront])]
    exact ⟨_, rfl, rfl, rfl, hrest⟩
  · refine .inr ⟨hp, dropFrontIf_of_ne fun hhead => ?_⟩
    by_cases hnone : a.playlist.path = none
    · rw [HlsPlaylist.names, hinv.inactive hnone] at hhead
      exact absurd hhead (by simp)
    obtain ⟨day, hshows⟩ := hinv.active hnone
    have hmem := List.mem_of_mem_head? hhead
    rw [hshows.names, hinv.kept, hkept] at hmem
    obtain ⟨item, hitem, hname⟩ := List.mem_map.mp hmem
    obtain ⟨hitem, hday⟩ := List.mem_filter.mp hitem
    -- a segment of another day has another name
    have happart := hinv.named.apart old (by rw [hkept]; exact List.mem_cons_self) item
      (by rw [hkept]; exact hitem) hname.symm
    refine hp (hshows.path.trans ?_)
    rw [happart, of_decide_eq_true hday]

/-- The oldest segment leaves the list, and the playlist if it is of that day. -/
theorem continues_drop_front (hinv : ArchiveInv v a) {old : KeptSegment}
    {rest : List KeptSegment} (hkept : a.kept = old :: rest) :
    Continues v a ((Archive.emit { a with kept := rest } .popKept).updatePlaylist
      (a.playlist.dropFrontIf old.filename)) := by
  have htally : ∀ day, (tally v.kept day a.effects).kept = old :: rest := fun day =>
    ((tally_kept v day a.effects).trans hinv.kept).trans hkept
  -- what the pop does to the day of the segment, and to another day
  have hother : ∀ day, old.day ≠ day → (tally v.kept day a.effects).exec day .popKept =
      { tally v.kept day a.effects with kept := rest } := by
    intro day hday
    rw [Tally.exec, htally day]
    dsimp only
    rw [if_pos hday]
  have hsame : (tally v.kept old.day a.effects).contents ≠ [] →
      (tally v.kept old.day a.effects).exec old.day .popKept =
        { tally v.kept old.day a.effects with
          kept := rest
          dropped := (tally v.kept old.day a.effects).dropped + 1 } := by
    intro hcontents
    rw [Tally.exec, htally]
    dsimp only
    rw [if_neg (by simp), if_neg hcontents]
  rcases drop_front_cases hinv hkept with ⟨hp, q, hq, hqpath, hseq, hnames⟩ | ⟨hp, hq⟩
  · rw [hq, updatePlaylist, if_pos rfl]
    have heffects : (Archive.emit { Archive.emit { a with kept := rest } .popKept with
        playlist := q } (.rewrite q)).effects = a.effects ++ [.popKept, .rewrite q] := by
      simp [emit]
    refine ⟨⟨_, heffects⟩, fun _ h => ?_⟩
    obtain ⟨hcount, hcontents⟩ := h.playlist old.day hp
    have hpath : q.path = some (.index old.day) := hqpath.trans hp
    have hrewrite : ∀ (day : String) (t : Tally), old.day ≠ day →
        t.exec day (.rewrite q) = t := by
      intro day t hday
      rw [Tally.exec, if_neg]
      rw [hpath]
      simpa [File.index] using hday
    constructor
    · intro day
      rw [heffects, tally_append]
      show (((tally v.kept day a.effects).exec day .popKept).exec day (.rewrite q)).Numbered day
      have hpop := (h.days day).pop
      by_cases hday : old.day = day
      · subst hday
        refine hpop.rewrite hpath ?_ ?_
        · rw [hsame hcontents, hnames]
        · rw [hsame hcontents, hseq, hcount]
      · rw [hrewrite day _ hday]
        exact hpop
    · intro day hday
      have hday' : q.path = some (.index day) := hday
      rw [hpath] at hday'
      obtain rfl : old.day = day := by simpa [File.index] using hday'
      refine ⟨?_, heffects ▸ contents_append hcontents _⟩
      rw [heffects, tally_append]
      show q.mediaSequence = (((tally v.kept old.day a.effects).exec old.day .popKept).exec
        old.day (.rewrite q)).dropped
      rw [hsame hcontents, Tally.exec, if_pos hpath, hseq, hcount]
  · rw [hq, updatePlaylist, if_neg (by simp)]
    refine ⟨⟨[.popKept], rfl⟩, fun _ h => ?_⟩
    have heffects : ∀ day, tally v.kept day (a.effects ++ [.popKept]) =
        (tally v.kept day a.effects).exec day .popKept := fun day => tally_append _ _ _ _
    constructor
    · intro day
      show (tally v.kept day (a.effects ++ [.popKept])).Numbered day
      rw [heffects]
      exact (h.days day).pop
    · intro day hday
      have hday' : a.playlist.path = some (.index day) := hday
      have hne : old.day ≠ day := by
        rintro rfl
        exact hp hday'
      show a.playlist.mediaSequence = (tally v.kept day (a.effects ++ [.popKept])).dropped ∧
        (tally v.kept day (a.effects ++ [.popKept])).contents ≠ []
      rw [heffects, hother day hne]
      exact h.playlist day hday'

theorem continues_pruneFront (hinv : ArchiveInv v a) {old : KeptSegment}
    {rest : List KeptSegment} (hkept : a.kept = old :: rest)
    (hcur : a.playlist.path ≠ none → a.playlist.path = some (.index a.currentDay)) :
    Continues v a (a.pruneFront old rest) := by
  have hold : Plain old.path.name.toList :=
    hinv.named.plain old (by rw [hkept]; exact List.mem_cons_self)
  have hdrop := continues_drop_front hinv hkept
  rw [pruneFront]
  dsimp only
  generalize hb : (Archive.emit { a with kept := rest } .popKept).updatePlaylist
    ((Archive.emit { a with kept := rest } .popKept).playlist.dropFrontIf old.filename) = b
  replace hdrop : Continues v a b := hb ▸ hdrop
  obtain ⟨hbinv, -, hbp, hbd⟩ := inv_drop_front hinv hkept hcur b hb.symm
  obtain ⟨hcinv, hsame⟩ := inv_drop_media hbinv hold _ rfl
  have hmedia : Continues v b ((Archive.emit
      { b with mediaFiles := b.mediaFiles.filter (· ≠ old.path) }
      (.unlink old.path)).deleteRelative old.path) := by
    obtain hemits := emits_delete (Archive.emit
      { b with mediaFiles := b.mediaFiles.filter (· ≠ old.path) } (.unlink old.path)) old.path
    refine .of_quiet hbinv (.unlink old.path :: deletes b.config old.path) ?_
      hsame.playlist fun e he day n names => ?_
    · rw [hemits.effects]
      show b.effects ++ [.unlink old.path] ++ _ = _
      rw [List.append_assoc]
      rfl
    · rcases List.mem_cons.mp he with rfl | he
      · trivial
      · exact deletes_lists e he
  have hc := hdrop.trans hmedia
  generalize (Archive.emit { b with mediaFiles := b.mediaFiles.filter (· ≠ old.path) }
    (.unlink old.path)).deleteRelative old.path = c at hcinv hsame hc ⊢
  split
  · exact hc
  next hday =>
  split
  · -- the files of the day are removed
    have hemits := ((((emits_emit c (.unlink (.init old.day))).trans
      (emits_emit _ (.unlink (.index old.day)))).trans (emits_delete _ (.init old.day))).trans
      (emits_delete _ (.index old.day))).trans (emits_emit _ (.rmdir old.day))
    refine hc.trans (.of_quiet hcinv _ hemits.effects ?_ fun e he day n names => ?_)
    · exact ((sameDay_delete _ _).trans (sameDay_delete _ _)).playlist
    · simp only [List.mem_append, List.mem_singleton] at he
      obtain (((rfl | rfl) | he) | he) | rfl := he
      · trivial
      · trivial
      · exact deletes_lists e he
      · exact deletes_lists e he
      · trivial
  · exact hc.trans (continues_rewriteDayPlaylist hcinv old.day true)

theorem continues_pruneLoop {items : List KeptSegment} : ∀ {a : Archive}, ArchiveInv v a →
    a.kept = items →
    (a.playlist.path ≠ none → a.playlist.path = some (.index a.currentDay)) →
    Continues v a (a.pruneLoop items) := by
  induction items with
  | nil => exact fun _ _ _ => .refl _
  | cons old rest ih =>
    intro a hinv hkept hcur
    rw [pruneLoop]
    split
    · obtain ⟨hinv', hk, hp, hd⟩ := inv_pruneFront hinv hkept hcur
      exact (continues_pruneFront hinv hkept hcur).trans (ih hinv' hk (by rw [hp, hd]; exact hcur))
    · exact .refl a

/-! ### Segments and sessions -/

/-- A closed segment is listed and then added. -/
theorem continues_append_remember (hinv : ArchiveInv v a) {path : File} (hgen : Generated path)
    (hday : path.day = a.currentDay) (hp : a.playlist.path = some (.index a.currentDay))
    (duration : ℚ) (bytes : ℕ) :
    Continues v a ((a.updatePlaylist
      (a.playlist.append path.name duration)).rememberClosedSegment path duration bytes) := by
  have hshows := hinv.written hp
  obtain ⟨hop, hqpath, hqnames⟩ := HlsPlaylist.append_of_ne a.playlist path.name
    (by simp [hp]) hgen.plain.name_ne_empty duration
  have hqseq : (a.playlist.append path.name duration).1.mediaSequence =
      a.playlist.mediaSequence := by
    rw [HlsPlaylist.append]
    split <;> rfl
  generalize a.playlist.append path.name duration = op at hop hqpath hqnames hqseq ⊢
  have heffects : ((a.updatePlaylist op).rememberClosedSegment path duration bytes).effects =
      a.effects ++ [.rewrite op.1, .pushKept ⟨path, duration, bytes⟩] := by
    simp [updatePlaylist, hop, rememberClosedSegment, emit]
  have hplaylist : ((a.updatePlaylist op).rememberClosedSegment path duration bytes).playlist =
      op.1 := updatePlaylist_playlist a op
  generalize (a.updatePlaylist op).rememberClosedSegment path duration bytes = b
    at heffects hplaylist ⊢
  have hpath : op.1.path = some (.index path.day) := by rw [hqpath, hp, hday]
  refine ⟨⟨_, heffects⟩, fun _ h => ?_⟩
  obtain ⟨hcount, hcontents⟩ := h.playlist _ hp
  rw [← hday] at hcount hcontents
  constructor
  · intro day
    rw [heffects, tally_append]
    show (((tally v.kept day a.effects).exec day (.rewrite op.1)).exec day
      (.pushKept ⟨path, duration, bytes⟩)).Numbered day
    -- the rewrite and the kept segment both belong to the day of the path
    by_cases hd : path.day = day
    · subst hd
      refine (h.days path.day).append hpath rfl ?_ (hqseq.trans hcount)
      rw [hqnames, hshows.names, hinv.kept, tally_kept, ← hday]
      exact congrArg (namesOfDay · path.day ++ [path.name]) hinv.kept.symm
    · have hrewrite : (tally v.kept day a.effects).exec day (.rewrite op.1) =
          tally v.kept day a.effects := by
        rw [Tally.exec, if_neg]
        rw [hpath]
        simpa [File.index] using hd
      rw [hrewrite]
      exact (h.days day).push _
  · intro day hd
    rw [hplaylist, hpath] at hd
    obtain rfl : path.day = day := by simpa [File.index] using hd
    refine ⟨?_, heffects ▸ contents_append hcontents _⟩
    rw [hplaylist, heffects, tally_append]
    show op.1.mediaSequence = (((tally v.kept path.day a.effects).exec path.day
      (.rewrite op.1)).exec path.day (.pushKept ⟨path, duration, bytes⟩)).dropped
    rw [hqseq, hcount]
    show _ = ((tally v.kept path.day a.effects).exec path.day (.rewrite op.1)).dropped
    rw [Tally.exec, if_pos hpath]

theorem continues_closeSegment (hinv : ArchiveInv v a) {path : File} (hgen : Generated path)
    (hday : path.day = a.currentDay) (hp : a.playlist.path = some (.index a.currentDay))
    (duration : ℚ) (bytes : ℕ) : Continues v a (a.closeSegment path duration bytes) := by
  have happend := continues_append_remember hinv hgen hday hp duration bytes
  rw [closeSegment]
  generalize hb : (a.updatePlaylist (a.playlist.append path.name duration)).rememberClosedSegment
    path duration bytes = b at happend ⊢
  obtain ⟨hbinv, hbp, hbd⟩ := inv_append_remember hinv hgen hday hp duration bytes b hb.symm
  obtain ⟨hup, -⟩ := hbinv.upload path fun d hd => absurd hd (hgen.plain.ne_index d)
  have hsame := sameDay_upload b path
  have hcur : (b.uploadRelative path).playlist.path ≠ none →
      (b.uploadRelative path).playlist.path =
        some (.index (b.uploadRelative path).currentDay) := by
    intro _
    rw [hsame.playlist, hsame.currentDay, hbp, hbd]
    exact hp
  have hall : Continues v a (b.uploadRelative path).pruneRetained :=
    (happend.trans (continues_upload hbinv path)).trans (continues_pruneLoop hup rfl hcur)
  have hpruned := (inv_pruneRetained hup hcur).1
  generalize (b.uploadRelative path).pruneRetained = c at hall hpruned ⊢
  cases hc : c.playlist.path with
  | none => simpa only [hc] using hall
  | some index => simpa only [hc] using hall.trans (continues_upload hpruned index)

theorem continues_endPlaylist (hinv : ArchiveInv v a) : Continues v a a.endPlaylist := by
  rw [endPlaylist]
  cases hp : a.playlist.path with
  | none => exact .refl a
  | some index =>
    dsimp only
    obtain ⟨day, hshows⟩ := hinv.active (by simp [hp])
    -- ending a playlist leaves its sequence number
    have hfinish : a.playlist.finish.1.mediaSequence = a.playlist.mediaSequence := by
      rw [HlsPlaylist.finish]
      split <;> rfl
    have heffects : (a.updatePlaylist a.playlist.finish).effects = a.effects ++
        if a.playlist.finish.2 = true then [.rewrite a.playlist.finish.1] else [] := by
      rw [updatePlaylist]
      split <;> simp [emit]
    have hplaylist := updatePlaylist_playlist a a.playlist.finish
    generalize a.updatePlaylist a.playlist.finish = b at heffects hplaylist ⊢
    have hup := emits_upload b index
    have hall : (b.uploadRelative index).effects = a.effects ++
        ((if a.playlist.finish.2 = true then [.rewrite a.playlist.finish.1] else []) ++
          uploads b.config index) := by
      rw [hup.effects, heffects, List.append_assoc]
    refine ⟨⟨_, hall⟩, fun _ h => ?_⟩
    obtain ⟨hcount, -⟩ := h.playlist day hshows.path
    refine h.lists hinv day hall (fun e he => ?_) fun d hd => ?_
    · rcases List.mem_append.mp he with he | he
      · split at he
        · obtain rfl := List.mem_singleton.mp he
          refine ⟨(finish_path _).trans hshows.path, ?_, hfinish.trans hcount⟩
          rw [finish_names, hshows.names, hinv.kept]
        · exact absurd he (by simp)
      · exact uploads_lists e he
    · rw [(sameDay_upload b index).playlist, hplaylist] at hd ⊢
      rw [finish_path] at hd
      rw [hfinish]
      obtain ⟨hcount, hcontents⟩ := h.playlist d hd
      exact ⟨hcount, hall ▸ contents_append hcontents _⟩

end Archive

/-! ### The recorder -/

namespace Recorder

variable {v : Disk} {s t : Recorder} {env : Env}

/-- The invariant of the recorder, and the numbers count the segments if no
playlist was begun anew too late. -/
structure RecCounted (v : Disk) (s : Recorder) : Prop where
  recorder : s.RecInv v
  counted : Unbroken v.kept s.archive.effects → Counted v s.archive

/-- The operation goes on from the archive. -/
theorem RecCounted.of_continues (h : RecCounted v s) (ht : t.RecInv v)
    (hc : Continues v s.archive t.archive) : RecCounted v t := by
  refine ⟨ht, fun hun => hc.counted hun (h.counted ?_)⟩
  obtain ⟨es, hes⟩ := hc.grows
  rw [hes] at hun
  exact hun.of_append

theorem continues_closeCurrentSegment (h : s.RecInv v) (env : Env) (endPlaylist : Bool) :
    Continues v s.archive (s.closeCurrentSegment env endPlaylist).archive := by
  obtain ⟨a, heq, hinv, ha⟩ : ∃ a : Archive,
      (s.closeCurrentSegment env endPlaylist).archive =
        (if endPlaylist then a.endPlaylist else a) ∧ ArchiveInv v a ∧
      Continues v s.archive a := by
    cases hopen : s.muxer.segmentOpen with
    | false =>
      refine ⟨s.archive, ?_, h.archive, .refl _⟩
      rw [closeCurrentSegment, hopen]
    | true =>
      cases hpath : s.currentMediaPath with
      | none =>
        refine ⟨s.archive, ?_, h.archive, .refl _⟩
        rw [closeCurrentSegment, hopen, hpath]
      | some path =>
        obtain ⟨hgen, hday, hactive⟩ := h.media hopen path hpath
        refine ⟨s.archive.closeSegment path s.segmentDuration env.bytes, ?_,
          (inv_closeSegment h.archive hgen hday hactive _ _).1,
          continues_closeSegment h.archive hgen hday hactive _ _⟩
        rw [closeCurrentSegment, hopen, hpath]
  rw [heq]
  split
  · exact ha.trans (continues_endPlaylist hinv)
  · exact ha

theorem continues_beginSession (h : s.RecInv v) (he : env.Rewrites) (day : String) :
    Continues v s.archive (s.beginSession env day).2.archive := by
  rcases s.beginSession_cases env day with ⟨muxer, -, hb⟩ | ⟨hno, -⟩ | ⟨-, muxer, -, hb⟩
  · rw [hb]
    exact .refl _
  · simp [he.playlistBegun] at hno
  · rw [hb]
    exact continues_listDay h.archive day

theorem continues_restartSession (h : s.RecInv v) (he : env.Rewrites) (day : String) :
    Continues v s.archive (s.restartSession env day).2.archive := by
  have hclose := continues_closeCurrentSegment h env true
  obtain ⟨hinv, -⟩ := rec_inv_closeCurrentSegment env h true
  rcases s.restartSession_cases env day with ⟨muxer, -, hr⟩ | ⟨muxer, -, hr⟩
  · rw [hr]
    exact hclose
  · rw [hr, he.playlistRebegun]
    exact hclose.trans (continues_listDay hinv.archive day)

theorem continues_openMedia (s : Recorder) (env : Env) (keyframe : MediaFrame)
    (time : LocalTime) : Continues v s.archive (s.openMedia env keyframe time).2.archive := by
  rcases s.openMedia_cases env keyframe time with ⟨muxer, -, he⟩ | ⟨muxer, he⟩
  · rw [he]
    exact .refl _
  · rw [he]
    exact ⟨⟨[], (List.append_nil _).symm⟩, fun _ h => ⟨h.days, h.playlist⟩⟩

/-- The operations of a call preserve the invariant. -/
theorem preserved_rec_counted (he : env.Rewrites) :
    Preserved env (fun _ => True) (RecCounted v) where
  congr h ha hs hp hm := ⟨h.recorder.congr ha hs hp hm, by rw [ha]; exact h.counted⟩
  close endPlaylist h := h.of_continues (rec_inv_closeCurrentSegment env h.recorder _).1
    (continues_closeCurrentSegment h.recorder env endPlaylist)
  endDay h := by
    have hclose := continues_closeCurrentSegment h.recorder env true
    refine h.of_continues (rec_inv_endDay h.recorder) ⟨hclose.grows, fun hun hcount => ?_⟩
    exact ⟨(hclose.counted hun hcount).days, (hclose.counted hun hcount).playlist⟩
  beginSession day h hs := h.of_continues (rec_inv_beginSession h.recorder he hs day)
    (continues_beginSession h.recorder he day)
  restartSession day h := h.of_continues (rec_inv_restartSession h.recorder he day)
    (continues_restartSession h.recorder he day)
  openMedia keyframe time h hs hday _ := h.of_continues
    (rec_inv_openMedia h.recorder hs hday keyframe) (continues_openMedia _ _ _ _)

theorem rec_counted_endWriter (h : RecCounted v s) : RecCounted v (s.endWriter env) :=
  h.of_continues (rec_inv_endWriter h.recorder)
    (continues_closeCurrentSegment h.recorder env true)

end Recorder

/-! ### Runs -/

namespace MediaSequence

open PlaylistForms

/-- A call of `process_frame`, or the end of the writer. -/
def call (s : Recorder) : Label → Recorder
  | .frame frame env => s.processFrame env frame
  | .finish env => s.endWriter env

/-- What the outside answers in a call. -/
def env : Label → Env
  | .frame _ env => env
  | .finish env => env

/-- The contents that the effects write to the playlist file of a day. -/
def contents (es : List Effect) (day : String) : List HlsPlaylist :=
  es.filterMap (Effect.content day)

/-- The segments that a recorder has found or added to its list. -/
def segments (kept : List KeptSegment) (es : List Effect) : List KeptSegment :=
  kept ++ es.filterMap Effect.added

theorem tally_contents (kept : List KeptSegment) (es : List Effect) (day : String) :
    (tally kept day es).contents = contents es day := by
  induction es using List.reverseRecOn with
  | nil => rfl
  | append_singleton es e ih =>
    rw [tally_append, contents, List.filterMap_append, ← contents, ← ih]
    show ((tally kept day es).exec day e).contents = _
    cases e with
    | rewrite p =>
      rw [Tally.exec, List.filterMap_cons, Effect.content]
      split <;> simp
    | popKept =>
      rw [Tally.exec]
      cases (tally kept day es).kept with
      | nil => simp [Effect.content]
      | cons old rest =>
        dsimp only
        split_ifs <;> simp [Effect.content]
    | pushKept _ | unlink _ | rmdir _ | enqueue _ | enqueueDelete _ | startListing _
    | endListing => simp [Tally.exec, Effect.content]

/-- The names of the day are those of its segments. -/
theorem listed_sublist (kept : List KeptSegment) (es : List Effect) (day : String) :
    (tally kept day es).listed.Sublist (namesOfDay (segments kept es) day) := by
  -- from the back: each effect takes from the front or adds what was closed
  induction es using List.reverseRecOn with
  | nil =>
    show (namesOfDay kept day).Sublist (namesOfDay (kept ++ []) day)
    rw [List.append_nil]
  | append_singleton es e ih =>
    have hadded : segments kept (es ++ [e]) = segments kept es ++ e.added.toList := by
      rw [segments, segments, List.filterMap_append, ← List.append_assoc]
      cases h : e.added <;> simp [h]
    rw [tally_append, hadded]
    show ((tally kept day es).exec day e).listed.Sublist _
    cases e with
    | pushKept item =>
      show (if item.day = day then _ else _ : List String).Sublist
        (namesOfDay (segments kept es ++ [item]) day)
      split
      next hday =>
        rw [namesOfDay_concat _ hday]
        exact ih.append (List.Sublist.refl _)
      next hday =>
        have hsame : namesOfDay (segments kept es ++ [item]) day =
            namesOfDay (segments kept es) day := by
          simp [namesOfDay, ofDay, hday]
        rw [hsame]
        exact ih
    | popKept =>
      simp only [Effect.added, Option.toList_none, List.append_nil, Tally.exec]
      cases (tally kept day es).kept with
      | nil => exact ih
      | cons old rest =>
        dsimp only
        split_ifs
        · exact ih
        · exact (List.tail_sublist _).trans ih
        · exact ih
    | rewrite p =>
      simp only [Effect.added, Option.toList_none, List.append_nil, Tally.exec]
      split <;> exact ih
    | unlink _ | rmdir _ | enqueue _ | enqueueDelete _ | startListing _ | endListing =>
      simp only [Effect.added, Option.toList_none, List.append_nil]
      exact ih

/-- Segments of different paths have different names on a day. -/
theorem nodup_namesOfDay {all : List KeptSegment} (h : (all.map KeptSegment.path).Nodup)
    (day : String) : (namesOfDay all day).Nodup := by
  refine ((List.Nodup.of_map _ h).filter _).map_on fun x hx y hy hname => ?_
  obtain ⟨hx, hxday⟩ := List.mem_filter.mp hx
  obtain ⟨hy, hyday⟩ := List.mem_filter.mp hy
  refine List.inj_on_of_nodup_map h hx hy ?_
  have hday : x.path.day = y.path.day :=
    (of_decide_eq_true hxday).trans (of_decide_eq_true hyday).symm
  have hfile : ∀ f g : File, f.day = g.day → f.name = g.name → f = g := by
    intro f g hd hn
    cases f
    cases g
    simp_all
  exact hfile _ _ hday hname

theorem rec_counted_started {config : RecordConfig} {kept : List KeptSegment}
    {mediaFiles : List File} (hgen : ∀ item ∈ kept, Generated item.path) :
    Recorder.RecCounted ⟨kept, fun _ => none, [], none⟩ (started config kept mediaFiles) := by
  set v : Disk := ⟨kept, fun _ => none, [], none⟩ with hv
  have hinv : ArchiveInv v ⟨config, kept, .empty, "", mediaFiles, []⟩ :=
    ⟨⟨fun _ hd => absurd hd (by simp [hv]), rfl, rfl, named_of_generated hgen⟩, fun _ => rfl,
      fun hp => absurd rfl hp⟩
  have hcounted : Counted v ⟨config, kept, .empty, "", mediaFiles, []⟩ := by
    refine ⟨fun day => ⟨rfl, Nat.zero_le _, fun _ => rfl, fun p hp => ?_, List.Pairwise.nil⟩,
      fun day hp => ?_⟩
    · exact absurd hp (by simp [tally])
    · exact absurd hp (by simp [HlsPlaylist.empty])
  have hcontinues := continues_pruneLoop hinv rfl fun hp => absurd rfl hp
  refine ⟨.of_closed (inv_pruneRetained hinv fun hp => absurd rfl hp).1 rfl
    (by simp [started, Recorder.new]), fun hun => hcontinues.counted hun hcounted⟩

theorem rec_counted_call {v : Disk} {s : Recorder} {l : Label} (h : s.RecCounted v)
    (he : (env l).Rewrites) : (call s l).RecCounted v := by
  cases l with
  | frame frame env => exact (Recorder.preserved_rec_counted he).processFrame h frame trivial
  | finish env => exact Recorder.rec_counted_endWriter h

/-- **The media sequence numbers of a run.**  A recorder starts from the segments
that it has found, and the playlist files that it begins can be written.  If no
two segments have the same path, and no playlist is begun anew after a segment
that it listed was dropped, then for every day a segment keeps its number in all
contents of the playlist file, and the first number never decreases. -/
theorem mediaSequence_steady {config : RecordConfig} {kept : List KeptSegment}
    {mediaFiles : List File} (hgen : ∀ item ∈ kept, Generated item.path) {ls : List Label}
    (hrewrites : ∀ l ∈ ls, (env l).Rewrites) {s : Recorder}
    (hs : s = ls.foldl call (started config kept mediaFiles))
    (hpaths : ((segments kept s.archive.effects).map KeptSegment.path).Nodup)
    (hunbroken : Unbroken kept s.archive.effects) (day : String) :
    Steady (contents s.archive.effects day) := by
  have hcounted : s.RecCounted ⟨kept, fun _ => none, [], none⟩ := by
    rw [hs]
    clear hs hpaths hunbroken
    induction ls using List.reverseRecOn with
    | nil => exact rec_counted_started hgen
    | append_singleton ls l ih =>
      rw [List.foldl_concat]
      exact rec_counted_call (ih fun l hl => hrewrites l (List.mem_append_left _ hl))
        (hrewrites l (by simp))
  rw [← tally_contents kept]
  exact ((hcounted.counted hunbroken).days day).steady
    ((nodup_namesOfDay hpaths day).sublist (listed_sublist kept _ day))

/-- Fifteen minutes of the first of January are found, and the retention time
allows for five. -/
def prunedTwice : Recorder :=
  started { retainSec := 300 } [recording 0, recording 5, recording 10]
    [(recording 0).path, (recording 5).path, (recording 10).path]

/-- The playlist of the day is begun anew for each segment that is pruned, and
the number of the last segment is first one and then zero. -/
theorem renumbered : ¬ Steady (contents prunedTwice.archive.effects "2024-01-01") := by
  intro h
  exact absurd h.same (by decide +kernel)

theorem nextDay_steady : Steady (contents
    ([.frame (.video 0 .Key 0 1) nextDay].foldl call restarted).archive.effects "2024-01-01") := by
  refine @mediaSequence_steady _ [recording 0, recording 5] _ (fun item hitem => ?_) _ ?_ _ rfl
    ?_ ?_ _
  · rcases List.mem_cons.mp hitem with rfl | hitem
    · exact ⟨⟨2024, 1, 1, 12, 0, 0⟩, none, rfl⟩
    · obtain rfl := List.mem_singleton.mp hitem
      exact ⟨⟨2024, 1, 1, 12, 5, 0⟩, none, rfl⟩
  · intro l hl
    obtain rfl := List.mem_singleton.mp hl
    exact ⟨rfl, rfl⟩
  · decide +kernel
  · decide +kernel

end MediaSequence

end IpcMini
