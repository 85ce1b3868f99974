/-
The cap on the size of the recordings where `std::size_t` has 32 bits
(`src/record/segment_recorder.cpp`).

On the 32-bit target the size of a segment, the sum of the sizes and the cap in
bytes are taken modulo 2^32.  The check then compares three wrapped numbers, and
the loop of `prune_retained` stops too early where they compare the wrong way.
The durations are added as doubles.

* `rememberClosedSegment`, `overRetain`, `pruneRetained` — in 32 bits;
* `overRetain_iff` — the check in terms of the true sizes;
* **`capped_iff`** — the kept segments stay below the cap exactly when the
  wrapped numbers tell every excess;
* `uncapped` — a cap of 4096 MiB is no cap.
-/
import Mathlib.Algebra.Order.BigOperators.Group.List
import Mathlib.Data.List.Infix
import Mathlib.Tactic.Linarith
import IpcMini.Archive
import IpcMini.Floats

namespace IpcMini

open Archive Floats

namespace Arm32

/-! ### The functions -/

/-- `remember_closed_segment`: the size that `stat` returns is cast. -/
def rememberClosedSegment (a : Archive) (path : File) (durationSec : ℚ) (stSize : ℕ) :
    Archive :=
  a.rememberClosedSegment path durationSec (UInt32.ofNat stSize).toNat

/-- The sum of the durations in `over_retain`, each addition rounded to a double. -/
def duration (kept : List KeptSegment) : ℚ :=
  (kept.map KeptSegment.durationSec).foldl (fun duration d => binary64.nearest (duration + d)) 0

-- three doubles that add up to more than the 900 of their decimals
example : 900 < duration ([301.862, 300.759, 297.379].map fun d =>
    ⟨⟨"2024-01-01", "a.m4s"⟩, binary64.nearest d, 0⟩) := by
  decide +kernel

/-- The sum of the sizes in `over_retain`. -/
def bytes (kept : List KeptSegment) : UInt32 :=
  (kept.map fun item => UInt32.ofNat item.bytes).foldl (· + ·) 0

/-- The cap in `over_retain`. -/
def maxBytes (config : RecordConfig) : UInt32 :=
  if 0 < config.maxBytesMb then UInt32.ofNat config.maxBytesMb.toNat * 1024 * 1024 else 0

/-- `over_retain`. -/
def overRetain (config : RecordConfig) (kept : List KeptSegment) : Bool :=
  if kept.length ≤ 1 then false
  else
    if 0 < config.retainSec ∧ (config.retainSec : ℚ) < duration kept then true
    else if 0 < maxBytes config ∧ maxBytes config < bytes kept then true
    else false

/-- `prune_retained`, on the segments that are left to look at. -/
def pruneLoop (a : Archive) : List KeptSegment → Archive
  | [] => a
  | old :: rest =>
    if overRetain a.config (old :: rest) then pruneLoop (a.pruneFront old rest) rest else a

/-- `prune_retained`. -/
def pruneRetained (a : Archive) : Archive := pruneLoop a a.kept

/-! ### The check -/

variable {stSize : File → ℕ} {config : RecordConfig} {kept : List KeptSegment}

/-- The sizes in the list are those of the files, cast. -/
def Remembered (stSize : File → ℕ) (kept : List KeptSegment) : Prop :=
  ∀ item ∈ kept, item.bytes = (UInt32.ofNat (stSize item.path)).toNat

instance : Decidable (Remembered stSize kept) :=
  inferInstanceAs (Decidable (∀ item ∈ kept, item.bytes = (UInt32.ofNat (stSize item.path)).toNat))

/-- The true size of the files together. -/
def total (stSize : File → ℕ) (kept : List KeptSegment) : ℕ :=
  (kept.map fun item => stSize item.path).sum

/-- The cap in bytes. -/
def cap (config : RecordConfig) : ℕ := config.maxBytesMb.toNat * 1048576

/-- The list stays one of remembered sizes. -/
theorem remembered_remember {a : Archive} (h : Remembered stSize a.kept) (path : File)
    (durationSec : ℚ) :
    Remembered stSize (rememberClosedSegment a path durationSec (stSize path)).kept := by
  intro item hitem
  rcases List.mem_append.mp hitem with hitem | hitem
  · exact h item hitem
  · obtain rfl := List.mem_singleton.mp hitem
    rfl

theorem toNat_foldl (sizes : List UInt32) (acc : UInt32) :
    (sizes.foldl (· + ·) acc).toNat =
      (acc.toNat + (sizes.map UInt32.toNat).sum) % UInt32.size := by
  induction sizes generalizing acc with
  | nil =>
    have hlt := acc.toNat_lt_size
    simp [Nat.mod_eq_of_lt hlt]
  | cons size sizes ih =>
    rw [List.foldl_cons, ih, UInt32.toNat_add, List.map_cons, List.sum_cons]
    show ((acc.toNat + size.toNat) % UInt32.size + _) % UInt32.size = _
    rw [Nat.mod_add_mod, Nat.add_assoc]

/-- The sum wraps. -/
theorem toNat_bytes (h : Remembered stSize kept) :
    (bytes kept).toNat = total stSize kept % UInt32.size := by
  rw [bytes, toNat_foldl, UInt32.toNat_zero, Nat.zero_add, total]
  induction kept with
  | nil => rfl
  | cons item kept ih =>
    have hitem : item.bytes = stSize item.path % UInt32.size := h item List.mem_cons_self
    have hcast : (UInt32.ofNat item.bytes).toNat = stSize item.path % UInt32.size := by
      rw [UInt32.toNat_ofNat', hitem]
      exact Nat.mod_mod _ _
    have hrest := ih fun item hi => h item (List.mem_cons_of_mem _ hi)
    simp only [List.map_cons, List.sum_cons]
    rw [hcast, Nat.mod_add_mod, Nat.add_mod, hrest, ← Nat.add_mod]

/-- And so does the cap. -/
theorem toNat_maxBytes (h : 0 < config.maxBytesMb) :
    (maxBytes config).toNat = cap config % UInt32.size := by
  rw [maxBytes, if_pos h, UInt32.toNat_mul, UInt32.toNat_mul, UInt32.toNat_ofNat', cap]
  show (config.maxBytesMb.toNat % UInt32.size * 1024 % UInt32.size * 1024) % UInt32.size = _
  rw [Nat.mod_mul_mod, Nat.mul_assoc, Nat.mod_mul_mod]

/-- The duration or, in wrapped numbers, the size is above what is configured. -/
def Tells (stSize : File → ℕ) (config : RecordConfig) (kept : List KeptSegment) : Prop :=
  (0 < config.retainSec ∧ (config.retainSec : ℚ) < duration kept) ∨
    (0 < cap config % UInt32.size ∧
      cap config % UInt32.size < total stSize kept % UInt32.size)

instance : Decidable (Tells stSize config kept) := inferInstanceAs (Decidable (_ ∨ _))

theorem overRetain_iff (h : Remembered stSize kept) (hmb : 0 < config.maxBytesMb) :
    overRetain config kept = true ↔ 2 ≤ kept.length ∧ Tells stSize config kept := by
  have hpos : 0 < maxBytes config ↔ 0 < cap config % UInt32.size := by
    rw [UInt32.lt_iff_toNat_lt, toNat_maxBytes hmb, UInt32.toNat_zero]
  have hlt : maxBytes config < bytes kept ↔
      cap config % UInt32.size < total stSize kept % UInt32.size := by
    rw [UInt32.lt_iff_toNat_lt, toNat_maxBytes hmb, toNat_bytes h]
  rw [Tells, ← hpos, ← hlt, overRetain]
  split
  next hlen => exact ⟨fun hf => absurd hf (by simp), fun hl => absurd hl.1 (by omega)⟩
  next hlen =>
    have hlen' : 2 ≤ kept.length := by omega
    split
    next htime => exact ⟨fun _ => ⟨hlen', .inl htime⟩, fun _ => rfl⟩
    next htime =>
      split
      next hsize => exact ⟨fun _ => ⟨hlen', .inr hsize⟩, fun _ => rfl⟩
      next hsize =>
        exact ⟨fun hf => absurd hf (by simp), fun ht => absurd ht.2 (by simp [htime, hsize])⟩

/-- Where nothing wraps the sizes tell every excess. -/
theorem tells_of_no_wrap (hmb : 0 < config.maxBytesMb) (hcap : config.maxBytesMb < 4096)
    (htotal : total stSize kept < UInt32.size) (hexcess : cap config < total stSize kept) :
    Tells stSize config kept := by
  have hcap' : cap config % UInt32.size = cap config := by
    refine Nat.mod_eq_of_lt ?_
    rw [cap]
    show _ < 4294967296
    omega
  rw [Tells, hcap', Nat.mod_eq_of_lt htotal]
  refine .inr ⟨?_, hexcess⟩
  rw [cap]
  omega

/-! ### The loop -/

/-- The segments that the loop leaves. -/
def retained (config : RecordConfig) : List KeptSegment → List KeptSegment
  | [] => []
  | old :: rest => if overRetain config (old :: rest) then retained config rest else old :: rest

/-- What leaves the list and the configuration alone. -/
structure SameList (a b : Archive) : Prop where
  kept : b.kept = a.kept
  config : b.config = a.config

theorem SameList.trans {a b c : Archive} (h : SameList a b) (h' : SameList b c) : SameList a c :=
  ⟨h'.kept.trans h.kept, h'.config.trans h.config⟩

theorem sameList_emit (a : Archive) (e : Effect) : SameList a (a.emit e) := ⟨rfl, rfl⟩

theorem sameList_upload (a : Archive) (file : File) : SameList a (a.uploadRelative file) := by
  rw [uploadRelative]
  split
  · exact ⟨rfl, rfl⟩
  · exact sameList_emit a _

theorem sameList_delete (a : Archive) (file : File) : SameList a (a.deleteRelative file) := by
  rw [deleteRelative]
  split
  · exact ⟨rfl, rfl⟩
  · exact sameList_emit a _

theorem sameList_updatePlaylist (a : Archive) (op : HlsPlaylist × Bool) :
    SameList a (a.updatePlaylist op) := by
  rw [updatePlaylist]
  split <;> exact ⟨rfl, rfl⟩

theorem sameList_rewrite (a : Archive) (day : String) (ended : Bool) :
    SameList a (a.rewriteDayPlaylist day ended) := by
  rw [rewriteDayPlaylist]
  split
  · exact ⟨rfl, rfl⟩
  · dsimp only
    refine SameList.trans ?_ (sameList_upload _ (.index day))
    exact ⟨rfl, rfl⟩

/-- A turn of the loop drops the oldest segment. -/
theorem sameList_pruneFront (a : Archive) (old : KeptSegment) (rest : List KeptSegment) :
    SameList { a with kept := rest } (a.pruneFront old rest) := by
  rw [pruneFront]
  dsimp only
  have hpop := sameList_emit { a with kept := rest } .popKept
  generalize Archive.emit { a with kept := rest } .popKept = popped at hpop ⊢
  have hdelete : ∀ b : Archive, SameList b
      (({ b with mediaFiles := b.mediaFiles.filter (· ≠ old.path) }.emit
        (.unlink old.path)).deleteRelative old.path) := by
    intro b
    refine SameList.trans ?_ (sameList_delete _ old.path)
    exact ⟨rfl, rfl⟩
  refine ((hpop.trans (sameList_updatePlaylist popped
    (popped.playlist.dropFrontIf old.filename))).trans (hdelete _)).trans ?_
  generalize deleteRelative _ old.path = c
  split
  · exact ⟨rfl, rfl⟩
  split
  · -- the day has no segment left
    refine (sameList_emit c (.unlink (.init old.day))).trans ?_
    refine (sameList_emit _ (.unlink (.index old.day))).trans ?_
    refine (sameList_delete _ (.init old.day)).trans ?_
    refine (sameList_delete _ (.index old.day)).trans ?_
    exact sameList_emit _ (.rmdir old.day)
  · exact sameList_rewrite c _ _

theorem kept_pruneLoop {a : Archive} {items : List KeptSegment} (h : a.kept = items) :
    (pruneLoop a items).kept = retained a.config items := by
  induction items generalizing a with
  | nil => exact h
  | cons old rest ih =>
    have hsame := sameList_pruneFront a old rest
    rw [pruneLoop, retained]
    split
    · rw [ih hsame.kept, hsame.config]
    · exact h

/-! ### The cap -/

/-- At most one segment, or no more bytes than the cap allows. -/
def Capped (stSize : File → ℕ) (config : RecordConfig) (kept : List KeptSegment) : Prop :=
  kept.length ≤ 1 ∨ total stSize kept ≤ cap config

/-- A part of the list has fewer bytes. -/
theorem total_suffix {part : List KeptSegment} (h : part <:+ kept) :
    total stSize part ≤ total stSize kept := by
  obtain ⟨front, rfl⟩ := h
  rw [total, total, List.map_append, List.sum_append]
  omega

/-- The loop stops at the first part that the check lets pass. -/
theorem capped_retained_iff (h : Remembered stSize kept) (hmb : 0 < config.maxBytesMb) :
    Capped stSize config (retained config kept) ↔
      ∀ part, part <:+ kept → 2 ≤ part.length → cap config < total stSize part →
        Tells stSize config part := by
  induction kept with
  | nil =>
    refine ⟨fun _ part hpart hlen => ?_, fun _ => .inl (Nat.zero_le 1)⟩
    obtain rfl := List.suffix_nil.mp hpart
    exact absurd hlen (by simp)
  | cons old rest ih =>
    have hover := overRetain_iff h hmb
    rw [retained]
    split
    next hyes =>
      rw [ih fun item hi => h item (List.mem_cons_of_mem _ hi)]
      constructor
      · intro hrest part hpart hlen hsize
        -- the whole list is over the limit, and the rest is its own case
        rcases List.suffix_cons_iff.mp hpart with rfl | hpart
        · exact (hover.mp hyes).2
        · exact hrest part hpart hlen hsize
      · exact fun hall part hpart => hall part (List.suffix_cons_iff.mpr (.inr hpart))
    next hno =>
      constructor
      · intro hcapped part hpart hlen hsize
        -- a suffix is no longer and no bigger than the list
        have htotal : total stSize part ≤ _ := total_suffix hpart
        have hlength := hpart.length_le
        rcases hcapped with hone | hfits
        · omega
        · omega
      · intro hall
        by_contra hcapped
        rw [Capped, not_or, not_le, not_le] at hcapped
        exact hno (hover.mpr ⟨hcapped.1, hall _ List.suffix_rfl hcapped.1 hcapped.2⟩)

/-- **When the cap holds.**  After `prune_retained` at most one segment is left
or the true sizes fit the cap, exactly when for every end of the list that has
two segments and too many bytes the duration or the wrapped sizes tell so. -/
theorem capped_iff (a : Archive) (stSize : File → ℕ) (hmb : 0 < a.config.maxBytesMb)
    (hsizes : Remembered stSize a.kept) :
    Capped stSize a.config (pruneRetained a).kept ↔
      ∀ part, part <:+ a.kept → 2 ≤ part.length → cap a.config < total stSize part →
        Tells stSize a.config part := by
  rw [pruneRetained, kept_pruneLoop rfl]
  exact capped_retained_iff hsizes hmb

/-- Two segments of 3 GiB. -/
def pair : List KeptSegment :=
  [⟨⟨"2024-01-01", "a.m4s"⟩, 300, 3221225472⟩, ⟨⟨"2024-01-01", "b.m4s"⟩, 300, 3221225472⟩]

/-- An archive with the two segments. -/
def withCap (maxBytesMb : ℤ) : Archive :=
  ⟨{ enabled := true, maxBytesMb := maxBytesMb }, pair, .empty, "2024-01-01", [], []⟩

/-- A cap of one MiB is kept: the sum is 2 GiB in 32 bits. -/
theorem capped_pair : Remembered (fun _ => 3221225472) (withCap 1).kept ∧
    Capped (fun _ => 3221225472) (withCap 1).config (pruneRetained (withCap 1)).kept := by
  have hsizes : Remembered (fun _ => 3221225472) (withCap 1).kept := by decide
  refine ⟨hsizes, (capped_iff _ _ (by decide) hsizes).mpr fun part hpart hlen _ => .inr ?_⟩
  have hwhole : part = pair := hpart.eq_of_length_le hlen
  rw [hwhole]
  decide +kernel

/-- **A cap of 4096 MiB is no cap**: it is zero in 32 bits, so two segments of
3 GiB stay, although the configuration is accepted. -/
theorem uncapped :
    ¬ ∀ (a : Archive) (stSize : File → ℕ), a.config.validateConfig = true →
      0 < a.config.maxBytesMb → Remembered stSize a.kept →
      (∀ item ∈ a.kept, stSize item.path < 9223372036854775808) →
      (pruneRetained a).kept.length ≤ 1 ∨
        total stSize (pruneRetained a).kept ≤ a.config.maxBytesMb.toNat * 1048576 := by
  intro h
  have hsizes : Remembered (fun _ => 3221225472) pair := by decide
  have hpair := h (withCap 4096) (fun _ => 3221225472) (by decide +kernel) (by decide) hsizes
    fun _ _ => by decide
  rw [pruneRetained, kept_pruneLoop rfl] at hpair
  have hmb : 0 < (withCap 4096).config.maxBytesMb := by decide
  have hall := (capped_retained_iff hsizes hmb).mp hpair
  have htells := hall pair List.suffix_rfl (by decide) (by decide +kernel)
  exact absurd htells (by decide +kernel)

end Arm32

end IpcMini
