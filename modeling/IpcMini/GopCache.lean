/-
The cache of the latest groups of pictures (`src/media/gop_cache.cpp`).

`push` starts a group at a keyframe and appends every other video frame to the
newest group, unless a limit of the configuration refuses the frame;
`trim_locked` drops the oldest groups until the limits hold again.  The cache
is there so that a new viewer gets the latest keyframe and the frames that
follow it.

* `Valid` — the invariant of every reachable cache; it keeps the newest group
  out of reach of `trim_locked` (`trim_locked_getLast?`);
* `snapshot_push` — what one push does to `snapshot_from_latest_key`;
* **`snapshots_contiguous_iff`** — the snapshots are contiguous runs of the
  pushed frames exactly when no inter frame that fits follows a refused frame.
-/
import Mathlib.Algebra.GroupWithZero.Nat
import Mathlib.Algebra.Order.Group.Nat
import Mathlib.Data.List.Induction
import IpcMini.KeyRun
import IpcMini.MediaFrame

namespace IpcMini

open History

/-- `media::GopCacheConfig`. -/
structure GopCacheConfig where
  maxGops : ℕ := 4
  maxBytes : ℕ := 32 * 1024 * 1024
  maxDurationMs : ℤ := 5000

/-- `media::CachedGop`. -/
structure CachedGop where
  frames : List MediaFrame
  startPtsMs : ℤ
  endPtsMs : ℤ
  bytes : ℕ

/-- The group with one more frame. -/
def CachedGop.extend (gop : CachedGop) (frame : MediaFrame) : CachedGop :=
  { gop with
    endPtsMs := frame.ptsMs
    bytes := gop.bytes + frame.size
    frames := gop.frames ++ [frame] }

/-- `media::GopCache`; the front of the deque is the head of `gops`. -/
structure GopCache where
  config : GopCacheConfig
  gops : List CachedGop
  bytes : ℕ

namespace GopCache

/-- The constructor. -/
def new (config : GopCacheConfig) : GopCache := ⟨config, [], 0⟩

/-- The loop condition of `trim_locked`. -/
def overLimit (config : GopCacheConfig) (gops : List CachedGop) (bytes : ℕ) : Bool :=
  decide (gops.length > config.maxGops) || decide (bytes > config.maxBytes) ||
    (decide (gops.length > 1) && decide (config.maxDurationMs > 0) &&
      match gops.getLast?, gops.head? with
      | some back, some front =>
        decide (back.endPtsMs - front.startPtsMs > config.maxDurationMs)
      | _, _ => false)

/-- `GopCache::trim_locked`: pop the front while a limit is exceeded. -/
def trimLocked (config : GopCacheConfig) : List CachedGop → ℕ → List CachedGop × ℕ
  | [], bytes => ([], bytes)
  | front :: rest, bytes =>
    if overLimit config (front :: rest) bytes then
      trimLocked config rest (bytes - front.bytes)
    else (front :: rest, bytes)

/-- `trim_locked` on the members of the cache. -/
def trim (c : GopCache) : GopCache :=
  { c with
    gops := (trimLocked c.config c.gops c.bytes).1
    bytes := (trimLocked c.config c.gops c.bytes).2 }

/-- `GopCache::start_new_gop_locked`. -/
def startNewGopLocked (c : GopCache) (frame : MediaFrame) : GopCache :=
  { c with
    bytes := c.bytes + frame.size
    gops := c.gops ++ [⟨[frame], frame.ptsMs, frame.ptsMs, frame.size⟩] }

/-- The newest group refuses the frame: it is full, or it would last too long. -/
def gopRefuses (config : GopCacheConfig) (gop : CachedGop) (frame : MediaFrame) : Bool :=
  decide (gop.bytes > config.maxBytes - frame.size) ||
    (decide (config.maxDurationMs > 0) &&
      decide (frame.ptsMs - gop.startPtsMs > config.maxDurationMs))

/-- `GopCache::push`. -/
def push (c : GopCache) : Option MediaFrame → Bool × GopCache
  | none => (false, c)
  | some frame =>
    if frame.type ≠ .Video ∨ frame.size = 0 then (false, c)
    else if c.config.maxGops = 0 ∨ c.config.maxBytes = 0 ∨
        frame.size > c.config.maxBytes then (false, c)
    else if frame.keyframe then (true, (c.startNewGopLocked frame).trim)
    else
      match c.gops.getLast? with
      | none => (false, c)
      | some gop =>
        if gopRefuses c.config gop frame then (false, c)
        else
          (true, { c with
            bytes := c.bytes + frame.size
            gops := c.gops.dropLast ++ [gop.extend frame] }.trim)

/-- `GopCache::snapshot_from_latest_key`. -/
def snapshotFromLatestKey (c : GopCache) : List MediaFrame :=
  match c.gops.getLast? with
  | none => []
  | some gop => gop.frames

/-- The cache after a sequence of pushes. -/
def pushes (config : GopCacheConfig) (frames : List MediaFrame) : GopCache :=
  frames.foldl (fun c frame => (c.push (some frame)).2) (new config)

@[simp] theorem pushes_concat (config : GopCacheConfig) (frames : List MediaFrame)
    (frame : MediaFrame) :
    pushes config (frames ++ [frame]) = ((pushes config frames).push (some frame)).2 := by
  simp [pushes]

/-! ### The limits a frame has to meet -/

/-- The frame passes every check of `push`: `push` then stores it, at the head
of a group of its own or at the end of the newest group. -/
def fits (c : GopCache) (frame : MediaFrame) : Prop :=
  frame.type = .Video ∧ frame.size ≠ 0 ∧ c.config.maxGops ≠ 0 ∧ c.config.maxBytes ≠ 0 ∧
    frame.size ≤ c.config.maxBytes ∧
    (frame.keyframe = true ∨ ∃ gop ∈ c.gops.getLast?, gopRefuses c.config gop frame = false)

/-- The invariant of the cache: the bytes are those of the groups, no group is
empty or larger than the whole cache may be, and a cache that may hold no group
holds none. -/
structure Valid (c : GopCache) : Prop where
  bytes_eq : c.bytes = (c.gops.map CachedGop.bytes).sum
  frames_ne : ∀ gop ∈ c.gops, gop.frames ≠ []
  bytes_le : ∀ gop ∈ c.gops, gop.bytes ≤ c.config.maxBytes
  max_gops_ne : c.gops ≠ [] → c.config.maxGops ≠ 0

theorem valid_new (config : GopCacheConfig) : (new config).Valid :=
  ⟨rfl, by simp [new], by simp [new], by simp [new]⟩

/-! ### Trimming -/

/-- A single group within the byte limit is within every limit. -/
theorem overLimit_singleton {config : GopCacheConfig} {gop : CachedGop}
    (hg : config.maxGops ≠ 0) (hb : gop.bytes ≤ config.maxBytes) :
    overLimit config [gop] gop.bytes = false := by
  simp [overLimit]
  omega

/-- Trimming removes groups from the front only, never the newest one, and
keeps the byte count that of the groups. -/
theorem trimLocked_spec {config : GopCacheConfig} (hg : config.maxGops ≠ 0) :
    ∀ {gops : List CachedGop} {bytes : ℕ}, bytes = (gops.map CachedGop.bytes).sum →
      (∀ gop ∈ gops, gop.bytes ≤ config.maxBytes) →
      (trimLocked config gops bytes).1 <:+ gops ∧
      (trimLocked config gops bytes).1.getLast? = gops.getLast? ∧
      (trimLocked config gops bytes).2 =
        ((trimLocked config gops bytes).1.map CachedGop.bytes).sum := by
  intro gops
  induction gops with
  | nil =>
    intro bytes hb _
    exact ⟨List.suffix_rfl, rfl, hb⟩
  | cons front rest ih =>
    intro bytes hb hle
    by_cases hover : overLimit config (front :: rest) bytes
    · rw [trimLocked, if_pos hover]
      have hrest : bytes - front.bytes = (rest.map CachedGop.bytes).sum := by simp [hb]
      obtain ⟨h1, h2, h3⟩ := ih hrest fun gop hgop => hle gop (List.mem_cons_of_mem _ hgop)
      refine ⟨h1.trans (List.suffix_cons _ _), ?_, h3⟩
      rw [h2]
      cases rest with
      | nil =>
        -- the last group alone is within the limits, so the loop has stopped before
        have := overLimit_singleton hg (hle front List.mem_cons_self)
        rw [show bytes = front.bytes by simpa using hb, this] at hover
        exact absurd hover (by simp)
      | cons g gs => simp
    · rw [trimLocked, if_neg hover]
      exact ⟨List.suffix_rfl, rfl, hb⟩

/-- A cache whose groups are within the limits one by one is valid after
trimming, and its newest group is still there. -/
theorem trim_spec {c : GopCache} (h : c.Valid) :
    c.trim.Valid ∧ c.trim.gops.getLast? = c.gops.getLast? := by
  by_cases hne : c.gops = []
  · have : c.trim = c := by
      cases c
      simp_all [trim, trimLocked]
    rw [this]
    exact ⟨h, rfl⟩
  · have hg := h.max_gops_ne hne
    obtain ⟨hs, hl, hb⟩ := trimLocked_spec hg h.bytes_eq h.bytes_le
    refine ⟨⟨hb, fun gop hgop => h.frames_ne gop (hs.subset hgop),
      fun gop hgop => h.bytes_le gop (hs.subset hgop), fun _ => hg⟩, hl⟩

/-! ### One push -/

theorem push_of_not_fits {c : GopCache} {frame : MediaFrame} (h : ¬ c.fits frame) :
    c.push (some frame) = (false, c) := by
  rw [push]
  by_cases h1 : frame.type ≠ .Video ∨ frame.size = 0
  · rw [if_pos h1]
  by_cases h2 : c.config.maxGops = 0 ∨ c.config.maxBytes = 0 ∨
      frame.size > c.config.maxBytes
  · rw [if_neg h1, if_pos h2]
  simp only [not_or, not_not, not_lt] at h1 h2
  have hlast : ¬ (frame.keyframe = true ∨
      ∃ gop ∈ c.gops.getLast?, gopRefuses c.config gop frame = false) := fun hc =>
    h ⟨h1.1, h1.2, h2.1, h2.2.1, h2.2.2, hc⟩
  simp only [not_or, not_exists, not_and] at hlast
  rw [if_neg (by simp [h1]), if_neg (by simp; omega), if_neg hlast.1]
  cases hgop : c.gops.getLast? with
  | none => rfl
  | some gop =>
    have := hlast.2 gop (by simp [hgop])
    simp only [Bool.not_eq_false] at this
    simp [this]

/-- A key frame that fits starts a new group. -/
theorem push_key {c : GopCache} {frame : MediaFrame} (h : c.fits frame)
    (hk : frame.keyframe = true) :
    c.push (some frame) = (true, (c.startNewGopLocked frame).trim) := by
  obtain ⟨ht, hs, hg, hb, hle, -⟩ := h
  rw [push, if_neg (by simp [ht, hs]), if_neg (by simp [hg, hb]; omega), if_pos hk]

/-- Any other frame that fits continues the newest group. -/
theorem push_inter {c : GopCache} {frame : MediaFrame} (h : c.fits frame)
    (hk : ¬ frame.keyframe = true) :
    ∃ gop ∈ c.gops.getLast?, gopRefuses c.config gop frame = false ∧
      c.push (some frame) = (true, { c with
        bytes := c.bytes + frame.size
        gops := c.gops.dropLast ++ [gop.extend frame] }.trim) := by
  obtain ⟨ht, hs, hg, hb, hle, hlast⟩ := h
  obtain ⟨gop, hgop, hr⟩ := hlast.resolve_left hk
  refine ⟨gop, hgop, hr, ?_⟩
  rw [push, if_neg (by simp [ht, hs]), if_neg (by simp [hg, hb]; omega), if_neg hk]
  rw [Option.mem_def] at hgop
  simp only [hgop, hr, Bool.false_eq_true, if_false]

theorem valid_start_new_gop {c : GopCache} {frame : MediaFrame} (hc : c.Valid)
    (h : c.fits frame) : (c.startNewGopLocked frame).Valid := by
  obtain ⟨ht, hs, hg, hb, hle, -⟩ := h
  refine ⟨?_, ?_, ?_, fun _ => hg⟩
  · simp [startNewGopLocked, hc.bytes_eq]
  · intro gop hgop
    rcases List.mem_append.mp hgop with hgop | hgop
    · exact hc.frames_ne gop hgop
    · simp only [List.mem_singleton] at hgop
      simp [hgop]
  · intro gop hgop
    rcases List.mem_append.mp hgop with hgop | hgop
    · exact hc.bytes_le gop hgop
    · simp only [List.mem_singleton] at hgop
      subst hgop
      exact hle

theorem valid_extend {c : GopCache} {gop : CachedGop} {frame : MediaFrame} (hc : c.Valid)
    (hgop : gop ∈ c.gops.getLast?) (hle : frame.size ≤ c.config.maxBytes)
    (hr : gopRefuses c.config gop frame = false) :
    Valid { c with
      bytes := c.bytes + frame.size
      gops := c.gops.dropLast ++ [gop.extend frame] } := by
  have hsplit : c.gops = c.gops.dropLast ++ [gop] :=
    (List.dropLast_append_getLast? gop hgop).symm
  have hbytes : gop.bytes ≤ c.config.maxBytes - frame.size := by
    simp only [gopRefuses, Bool.or_eq_false_iff, decide_eq_false_iff_not] at hr
    omega
  refine ⟨?_, ?_, ?_, fun _ => hc.max_gops_ne (by rw [hsplit]; simp)⟩
  · have := hc.bytes_eq
    rw [hsplit] at this
    simp only [List.map_append, List.sum_append, List.map_cons, List.map_nil, List.sum_cons,
      List.sum_nil] at this
    simp [CachedGop.extend, this]
    omega
  · intro g hg
    rcases List.mem_append.mp hg with hg | hg
    · exact hc.frames_ne g ((List.dropLast_subset _) hg)
    · simp only [List.mem_singleton] at hg
      simp [hg, CachedGop.extend]
  · intro g hg
    rcases List.mem_append.mp hg with hg | hg
    · exact hc.bytes_le g ((List.dropLast_subset _) hg)
    · simp only [List.mem_singleton] at hg
      subst hg
      simp only [CachedGop.extend]
      omega

theorem snapshot_of_getLast? {c : GopCache} {gop : CachedGop} (h : c.gops.getLast? = some gop) :
    c.snapshotFromLatestKey = gop.frames := by
  simp [snapshotFromLatestKey, h]

/-- What one push does: a frame that does not fit changes nothing, a keyframe
that fits is the new snapshot, any other frame that fits is appended to it. -/
theorem snapshot_push {c : GopCache} (hc : c.Valid) (frame : MediaFrame) :
    (c.push (some frame)).2.Valid ∧
    (¬ c.fits frame → (c.push (some frame)).2 = c) ∧
    (c.fits frame → frame.keyframe = true →
      (c.push (some frame)).2.snapshotFromLatestKey = [frame]) ∧
    (c.fits frame → ¬ frame.keyframe = true → c.snapshotFromLatestKey ≠ [] ∧
      (c.push (some frame)).2.snapshotFromLatestKey =
        c.snapshotFromLatestKey ++ [frame]) := by
  by_cases h : c.fits frame
  · by_cases hk : frame.keyframe = true
    · rw [push_key h hk]
      obtain ⟨hv, hl⟩ := trim_spec (valid_start_new_gop hc h)
      refine ⟨hv, fun hn => absurd h hn, fun _ _ => ?_, fun _ hn => absurd hk hn⟩
      rw [snapshot_of_getLast? (hl.trans List.getLast?_concat)]
    · obtain ⟨gop, hgop, hr, heq⟩ := push_inter h hk
      obtain ⟨hv, hl⟩ := trim_spec (valid_extend hc hgop h.2.2.2.2.1 hr)
      have hsnap : c.snapshotFromLatestKey = gop.frames := snapshot_of_getLast? hgop
      rw [heq]
      refine ⟨hv, fun hn => absurd h hn, fun _ hn => absurd hn hk, fun _ _ => ⟨?_, ?_⟩⟩
      · rw [hsnap]
        exact hc.frames_ne gop (List.mem_of_getLast? hgop)
      · rw [hsnap]
        have hlast : (c.push (some frame)).2.gops.getLast? = some (gop.extend frame) := by
          rw [heq, hl]
          simp
        exact (heq ▸ snapshot_of_getLast? hlast)
  · rw [push_of_not_fits h]
    exact ⟨hc, fun _ => rfl, fun h' => absurd h' h, fun h' => absurd h' h⟩

theorem valid_pushes (config : GopCacheConfig) (frames : List MediaFrame) :
    (pushes config frames).Valid := by
  induction frames using List.reverseRecOn with
  | nil => exact valid_new config
  | append_singleton frames frame ih =>
    rw [pushes_concat]
    exact (snapshot_push ih frame).1

/-! ### Contiguous snapshots -/

/-- After each push of the sequence the snapshot is empty, or a contiguous run
of the frames pushed so far that starts at a keyframe. -/
def SnapshotsContiguous (config : GopCacheConfig) (frames : List MediaFrame) : Prop :=
  ∀ pushed, pushed <+: frames →
    KeyRun MediaFrame.keyframe pushed (pushes config pushed).snapshotFromLatestKey

/-- Whenever a frame that is no keyframe fits, the frame pushed just before it
fitted as well. -/
def NoneAfterRefused (config : GopCacheConfig) (frames : List MediaFrame) : Prop :=
  ∀ pre refused frame post, frames = pre ++ refused :: frame :: post →
    ¬ frame.keyframe = true → (pushes config (pre ++ [refused])).fits frame →
    (pushes config pre).fits refused

theorem NoneAfterRefused.of_prefix {config : GopCacheConfig} {frames more : List MediaFrame}
    (h : NoneAfterRefused config (frames ++ more)) : NoneAfterRefused config frames := by
  intro pre refused frame post heq hk hf
  exact h pre refused frame (post ++ more) (by rw [heq]; simp) hk hf

/-- The snapshot is a key run; it is open when the newest frame fitted. -/
theorem keyRun_snapshot {config : GopCacheConfig} {frames : List MediaFrame}
    (h : NoneAfterRefused config frames) :
    KeyRun MediaFrame.keyframe frames (pushes config frames).snapshotFromLatestKey ∧
    ∀ pre frame, frames = pre ++ [frame] → (pushes config pre).fits frame →
      OpenRun MediaFrame.keyframe frames (pushes config frames).snapshotFromLatestKey := by
  induction frames using List.reverseRecOn with
  | nil => exact ⟨keyRun_nil, fun pre frame heq => absurd heq (by simp)⟩
  | append_singleton frames frame ih =>
    obtain ⟨ihrun, ihopen⟩ := ih h.of_prefix
    obtain ⟨-, hno, hkey, hinter⟩ := snapshot_push (valid_pushes config frames) frame
    by_cases hf : (pushes config frames).fits frame
    · have hopen : OpenRun MediaFrame.keyframe (frames ++ [frame])
          (pushes config (frames ++ [frame])).snapshotFromLatestKey := by
        rw [pushes_concat]
        by_cases hk : frame.keyframe = true
        · rw [hkey hf hk]
          exact openRun_key hk
        · obtain ⟨hne, heq⟩ := hinter hf hk
          rw [heq]
          refine OpenRun.concat ?_ hne frame
          -- the frame before this one fitted, so the run was open
          rcases List.eq_nil_or_concat frames with rfl | ⟨pre, prev, rfl⟩
          · exact absurd rfl hne
          · simp only [List.concat_eq_append] at h hf ihopen ⊢
            exact ihopen pre prev rfl (h pre prev frame [] (by simp) hk hf)
      exact ⟨hopen.keyRun, fun _ _ _ _ => hopen⟩
    · rw [pushes_concat, hno hf]
      refine ⟨ihrun.append [frame], fun pre last heq hlast => ?_⟩
      obtain ⟨rfl, heq⟩ := List.append_inj' heq rfl
      obtain rfl : frame = last := by simpa using heq
      exact absurd hlast hf

/-- **The snapshots are contiguous exactly when no frame that fits follows a
refused one.**  A sequence in which every frame that is no keyframe and fits
comes right after a frame that fitted has contiguous snapshots; when the pushed
objects are distinct, no other sequence has. -/
theorem snapshots_contiguous_iff (config : GopCacheConfig) (frames : List MediaFrame) :
    (NoneAfterRefused config frames → SnapshotsContiguous config frames) ∧
    (frames.Nodup → SnapshotsContiguous config frames → NoneAfterRefused config frames) := by
  constructor
  · rintro h pushed ⟨more, rfl⟩
    exact (keyRun_snapshot h.of_prefix).1
  · intro hn hc pre refused frame post heq hk hf
    by_contra hrefused
    have hsame : pushes config (pre ++ [refused]) = pushes config pre := by
      rw [pushes_concat]
      exact (snapshot_push (valid_pushes config pre) refused).2.1 hrefused
    have hpre : KeyRun MediaFrame.keyframe pre
        (pushes config pre).snapshotFromLatestKey :=
      hc pre ⟨refused :: frame :: post, heq.symm⟩
    obtain ⟨hne, hnew⟩ :=
      (snapshot_push (valid_pushes config (pre ++ [refused])) frame).2.2.2 hf hk
    have hrun := hc (pre ++ [refused] ++ [frame]) ⟨post, by rw [heq]; simp⟩
    rw [pushes_concat, hnew] at hrun
    rw [heq, show pre ++ refused :: frame :: post = pre ++ [refused] ++ [frame] ++ post by simp,
      List.nodup_append] at hn
    have hopen := OpenRun.of_concat hn.1 hrun hne
    rw [hsame] at hopen hne
    -- the snapshot ends with the refused frame, which was never stored
    obtain ⟨init, last, hlast⟩ := (List.eq_nil_or_concat _).resolve_left hne
    rw [hlast] at hopen hpre
    obtain ⟨front, hfront⟩ := hopen.1
    rw [List.concat_eq_append, ← List.append_assoc] at hfront
    obtain rfl : last = refused := by simpa using (List.append_inj' hfront rfl).2
    have hmem : last ∈ pre := hpre.1.subset (by simp)
    have hnodup := (List.nodup_append.mp hn.1).1
    exact absurd hmem (by simpa using (List.nodup_append.mp hnodup).2.2 last)

/-- A frame refused for its size leaves a hole: the smaller frame after it is
appended to the group of the keyframe before it. -/
theorem snapshot_gap :
    ¬ SnapshotsContiguous ⟨1, 8, 2000⟩
      [.video 1 .Key 0 4, .video 2 .Inter 40 6, .video 3 .Inter 80 2] := by
  intro h
  have hrun := h _ (List.prefix_refl _)
  exact absurd hrun.1 (by decide)

end GopCache

end IpcMini
