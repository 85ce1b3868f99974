/-
The limits of the cache of groups of pictures (`src/media/gop_cache.cpp`).

`push` refuses a frame that the newest group has no room for, and `trim_locked`
drops old groups until the rest is within the limits.  The loop has no check for
an empty deque: that it stops before is a matter of the byte counts.

* `Group` — what holds of every cached group;
* `trimChecked`, `pushChecked` — the code with the check that it lacks;
* `Sound` — the accounting and the limits of a cache, and what the next push
  does;
* **`sound_pushes`** — every reachable cache is sound.
-/
import IpcMini.GopCache

namespace IpcMini

namespace GopCache

variable {config : GopCacheConfig} {c : GopCache} {frame : MediaFrame}

/-! ### Groups -/

/-- The sizes of the frames together. -/
def sizes (frames : List MediaFrame) : ℕ := (frames.map MediaFrame.size).sum

/-- A group is a keyframe and the frames that follow it, within the time that a
group may last. -/
structure Group (config : GopCacheConfig) (gop : CachedGop) : Prop where
  bytes : gop.bytes = sizes gop.frames
  keyed : ∃ key inters, gop.frames = key :: inters ∧ key.keyframe = true ∧
    ∀ f ∈ inters, f.keyframe = false
  lasts : config.maxDurationMs > 0 →
    ∀ f ∈ gop.frames, f.ptsMs - gop.startPtsMs ≤ config.maxDurationMs

/-- The group that a keyframe starts. -/
theorem group_start (hk : frame.keyframe = true) :
    Group config ⟨[frame], frame.ptsMs, frame.ptsMs, frame.size⟩ := by
  refine ⟨by simp [sizes], ⟨frame, [], rfl, hk, fun f hf => absurd hf List.not_mem_nil⟩, ?_⟩
  intro hd f hf
  obtain rfl := List.mem_singleton.mp hf
  show f.ptsMs - f.ptsMs ≤ _
  omega

/-- A group that takes one more frame. -/
theorem Group.extend {gop : CachedGop} (h : Group config gop) (hk : ¬ frame.keyframe = true)
    (hr : gopRefuses config gop frame = false) : Group config (gop.extend frame) := by
  obtain ⟨key, inters, hframes, hkey, hinters⟩ := h.keyed
  have hframes' : (gop.extend frame).frames = key :: (inters ++ [frame]) := by
    rw [CachedGop.extend, hframes, List.cons_append]
  refine ⟨?_, ⟨key, inters ++ [frame], hframes', hkey, fun f hf => ?_⟩, fun hd f hf => ?_⟩
  · show gop.bytes + frame.size = sizes (gop.frames ++ [frame])
    rw [h.bytes, sizes, sizes, List.map_append, List.sum_append]
    rfl
  · rcases List.mem_append.mp hf with hf | hf
    · exact hinters f hf
    · obtain rfl := List.mem_singleton.mp hf
      simpa using hk
  · rcases List.mem_append.mp hf with hf | hf
    · exact h.lasts hd f hf
    · obtain rfl := List.mem_singleton.mp hf
      -- the check of the duration in `push`
      have hfits : ¬ f.ptsMs - gop.startPtsMs > config.maxDurationMs := by
        simp only [gopRefuses, hd, Bool.or_eq_false_iff, Bool.and_eq_false_iff,
          decide_eq_false_iff_not] at hr
        exact hr.2.resolve_left (by simp)
      exact not_lt.mp hfits

/-! ### The loop -/

/-- `trim_locked`, which fails where the loop takes the front of an empty deque
or a group has more bytes than are counted. -/
def trimLockedChecked (config : GopCacheConfig) :
    List CachedGop → ℕ → Option (List CachedGop × ℕ)
  | [], bytes => if overLimit config [] bytes then none else some ([], bytes)
  | front :: rest, bytes =>
    if overLimit config (front :: rest) bytes then
      if bytes < front.bytes then none
      else trimLockedChecked config rest (bytes - front.bytes)
    else some (front :: rest, bytes)

/-- An empty deque that counts no bytes is within every limit. -/
theorem overLimit_nil (config : GopCacheConfig) : overLimit config [] 0 = false := by
  simp [overLimit]

/-- With the bytes counted right the loop stops within the limits, before the
deque is empty. -/
theorem trimLocked_within (config : GopCacheConfig) :
    ∀ {gops : List CachedGop} {bytes : ℕ}, bytes = (gops.map CachedGop.bytes).sum →
      trimLockedChecked config gops bytes = some (trimLocked config gops bytes) ∧
      overLimit config (trimLocked config gops bytes).1 (trimLocked config gops bytes).2 =
        false := by
  intro gops
  induction gops with
  | nil =>
    rintro bytes rfl
    have hnil := overLimit_nil config
    rw [List.map_nil, List.sum_nil, trimLockedChecked, trimLocked, if_neg (by simp [hnil])]
    exact ⟨rfl, hnil⟩
  | cons front rest ih =>
    intro bytes hb
    have hrest : bytes - front.bytes = (rest.map CachedGop.bytes).sum := by simp [hb]
    have hle : ¬ bytes < front.bytes := by simp [hb]
    by_cases hover : overLimit config (front :: rest) bytes = true
    · rw [trimLockedChecked, trimLocked, if_pos hover, if_pos hover, if_neg hle]
      exact ih hrest
    · rw [trimLockedChecked, trimLocked, if_neg hover, if_neg hover]
      exact ⟨rfl, by simpa using hover⟩

def trimChecked (c : GopCache) : Option GopCache :=
  (trimLockedChecked c.config c.gops c.bytes).map fun r => { c with gops := r.1, bytes := r.2 }

/-- `push` with the checked loop. -/
def pushChecked (c : GopCache) : Option MediaFrame → Option (Bool × GopCache)
  | none => some (false, c)
  | some frame =>
    if frame.type ≠ .Video ∨ frame.size = 0 then some (false, c)
    else if c.config.maxGops = 0 ∨ c.config.maxBytes = 0 ∨
        frame.size > c.config.maxBytes then some (false, c)
    else if frame.keyframe then (c.startNewGopLocked frame).trimChecked.map (true, ·)
    else
      match c.gops.getLast? with
      | none => some (false, c)
      | some gop =>
        if gopRefuses c.config gop frame then some (false, c)
        else
          (trimChecked { c with
            bytes := c.bytes + frame.size
            gops := c.gops.dropLast ++ [gop.extend frame] }).map (true, ·)

theorem trimChecked_eq (h : c.Valid) : c.trimChecked = some c.trim := by
  rw [trimChecked, (trimLocked_within c.config h.bytes_eq).1]
  rfl

/-- The loop of a push finds a group to drop whenever it goes on. -/
theorem pushChecked_eq (h : c.Valid) (frame : MediaFrame) :
    c.pushChecked (some frame) = some (c.push (some frame)) := by
  rw [pushChecked, push]
  split
  · rfl
  next hvideo =>
  split
  · rfl
  next hlimits =>
  simp only [not_or, not_not, not_lt] at hvideo hlimits
  split
  next hk =>
    have hfits : c.fits frame :=
      ⟨hvideo.1, hvideo.2, hlimits.1, hlimits.2.1, hlimits.2.2, .inl hk⟩
    rw [trimChecked_eq (valid_start_new_gop h hfits)]
    rfl
  next hk =>
    cases hgop : c.gops.getLast? with
    | none => rfl
    | some gop =>
      dsimp only
      split
      · rfl
      next hr =>
        rw [trimChecked_eq (valid_extend h hgop hlimits.2.2 (by simpa using hr))]
        rfl

/-! ### One push -/

/-- The groups, and the limits of the whole cache. -/
structure Limited (c : GopCache) : Prop extends Valid c where
  groups : ∀ gop ∈ c.gops, Group c.config gop
  within : overLimit c.config c.gops c.bytes = false

theorem limited_new (config : GopCacheConfig) : (new config).Limited where
  toValid := valid_new config
  groups _ hgop := absurd hgop List.not_mem_nil
  within := overLimit_nil config

/-- Trimming a cache of groups leaves one within the limits. -/
theorem limited_trim (h : c.Valid) (hg : ∀ gop ∈ c.gops, Group c.config gop) :
    c.trim.Limited := by
  refine ⟨(trim_spec h).1, fun gop hgop => hg gop ?_, (trimLocked_within c.config h.bytes_eq).2⟩
  by_cases hne : c.gops = []
  · rw [trim, hne, trimLocked] at hgop
    exact absurd hgop List.not_mem_nil
  · exact (trimLocked_spec (h.max_gops_ne hne) h.bytes_eq h.bytes_le).1.subset hgop

theorem limited_push (h : c.Limited) (frame : MediaFrame) : (c.push (some frame)).2.Limited := by
  by_cases hf : c.fits frame
  · by_cases hk : frame.keyframe = true
    · rw [push_key hf hk]
      refine limited_trim (valid_start_new_gop h.toValid hf) fun gop hgop => ?_
      rcases List.mem_append.mp hgop with hgop | hgop
      · exact h.groups gop hgop
      · obtain rfl := List.mem_singleton.mp hgop
        exact group_start hk
    · obtain ⟨gop, hgop, hr, heq⟩ := push_inter hf hk
      rw [heq]
      refine limited_trim (valid_extend h.toValid hgop hf.2.2.2.2.1 hr) fun g hg => ?_
      rcases List.mem_append.mp hg with hg | hg
      · exact h.groups g ((List.dropLast_subset _) hg)
      · obtain rfl := List.mem_singleton.mp hg
        exact (h.groups gop (List.mem_of_getLast? hgop)).extend hk hr
  · rw [push_of_not_fits hf]
    exact h

theorem limited_pushes (config : GopCacheConfig) (frames : List MediaFrame) :
    (pushes config frames).Limited := by
  induction frames using List.reverseRecOn with
  | nil => exact limited_new config
  | append_singleton frames frame ih =>
    rw [pushes_concat]
    exact limited_push ih frame

/-- The snapshot has pushed frames only. -/
theorem snapshot_subset (config : GopCacheConfig) (frames : List MediaFrame) :
    ∀ f ∈ (pushes config frames).snapshotFromLatestKey, f ∈ frames := by
  induction frames using List.reverseRecOn with
  | nil => exact fun f hf => hf
  | append_singleton frames frame ih =>
    obtain ⟨-, hno, hkey, hinter⟩ := snapshot_push (valid_pushes config frames) frame
    rw [pushes_concat]
    intro f hf
    by_cases hfits : (pushes config frames).fits frame
    · by_cases hk : frame.keyframe = true
      · rw [hkey hfits hk] at hf
        exact List.mem_append_right _ hf
      · rw [(hinter hfits hk).2] at hf
        exact List.mem_append.mpr ((List.mem_append.mp hf).imp_left (ih f))
    · rw [hno hfits] at hf
      exact List.mem_append_left _ (ih f hf)

/-- A frame that was not pushed before is stored exactly when it comes last in
the snapshot that follows. -/
theorem push_iff_last {frames : List MediaFrame} (hnew : frame ∉ frames) :
    ((pushes config frames).push (some frame)).1 = true ↔
      ((pushes config frames).push (some frame)).2.snapshotFromLatestKey.getLast? =
        some frame := by
  obtain ⟨-, hno, hkey, hinter⟩ := snapshot_push (valid_pushes config frames) frame
  by_cases hfits : (pushes config frames).fits frame
  · have hlast : ((pushes config frames).push
        (some frame)).2.snapshotFromLatestKey.getLast? = some frame := by
      by_cases hk : frame.keyframe = true
      · rw [hkey hfits hk]
        rfl
      · rw [(hinter hfits hk).2, List.getLast?_concat]
    have htrue : ((pushes config frames).push (some frame)).1 = true := by
      by_cases hk : frame.keyframe = true
      · rw [push_key hfits hk]
      · obtain ⟨gop, -, -, heq⟩ := push_inter hfits hk
        rw [heq]
    exact ⟨fun _ => hlast, fun _ => htrue⟩
  · rw [push_of_not_fits hfits]
    refine ⟨fun h => absurd h (by simp), fun h => ?_⟩
    exact absurd (snapshot_subset config frames frame (List.mem_of_getLast? h)) hnew

/-! ### The cache -/

/-- Accounting and limits of the cache after the pushes of `frames`, and what
the next push does. -/
structure Sound (frames : List MediaFrame) (c : GopCache) : Prop where
  bytes : c.bytes = (c.gops.map CachedGop.bytes).sum
  gop_bytes : ∀ gop ∈ c.gops, gop.bytes = (gop.frames.map MediaFrame.size).sum
  gops_le : c.gops.length ≤ c.config.maxGops
  bytes_le : c.bytes ≤ c.config.maxBytes
  keyed : ∀ gop ∈ c.gops, ∃ key inters, gop.frames = key :: inters ∧ key.keyframe = true ∧
    ∀ f ∈ inters, f.keyframe = false
  gop_lasts : 0 < c.config.maxDurationMs → ∀ gop ∈ c.gops, ∀ f ∈ gop.frames,
    f.ptsMs - gop.startPtsMs ≤ c.config.maxDurationMs
  lasts : 0 < c.config.maxDurationMs → 1 < c.gops.length →
    ∀ back ∈ c.gops.getLast?, ∀ front ∈ c.gops.head?,
      back.endPtsMs - front.startPtsMs ≤ c.config.maxDurationMs
  /-- for a frame that was not pushed before -/
  stored : ∀ frame, frame ∉ frames → ((c.push (some frame)).1 = true ↔
    (c.push (some frame)).2.snapshotFromLatestKey.getLast? = some frame)
  /-- the loop never takes the front of an empty deque -/
  checked : ∀ frame, c.pushChecked (some frame) = some (c.push (some frame))

/-- **Every reachable cache is sound**: whatever the configuration and whatever
frames were pushed. -/
theorem sound_pushes (config : GopCacheConfig) (frames : List MediaFrame) :
    Sound frames (pushes config frames) := by
  have h := limited_pushes config frames
  have hwithin := h.within
  simp only [overLimit, Bool.or_eq_false_iff, Bool.and_eq_false_iff,
    decide_eq_false_iff_not, not_lt] at hwithin
  obtain ⟨⟨hgops, hbytes⟩, hlasts⟩ := hwithin
  refine ⟨h.bytes_eq, fun gop hgop => (h.groups gop hgop).bytes, hgops, hbytes,
    fun gop hgop => (h.groups gop hgop).keyed, fun hd gop hgop => (h.groups gop hgop).lasts hd,
    fun hd hlen back hback front hfront => ?_, fun _ => push_iff_last, pushChecked_eq h.toValid⟩
  rw [Option.mem_def] at hback hfront
  rw [hback, hfront] at hlasts
  rcases hlasts with (hshort | hzero) | hle
  · omega
  · omega
  · simpa using hle

end GopCache

end IpcMini
