/-
The file in memory that the MP4 writer works on (`src/packaging/mp4_muxer.cpp`).

The writer is given four callbacks over a vector, a position and a limit.  It may seek
beyond the end and write there.  The callbacks take 64-bit numbers whatever the width of
`size_t` is.

* `bufferRead`, `bufferWrite`, `bufferSeek`, `bufferTell` — as in the source, each
  computation in its own type;
* `File` — a random-access file that reads as zero where nothing was written;
* `NoWrap` — the computations of a call have their exact values;
* `read_refines`, `write_refines`, `seek_refines`, `tell_refines` — each callback is the
  operation of the file;
* **`memory_file_refines`** — over every sequence of calls.
-/
import Mathlib.Data.Int.Init
import Mathlib.Tactic.Ring
import IpcMini.Buffers
import IpcMini.Run
import IpcMini.Writes

namespace IpcMini

namespace MemoryFiles

open Buffers Interleaving Writes

/-! ### The callbacks -/

/-- The width of `size_t` and the `maxSize` of a vector of bytes. -/
structure Platform where
  sizeBits : ℕ
  maxSize : ℕ
  size_bits_le : sizeBits ≤ 64
  max_size_lt_size : maxSize < 2 ^ sizeBits
  max_size_lt_int64 : maxSize < 2 ^ 63

namespace Platform

/-- A number as a `size_t`. -/
def sizeT (p : Platform) (n : ℤ) : ℕ := (n % (2 ^ p.sizeBits : ℕ)).toNat

def SIZE_MAX (p : Platform) : ℕ := 2 ^ p.sizeBits - 1

end Platform

/-- A number as an `int64_t`. -/
def int64 (n : ℤ) : ℤ := Int.bmod n (2 ^ 64)

/-- A number as a `uint64_t`. -/
def uint64 (n : ℤ) : ℕ := (n % (2 ^ 64 : ℕ)).toNat

/-- `MemoryFile`. -/
structure MemoryFile where
  bytes : List UInt8
  position : ℕ
  maxBytes : ℕ
  deriving DecidableEq, Repr

/-- What a call gives back. -/
inductive Answer
  /-- `-1` -/
  | failed
  /-- the exception of `resize` -/
  | thrown
  | done
  | data (bytes : List UInt8)
  | offset (position : ℤ)
  deriving DecidableEq, Repr

/-- `buffer_read`. -/
def bufferRead (p : Platform) (file : MemoryFile) (bytes : UInt64) : Answer × MemoryFile :=
  if bytes.toNat > p.sizeT (file.bytes.length - min file.position file.bytes.length : ℤ) then
    (.failed, file)
  else
    (.data (window file.bytes file.position (p.sizeT bytes.toNat)),
      { file with position := p.sizeT (file.position + p.sizeT bytes.toNat) })

/-- `buffer_write`, of `bytes` bytes at the pointer `data`; `room` says whether the vector
gets the memory if it has to grow. -/
def bufferWrite (p : Platform) (file : MemoryFile) (data : ℕ → UInt8) (bytes : UInt64)
    (room : Bool) : Answer × MemoryFile :=
  if bytes.toNat > p.sizeT (p.SIZE_MAX - file.position) then (.failed, file)
  else
    let last := p.sizeT (file.position + p.sizeT bytes.toNat)
    let source := (List.range (p.sizeT bytes.toNat)).map data
    if last > file.maxBytes then (.failed, file)
    else if last > file.bytes.length then
      if room ∧ last ≤ p.maxSize then
        (.done, { file with
          bytes := memcpy (resize 0 file.bytes last) file.position source, position := last })
      else (.thrown, file)
    else
      (.done, { file with bytes := memcpy file.bytes file.position source, position := last })

/-- The position that `buffer_seek` is asked for. -/
def seekTarget (file : MemoryFile) (offset : Int64) : ℤ :=
  if offset.toInt ≥ 0 then offset.toInt else int64 (int64 file.bytes.length + offset.toInt)

/-- `buffer_seek`. -/
def bufferSeek (p : Platform) (file : MemoryFile) (offset : Int64) : Answer × MemoryFile :=
  let target := seekTarget file offset
  if target < 0 ∨ uint64 target > file.maxBytes ∨ uint64 target > p.SIZE_MAX then (.failed, file)
  else (.done, { file with position := p.sizeT target })

/-- `buffer_tell`. -/
def bufferTell (p : Platform) (file : MemoryFile) : Answer × MemoryFile :=
  if file.position > p.sizeT (2 ^ 63 - 1) then (.failed, file)
  else (.offset (int64 file.position), file)

/-- The calls of the writer. -/
inductive Call
  | read (bytes : UInt64)
  | write (data : ℕ → UInt8) (bytes : UInt64) (room : Bool)
  | seek (offset : Int64)
  | tell

def perform (p : Platform) (file : MemoryFile) : Call → Answer × MemoryFile
  | .read bytes => bufferRead p file bytes
  | .write data bytes room => bufferWrite p file data bytes room
  | .seek offset => bufferSeek p file offset
  | .tell => bufferTell p file

def step (p : Platform) (file : MemoryFile) (call : Call) : Option MemoryFile :=
  some (perform p file call).2

/-- `MemoryFile(max_bytes)`. -/
def create (maxBytes : ℕ) : MemoryFile := ⟨[], 0, maxBytes⟩

/-! ### Random-access files -/

/-- A file without a limit on its bytes, which reads as zero behind its end. -/
@[ext] structure File where
  length : ℕ
  content : ℕ → UInt8
  position : ℕ
  zeroBehind : ∀ i, length ≤ i → content i = 0

namespace File

/-- Read `n` bytes, all of which have to be in the file. -/
def read (f : File) (n : ℕ) : Answer × File :=
  if n ≤ f.length - f.position then
    (.data ((List.range n).map fun k => f.content (f.position + k)),
      { f with position := f.position + n })
  else (.failed, f)

/-- Write `n` bytes.  The file ends behind them if it ended before; a gap is zero. -/
def write (capacity : ℕ) (f : File) (data : ℕ → UInt8) (n : ℕ) : Answer × File :=
  if f.position + n ≤ capacity then
    (.done,
      { length := max f.length (f.position + n)
        content := fun i =>
          if f.position ≤ i ∧ i < f.position + n then data (i - f.position) else f.content i
        position := f.position + n
        zeroBehind := fun i hi => by
          rw [if_neg (by omega)]
          exact f.zeroBehind i (by omega) })
  else (.failed, f)

/-- Go to an offset, counted from the end if it is negative. -/
def seek (capacity : ℕ) (f : File) (offset : ℤ) : Answer × File :=
  let target := if 0 ≤ offset then offset else f.length + offset
  if 0 ≤ target ∧ target ≤ capacity then (.done, { f with position := target.toNat })
  else (.failed, f)

def tell (f : File) : Answer × File := (.offset f.position, f)

def perform (capacity : ℕ) (f : File) : Call → Answer × File
  | .read bytes => f.read bytes.toNat
  | .write data bytes _ => f.write capacity data bytes.toNat
  | .seek offset => f.seek capacity offset.toInt
  | .tell => f.tell

end File

/-- The file that a `MemoryFile` stands for. -/
def view (file : MemoryFile) : File where
  length := file.bytes.length
  content i := file.bytes.getD i 0
  position := file.position
  zeroBehind i hi := by rw [List.getD_eq_getElem?_getD, List.getElem?_eq_none hi]; rfl

/-! ### Exact computations -/

/-- No computation of the call wraps: those that it makes on its way have, in their
types, the values that they have in the integers. -/
def NoWrap (p : Platform) (file : MemoryFile) : Call → Prop
  | .read bytes =>
    (p.sizeT (file.bytes.length - min file.position file.bytes.length : ℤ) : ℤ) =
        file.bytes.length - min file.position file.bytes.length ∧
      (bytes.toNat ≤ file.bytes.length - min file.position file.bytes.length →
        p.sizeT bytes.toNat = bytes.toNat ∧
          p.sizeT (file.position + bytes.toNat) = file.position + bytes.toNat)
  | .write _ bytes _ =>
    (p.sizeT (p.SIZE_MAX - file.position) : ℤ) = p.SIZE_MAX - file.position ∧
      (bytes.toNat ≤ p.SIZE_MAX - file.position →
        p.sizeT bytes.toNat = bytes.toNat ∧
          p.sizeT (file.position + bytes.toNat) = file.position + bytes.toNat)
  | .seek offset =>
    (offset.toInt < 0 → int64 file.bytes.length = file.bytes.length ∧
        int64 (file.bytes.length + offset.toInt) = file.bytes.length + offset.toInt) ∧
      (0 ≤ seekTarget file offset →
        (uint64 (seekTarget file offset) : ℤ) = seekTarget file offset ∧
          (seekTarget file offset ≤ file.maxBytes →
            (p.sizeT (seekTarget file offset) : ℤ) = seekTarget file offset))
  | .tell => int64 file.position = file.position

section Exact

variable (p : Platform)

theorem sizeT_eq {n : ℤ} (h : 0 ≤ n) (hlt : n < (2 ^ p.sizeBits : ℕ)) :
    (p.sizeT n : ℤ) = n := by
  rw [Platform.sizeT, Int.emod_eq_of_lt h hlt, Int.toNat_of_nonneg h]

theorem sizeT_natCast {n : ℕ} (h : n < 2 ^ p.sizeBits) : p.sizeT n = n := by
  have := sizeT_eq p (Int.natCast_nonneg n) (by exact_mod_cast h)
  exact_mod_cast this

theorem int64_eq {n : ℤ} (h : -2 ^ 63 ≤ n) (hlt : n < 2 ^ 63) : int64 n = n := by
  rw [int64, Int.bmod_eq_of_le] <;> norm_num <;> omega

theorem uint64_eq {n : ℤ} (h : 0 ≤ n) (hlt : n < 2 ^ 64) : (uint64 n : ℤ) = n := by
  rw [uint64, Int.emod_eq_of_lt h (by norm_num; omega), Int.toNat_of_nonneg h]

end Exact

/-! ### The invariant -/

/-- What the calls keep of the file. -/
structure Inv (p : Platform) (maxBytes : ℕ) (file : MemoryFile) : Prop where
  max_bytes_eq : file.maxBytes = maxBytes
  max_bytes_lt : maxBytes < 2 ^ p.sizeBits
  size_le : file.bytes.length ≤ maxBytes
  position_le : file.position ≤ maxBytes
  size_le_max : file.bytes.length ≤ p.maxSize
  position_lt : file.position < 2 ^ 63

section Calls

variable {p : Platform} {maxBytes : ℕ} {file : MemoryFile}

theorem inv_create (hmax : maxBytes < 2 ^ p.sizeBits) : Inv p maxBytes (create maxBytes) :=
  ⟨rfl, hmax, Nat.zero_le _, Nat.zero_le _, Nat.zero_le _,
    show 0 < 2 ^ 63 by decide⟩

theorem no_wrap (h : Inv p maxBytes file) (call : Call) : NoWrap p file call := by
  have hmax := h.max_bytes_lt
  have hsize := h.size_le
  have hposition := h.position_le
  have hsize63 : file.bytes.length < 2 ^ 63 :=
    Nat.lt_of_le_of_lt h.size_le_max p.max_size_lt_int64
  cases call with
  | read bytes =>
    refine ⟨sizeT_eq p (by omega) (by omega), fun hread => ?_⟩
    have hbytes := sizeT_natCast p (n := bytes.toNat) (by omega)
    have hsum := sizeT_natCast p (n := file.position + bytes.toNat) (by omega)
    rw [Int.natCast_add] at hsum
    exact ⟨hbytes, hsum⟩
  | write data bytes room =>
    refine ⟨sizeT_eq p ?_ ?_, fun hwrite => ?_⟩
    · rw [Platform.SIZE_MAX]
      omega
    · rw [Platform.SIZE_MAX]
      omega
    · rw [Platform.SIZE_MAX] at hwrite
      have hbytes := sizeT_natCast p (n := bytes.toNat) (by omega)
      have hsum := sizeT_natCast p (n := file.position + bytes.toNat) (by omega)
      rw [Int.natCast_add] at hsum
      exact ⟨hbytes, hsum⟩
  | seek offset =>
    have hlow := offset.le_toInt
    have hhigh := offset.toInt_lt
    have hneg : offset.toInt < 0 → int64 file.bytes.length = file.bytes.length ∧
        int64 (file.bytes.length + offset.toInt) = file.bytes.length + offset.toInt := fun _ =>
      ⟨int64_eq (by omega) (by omega), int64_eq (by omega) (by omega)⟩
    -- a position from the end is below the length, which is itself an `int64_t`
    have htarget : seekTarget file offset < 2 ^ 63 := by
      rw [seekTarget]
      split
      · exact hhigh
      · rw [(hneg (by omega)).1, (hneg (by omega)).2]
        omega
    refine ⟨hneg, fun hpos => ⟨uint64_eq hpos (by omega), fun hle => sizeT_eq p hpos ?_⟩⟩
    rw [h.max_bytes_eq] at hle
    omega
  | tell => exact int64_eq (by omega) (by exact_mod_cast h.position_lt)

/-- The callback does what the operation of the file does. -/
def Refines (maxBytes : ℕ) (file : MemoryFile) (call : Call) (result : Answer × MemoryFile) :
    Prop :=
  File.perform maxBytes (view file) call = (result.1, view result.2)

theorem read_refines (h : Inv p maxBytes file) (bytes : UInt64) :
    Refines maxBytes file (.read bytes) (bufferRead p file bytes) := by
  obtain ⟨hcheck, hexact⟩ := no_wrap h (.read bytes)
  have havail : p.sizeT (file.bytes.length - min file.position file.bytes.length : ℤ) =
      file.bytes.length - file.position := by omega
  simp only [Refines, File.perform, File.read, bufferRead, havail]
  by_cases hfits : bytes.toNat ≤ file.bytes.length - file.position
  · obtain ⟨hbytes, hsum⟩ := hexact (by omega)
    rw [if_pos (show bytes.toNat ≤ (view file).length - (view file).position from hfits),
      if_neg (Nat.not_lt.mpr hfits), hbytes, hsum, window_eq_map hfits 0]
    rfl
  · rw [if_neg (show ¬bytes.toNat ≤ (view file).length - (view file).position from hfits),
      if_pos (Nat.lt_of_not_le hfits)]

/-- The bytes after a write that fits into the vector. -/
theorem view_memcpy {bytes : List UInt8} (data : ℕ → UInt8) {position n : ℕ}
    (hfits : position + n ≤ bytes.length) (i : ℕ) :
    (memcpy bytes position ((List.range n).map data)).getD i 0 =
      if position ≤ i ∧ i < position + n then data (i - position) else bytes.getD i 0 := by
  rw [getD_memcpy (by omega), List.length_map, List.length_range]
  by_cases hin : position ≤ i ∧ i < position + n
  · rw [if_pos hin, if_pos hin, List.getD_eq_getElem?_getD, List.getElem?_map,
      List.getElem?_range (by omega)]
    rfl
  · rw [if_neg hin, if_neg hin]

/-- A write fails for want of space, does not get the memory for a longer vector, or is
that of the file. -/
theorem write_cases (h : Inv p maxBytes file) (data : ℕ → UInt8) (bytes : UInt64)
    (room : Bool) :
    (¬file.position + bytes.toNat ≤ maxBytes ∧
        bufferWrite p file data bytes room = (.failed, file)) ∨
      (file.position + bytes.toNat ≤ maxBytes ∧
        file.bytes.length < file.position + bytes.toNat ∧
        bufferWrite p file data bytes room = (.thrown, file)) ∨
      (file.position + bytes.toNat ≤ maxBytes ∧
        max file.bytes.length (file.position + bytes.toNat) ≤ p.maxSize ∧
        bufferWrite p file data bytes room = (.done,
          { file with
            bytes := memcpy (resize 0 file.bytes (max file.bytes.length
              (file.position + bytes.toNat))) file.position ((List.range bytes.toNat).map data)
            position := file.position + bytes.toNat })) := by
  obtain ⟨hcheck, hexact⟩ := no_wrap h (.write data bytes room)
  have hmax := h.max_bytes_lt
  have hposition := h.position_le
  have hsize := h.size_le_max
  -- the first check is whether the end of the write is a `size_t`
  have hlimit : p.sizeT (p.SIZE_MAX - file.position) = p.SIZE_MAX - file.position := by
    rw [Platform.SIZE_MAX] at hcheck ⊢
    omega
  by_cases hword : bytes.toNat ≤ p.SIZE_MAX - file.position
  · obtain ⟨hbytes, hsum⟩ := hexact hword
    simp only [bufferWrite, hlimit, if_neg (Nat.not_lt.mpr hword), hbytes, hsum,
      h.max_bytes_eq]
    by_cases hfits : file.position + bytes.toNat ≤ maxBytes
    · rw [if_neg (Nat.not_lt.mpr hfits)]
      by_cases hgrows : file.position + bytes.toNat > file.bytes.length
      · rw [if_pos hgrows]
        by_cases hroom : room ∧ file.position + bytes.toNat ≤ p.maxSize
        · rw [if_pos hroom, Nat.max_eq_right (Nat.le_of_lt hgrows)]
          exact .inr (.inr ⟨hfits, hroom.2, by simp⟩)
        · rw [if_neg hroom]
          exact .inr (.inl ⟨hfits, hgrows, rfl⟩)
      · -- a vector that is long enough is not resized
        have hall : resize 0 file.bytes file.bytes.length = file.bytes := by simp [resize]
        rw [if_neg hgrows, Nat.max_eq_left (Nat.not_lt.mp hgrows), hall]
        exact .inr (.inr ⟨hfits, hsize, rfl⟩)
    · rw [if_pos (Nat.lt_of_not_le hfits)]
      exact .inl ⟨hfits, rfl⟩
  · rw [bufferWrite, hlimit, if_pos (Nat.lt_of_not_le hword)]
    rw [Platform.SIZE_MAX] at hword
    exact .inl ⟨by omega, rfl⟩

/-- The bytes after a write that succeeds. -/
def writtenBytes (file : MemoryFile) (data : ℕ → UInt8) (n : ℕ) : List UInt8 :=
  memcpy (resize 0 file.bytes (max file.bytes.length (file.position + n))) file.position
    ((List.range n).map data)

theorem length_writtenBytes (file : MemoryFile) (data : ℕ → UInt8) (n : ℕ) :
    (writtenBytes file data n).length = max file.bytes.length (file.position + n) := by
  rw [writtenBytes, length_memcpy, length_resize]
  rw [List.length_map, List.length_range, length_resize]
  exact Nat.le_max_right _ _

theorem getD_writtenBytes (file : MemoryFile) (data : ℕ → UInt8) (n i : ℕ) :
    (writtenBytes file data n).getD i 0 =
      if file.position ≤ i ∧ i < file.position + n then data (i - file.position)
      else file.bytes.getD i 0 := by
  rw [writtenBytes, view_memcpy, getD_resize (Nat.le_max_left _ _)]
  rw [length_resize]
  exact Nat.le_max_right _ _

/-- A write that is not refused for want of memory is that of the file. -/
theorem write_refines (h : Inv p maxBytes file) (data : ℕ → UInt8) (bytes : UInt64) (room : Bool)
    (hroom : (bufferWrite p file data bytes room).1 ≠ .thrown) :
    Refines maxBytes file (.write data bytes room) (bufferWrite p file data bytes room) := by
  rw [Refines, File.perform, File.write]
  rcases write_cases h data bytes room with ⟨hfull, heq⟩ | ⟨-, -, heq⟩ | ⟨hfits, -, heq⟩
  · rw [heq, if_neg (show ¬(view file).position + bytes.toNat ≤ maxBytes from hfull)]
  · exact absurd (congrArg Prod.fst heq) hroom
  · rw [heq, if_pos (show (view file).position + bytes.toNat ≤ maxBytes from hfits)]
    refine Prod.ext rfl (File.ext ?_ ?_ rfl)
    · exact (length_writtenBytes file data bytes.toNat).symm
    · funext i
      exact (getD_writtenBytes file data bytes.toNat i).symm

theorem seekTarget_eq (h : Inv p maxBytes file) (offset : Int64) :
    seekTarget file offset =
      if 0 ≤ offset.toInt then offset.toInt else file.bytes.length + offset.toInt := by
  obtain ⟨hneg, -⟩ := no_wrap h (.seek offset)
  rw [seekTarget]
  by_cases hsign : 0 ≤ offset.toInt
  · rw [if_pos hsign, if_pos hsign]
  · obtain ⟨hsize, hsum⟩ := hneg (Int.not_le.mp hsign)
    rw [if_neg hsign, if_neg hsign, hsize, hsum]

theorem seek_refines (h : Inv p maxBytes file) (offset : Int64) :
    Refines maxBytes file (.seek offset) (bufferSeek p file offset) := by
  have htarget := seekTarget_eq h offset
  obtain ⟨-, hexact⟩ := no_wrap h (.seek offset)
  have hmax := h.max_bytes_lt
  simp only [Refines, File.perform, File.seek, bufferSeek, h.max_bytes_eq, Platform.SIZE_MAX]
  rw [h.max_bytes_eq] at hexact
  have hlength : ((view file).length : ℤ) = file.bytes.length := rfl
  rw [hlength, ← htarget]
  generalize seekTarget file offset = target at hexact
  by_cases hin : 0 ≤ target ∧ target ≤ maxBytes
  · obtain ⟨huint, hsize⟩ := hexact hin.1
    have hposition : p.sizeT target = target.toNat := by
      have := hsize hin.2
      omega
    rw [if_pos hin, if_neg (by omega), hposition]
    rfl
  · -- the check of the sign comes first, so that the conversion is not reached
    rw [if_neg hin, if_pos ?_]
    rcases Int.lt_or_le target 0 with hlow | hhigh
    · exact .inl hlow
    · obtain ⟨huint, -⟩ := hexact hhigh
      exact .inr (.inl (by omega))

/-- The largest `int64_t` as a `size_t` is the largest number that is both. -/
theorem sizeT_int64_max {n : ℕ} (hsize : n < 2 ^ p.sizeBits) (hint : n < 2 ^ 63) :
    n ≤ p.sizeT (2 ^ 63 - 1) := by
  have hcast : p.sizeT (2 ^ 63 - 1) = (2 ^ 63 - 1) % 2 ^ p.sizeBits := by
    have hnat : ((2 : ℤ) ^ 63 - 1) = ((2 ^ 63 - 1 : ℕ) : ℤ) := by norm_num
    rw [Platform.sizeT, hnat, ← Int.natCast_mod, Int.toNat_natCast]
  rw [hcast]
  rcases Nat.le_total p.sizeBits 63 with hnarrow | hwide
  · -- the narrower power divides the wider one
    obtain ⟨k, hk⟩ := Nat.pow_dvd_pow 2 hnarrow
    have hpos : 0 < k := Nat.pos_of_ne_zero (by rintro rfl; simp at hk)
    obtain ⟨k, rfl⟩ := Nat.exists_eq_succ_of_ne_zero (Nat.ne_of_gt hpos)
    have hsplit : 2 ^ 63 - 1 = 2 ^ p.sizeBits * k + (2 ^ p.sizeBits - 1) := by
      rw [hk, Nat.mul_succ]
      omega
    rw [hsplit, Nat.mul_add_mod, Nat.mod_eq_of_lt (by omega)]
    omega
  · have hle : 2 ^ 63 ≤ 2 ^ p.sizeBits := Nat.pow_le_pow_right (by decide) hwide
    rw [Nat.mod_eq_of_lt (by omega)]
    omega

theorem tell_refines (h : Inv p maxBytes file) :
    Refines maxBytes file .tell (bufferTell p file) := by
  have hexact : int64 file.position = file.position := no_wrap h .tell
  have hlimit := sizeT_int64_max (p := p)
    (Nat.lt_of_le_of_lt h.position_le h.max_bytes_lt) h.position_lt
  rw [Refines, File.perform, File.tell, bufferTell, if_neg (Nat.not_lt.mpr hlimit), hexact]
  rfl

theorem inv_read (h : Inv p maxBytes file) (bytes : UInt64) :
    Inv p maxBytes (bufferRead p file bytes).2 := by
  obtain ⟨hcheck, hexact⟩ := no_wrap h (.read bytes)
  have hposition := h.position_le
  have hsize := h.size_le
  have hlt := h.position_lt
  have hvector := h.size_le_max
  have hvector_lt := p.max_size_lt_int64
  have havail : p.sizeT (file.bytes.length - min file.position file.bytes.length : ℤ) =
      file.bytes.length - file.position := by omega
  rw [bufferRead, havail]
  split
  · exact h
  · next hfits =>
    -- a read of nothing may leave the position behind the end, any other one stays within
    obtain ⟨hbytes, hsum⟩ := hexact (by omega)
    refine ⟨h.max_bytes_eq, h.max_bytes_lt, hsize, ?_, hvector, ?_⟩
    · show p.sizeT (file.position + p.sizeT bytes.toNat) ≤ maxBytes
      rw [hbytes, hsum]
      omega
    · show p.sizeT (file.position + p.sizeT bytes.toNat) < 2 ^ 63
      rw [hbytes, hsum]
      omega

theorem inv_write (h : Inv p maxBytes file) (data : ℕ → UInt8) (bytes : UInt64) (room : Bool) :
    Inv p maxBytes (bufferWrite p file data bytes room).2 := by
  rcases write_cases h data bytes room with ⟨-, heq⟩ | ⟨-, -, heq⟩ | ⟨hfits, hvector, heq⟩
  · rw [heq]
    exact h
  · rw [heq]
    exact h
  · have hlength := length_writtenBytes file data bytes.toNat
    have hsize := h.size_le
    have hvector_lt := p.max_size_lt_int64
    rw [heq]
    refine ⟨h.max_bytes_eq, h.max_bytes_lt, ?_, hfits, ?_, ?_⟩
    · show (writtenBytes file data bytes.toNat).length ≤ maxBytes
      omega
    · show (writtenBytes file data bytes.toNat).length ≤ p.maxSize
      omega
    · show file.position + bytes.toNat < 2 ^ 63
      omega

theorem inv_seek (h : Inv p maxBytes file) (offset : Int64) :
    Inv p maxBytes (bufferSeek p file offset).2 := by
  obtain ⟨-, hexact⟩ := no_wrap h (.seek offset)
  have hmax := h.max_bytes_lt
  have htarget := seekTarget_eq h offset
  have hhigh := offset.toInt_lt
  have hsize := h.size_le_max
  have hvector_lt := p.max_size_lt_int64
  simp only [bufferSeek, h.max_bytes_eq]
  rw [h.max_bytes_eq] at hexact
  split
  · exact h
  · next haccept =>
    simp only [not_or, Int.not_lt, Nat.not_lt] at haccept
    obtain ⟨hpos, hle, -⟩ := haccept
    obtain ⟨huint, hexact⟩ := hexact hpos
    have hposition := hexact (by omega)
    refine ⟨rfl, hmax, h.size_le, ?_, hsize, ?_⟩
    · show p.sizeT (seekTarget file offset) ≤ maxBytes
      omega
    · show p.sizeT (seekTarget file offset) < 2 ^ 63
      split at htarget <;> omega

/-- Every call keeps the invariant. -/
theorem inv_perform (h : Inv p maxBytes file) (call : Call) :
    Inv p maxBytes (perform p file call).2 := by
  cases call with
  | read bytes => exact inv_read h bytes
  | write data bytes room => exact inv_write h data bytes room
  | seek offset => exact inv_seek h offset
  | tell =>
    show Inv p maxBytes (bufferTell p file).2
    rw [bufferTell]
    split <;> exact h

/-- A call that fails changes nothing. -/
theorem failure_unchanged (h : Inv p maxBytes file) (call : Call)
    (hfails : (perform p file call).1 = .failed ∨ (perform p file call).1 = .thrown) :
    (perform p file call).2 = file := by
  cases call with
  | read bytes =>
    rw [perform, bufferRead] at hfails ⊢
    split
    · rfl
    · next hfits =>
      rw [if_neg hfits] at hfails
      simp at hfails
  | write data bytes room =>
    rw [perform] at hfails ⊢
    rcases write_cases h data bytes room with ⟨-, heq⟩ | ⟨-, -, heq⟩ | ⟨-, -, heq⟩
    · rw [heq]
    · rw [heq]
    · simp [heq] at hfails
  | seek offset =>
    rw [perform, bufferSeek] at hfails ⊢
    split
    · rfl
    · next haccept =>
      rw [if_neg haccept] at hfails
      simp at hfails
  | tell =>
    rw [perform, bufferTell]
    split <;> rfl

/-! ### Histories -/

variable (p) in
/-- The bytes that a call writes, with their offsets. -/
def written (e : MemoryFile × Call) : List (ℕ × UInt8) :=
  match e.2 with
  | .write data bytes _ =>
    if (perform p e.1 e.2).1 = .done then
      (List.range bytes.toNat).map fun k => (e.1.position + k, data k)
    else []
  | _ => []

/-- The bytes after a call are those that it writes over those before. -/
theorem content_perform (h : Inv p maxBytes file) (call : Call) (i : ℕ) :
    (perform p file call).2.bytes.getD i 0 =
      apply (written p (file, call)) (fun j => file.bytes.getD j 0) i := by
  cases call with
  | read bytes =>
    show (bufferRead p file bytes).2.bytes.getD i 0 = _
    rw [bufferRead]
    split <;> rfl
  | write data bytes room =>
    show (bufferWrite p file data bytes room).2.bytes.getD i 0 =
      apply (if (bufferWrite p file data bytes room).1 = .done then
        (List.range bytes.toNat).map fun k => (file.position + k, data k) else []) _ i
    rcases write_cases h data bytes room with ⟨-, heq⟩ | ⟨-, -, heq⟩ | ⟨-, -, heq⟩
    · rw [heq, if_neg (by simp)]
      rfl
    · rw [heq, if_neg (by simp)]
      rfl
    · rw [heq, if_pos rfl, apply_range]
      exact getD_writtenBytes file data bytes.toNat i
  | seek offset =>
    show (bufferSeek p file offset).2.bytes.getD i 0 = _
    rw [bufferSeek]
    split <;> rfl
  | tell =>
    show (bufferTell p file).2.bytes.getD i 0 = _
    rw [bufferTell]
    split <;> rfl

variable (p) in
/-- The file is what the past has made of it. -/
structure Recorded (maxBytes : ℕ) (past : List (MemoryFile × Call)) (file : MemoryFile) :
    Prop where
  inv : Inv p maxBytes file
  content : ∀ i, file.bytes.getD i 0 = apply (past.flatMap (written p)) (fun _ => 0) i

theorem recorded_create (hmax : maxBytes < 2 ^ p.sizeBits) :
    Recorded p maxBytes [] (create maxBytes) :=
  ⟨inv_create hmax, fun i => by simp [create]⟩

theorem recorded_step {past : List (MemoryFile × Call)} {next : MemoryFile} {call : Call}
    (h : Recorded p maxBytes past file) (hstep : step p file call = some next) :
    Recorded p maxBytes (past ++ [(file, call)]) next := by
  obtain rfl : (perform p file call).2 = next := Option.some_inj.mp hstep
  refine ⟨inv_perform h.inv call, fun i => ?_⟩
  have hbefore : (fun j => file.bytes.getD j 0) = apply (past.flatMap (written p)) fun _ => 0 :=
    funext h.content
  rw [content_perform h.inv, hbefore, List.flatMap_append, apply_append]
  simp

/-- A call of the writer is the operation of the file, except that a write that needs a
longer vector may not get it. -/
theorem perform_refines (h : Inv p maxBytes file) (call : Call) :
    (perform p file call).1 = .thrown ∨ Refines maxBytes file call (perform p file call) := by
  cases call with
  | read bytes => exact .inr (read_refines h bytes)
  | write data bytes room =>
    by_cases hthrown : (bufferWrite p file data bytes room).1 = .thrown
    · exact .inl hthrown
    · exact .inr (write_refines h data bytes room hthrown)
  | seek offset => exact .inr (seek_refines h offset)
  | tell => exact .inr (tell_refines h)

/-- Only a write that the vector has no room for throws. -/
theorem thrown_grows (h : Inv p maxBytes file) {call : Call}
    (hthrown : (perform p file call).1 = .thrown) : ∃ data bytes room,
      call = .write data bytes room ∧ file.bytes.length < file.position + bytes.toNat := by
  cases call with
  | read bytes =>
    rw [perform, bufferRead] at hthrown
    split at hthrown <;> cases hthrown
  | write data bytes room =>
    rw [perform] at hthrown
    refine ⟨data, bytes, room, rfl, ?_⟩
    rcases write_cases h data bytes room with ⟨-, heq⟩ | ⟨-, hgrows, -⟩ | ⟨-, -, heq⟩
    · rw [heq] at hthrown
      cases hthrown
    · exact hgrows
    · rw [heq] at hthrown
      cases hthrown
  | seek offset =>
    rw [perform, bufferSeek] at hthrown
    split at hthrown <;> cases hthrown
  | tell =>
    rw [perform, bufferTell] at hthrown
    split at hthrown <;> cases hthrown

end Calls

/-- **A `MemoryFile` is a random-access file** of capacity `max_bytes`.  After every
sequence of calls it keeps its limits, and its bytes are those written last, and zero
elsewhere; the next call computes without wrapping, is the operation of that file (or,
where the vector has to grow, may throw), and changes nothing if it fails. -/
theorem memory_file_refines (p : Platform) (maxBytes : ℕ) (hmax : maxBytes < 2 ^ p.sizeBits)
    (calls : List Call) (file : MemoryFile)
    (hrun : run (step p) (create maxBytes) calls = some file) :
    file.bytes.length ≤ maxBytes ∧ file.position ≤ maxBytes ∧
      (∀ i, (view file).content i =
        apply ((trace (step p) (create maxBytes) calls).flatMap (written p)) (fun _ => 0) i) ∧
      ∀ call, NoWrap p file call ∧
        (File.perform maxBytes (view file) call =
            ((perform p file call).1, view (perform p file call).2) ∨
          (perform p file call).1 = .thrown ∧ ∃ data bytes room, call = .write data bytes room ∧
            file.bytes.length < file.position + bytes.toNat) ∧
        ((perform p file call).1 = .failed ∨ (perform p file call).1 = .thrown →
          (perform p file call).2 = file) := by
  have hrecorded : Recorded p maxBytes (trace (step p) (create maxBytes) calls) file :=
    run_trace_invariant (fun past s call t h hstep => recorded_step h hstep)
      (recorded_create hmax) hrun
  have hinv := hrecorded.inv
  refine ⟨hinv.size_le, hinv.position_le, hrecorded.content, fun call => ?_⟩
  refine ⟨no_wrap hinv call, ?_, failure_unchanged hinv call⟩
  rcases perform_refines hinv call with hthrown | hrefines
  · exact .inr ⟨hthrown, thrown_grows hinv hthrown⟩
  · exact .inl hrefines

/-- A processor of 32 bits. -/
def wordPlatform : Platform := ⟨32, 2 ^ 31 - 1, by decide, by decide, by decide⟩

/-- Two bytes are written, two offsets are left out, two more bytes follow, and the last
write does not fit. -/
def writerCalls : List Call :=
  [.write (fun k => .ofNat (k + 1)) 2 true, .seek 4, .write (fun _ => 7) 2 true,
    .write (fun _ => 9) 100 true, .seek (-5)]

/-- The gap reads as zero, and the position is counted from the end. -/
theorem gap_reads_zero : ∃ file,
    run (step wordPlatform) (create 8) writerCalls = some file ∧
      file.bytes = [1, 2, 0, 0, 7, 7] ∧ file.position = 1 ∧ file.bytes.length ≤ 8 := by
  have hrun : run (step wordPlatform) (create 8) writerCalls =
      some ⟨[1, 2, 0, 0, 7, 7], 1, 8⟩ := by decide +kernel
  exact ⟨_, hrun, rfl, rfl,
    (memory_file_refines wordPlatform 8 (by decide) writerCalls _ hrun).1⟩

end MemoryFiles

end IpcMini
