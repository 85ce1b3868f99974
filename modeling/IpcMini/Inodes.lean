/-
Names, inodes and open files.

A file system maps names to inodes and inodes to their bytes.  Opening a file
for writing truncates the inode behind the name, and whoever has an inode open
keeps it when the name goes away or is given to another one.

* `create`, `write`, `read`, `rename`, `unlink` — the operations;
* `content_create_of_ne`, `content_write_of_ne` — they touch one inode only;
* **`content_write_end`** — a write at the end of an inode appends;
* `prefix_read` — reads that follow each other read a part of the inode.
-/
import Mathlib.Data.List.Basic
import Mathlib.Data.Option.Basic
import Mathlib.Logic.Function.Basic

namespace Inodes

variable {ν β : Type*}

/-- The bytes of every inode, and the inode behind every name. -/
structure Files (ν β : Type*) where
  inodes : List (List β)
  names : ν → Option ℕ
  valid : ∀ name ino, names name = some ino → ino < inodes.length

namespace Files

/-- A file system without files. -/
def empty : Files ν β := ⟨[], fun _ => none, fun _ _ h => absurd h (by simp)⟩

/-- The bytes of an inode. -/
def content (fs : Files ν β) (ino : ℕ) : List β := fs.inodes[ino]?.getD []

/-- The bytes behind a name. -/
def lookup (fs : Files ν β) (name : ν) : Option (List β) := (fs.names name).map fs.content

/-- Up to `count` bytes from an offset on. -/
def read (fs : Files ν β) (ino offset count : ℕ) : List β :=
  ((fs.content ino).drop offset).take count

/-- Bytes overwritten from an offset on; a gap before it is filled up. -/
def overwrite [Inhabited β] (old : List β) (offset : ℕ) (bytes : List β) : List β :=
  old.take offset ++ List.replicate (offset - old.length) default ++ bytes ++
    old.drop (offset + bytes.length)

def write [Inhabited β] (fs : Files ν β) (ino offset : ℕ) (bytes : List β) : Files ν β where
  inodes := fs.inodes.set ino (overwrite (fs.content ino) offset bytes)
  names := fs.names
  valid := fun name i h => by simpa using fs.valid name i h

/-- A new inode without bytes. -/
def allocate (fs : Files ν β) : Files ν β where
  inodes := fs.inodes ++ [[]]
  names := fs.names
  valid := fun name ino h => by
    rw [List.length_append]
    exact Nat.lt_add_right _ (fs.valid name ino h)

/-- All bytes of an inode are dropped. -/
def truncate (fs : Files ν β) (ino : ℕ) : Files ν β where
  inodes := fs.inodes.set ino []
  names := fs.names
  valid := fun name i h => by simpa using fs.valid name i h

/-! ### Bytes -/

theorem content_of_le {fs : Files ν β} {ino : ℕ} (h : fs.inodes.length ≤ ino) :
    fs.content ino = [] := by
  rw [content, List.getElem?_eq_none h, Option.getD_none]

@[simp] theorem content_allocate (fs : Files ν β) (ino : ℕ) :
    fs.allocate.content ino = fs.content ino := by
  rcases Nat.lt_trichotomy ino fs.inodes.length with h | rfl | h
  · simp [content, allocate, List.getElem?_append_left h]
  · simp [content, allocate]
  · rw [content_of_le (Nat.le_of_lt h), content_of_le]
    rw [allocate, List.length_append]
    exact h

theorem content_truncate_self (fs : Files ν β) (ino : ℕ) : (fs.truncate ino).content ino = [] := by
  simp only [content, truncate, List.getElem?_set_self']
  cases fs.inodes[ino]? <;> rfl

theorem content_truncate_of_ne (fs : Files ν β) {ino ino' : ℕ} (h : ino' ≠ ino) :
    (fs.truncate ino).content ino' = fs.content ino' := by
  simp only [content, truncate, List.getElem?_set_ne h.symm]

theorem content_write_of_ne [Inhabited β] (fs : Files ν β) {ino ino' : ℕ} (h : ino' ≠ ino)
    (offset : ℕ) (bytes : List β) : (fs.write ino offset bytes).content ino' = fs.content ino' := by
  simp only [content, write, List.getElem?_set_ne h.symm]

/-- **A write at the end of an inode appends to it.** -/
theorem content_write_end [Inhabited β] (fs : Files ν β) {ino : ℕ} (h : ino < fs.inodes.length)
    (bytes : List β) :
    (fs.write ino (fs.content ino).length bytes).content ino = fs.content ino ++ bytes := by
  have hset : (fs.write ino (fs.content ino).length bytes).content ino =
      overwrite (fs.content ino) (fs.content ino).length bytes := by
    simp only [content, write, List.getElem?_set_self h, Option.getD_some]
  simp [hset, overwrite]

/-- A reader that goes on where it stopped has read a part of the inode. -/
theorem prefix_read {fs : Files ν β} {ino : ℕ} (first : ℕ) {sent : List β}
    (h : sent <+: (fs.content ino).drop first) (count : ℕ) :
    sent ++ fs.read ino (first + sent.length) count <+: (fs.content ino).drop first := by
  obtain ⟨rest, hrest⟩ := h
  have hdrop : (fs.content ino).drop (first + sent.length) = rest := by
    rw [← List.drop_drop, ← hrest, List.drop_left]
  rw [read, hdrop, ← hrest]
  exact (List.prefix_append_right_inj _).mpr (List.take_prefix _ _)

@[simp] theorem names_write [Inhabited β] (fs : Files ν β) (ino offset : ℕ) (bytes : List β) :
    (fs.write ino offset bytes).names = fs.names := rfl

@[simp] theorem length_write [Inhabited β] (fs : Files ν β) (ino offset : ℕ) (bytes : List β) :
    (fs.write ino offset bytes).inodes.length = fs.inodes.length := by
  simp [write]

/-! ### Names -/

variable [DecidableEq ν]

/-- A name is given to an inode, or taken away. -/
def setName (fs : Files ν β) (name : ν) (target : Option ℕ)
    (h : ∀ ino, target = some ino → ino < fs.inodes.length) : Files ν β where
  inodes := fs.inodes
  names := Function.update fs.names name target
  valid := by
    intro name' ino hino
    by_cases hn : name' = name
    · subst hn
      rw [Function.update_self] at hino
      exact h ino hino
    · rw [Function.update_of_ne hn] at hino
      exact fs.valid name' ino hino

/-- Open for writing: the inode behind the name is truncated, or a new one is
made. -/
def create (fs : Files ν β) (name : ν) : ℕ × Files ν β :=
  match fs.names name with
  | some ino => (ino, fs.truncate ino)
  | none =>
    (fs.inodes.length,
      fs.allocate.setName name (some fs.inodes.length) fun ino h => by
        obtain rfl := Option.some_inj.mp h
        simp [allocate])

/-- The name `target` gets the inode behind `source`, which loses its name. -/
def rename (fs : Files ν β) (source target : ν) : Option (Files ν β) :=
  match h : fs.names source with
  | some ino =>
    some ((fs.setName source none fun _ h => absurd h (by simp)).setName target (some ino)
      fun _ hi => Option.some_inj.mp hi ▸ fs.valid source ino h)
  | none => none

def unlink (fs : Files ν β) (name : ν) : Files ν β :=
  fs.setName name none fun _ h => absurd h (by simp)

@[simp] theorem content_setName (fs : Files ν β) (name : ν) (target : Option ℕ)
    (h : ∀ ino, target = some ino → ino < fs.inodes.length) (ino : ℕ) :
    (fs.setName name target h).content ino = fs.content ino := rfl

theorem content_create_self (fs : Files ν β) (name : ν) :
    (fs.create name).2.content (fs.create name).1 = [] := by
  unfold create
  split
  · exact content_truncate_self fs _
  · rw [content_setName, content_allocate, content_of_le (Nat.le_refl _)]

/-- Opening a file for writing leaves the other inodes alone. -/
theorem content_create_of_ne (fs : Files ν β) (name : ν) {ino : ℕ}
    (h : ino ≠ (fs.create name).1) : (fs.create name).2.content ino = fs.content ino := by
  revert h
  unfold create
  split
  · exact content_truncate_of_ne fs
  · exact fun _ => content_allocate fs ino

@[simp] theorem content_unlink (fs : Files ν β) (name : ν) (ino : ℕ) :
    (fs.unlink name).content ino = fs.content ino := rfl

theorem names_create_self (fs : Files ν β) (name : ν) :
    (fs.create name).2.names name = some (fs.create name).1 := by
  unfold create
  split
  case h_1 ino h => exact h
  case h_2 h => exact Function.update_self _ _ _

theorem names_create_of_ne (fs : Files ν β) {name name' : ν} (h : name' ≠ name) :
    (fs.create name).2.names name' = fs.names name' := by
  unfold create
  split
  · rfl
  · exact Function.update_of_ne h _ _

theorem length_create_le (fs : Files ν β) (name : ν) :
    fs.inodes.length ≤ (fs.create name).2.inodes.length := by
  unfold create
  split
  · simp [truncate]
  · simp [setName, allocate]

/-- Opening a file for writing makes no other inode than the opened one. -/
theorem lt_of_lt_create (fs : Files ν β) (name : ν) {ino : ℕ}
    (hlt : ino < (fs.create name).2.inodes.length) (hne : ino ≠ (fs.create name).1) :
    ino < fs.inodes.length := by
  revert hlt hne
  unfold create
  split
  · simp only [truncate, List.length_set]
    exact fun hlt _ => hlt
  · simp only [setName, allocate, List.length_append, List.length_singleton]
    omega

theorem create_lt (fs : Files ν β) (name : ν) :
    (fs.create name).1 < (fs.create name).2.inodes.length :=
  (fs.create name).2.valid name _ (names_create_self fs name)

/-- The inode that is opened is the one behind the name, or a new one. -/
theorem create_eq (fs : Files ν β) (name : ν) :
    fs.names name = some (fs.create name).1 ∨ (fs.create name).1 = fs.inodes.length := by
  unfold create
  split
  case h_1 ino h => exact .inl h
  case h_2 h => exact .inr rfl

@[simp] theorem names_unlink_self (fs : Files ν β) (name : ν) :
    (fs.unlink name).names name = none := Function.update_self _ _ _

theorem names_unlink_of_ne (fs : Files ν β) {name name' : ν} (h : name' ≠ name) :
    (fs.unlink name).names name' = fs.names name' := Function.update_of_ne h _ _

/-- What a rename does. -/
theorem rename_eq_some {fs gs : Files ν β} {source target : ν}
    (h : fs.rename source target = some gs) :
    ∃ ino, fs.names source = some ino ∧ gs.inodes = fs.inodes ∧
      gs.names = Function.update (Function.update fs.names source none) target (some ino) := by
  unfold rename at h
  split at h
  case h_1 ino hino =>
    obtain rfl := Option.some_inj.mp h
    exact ⟨ino, hino, rfl, rfl⟩
  case h_2 => exact absurd h (by simp)

end Files

end Inodes
