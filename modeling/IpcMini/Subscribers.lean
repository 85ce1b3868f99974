/-
The subscribers of the media bus (`src/media/media_source.cpp`,
`src/media/detection_source.cpp`).

`MediaSource` keeps its subscribers per stream, `DetectionSource` in one table;
both number subscriptions from 1 with one counter, so that 0 stands for a
refused subscription.  Only the subscriptions of one client are entered here,
the others move the counter (`skip`).

* `subscribe`, `unsubscribe` — the operations of both classes;
* **`unsubscribe_subscribe`** — a subscription that is taken back leaves the
  table as it was.
-/
import Mathlib.Data.Finset.Basic

namespace IpcMini

/-- The subscriptions of one client, each under its stream. -/
structure Subscribers (κ : Type) where
  nextSubscriptionId : ℕ
  entries : Finset (κ × ℕ)
  fresh : ∀ e ∈ entries, e.2 < nextSubscriptionId
  pos : 0 < nextSubscriptionId

namespace Subscribers

variable {κ : Type}

/-- The table of a new bus. -/
def empty : Subscribers κ where
  nextSubscriptionId := 1
  entries := ∅
  fresh := by simp
  pos := Nat.one_pos

/-- Another client subscribes. -/
def skip (s : Subscribers κ) : Subscribers κ where
  nextSubscriptionId := s.nextSubscriptionId + 1
  entries := s.entries
  fresh := fun e he => Nat.lt_succ_of_lt (s.fresh e he)
  pos := Nat.succ_pos _

@[simp] theorem entries_empty : (empty : Subscribers κ).entries = ∅ := rfl

theorem nextSubscriptionId_ne_zero (s : Subscribers κ) : s.nextSubscriptionId ≠ 0 :=
  s.pos.ne'

/-- A new id is not in use. -/
theorem ne_of_mem {s : Subscribers κ} {e : κ × ℕ} (he : e ∈ s.entries) :
    e.2 ≠ s.nextSubscriptionId := (s.fresh e he).ne

variable [DecidableEq κ]

/-- `subscribe`: the new id, 0 when the source refuses (no such stream, or its
encoder does not start). -/
def subscribe (s : Subscribers κ) (stream : κ) (accepted : Bool) : ℕ × Subscribers κ :=
  if accepted then
    (s.nextSubscriptionId,
      { nextSubscriptionId := s.nextSubscriptionId + 1
        entries := insert (stream, s.nextSubscriptionId) s.entries
        fresh := by
          intro e he
          rcases Finset.mem_insert.mp he with rfl | he
          · exact Nat.lt_succ_self _
          · exact Nat.lt_succ_of_lt (s.fresh e he)
        pos := Nat.succ_pos _ })
  else (0, s)

/-- `unsubscribe`: an unknown id is ignored. -/
def unsubscribe (s : Subscribers κ) (stream : κ) (id : ℕ) : Subscribers κ where
  nextSubscriptionId := s.nextSubscriptionId
  entries := s.entries.erase (stream, id)
  fresh := fun e he => s.fresh e (Finset.mem_of_mem_erase he)
  pos := s.pos

@[simp] theorem subscribe_refused (s : Subscribers κ) (stream : κ) :
    s.subscribe stream false = (0, s) := rfl

@[simp] theorem subscribe_id (s : Subscribers κ) (stream : κ) :
    (s.subscribe stream true).1 = s.nextSubscriptionId := rfl

@[simp] theorem entries_subscribe (s : Subscribers κ) (stream : κ) :
    (s.subscribe stream true).2.entries =
      insert (stream, s.nextSubscriptionId) s.entries := rfl

@[simp] theorem entries_unsubscribe (s : Subscribers κ) (stream : κ) (id : ℕ) :
    (s.unsubscribe stream id).entries = s.entries.erase (stream, id) := rfl

/-- **A subscription that is taken back leaves no trace.** -/
theorem unsubscribe_subscribe (s : Subscribers κ) (stream : κ) :
    ((s.subscribe stream true).2.unsubscribe stream (s.subscribe stream true).1).entries =
      s.entries := by
  have hnew : (stream, s.nextSubscriptionId) ∉ s.entries := fun h => ne_of_mem h rfl
  rw [entries_unsubscribe, entries_subscribe, subscribe_id, Finset.erase_insert hnew]

end Subscribers

end IpcMini
