/-
Publishing to a snapshot of the handlers.

A bus holds the handlers of its subscribers under keys.  A publisher copies the
handlers that are there and then invokes them one by one, without a lock, while
handlers come and go.  A handler that was removed can so be invoked after the
call that removed it has returned.

* `step` — a handler is added or removed, the removing call returns, a
  publisher takes a snapshot or invokes the next handler of one;
* `NoLateCall` — no handler is invoked after its removal has returned;
* `Settled` — a removal returns when no publisher has the handler ahead of it;
* **`noLateCall_of_settled`** — then there is no late call.
-/
import Mathlib.Data.Finset.Basic
import IpcMini.Run

namespace SnapshotBus

open Interleaving

variable {κ : Type*}

structure Bus (κ : Type*) where
  live : Finset κ
  /-- the handlers whose removal has returned -/
  returned : Finset κ
  /-- for each publish under way the handlers it still has to invoke -/
  publishes : List (List κ)

inductive Label (κ : Type*)
  | add (k : κ)
  | remove (k : κ)
  | returns (k : κ)
  | snapshot (ks : List κ)
  | invoke (n : ℕ)
  | done (n : ℕ)

def Bus.empty : Bus κ := ⟨∅, ∅, []⟩

def step [DecidableEq κ] (s : Bus κ) : Label κ → Option (Bus κ)
  | .add k => if k ∈ s.live ∨ k ∈ s.returned then none else some { s with live := insert k s.live }
  | .remove k => some { s with live := s.live.erase k }
  | .returns k =>
    if k ∈ s.live then none else some { s with returned := insert k s.returned }
  | .snapshot ks =>
    if ∀ k ∈ ks, k ∈ s.live then some { s with publishes := s.publishes ++ [ks] } else none
  | .invoke n =>
    match s.publishes[n]? with
    | some (_ :: rest) => some { s with publishes := s.publishes.set n rest }
    | _ => none
  | .done n => some { s with publishes := s.publishes.eraseIdx n }

/-- A handler is not invoked once its removal has returned. -/
def NoLateCall (s : Bus κ) : Label κ → Prop
  | .invoke n => ∀ ks ∈ s.publishes[n]?, ∀ k ∈ ks.head?, k ∉ s.returned
  | _ => True

/-- A removal returns when no publisher has the handler ahead of it. -/
def Settled (s : Bus κ) : Label κ → Prop
  | .returns k => ∀ ks ∈ s.publishes, k ∉ ks
  | _ => True

/-- A handler whose removal has returned is gone from the bus and from every
publish under way. -/
def Inv (s : Bus κ) : Prop :=
  ∀ k ∈ s.returned, k ∉ s.live ∧ ∀ ks ∈ s.publishes, k ∉ ks

theorem inv_empty : Inv (.empty : Bus κ) := fun k hk => absurd hk (Finset.notMem_empty k)

theorem inv_step [DecidableEq κ] {s t : Bus κ} {i : Label κ} (h : Inv s) (hi : Settled s i)
    (hstep : step s i = some t) : Inv t := by
  cases i with
  | add k =>
    obtain ⟨hk, hstep⟩ := Option.ite_none_left_eq_some.mp hstep
    obtain rfl := Option.some_inj.mp hstep
    intro k' hk'
    obtain ⟨hlive, hpub⟩ := h k' hk'
    refine ⟨fun hmem => ?_, hpub⟩
    rcases Finset.mem_insert.mp hmem with rfl | hmem
    · exact hk (.inr hk')
    · exact hlive hmem
  | remove k =>
    obtain rfl := Option.some_inj.mp hstep
    intro k' hk'
    exact ⟨fun hmem => (h k' hk').1 (Finset.mem_of_mem_erase hmem), (h k' hk').2⟩
  | returns k =>
    obtain ⟨hk, hstep⟩ := Option.ite_none_left_eq_some.mp hstep
    obtain rfl := Option.some_inj.mp hstep
    intro k' hk'
    rcases Finset.mem_insert.mp hk' with rfl | hk'
    · exact ⟨hk, hi⟩
    · exact h k' hk'
  | snapshot ks =>
    obtain ⟨hlive, hstep⟩ := Option.ite_none_right_eq_some.mp hstep
    obtain rfl := Option.some_inj.mp hstep
    intro k hk
    refine ⟨(h k hk).1, fun ks' hks' hmem => ?_⟩
    rcases List.mem_append.mp hks' with hks' | hks'
    · exact (h k hk).2 ks' hks' hmem
    · -- a snapshot holds only handlers that are there
      obtain rfl : ks' = ks := by simpa using hks'
      exact (h k hk).1 (hlive k hmem)
  | invoke n =>
    rw [step] at hstep
    split at hstep
    case h_1 k' rest hn =>
      obtain rfl := Option.some_inj.mp hstep
      intro k hk
      refine ⟨(h k hk).1, fun ks hks hmem => ?_⟩
      rcases List.mem_or_eq_of_mem_set hks with hks | rfl
      · exact (h k hk).2 ks hks hmem
      · exact (h k hk).2 (k' :: ks) (List.mem_of_getElem? hn) (List.mem_cons_of_mem _ hmem)
    case h_2 => exact absurd hstep (by simp)
  | done n =>
    obtain rfl := Option.some_inj.mp hstep
    intro k hk
    exact ⟨(h k hk).1, fun ks hks => (h k hk).2 ks (List.mem_of_mem_eraseIdx hks)⟩

theorem noLateCall_of_inv {s : Bus κ} (h : Inv s) (i : Label κ) : NoLateCall s i := by
  cases i with
  | invoke n =>
    intro ks hks k hk hret
    exact (h k hret).2 ks (List.mem_of_getElem? hks) (List.mem_of_mem_head? hk)
  | _ => trivial

/-- **Settled removals leave no late call.** -/
theorem noLateCall_of_settled [DecidableEq κ] {s : Bus κ} (hs : Inv s) {is : List (Label κ)}
    (h : Along step Settled s is) : Along step NoLateCall s is :=
  along_imp (fun _ _ _ hs hi => inv_step hs hi) (fun _ i hs _ => noLateCall_of_inv hs i) hs h

end SnapshotBus
