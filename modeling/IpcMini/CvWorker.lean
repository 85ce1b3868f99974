/-
A worker thread behind a mutex, a condition variable and a stop flag.

Producers append to a bounded queue under the mutex and notify; the worker
waits for an item or the stop flag, takes the front item and handles it without
the mutex; `stop` stores the flag, notifies all and joins.  Neither the store
nor the notification of `stop` takes the mutex, so they can fall between the
worker's evaluation of its wait predicate and its blocking.

* `step` — one step of one thread; `evaluate` and `block` are separate;
* `Stuck` — the worker is blocked after the last notification, in `join`;
* **`not_stuck`** — a run in which `stop` never notifies inside that window has
  no stuck state, and a `stop` that waits in `join` can always return;
* **`stuck_of_notify_in_window`**, `Stuck.forever` — a notification inside the
  window is lost, and nothing but a late producer can end the wait.
-/
import Mathlib.Tactic.Common
import IpcMini.Run

namespace CvWorker

open Interleaving

variable {α : Type*}

/-- The place of the worker in its loop. -/
inductive Worker (α : Type*)
  /-- about to take the mutex, at the top of the loop or after a wake-up -/
  | lock
  /-- holds the mutex, about to evaluate the wait predicate -/
  | evaluate
  /-- holds the mutex, found the predicate false -/
  | block
  /-- has released the mutex and waits for a notification -/
  | blocked
  /-- holds the mutex, found the predicate true -/
  | take
  /-- handles an item without the mutex -/
  | work (item : α)
  /-- has left the loop -/
  | done
  deriving DecidableEq, Repr

/-- The place of the stopping thread in `stop`. -/
inductive Stopper
  /-- `stop` has not been called -/
  | before
  /-- the flag is stored -/
  | stored
  /-- the notification is issued, `join` waits for the worker -/
  | joining
  /-- `join` has returned -/
  | joined
  deriving DecidableEq, Repr

structure State (α : Type*) where
  queue : List α
  stopping : Bool
  /-- items of producers that have read the flag and not yet taken the mutex -/
  offered : List α
  worker : Worker α
  stopper : Stopper
  deriving DecidableEq, Repr

/-- The thread that moves.  `offer` is a producer's check before the mutex and
`push n` the critical section of the `n`-th producer behind that check. -/
inductive Label (α : Type*)
  | offer (item : α)
  | push (n : ℕ)
  | lock
  | evaluate
  | block
  | take
  | finish
  | store
  | notify
  | join
  deriving DecidableEq, Repr

def init : State α := ⟨[], false, [], .lock, .before⟩

/-- The worker holds the mutex. -/
def Worker.holds : Worker α → Bool
  | .evaluate | .block | .take => true
  | _ => false

/-- The item that the worker handles. -/
def Worker.item : Worker α → Option α
  | .work item => some item
  | _ => none

/-- A notification wakes the worker only when it is already blocked. -/
def Worker.notified : Worker α → Worker α
  | .blocked => .lock
  | w => w

/-- One step of one thread: `capacity` bounds the queue, `admits` is what a
producer checks of its item before it takes the mutex. -/
def step (capacity : ℕ) (admits : α → Bool) (s : State α) : Label α → Option (State α)
  | .offer item =>
    if s.stopping || !admits item then some s
    else some { s with offered := s.offered ++ [item] }
  | .push n =>
    match s.offered[n]? with
    | none => none
    | some item =>
      if s.worker.holds then none
      else if s.queue.length ≥ capacity then some { s with offered := s.offered.eraseIdx n }
      else
        some { s with
          offered := s.offered.eraseIdx n
          queue := s.queue ++ [item]
          worker := s.worker.notified }
  | .lock =>
    match s.worker with
    | .lock => some { s with worker := .evaluate }
    | _ => none
  | .evaluate =>
    match s.worker with
    | .evaluate =>
      some { s with worker := if s.stopping || !s.queue.isEmpty then .take else .block }
    | _ => none
  | .block =>
    match s.worker with
    | .block => some { s with worker := .blocked }
    | _ => none
  | .take =>
    match s.worker, s.queue with
    | .take, [] => some { s with worker := if s.stopping then .done else .lock }
    | .take, item :: rest => some { s with queue := rest, worker := .work item }
    | _, _ => none
  | .finish =>
    match s.worker with
    | .work _ => some { s with worker := .lock }
    | _ => none
  | .store =>
    match s.stopper with
    | .before => some { s with stopping := true, stopper := .stored }
    | _ => none
  | .notify =>
    match s.stopper with
    | .stored => some { s with worker := s.worker.notified, stopper := .joining }
    | _ => none
  | .join =>
    match s.stopper, s.worker with
    | .joining, .done => some { s with stopper := .joined }
    | _, _ => none

/-- What a step can do. -/
inductive Step (s : State α) : Label α → State α → Prop
  | refuse (item : α) : Step s (.offer item) s
  | offer (hstop : s.stopping = false) (item : α) :
    Step s (.offer item) { s with offered := s.offered ++ [item] }
  | drop (n : ℕ) (item : α) (hitem : s.offered[n]? = some item) :
    Step s (.push n) { s with offered := s.offered.eraseIdx n }
  | push (n : ℕ) (item : α) (hitem : s.offered[n]? = some item) :
    Step s (.push n) { s with
      offered := s.offered.eraseIdx n
      queue := s.queue ++ [item]
      worker := s.worker.notified }
  | lock (hw : s.worker = .lock) : Step s .lock { s with worker := .evaluate }
  | evaluate (hw : s.worker = .evaluate) : Step s .evaluate { s with
      worker := if s.stopping || !s.queue.isEmpty then .take else .block }
  | block (hw : s.worker = .block) : Step s .block { s with worker := .blocked }
  | leave (hw : s.worker = .take) : Step s .take { s with
      worker := if s.stopping then .done else .lock }
  | take (hw : s.worker = .take) (item : α) (rest : List α) :
    Step s .take { s with queue := rest, worker := .work item }
  | finish (item : α) (hw : s.worker = .work item) : Step s .finish { s with worker := .lock }
  | store (hs : s.stopper = .before) :
    Step s .store { s with stopping := true, stopper := .stored }
  | notify (hs : s.stopper = .stored) :
    Step s .notify { s with worker := s.worker.notified, stopper := .joining }
  | join (hs : s.stopper = .joining) (hw : s.worker = .done) :
    Step s .join { s with stopper := .joined }

/-- **Every step is one of these.** -/
theorem step_cases {capacity : ℕ} {admits : α → Bool} {s t : State α} {i : Label α}
    (h : step capacity admits s i = some t) : Step s i t := by
  cases i with
  | offer item =>
    simp only [step] at h
    split at h
    · exact Option.some_inj.mp h ▸ .refuse item
    · rename_i hadmit
      -- an item that is let in was offered before `stop`
      have hstop : s.stopping = false := by
        by_contra hs
        exact hadmit (by simp [Bool.of_not_eq_false hs])
      exact Option.some_inj.mp h ▸ .offer hstop item
  | push n =>
    simp only [step] at h
    split at h
    · exact absurd h (by simp)
    · rename_i item hitem
      split_ifs at h
      · exact Option.some_inj.mp h ▸ .drop n item hitem
      · exact Option.some_inj.mp h ▸ .push n item hitem
  | lock =>
    simp only [step] at h
    split at h
    · exact Option.some_inj.mp h ▸ .lock ‹_›
    · exact absurd h (by simp)
  | evaluate =>
    simp only [step] at h
    split at h
    · exact Option.some_inj.mp h ▸ .evaluate ‹_›
    · exact absurd h (by simp)
  | block =>
    simp only [step] at h
    split at h
    · exact Option.some_inj.mp h ▸ .block ‹_›
    · exact absurd h (by simp)
  | take =>
    simp only [step] at h
    split at h
    · exact Option.some_inj.mp h ▸ .leave ‹_›
    · exact Option.some_inj.mp h ▸ .take ‹_› _ _
    · exact absurd h (by simp)
  | finish =>
    simp only [step] at h
    split at h
    · exact Option.some_inj.mp h ▸ .finish _ ‹_›
    · exact absurd h (by simp)
  | store =>
    simp only [step] at h
    split at h
    · exact Option.some_inj.mp h ▸ .store ‹_›
    · exact absurd h (by simp)
  | notify =>
    simp only [step] at h
    split at h
    · exact Option.some_inj.mp h ▸ .notify ‹_›
    · exact absurd h (by simp)
  | join =>
    simp only [step] at h
    split at h
    · exact Option.some_inj.mp h ▸ .join ‹_› ‹_›
    · exact absurd h (by simp)

/-- A producer gets the mutex: its item is dropped by a full queue or appended. -/
theorem push_cases {capacity : ℕ} {admits : α → Bool} {s t : State α} {n : ℕ}
    (h : step capacity admits s (.push n) = some t) :
    ∃ item, s.offered[n]? = some item ∧
      ((capacity ≤ s.queue.length ∧ t = { s with offered := s.offered.eraseIdx n }) ∨
      (s.queue.length < capacity ∧ t = { s with
        offered := s.offered.eraseIdx n
        queue := s.queue ++ [item]
        worker := s.worker.notified })) := by
  simp only [step] at h
  split at h
  · exact absurd h (by simp)
  next item hitem =>
    refine ⟨item, hitem, ?_⟩
    split_ifs at h with hholds hfull
    · exact .inl ⟨hfull, (Option.some_inj.mp h).symm⟩
    · exact .inr ⟨Nat.lt_of_not_le hfull, (Option.some_inj.mp h).symm⟩

/-- The worker behind its wait: it leaves, goes back or takes the front item. -/
theorem take_cases {capacity : ℕ} {admits : α → Bool} {s t : State α}
    (h : step capacity admits s .take = some t) :
    s.worker = .take ∧
      ((s.queue = [] ∧ t = { s with worker := if s.stopping then .done else .lock }) ∨
      ∃ item rest, s.queue = item :: rest ∧
        t = { s with queue := rest, worker := .work item }) := by
  simp only [step] at h
  split at h
  next hw hq => exact ⟨hw, .inl ⟨hq, (Option.some_inj.mp h).symm⟩⟩
  next item rest hw hq => exact ⟨hw, .inr ⟨item, rest, hq, (Option.some_inj.mp h).symm⟩⟩
  next => exact absurd h (by simp)

/-- The worker waits for a notification that `stop` has already issued. -/
def Stuck (s : State α) : Prop :=
  s.worker = .blocked ∧ s.stopping = true ∧ s.stopper = .joining

/-- `stop` does not notify between the worker's evaluation of the predicate and
its blocking. -/
def OutsideWindow (s : State α) (i : Label α) : Prop :=
  i = .notify → s.worker ≠ .block

/-- The invariant of runs that stay outside the window: the flag is up once
`stop` has stored it, and after the notification the worker neither waits nor
is about to. -/
structure Awake (s : State α) : Prop where
  stopping : s.stopper ≠ .before → s.stopping = true
  awake : s.stopper = .joining ∨ s.stopper = .joined → s.worker ≠ .block ∧ s.worker ≠ .blocked

theorem awake_init : Awake (init : State α) := ⟨by simp [init], by simp [init]⟩

theorem Worker.notified_ne_blocked (w : Worker α) : w.notified ≠ .blocked := by
  cases w <;> simp [Worker.notified]

theorem Worker.notified_eq_block {w : Worker α} (h : w.notified = .block) : w = .block := by
  cases w <;> simp_all [Worker.notified]

theorem awake_step {capacity : ℕ} {admits : α → Bool} {s t : State α} {i : Label α}
    (hs : Awake s) (hi : OutsideWindow s i) (h : step capacity admits s i = some t) :
    Awake t := by
  obtain ⟨h1, h2⟩ := hs
  cases step_cases h with
  | refuse | offer | drop => exact ⟨h1, h2⟩
  | push n item hitem =>
    exact ⟨h1, fun hj => ⟨fun hb => (h2 hj).1 (Worker.notified_eq_block hb),
      Worker.notified_ne_blocked _⟩⟩
  | lock | take | finish => exact ⟨h1, fun _ => by simp⟩
  | evaluate hw =>
    refine ⟨h1, fun hj => ?_⟩
    -- the flag is up, so the predicate holds
    have hstop : s.stopping = true := by
      refine h1 fun hb => ?_
      rw [hb] at hj
      exact absurd hj (by simp)
    simp [hstop]
  | block hw => exact ⟨h1, fun hj => absurd hw (h2 hj).1⟩
  | leave hw =>
    refine ⟨h1, fun _ => ?_⟩
    cases hst : s.stopping <;> simp
  | store hs => exact ⟨fun _ => rfl, by simp⟩
  | notify hs =>
    have hstop : s.stopping = true := h1 (by simp [hs])
    exact ⟨fun _ => hstop, fun _ =>
      ⟨fun hb => hi rfl (Worker.notified_eq_block hb), Worker.notified_ne_blocked _⟩⟩
  | join hs hw =>
    have hstop : s.stopping = true := h1 (by simp [hs])
    exact ⟨fun _ => hstop, fun _ => by simp [hw]⟩

/-! ### A stop that waits in `join` returns -/

/-- From the top of its loop the worker handles what is queued and leaves. -/
theorem worker_leaves (capacity : ℕ) (admits : α → Bool) :
    ∀ {queue : List α} {s : State α}, s.queue = queue → s.worker = .lock → s.stopping = true →
      s.stopper = .joining →
      ∃ is t, run (step capacity admits) s is = some t ∧ t.worker = .done ∧
        t.stopper = .joining := by
  intro queue
  induction queue with
  | nil =>
    intro s hq hw hst hj
    exact ⟨[.lock, .evaluate, .take], { s with worker := .done },
      by simp [run, step, hw, hst, hq], rfl, hj⟩
  | cons item rest ih =>
    intro s hq hw hst hj
    obtain ⟨is, t, hrun, ht⟩ := ih (s := { s with queue := rest, worker := .lock }) rfl rfl hst hj
    refine ⟨.lock :: .evaluate :: .take :: .finish :: is, t, ?_, ht⟩
    simpa [run, step, hw, hst, hq] using hrun

/-- A worker that is neither blocked nor about to block reaches the end. -/
theorem join_returns {capacity : ℕ} {admits : α → Bool} {s : State α} (hs : Awake s)
    (hj : s.stopper = .joining) :
    ∃ is t, run (step capacity admits) s is = some t ∧ t.stopper = .joined := by
  have hst : s.stopping = true := hs.stopping (by simp [hj])
  obtain ⟨hnb, hnbd⟩ := hs.awake (.inl hj)
  -- every place of the worker leads to the top of its loop or to the end
  have hend : ∃ is t, run (step capacity admits) s is = some t ∧ t.worker = .done ∧
      t.stopper = .joining := by
    have hback : ∀ (is : List (Label α)) (u : State α), run (step capacity admits) s is = some u →
        u.worker = .lock → u.stopping = true → u.stopper = .joining →
        ∃ is t, run (step capacity admits) s is = some t ∧ t.worker = .done ∧
          t.stopper = .joining := by
      intro is u hu hw hs' hj'
      obtain ⟨js, t, hrun, ht⟩ := worker_leaves capacity admits rfl hw hs' hj'
      exact ⟨is ++ js, t, by rw [run_append, hu]; exact hrun, ht⟩
    cases hw : s.worker with
    | lock => exact hback [] s rfl hw hst hj
    | evaluate =>
      cases hq : s.queue with
      | nil =>
        exact ⟨[.evaluate, .take], { s with worker := .done },
          by simp [run, step, hw, hst, hq], rfl, hj⟩
      | cons item rest =>
        exact hback [.evaluate, .take, .finish] { s with queue := rest, worker := .lock }
          (by simp [run, step, hw, hst, hq]) rfl hst hj
    | block => exact absurd hw hnb
    | blocked => exact absurd hw hnbd
    | take =>
      cases hq : s.queue with
      | nil =>
        exact ⟨[.take], { s with worker := .done }, by simp [run, step, hw, hst, hq], rfl, hj⟩
      | cons item rest =>
        exact hback [.take, .finish] { s with queue := rest, worker := .lock }
          (by simp [run, step, hw, hq]) rfl hst hj
    | work item =>
      exact hback [.finish] { s with worker := .lock }
        (by simp [run, step, hw]) rfl hst hj
    | done => exact ⟨[], s, rfl, hw, hj⟩
  obtain ⟨is, t, hrun, hw, hj'⟩ := hend
  exact ⟨is ++ [.join], { t with stopper := .joined },
    by rw [run_concat hrun]; simp [step, hw, hj'], rfl⟩

/-- **Outside the window no notification is lost**: no state of the run is
stuck, and a `stop` that waits in `join` can return. -/
theorem not_stuck {capacity : ℕ} {admits : α → Bool} {is : List (Label α)} {s : State α}
    (hC : Along (step capacity admits) OutsideWindow init is)
    (h : run (step capacity admits) init is = some s) :
    ¬ Stuck s ∧ (s.stopper = .joining →
      ∃ js t, run (step capacity admits) s js = some t ∧ t.stopper = .joined) := by
  have hs : Awake s := run_invariant (fun _ _ _ => awake_step) awake_init hC h
  exact ⟨fun ⟨hb, _, hj⟩ => (hs.awake (.inl hj)).2 hb, join_returns hs⟩

/-! ### What is left in the queue -/

@[simp] theorem Worker.item_notified (w : Worker α) : w.notified.item = w.item := by
  cases w <;> rfl

/-- Before the end of its handling a worker keeps its item, and items are only
put at the end of the queue, unless the worker takes the front one. -/
theorem item_cases {capacity : ℕ} {admits : α → Bool} {s t : State α} {i : Label α}
    -- one step after the other: only `take` and `push` touch the queue
    (h : step capacity admits s i = some t) (hi : i ≠ .finish) :
    (∃ item rest, s.worker.item = none ∧ s.queue = item :: rest ∧
      t = { s with queue := rest, worker := .work item }) ∨
    (t.worker.item = s.worker.item ∧ ∃ items, t.queue = s.queue ++ items) := by
  cases i with
  | push n =>
    obtain ⟨item, -, ⟨-, rfl⟩ | ⟨-, rfl⟩⟩ := push_cases h
    · exact .inr ⟨rfl, [], (List.append_nil _).symm⟩
    · exact .inr ⟨Worker.item_notified _, [item], rfl⟩
  | take =>
    obtain ⟨hw, ⟨-, rfl⟩ | ⟨item, rest, hq, rfl⟩⟩ := take_cases h
    · refine .inr ⟨?_, [], (List.append_nil _).symm⟩
      rw [hw]
      dsimp only
      split <;> rfl
    · exact .inl ⟨item, rest, by rw [hw]; rfl, hq, rfl⟩
  | evaluate =>
    cases step_cases h with
    | evaluate hw =>
      refine .inr ⟨?_, [], (List.append_nil _).symm⟩
      rw [hw]
      dsimp only
      split <;> rfl
  | finish => exact absurd rfl hi
  | lock =>
    cases step_cases h with
    | lock hw => exact .inr ⟨by rw [hw]; rfl, [], (List.append_nil _).symm⟩
  | block =>
    cases step_cases h with
    | block hw => exact .inr ⟨by rw [hw]; rfl, [], (List.append_nil _).symm⟩
  | notify =>
    cases step_cases h with
    | notify _ => exact .inr ⟨Worker.item_notified _, [], (List.append_nil _).symm⟩
  | offer _ | store | join =>
    cases step_cases h <;> exact .inr ⟨rfl, [], (List.append_nil _).symm⟩

/-- `stop` stores its flag while no producer is between its check and the mutex. -/
def StoresAlone (s : State α) (i : Label α) : Prop := i = .store → s.offered = []

/-- The queue never grows beyond the capacity. -/
theorem queue_le_step {capacity : ℕ} {admits : α → Bool} {s t : State α} {i : Label α}
    (hs : s.queue.length ≤ capacity) (h : step capacity admits s i = some t) :
    t.queue.length ≤ capacity := by
  cases i with
  | push n =>
    obtain ⟨item, -, ⟨-, rfl⟩ | ⟨hroom, rfl⟩⟩ := push_cases h
    · exact hs
    · show (s.queue ++ [item]).length ≤ capacity
      rw [List.length_append]
      exact hroom
  | take =>
    obtain ⟨-, ⟨-, rfl⟩ | ⟨item, rest, hq, rfl⟩⟩ := take_cases h
    · exact hs
    · rw [hq, List.length_cons] at hs
      exact Nat.le_of_succ_le hs
  | _ =>
    cases step_cases h <;> exact hs

/-- Once the flag is up nobody appends to the queue, and the worker leaves an
empty one behind. -/
structure Drained (s : State α) : Prop where
  stored : s.stopper ≠ .before → s.offered = [] ∧ s.stopping = true
  stopping : s.stopping = true → s.stopper ≠ .before
  done : s.worker = .done → s.queue = [] ∧ s.stopping = true
  joined : s.stopper = .joined → s.worker = .done

theorem drained_init : Drained (init : State α) := by
  constructor <;> simp [init]

/-- A step of the worker that does not leave the loop. -/
theorem Drained.of_worker {s : State α} {w : Worker α} (hs : Drained s) (hne : w ≠ .done)
    (hwas : s.worker ≠ .done) : Drained { s with worker := w } := by
  exact ⟨hs.stored, hs.stopping, fun hd => absurd hd hne, fun hj => absurd (hs.joined hj) hwas⟩

theorem Worker.notified_eq_done {w : Worker α} : w.notified = .done ↔ w = .done := by
  cases w <;> simp [Worker.notified]

theorem drained_step {capacity : ℕ} {admits : α → Bool} {s t : State α} {i : Label α}
    (hs : Drained s) (hi : StoresAlone s i) (h : step capacity admits s i = some t) :
    Drained t := by
  cases i with
  | push n =>
    obtain ⟨item, hitem, ht⟩ := push_cases h
    -- a producer behind its check is there only before the flag is stored
    have hbefore : s.stopper = .before := by
      by_contra hne
      rw [(hs.stored hne).1] at hitem
      exact absurd hitem (by simp)
    have hdown : s.stopping = false := by
      by_contra hup
      exact hs.stopping (by simpa using hup) hbefore
    have hbusy : s.worker ≠ .done := fun hd => by simp [(hs.done hd).2] at hdown
    obtain ⟨-, rfl⟩ | ⟨-, rfl⟩ := ht
    · exact ⟨fun hne => absurd hbefore hne, hs.stopping, hs.done, hs.joined⟩
    · refine ⟨fun hne => absurd hbefore hne, hs.stopping, fun hd => ?_, fun hj => ?_⟩
      · exact absurd (Worker.notified_eq_done.mp hd) hbusy
      · exact absurd (hs.joined hj) hbusy
  | take =>
    obtain ⟨hw, ⟨hq, rfl⟩ | ⟨item, rest, hq, rfl⟩⟩ := take_cases h
    · refine ⟨hs.stored, hs.stopping, fun hd => ⟨hq, ?_⟩, fun hj => ?_⟩
      · by_contra hdown
        simp [hdown] at hd
      · exact absurd ((hs.joined hj).symm.trans hw) (by simp)
    · exact ⟨hs.stored, hs.stopping, fun hd => absurd hd (by simp),
        fun hj => absurd ((hs.joined hj).symm.trans hw) (by simp)⟩
  | offer item =>
    cases step_cases h with
    | refuse => exact hs
    | offer hdown =>
      exact ⟨fun hne => absurd (hs.stored hne).2 (by simp [hdown]), hs.stopping, hs.done,
        hs.joined⟩
  | lock =>
    cases step_cases h with
    | lock hw => exact hs.of_worker (by simp) (by simp [hw])
  | evaluate =>
    cases step_cases h with
    | evaluate hw =>
      refine hs.of_worker ?_ (by simp [hw])
      split <;> simp
  | block =>
    cases step_cases h with
    | block hw => exact hs.of_worker (by simp) (by simp [hw])
  | finish =>
    cases step_cases h with
    | finish _ hw => exact hs.of_worker (by simp) (by simp [hw])
  | store =>
    cases step_cases h with
    | store hbefore =>
      refine ⟨fun _ => ⟨hi rfl, rfl⟩, fun _ => by simp, fun hd => ⟨(hs.done hd).1, rfl⟩,
        fun hj => absurd hj (by simp)⟩
  | notify =>
    cases step_cases h with
    | notify hstored =>
      have hstop := hs.stored (by simp [hstored])
      refine ⟨fun _ => hstop, fun _ => by simp, fun hd => ?_, fun hj => absurd hj (by simp)⟩
      exact hs.done (Worker.notified_eq_done.mp hd)
  | join =>
    cases step_cases h with
    | join hjoining hdone =>
      exact ⟨fun _ => hs.stored (by simp [hjoining]), fun _ => by simp, hs.done, fun _ => hdone⟩

/-! ### Inside the window -/

/-- A notification inside the window is lost: the worker blocks after it. -/
theorem stuck_of_notify_in_window (capacity : ℕ) (admits : α → Bool) {s : State α}
    (hst : s.stopping = true) (hs : s.stopper = .stored) (hw : s.worker = .block) :
    ∃ t, run (step capacity admits) s [.notify, .block] = some t ∧ Stuck t ∧
      t.offered = s.offered := by
  refine ⟨{ s with worker := .blocked, stopper := .joining }, ?_, ⟨rfl, hst, rfl⟩, rfl⟩
  simp [run, step, hs, hw, Worker.notified]

/-- Once `stop` has stored the flag it stays up. -/
theorem stopping_of_stored {capacity : ℕ} {admits : α → Bool} {is : List (Label α)} {s : State α}
    (h : run (step capacity admits) init is = some s) (hs : s.stopper ≠ .before) :
    s.stopping = true := by
  refine run_preserves (P := fun s : State α => s.stopper ≠ .before → s.stopping = true)
    ?_ (by simp [init]) h hs
  intro s i t hs hstep
  cases step_cases hstep with
  | store => exact fun _ => rfl
  | notify hst => exact fun _ => hs (by simp [hst])
  | join hst => exact fun _ => hs (by simp [hst])
  | _ => exact hs

/-- Without a producer behind its check a stuck state never changes. -/
theorem Stuck.forever {capacity : ℕ} {admits : α → Bool} {s : State α} (hs : Stuck s)
    (ho : s.offered = []) {is : List (Label α)} {t : State α}
    (h : run (step capacity admits) s is = some t) : t = s := by
  obtain ⟨hw, hst, hj⟩ := hs
  induction is with
  | nil => exact (Option.some_inj.mp h).symm
  | cons i is ih =>
    obtain ⟨u, hu, h⟩ := Option.bind_eq_some_iff.mp h
    have hu : u = s := by
      cases step_cases hu with
      | refuse => rfl
      | offer hstop => exact absurd (hst.symm.trans hstop) (by simp)
      | drop n item hitem => exact absurd hitem (by simp [ho])
      | push n item hitem => exact absurd hitem (by simp [ho])
      | lock hwork | evaluate hwork | block hwork | leave hwork | take hwork =>
        exact absurd (hw.symm.trans hwork) (by simp)
      | finish _ hwork => exact absurd (hw.symm.trans hwork) (by simp)
      | join _ hwork => exact absurd (hw.symm.trans hwork) (by simp)
      | store hstop | notify hstop => exact absurd (hj.symm.trans hstop) (by simp)
    exact ih (hu ▸ h)

/-- The account of lost notifications for the threads that take the steps
`next`: runs outside the window are never stuck and their `stop` can return; a
run whose `stop` notifies inside the window gets stuck. -/
def LosesOnlyInWindow (next : State α → Label α → Option (State α)) : Prop :=
  ∀ is s, run next init is = some s →
    (Along next OutsideWindow init is →
      ¬ Stuck s ∧ (s.stopper = .joining →
        ∃ js t, run next s js = some t ∧ t.stopper = .joined)) ∧
    (s.stopper = .stored → s.worker = .block →
      ∃ t, run next s [.notify, .block] = some t ∧ Stuck t)

theorem losesOnlyInWindow (capacity : ℕ) (admits : α → Bool) :
    LosesOnlyInWindow (step capacity admits) := by
  intro is s h
  refine ⟨fun hC => not_stuck hC h, fun hs hw => ?_⟩
  have hst : s.stopping = true := stopping_of_stored h (by simp [hs])
  obtain ⟨t, ht, hstuck, -⟩ := stuck_of_notify_in_window capacity admits hst hs hw
  exact ⟨t, ht, hstuck⟩

end CvWorker
