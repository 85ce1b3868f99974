/-
The attempts of the uploader (`src/record/http_segment_uploader.cpp`).

`worker_loop` tries each item that it pops up to `kMaxRetries` times, or once if
`stopping_` is up when the item was popped, and gives it up after the first
failure that it sees with the flag up.  The flag can go up at any point of the
loop.

* `step` — one step of a producer, of `stop` or of the worker, which makes its
  attempts one by one;
* `Round` — the attempts at one item;
* `Inv` — the log of the attempts is made of rounds, in the order of the queue;
* **`items_attempted`** — items are attempted in the order in which they were
  accepted, and a `stop` that returns leaves none behind.
-/
import Mathlib.Data.List.Forall2
import IpcMini.StopSignals

namespace IpcMini

open Interleaving

namespace HttpSegmentUploader

/-! ### The retry loop -/

/-- Where the worker is in its handling of an item; `attempt` and `retries` are
the variables of the loop. -/
inductive Loop
  /-- the item is popped, `retries` is to be set -/
  | popped
  | trying (attempt retries : ℕ)
  /-- the attempt has failed, `stopping_` is to be read -/
  | failed (attempt retries : ℕ)
  | sleeping (attempt retries : ℕ)
  deriving DecidableEq, Repr

/-- A call of `put_file` or `delete_object`; `index` is the place of the item
among those that were accepted. -/
structure Attempt where
  item : Item
  index : ℕ
  ok : Bool
  deriving DecidableEq, Repr

structure System where
  threads : CvWorker.State Item
  loop : Loop
  /-- the items that were appended to the queue -/
  accepted : List Item
  /-- the number of items that the worker is done with -/
  handled : ℕ
  attempts : List Attempt
  deriving DecidableEq, Repr

/-- The thread that moves. -/
inductive Label
  /-- a producer, `stop`, or the worker outside the loop over the attempts -/
  | thread (i : CvWorker.Label Item)
  /-- the worker reads `stopping_` and sets `retries` -/
  | setRetries
  /-- the attempt, with its result -/
  | attempt (ok : Bool)
  /-- the worker reads `stopping_` after a failure -/
  | check
  /-- the sleep is over -/
  | wake
  deriving DecidableEq, Repr

def start : System where
  threads := CvWorker.init
  loop := .popped
  accepted := []
  handled := 0
  attempts := []

namespace System

/-- The end of the loop over the attempts. -/
def finish (s : System) : System :=
  { s with
    threads := { s.threads with worker := .lock }
    loop := .popped
    handled := s.handled + 1 }

/-- The step of another thread, or of the worker outside the loop; what it puts
at the end of the queue is accepted. -/
def move (s : System) (threads : CvWorker.State Item) : System :=
  { s with
    threads := threads
    accepted := s.accepted ++ threads.queue.drop s.threads.queue.length }

end System

/-- One step of one thread. -/
def step (s : System) : Label → Option System
  | .thread .finish => none
  | .thread i => (threadStep s.threads i).map s.move
  | .setRetries =>
    match s.threads.worker, s.loop with
    | .work _, .popped =>
      some { s with loop := .trying 1 (if s.threads.stopping then 1 else kMaxRetries) }
    | _, _ => none
  | .attempt ok =>
    match s.threads.worker, s.loop with
    | .work item, .trying attempt retries =>
      let s := { s with attempts := s.attempts ++ [Attempt.mk item s.handled ok] }
      if ok then some s.finish else some { s with loop := .failed attempt retries }
    | _, _ => none
  | .check =>
    match s.threads.worker, s.loop with
    | .work _, .failed attempt retries =>
      if s.threads.stopping then some s.finish
      else some { s with loop := .sleeping attempt retries }
    | _, _ => none
  | .wake =>
    match s.threads.worker, s.loop with
    | .work _, .sleeping attempt retries =>
      if attempt + 1 ≤ retries then some { s with loop := .trying (attempt + 1) retries }
      else some s.finish
    | _, _ => none

/-- No producer is between its check and the mutex when `stop` is called. -/
def StopsAfterCalls (s : System) : Label → Prop
  | .thread i => CvWorker.StoresAlone s.threads i
  | _ => True

instance (s : System) : ∀ i, Decidable (StopsAfterCalls s i)
  | .thread i => inferInstanceAs (Decidable (i = .store → s.threads.offered = []))
  | .setRetries | .attempt _ | .check | .wake => .isTrue trivial

/-! ### Rounds -/

/-- The attempts at an accepted item, given with its place: between one and
`kMaxRetries`, and only the last may have succeeded. -/
structure Round (entry : Item × ℕ) (attempts : List Attempt) : Prop where
  entry : ∀ a ∈ attempts, (a.item, a.index) = entry
  pos : 1 ≤ attempts.length
  le : attempts.length ≤ kMaxRetries
  failed : ∀ a ∈ attempts.dropLast, a.ok = false

namespace Loop

/-- The attempts that were made so far. -/
def made : Loop → ℕ
  | .popped => 0
  | .trying attempt _ => attempt - 1
  | .failed attempt _ | .sleeping attempt _ => attempt

/-- `attempt` is between one and `retries`, and that is at most `kMaxRetries`. -/
def Within : Loop → Prop
  | .popped => True
  | .trying attempt retries | .failed attempt retries | .sleeping attempt retries =>
    1 ≤ attempt ∧ attempt ≤ retries ∧ retries ≤ kMaxRetries

end Loop

namespace System

/-- The item that the worker has popped. -/
def inHand (s : System) : Option Item := s.threads.worker.item

/-- The attempts at the item in hand. -/
def present (s : System) : List Attempt :=
  match s.inHand with
  | some item => List.replicate s.loop.made ⟨item, s.handled, false⟩
  | none => []

/-- The log of the attempts is made of a round for each item that the worker is
done with, in the order of acceptance, and of the attempts at the item in hand. -/
def InRounds (s : System) : Prop :=
  ∃ rounds, List.Forall₂ Round (s.accepted.take s.handled).zipIdx rounds ∧
    s.attempts = rounds.flatten ++ s.present

end System

/-! ### The invariant -/

structure Inv (s : System) : Prop where
  queue_le : s.threads.queue.length ≤ kMaxQueued
  rest : s.accepted.drop s.handled = s.inHand.toList ++ s.threads.queue
  handled_le : s.handled ≤ s.accepted.length
  rounds : s.InRounds
  within : s.loop.Within
  idle : s.inHand = none → s.loop = .popped

variable {s t : System}

theorem inv_start : Inv start := by
  refine ⟨Nat.zero_le _, rfl, Nat.le_refl _, ⟨[], ?_, rfl⟩, trivial, fun _ => rfl⟩
  show List.Forall₂ Round [] []
  exact .nil

/-- The worker is done with an item that it has attempted. -/
theorem Inv.finish {item : Item} {attempts rounds : List Attempt} (h : Inv s)
    (hhand : s.inHand = some item) {done : List (List Attempt)}
    (hdone : List.Forall₂ Round (s.accepted.take s.handled).zipIdx done)
    (hrounds : rounds = done.flatten ++ attempts) (hround : Round (item, s.handled) attempts) :
    Inv { s with attempts := rounds }.finish := by
  have hrest : s.accepted.drop s.handled = item :: s.threads.queue := by
    rw [h.rest, hhand]
    rfl
  have hlt : s.handled < s.accepted.length := by
    have hlen := congrArg List.length hrest
    rw [List.length_drop, List.length_cons] at hlen
    omega
  have hget : s.accepted[s.handled]? = some item := by
    rw [← List.head?_drop, hrest]
    rfl
  have htake : s.accepted.take (s.handled + 1) = s.accepted.take s.handled ++ [item] := by
    rw [List.take_add_one, hget]
    rfl
  have hlen : (s.accepted.take s.handled).length = s.handled := by
    rw [List.length_take]
    omega
  refine ⟨h.queue_le, ?_, hlt, ⟨done ++ [attempts], ?_, ?_⟩, trivial, fun _ => rfl⟩
  · show s.accepted.drop (s.handled + 1) = [] ++ s.threads.queue
    rw [← List.drop_drop, hrest]
    rfl
  · show List.Forall₂ Round (s.accepted.take (s.handled + 1)).zipIdx _
    rw [htake, List.zipIdx_append, hlen]
    exact List.rel_append hdone (.cons (by simpa using hround) .nil)
  · show rounds = (done ++ [attempts]).flatten ++ []
    rw [hrounds, List.flatten_append, List.append_nil, List.flatten_singleton]

/-- Failures only, as many as the loop has counted. -/
theorem round_replicate {item : Item} {index n : ℕ} (hpos : 1 ≤ n) (hle : n ≤ kMaxRetries) :
    Round (item, index) (List.replicate n ⟨item, index, false⟩) := by
  refine ⟨fun a ha => ?_, by simpa using hpos, by simpa using hle, fun a ha => ?_⟩
  · rw [List.eq_of_mem_replicate ha]
  · rw [List.eq_of_mem_replicate (List.dropLast_subset _ ha)]

/-- Failures and the attempt that ends the round. -/
theorem round_concat {item : Item} {index n : ℕ} (hle : n + 1 ≤ kMaxRetries) (ok : Bool) :
    Round (item, index) (List.replicate n ⟨item, index, false⟩ ++ [⟨item, index, ok⟩]) := by
  refine ⟨fun a ha => ?_, by simp, by simpa using hle, fun a ha => ?_⟩
  · rcases List.mem_append.mp ha with ha | ha
    · rw [List.eq_of_mem_replicate ha]
    · rw [List.mem_singleton.mp ha]
  · rw [List.dropLast_concat] at ha
    rw [List.eq_of_mem_replicate ha]

/-- A step in the loop that makes no attempt. -/
theorem Inv.of_loop (h : Inv s) {loop : Loop} (hmade : loop.made = s.loop.made)
    (hwithin : loop.Within) {item : Item} (hhand : s.inHand = some item) :
    Inv { s with loop := loop } := by
  obtain ⟨done, hdone, hattempts⟩ := h.rounds
  refine ⟨h.queue_le, h.rest, h.handled_le, ⟨done, hdone, ?_⟩, hwithin, fun hidle => ?_⟩
  · have hpresent : { s with loop := loop }.present = s.present := by
      have hsame : { s with loop := loop }.inHand = s.inHand := rfl
      rw [System.present, System.present, hsame, hmade]
    rw [hpresent]
    exact hattempts
  · exact absurd (hhand.symm.trans hidle) (by simp)

/-- The items that are accepted later stand behind. -/
theorem Inv.rounds_append (h : Inv s) (items : List Item) :
    (s.accepted ++ items).take s.handled = s.accepted.take s.handled :=
  List.take_append_of_le_length h.handled_le

/-- A thread moves without taking an item. -/
theorem Inv.of_move (h : Inv s) {threads : CvWorker.State Item}
    (hhand : (s.move threads).inHand = s.inHand) (hle : threads.queue.length ≤ kMaxQueued)
    {items : List Item} (hqueue : threads.queue = s.threads.queue ++ items) :
    Inv (s.move threads) := by
  have haccepted : (s.move threads).accepted = s.accepted ++ items := by
    rw [System.move, hqueue, List.drop_left]
  obtain ⟨done, hdone, hattempts⟩ := h.rounds
  refine ⟨hle, ?_, ?_, ⟨done, ?_, ?_⟩, h.within, fun hidle => ?_⟩
  · show (s.move threads).accepted.drop s.handled = _
    rw [haccepted, List.drop_append_of_le_length h.handled_le, h.rest, hhand,
      List.append_assoc, ← hqueue]
    rfl
  · show s.handled ≤ (s.move threads).accepted.length
    rw [haccepted, List.length_append]
    exact Nat.le_add_right_of_le h.handled_le
  · show List.Forall₂ Round ((s.move threads).accepted.take s.handled).zipIdx done
    rw [haccepted, h.rounds_append]
    exact hdone
  · rw [System.present, hhand]
    exact hattempts
  · exact h.idle (hhand ▸ hidle)

/-- The worker takes the front item. -/
theorem Inv.take (h : Inv s) (hhand : s.inHand = none) {item : Item} {rest : List Item}
    (hqueue : s.threads.queue = item :: rest) :
    Inv (s.move { s.threads with queue := rest, worker := .work item }) := by
  have haccepted : (s.move { s.threads with queue := rest, worker := .work item }).accepted =
      s.accepted := by
    have hdrop : rest.drop s.threads.queue.length = [] := by
      rw [hqueue, List.length_cons]
      exact List.drop_eq_nil_of_le (Nat.le_succ _)
    rw [System.move]
    dsimp only
    rw [hdrop, List.append_nil]
  obtain ⟨done, hdone, hattempts⟩ := h.rounds
  refine ⟨?_, ?_, ?_, ⟨done, ?_, ?_⟩, h.within, fun hidle => ?_⟩
  · have hle := h.queue_le
    rw [hqueue, List.length_cons] at hle
    exact Nat.le_of_succ_le hle
  · rw [haccepted]
    show s.accepted.drop s.handled = [item] ++ rest
    rw [h.rest, hhand, hqueue]
    rfl
  · rw [haccepted]
    exact h.handled_le
  · rw [haccepted]
    exact hdone
  · -- no attempt is made yet
    show s.attempts = done.flatten ++ List.replicate s.loop.made ⟨item, s.handled, false⟩
    rw [hattempts, System.present, hhand, h.idle hhand]
    rfl
  · exact absurd hidle (by simp [System.inHand, System.move, CvWorker.Worker.item])

/-! ### Steps -/

theorem inv_thread {i : CvWorker.Label Item} (h : Inv s) (hstep : step s (.thread i) = some t) :
    Inv t := by
  have hi : i ≠ .finish := by
    rintro rfl
    exact absurd hstep (by simp [step])
  have hmap : (threadStep s.threads i).map s.move = some t := by
    cases i with
    | finish => exact absurd rfl hi
    | _ => exact hstep
  obtain ⟨threads, hthreads, rfl⟩ := Option.map_eq_some_iff.mp hmap
  obtain ⟨item, rest, hitem, hq, rfl⟩ | ⟨hitem, items, hq⟩ := CvWorker.item_cases hthreads hi
  · exact h.take hitem hq
  · exact h.of_move hitem (CvWorker.queue_le_step h.queue_le hthreads) hq

theorem inHand_of_work {item : Item} (hw : s.threads.worker = .work item) :
    s.inHand = some item := by
  rw [System.inHand, hw]
  rfl

/-- The loop at an item that it holds. -/
theorem present_of_hand {item : Item} (hhand : s.inHand = some item) :
    s.present = List.replicate s.loop.made ⟨item, s.handled, false⟩ := by
  rw [System.present, hhand]

theorem inv_attempt {ok : Bool} (h : Inv s) (hstep : step s (.attempt ok) = some t) : Inv t := by
  simp only [step] at hstep
  split at hstep
  next item attempt retries hw hl =>
    have hhand := inHand_of_work hw
    have hwithin := h.within
    rw [hl] at hwithin
    obtain ⟨hpos, hle, hmax⟩ := hwithin
    have hsucc : attempt - 1 + 1 = attempt := Nat.sub_add_cancel hpos
    obtain ⟨done, hdone, hattempts⟩ := h.rounds
    rw [present_of_hand hhand, hl] at hattempts
    -- the attempt goes to the end of the present round
    have hlog : s.attempts ++ [Attempt.mk item s.handled ok] = done.flatten ++
        (List.replicate (attempt - 1) ⟨item, s.handled, false⟩ ++ [⟨item, s.handled, ok⟩]) := by
      rw [hattempts, List.append_assoc]
      rfl
    cases ok with
    | true =>
      obtain rfl := Option.some_inj.mp hstep
      refine h.finish hhand hdone hlog (round_concat ?_ true)
      omega
    | false =>
      obtain rfl := Option.some_inj.mp hstep
      refine ⟨h.queue_le, h.rest, h.handled_le, ⟨done, hdone, ?_⟩, ⟨hpos, hle, hmax⟩,
        fun hidle => ?_⟩
      · show s.attempts ++ [Attempt.mk item s.handled false] =
          done.flatten ++ System.present { s with loop := .failed attempt retries }
        have hsame : System.inHand { s with loop := .failed attempt retries } = some item := hhand
        rw [present_of_hand hsame, hlog, ← List.replicate_succ', hsucc]
        rfl
      · exact absurd (hhand.symm.trans hidle) (by simp)
  next => exact absurd hstep (by simp)

/-- The loop ends after the failures that it has counted. -/
theorem Inv.give_up (h : Inv s) {item : Item} (hhand : s.inHand = some item)
    (hpos : 1 ≤ s.loop.made) (hle : s.loop.made ≤ kMaxRetries) : Inv s.finish := by
  obtain ⟨done, hdone, hattempts⟩ := h.rounds
  rw [present_of_hand hhand] at hattempts
  exact h.finish hhand hdone hattempts (round_replicate hpos hle)

theorem inv_check (h : Inv s) (hstep : step s .check = some t) : Inv t := by
  simp only [step] at hstep
  split at hstep
  next item attempt retries hw hl =>
    have hhand := inHand_of_work hw
    have hwithin := h.within
    rw [hl] at hwithin
    obtain ⟨hpos, hle, hmax⟩ := hwithin
    split at hstep
    · obtain rfl := Option.some_inj.mp hstep
      refine h.give_up hhand ?_ ?_
      · rw [hl]
        exact hpos
      · rw [hl]
        exact Nat.le_trans hle hmax
    · obtain rfl := Option.some_inj.mp hstep
      exact h.of_loop (by rw [hl]; rfl) ⟨hpos, hle, hmax⟩ hhand
  next => exact absurd hstep (by simp)

theorem inv_wake (h : Inv s) (hstep : step s .wake = some t) : Inv t := by
  simp only [step] at hstep
  split at hstep
  next item attempt retries hw hl =>
    have hhand := inHand_of_work hw
    have hwithin := h.within
    rw [hl] at hwithin
    obtain ⟨hpos, hle, hmax⟩ := hwithin
    split at hstep
    next hmore =>
      obtain rfl := Option.some_inj.mp hstep
      exact h.of_loop (by rw [hl]; rfl) ⟨by omega, hmore, hmax⟩ hhand
    next =>
      obtain rfl := Option.some_inj.mp hstep
      refine h.give_up hhand ?_ ?_
      · rw [hl]
        exact hpos
      · rw [hl]
        exact Nat.le_trans hle hmax
  next => exact absurd hstep (by simp)

theorem inv_step {i : Label} (h : Inv s) (hstep : step s i = some t) : Inv t := by
  cases i with
  | thread i => exact inv_thread h hstep
  | setRetries =>
    simp only [step] at hstep
    split at hstep
    next item hw hl =>
      have hhand := inHand_of_work hw
      obtain rfl := Option.some_inj.mp hstep
      refine h.of_loop (by rw [hl]; rfl) ?_ hhand
      -- whether the flag is up or not
      refine ⟨Nat.le_refl 1, ?_, ?_⟩ <;> cases s.threads.stopping <;> decide
    next => exact absurd hstep (by simp)
  | attempt ok => exact inv_attempt h hstep
  | check => exact inv_check h hstep
  | wake => exact inv_wake h hstep

/-! ### After `stop` -/

/-- The loop over the attempts is a part of the handling of an item. -/
theorem drained_step {i : Label} (h : CvWorker.Drained s.threads) (hi : StopsAfterCalls s i)
    (hstep : step s i = some t) : CvWorker.Drained t.threads := by
  -- an item that is finished leaves the worker between two items
  have hfinish : ∀ item, s.threads.worker = .work item → CvWorker.Drained s.finish.threads :=
    fun item hw => h.of_worker (by simp) (by simp [hw])
  cases i with
  | thread i =>
    have hmap : (threadStep s.threads i).map s.move = some t := by
      cases i with
      | finish => exact absurd hstep (by simp [step])
      | _ => exact hstep
    obtain ⟨threads, hthreads, rfl⟩ := Option.map_eq_some_iff.mp hmap
    exact CvWorker.drained_step h hi hthreads
  | setRetries =>
    simp only [step] at hstep
    split at hstep
    · exact Option.some_inj.mp hstep ▸ h
    · exact absurd hstep (by simp)
  | attempt ok =>
    simp only [step] at hstep
    split at hstep
    next item attempt retries hw hl =>
      split at hstep
      · exact Option.some_inj.mp hstep ▸ hfinish item hw
      · exact Option.some_inj.mp hstep ▸ h
    next => exact absurd hstep (by simp)
  | check =>
    simp only [step] at hstep
    split at hstep
    next item attempt retries hw hl =>
      split at hstep
      · exact Option.some_inj.mp hstep ▸ hfinish item hw
      · exact Option.some_inj.mp hstep ▸ h
    next => exact absurd hstep (by simp)
  | wake =>
    simp only [step] at hstep
    split at hstep
    next item attempt retries hw hl =>
      split at hstep
      · exact Option.some_inj.mp hstep ▸ h
      · exact Option.some_inj.mp hstep ▸ hfinish item hw
    next => exact absurd hstep (by simp)

/-- What holds of the uploader in every state of a run. -/
structure Ordered (s : System) : Prop where
  waiting_le : s.threads.queue.length ≤ kMaxQueued
  fifo : s.accepted = s.accepted.take s.handled ++ s.inHand.toList ++ s.threads.queue
  rounds : s.InRounds

theorem Inv.ordered (h : Inv s) : Ordered s := by
  refine ⟨h.queue_le, ?_, h.rounds⟩
  rw [List.append_assoc, ← h.rest, List.take_append_drop]

/-- **Items are attempted in the order of acceptance.**  In every run the items
that the worker is done with come first among the accepted ones, then the one in
hand, then at most `kMaxQueued` that wait; the attempts are made in rounds, item
by item, of which each has between one and `kMaxRetries` attempts and at most the
last was a success.  If no call of `enqueue` or `enqueue_delete` was under way
when `stop` was called, nothing waits when it returns, and every accepted item
has had its round. -/
theorem items_attempted {is : List Label} {s : System}
    (hC : Along step StopsAfterCalls start is) (hrun : run step start is = some s) :
    Ordered s ∧ (s.threads.stopper = .joined → s.threads.queue = [] ∧
      ∃ rounds, List.Forall₂ Round s.accepted.zipIdx rounds ∧ s.attempts = rounds.flatten) := by
  have hinv : Inv s := run_preserves (fun _ _ _ => inv_step) inv_start hrun
  have hdrained : CvWorker.Drained s.threads := run_invariant
    (P := fun s : System => CvWorker.Drained s.threads) (fun _ _ _ => drained_step)
    CvWorker.drained_init hC hrun
  refine ⟨hinv.ordered, fun hjoined => ?_⟩
  have hdone := hdrained.joined hjoined
  have hempty : s.threads.queue = [] := (hdrained.done hdone).1
  have hhand : s.inHand = none := by rw [System.inHand, hdone]; rfl
  have hall : s.accepted.take s.handled = s.accepted := by
    have hfifo := hinv.ordered.fifo
    rw [hhand, hempty, Option.toList_none, List.append_nil, List.append_nil] at hfifo
    exact hfifo.symm
  obtain ⟨rounds, hrounds, hattempts⟩ := hinv.rounds
  refine ⟨hempty, rounds, ?_, ?_⟩
  · rwa [hall] at hrounds
  · rwa [System.present, hhand, List.append_nil] at hattempts

/-- Two uploads and a delete are accepted.  The first upload fails twice while
`stop` comes in between, so that the second failure is its last. -/
def stoppedUploads : List Label :=
  [.thread (.offer ⟨"a", "k", false⟩), .thread (.push 0), .thread (.offer ⟨"b", "l", false⟩),
    .thread (.push 0), .thread (.offer ⟨"", "k", true⟩), .thread (.push 0), .thread .lock,
    .thread .evaluate, .thread .take, .setRetries, .attempt false, .check, .wake, .thread .store,
    .attempt false, .check, .thread .lock, .thread .evaluate, .thread .take, .setRetries,
    .attempt true, .thread .lock, .thread .evaluate, .thread .take, .setRetries, .attempt false,
    .thread .notify, .check, .thread .lock, .thread .evaluate, .thread .take, .thread .join]

theorem stoppedUploads_attempted :
    ∃ s, run step start stoppedUploads = some s ∧ s.threads.stopper = .joined ∧
      s.attempts.map (fun a => (a.index, a.ok)) =
        [(0, false), (0, false), (1, true), (2, false)] ∧
      Ordered s ∧ (s.threads.stopper = .joined → s.threads.queue = [] ∧
        ∃ rounds, List.Forall₂ Round s.accepted.zipIdx rounds ∧
          s.attempts = rounds.flatten) := by
  have hrun : run step start stoppedUploads = some _ := rfl
  have hC : Along step StopsAfterCalls start stoppedUploads := by decide
  exact ⟨_, hrun, rfl, rfl, items_attempted hC hrun⟩

end HttpSegmentUploader

end IpcMini
