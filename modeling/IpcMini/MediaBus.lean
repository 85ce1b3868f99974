/-
Handlers on the media bus (`src/media/media_source.cpp`,
`src/media/detection_source.cpp`).

`publish` copies the handlers of its stream under the mutex and invokes them
without it; `subscribe` and `unsubscribe` come from other threads.  Both classes
are step relations whose labels are the critical sections, the handler
invocations and the returns of the calls.

* `MediaSource.step` — subscriptions per stream, with the stream demand handler
  called between the two critical sections of `subscribe` and after that of
  `unsubscribe`;
* `DetectionSource.step` — one table of handlers;
* `MediaSource.simulates`, `DetectionSource.simulates` — each step is one of the
  bus that publishes to snapshots, or leaves it alone;
* **`no_call_after_unsubscribe`** — an `unsubscribe` that returns when no `publish`
  under way has its handler ahead is never followed by a call of that handler;
* **`handler_after_unsubscribe`** — nothing in the code waits for that.
-/
import Mathlib.Data.Int.Notation
import IpcMini.SnapshotBus
import IpcMini.Subscribers

namespace IpcMini

open Interleaving

/-- The handlers of a stream in the order in which the hash table yields them. -/
def Subscribers.Lists {κ : Type} [DecidableEq κ] (s : Subscribers κ) (stream : κ)
    (order : List ℕ) : Prop :=
  order.Nodup ∧ (order.map fun id => (stream, id)).toFinset = s.entries.filter (·.1 = stream)

instance {κ : Type} [DecidableEq κ] (s : Subscribers κ) (stream : κ) (order : List ℕ) :
    Decidable (s.Lists stream order) := inferInstanceAs (Decidable (_ ∧ _))

theorem Subscribers.Lists.mem {κ : Type} [DecidableEq κ] {s : Subscribers κ} {stream : κ}
    {order : List ℕ} (h : s.Lists stream order) {id : ℕ} (hid : id ∈ order) :
    (stream, id) ∈ s.entries := by
  have hmem : (stream, id) ∈ (order.map fun id => (stream, id)).toFinset :=
    List.mem_toFinset.mpr (List.mem_map_of_mem hid)
  rw [h.2] at hmem
  exact (Finset.mem_filter.mp hmem).1

/-! ### `MediaSource` -/

/-- The call that holds `demand_mutex_`. -/
inductive DemandCall
  /-- between the critical sections of `subscribe`, asking the demand handler or not -/
  | subscribing (streamId : ℤ) (asks : Bool)
  /-- behind the critical section of `unsubscribe` -/
  | unsubscribing (streamId : ℤ) (subscriptionId : ℕ)
  deriving DecidableEq, Repr

structure MediaSource where
  /-- the keys of `streams_` -/
  streams : Finset ℤ
  subscribers : Subscribers ℤ
  /-- per stream the handlers in the order in which `publish` calls them -/
  subscriberSnapshot : ℤ → List ℕ
  /-- whether `stream_demand_handler_` is set -/
  streamDemandHandler : Bool
  demand : Option DemandCall
  /-- for each `publish` under way the handlers it still has to invoke -/
  publishes : List (List (ℤ × ℕ))
  /-- the subscriptions whose `unsubscribe` has returned -/
  returned : Finset (ℤ × ℕ)

namespace MediaSource

/-- One step of one thread.  `order` is the order of the rebuilt snapshot,
`answer` the answer of the demand handler, `n` the `n`-th `publish` under way. -/
inductive Label
  | setTrack (streamId : ℤ)
  | setStreamDemandHandler (set : Bool)
  | subscribe (streamId : ℤ)
  | subscribed (answer : Bool) (order : List ℕ)
  | unsubscribe (streamId : ℤ) (subscriptionId : ℕ) (order : List ℕ)
  | unsubscribed
  | publish (streamId : ℤ)
  | invoke (n : ℕ)
  | published (n : ℕ)

def init : MediaSource := ⟨∅, .empty, fun _ => [], false, none, [], ∅⟩

/-- `unsubscribe` returns.  An id that was never handed out is nobody's. -/
def returns (s : MediaSource) (streamId : ℤ) (subscriptionId : ℕ) : MediaSource :=
  if subscriptionId < s.subscribers.nextSubscriptionId then
    { s with returned := insert (streamId, subscriptionId) s.returned }
  else s

def step (s : MediaSource) : Label → Option MediaSource
  | .setTrack streamId => some { s with streams := insert streamId s.streams }
  | .setStreamDemandHandler set => some { s with streamDemandHandler := set }
  | .subscribe streamId =>
    if s.demand.isSome then none
    else if streamId ∈ s.streams then
      let firstSubscriber := s.subscribers.entries.filter (·.1 = streamId) = ∅
      some { s with
        demand := some (.subscribing streamId (firstSubscriber && s.streamDemandHandler)) }
    else some s
  | .subscribed answer order =>
    match s.demand with
    | some (.subscribing streamId asks) =>
      if asks && !answer then some { s with demand := none }
      else
        let subscribers := (s.subscribers.subscribe streamId true).2
        if subscribers.Lists streamId order then
          some { s with
            subscribers := subscribers
            subscriberSnapshot := Function.update s.subscriberSnapshot streamId order
            demand := none }
        else none
    | _ => none
  | .unsubscribe streamId subscriptionId order =>
    if s.demand.isSome then none
    else if (streamId, subscriptionId) ∈ s.subscribers.entries then
      let subscribers := s.subscribers.unsubscribe streamId subscriptionId
      if subscribers.Lists streamId order then
        some { s with
          subscribers := subscribers
          subscriberSnapshot := Function.update s.subscriberSnapshot streamId order
          demand := some (.unsubscribing streamId subscriptionId) }
      else none
    else
      -- no such stream, or `erase` finds nothing
      some (s.returns streamId subscriptionId)
  | .unsubscribed =>
    match s.demand with
    | some (.unsubscribing streamId subscriptionId) =>
      some { s.returns streamId subscriptionId with demand := none }
    | _ => none
  | .publish streamId =>
    if streamId ∈ s.streams then
      some { s with publishes :=
        s.publishes ++ [(s.subscriberSnapshot streamId).map fun id => (streamId, id)] }
    else some s
  | .invoke n =>
    match s.publishes[n]? with
    | some (_ :: rest) => some { s with publishes := s.publishes.set n rest }
    | _ => none
  | .published n =>
    match s.publishes[n]? with
    | some [] => some { s with publishes := s.publishes.eraseIdx n }
    | _ => none

/-- No handler is invoked after the `unsubscribe` for its id has returned. -/
def NoLateCall (s : MediaSource) : Label → Prop
  | .invoke n => ∀ handlers ∈ s.publishes[n]?, ∀ handler ∈ handlers.head?, handler ∉ s.returned
  | _ => True

/-- No `publish` under way has the handler ahead of it. -/
def Quiet (s : MediaSource) (handler : ℤ × ℕ) : Prop :=
  ∀ handlers ∈ s.publishes, handler ∉ handlers

/-- The handler of the `unsubscribe` that is behind its critical section. -/
def unsubscribing (s : MediaSource) : Option (ℤ × ℕ) :=
  match s.demand with
  | some (.unsubscribing streamId subscriptionId) => some (streamId, subscriptionId)
  | _ => none

/-- `unsubscribe` returns when no `publish` under way has its handler ahead. -/
def Settled (s : MediaSource) : Label → Prop
  | .unsubscribe streamId subscriptionId _ =>
    (streamId, subscriptionId) ∉ s.subscribers.entries → s.Quiet (streamId, subscriptionId)
  | .unsubscribed => ∀ handler ∈ s.unsubscribing, s.Quiet handler
  | _ => True

instance (s : MediaSource) (i : Label) : Decidable (NoLateCall s i) := by
  cases i <;> unfold NoLateCall <;> infer_instance

instance (s : MediaSource) (handler : ℤ × ℕ) : Decidable (s.Quiet handler) :=
  inferInstanceAs (Decidable (∀ _ ∈ _, _))

instance (s : MediaSource) (i : Label) : Decidable (Settled s i) := by
  cases i <;> unfold Settled <;> infer_instance

/-- The bus of snapshots behind a media source. -/
def bus (s : MediaSource) : SnapshotBus.Bus (ℤ × ℕ) :=
  ⟨s.subscribers.entries, s.returned, s.publishes⟩

/-- The snapshots hold subscribed handlers, and the handlers of the calls that
have returned or are about to are off the table for good. -/
structure Inv (s : MediaSource) : Prop where
  snapshot : ∀ streamId, ∀ id ∈ s.subscriberSnapshot streamId,
    (streamId, id) ∈ s.subscribers.entries
  returned : ∀ handler ∈ s.returned, handler.2 < s.subscribers.nextSubscriptionId
  unsubscribing : ∀ streamId id, s.demand = some (.unsubscribing streamId id) →
    (streamId, id) ∉ s.subscribers.entries ∧ id < s.subscribers.nextSubscriptionId

theorem inv_init : Inv init :=
  ⟨fun _ _ h => absurd h (by simp [init]), fun _ h => absurd h (by simp [init]),
    fun _ _ h => absurd h (by simp [init])⟩

@[simp] theorem returns_subscribers (s : MediaSource) (streamId : ℤ) (id : ℕ) :
    (s.returns streamId id).subscribers = s.subscribers := by
  unfold returns
  split_ifs <;> rfl

@[simp] theorem returns_subscriberSnapshot (s : MediaSource) (streamId : ℤ) (id : ℕ) :
    (s.returns streamId id).subscriberSnapshot = s.subscriberSnapshot := by
  unfold returns
  split_ifs <;> rfl

@[simp] theorem returns_demand (s : MediaSource) (streamId : ℤ) (id : ℕ) :
    (s.returns streamId id).demand = s.demand := by
  unfold returns
  split_ifs <;> rfl

theorem inv_returns {s : MediaSource} (h : Inv s) (streamId : ℤ) (id : ℕ) :
    Inv (s.returns streamId id) := by
  refine ⟨by simpa using h.snapshot, ?_, by simpa using h.unsubscribing⟩
  intro handler hmem
  rw [returns_subscribers]
  unfold returns at hmem
  split_ifs at hmem with hid
  · rcases Finset.mem_insert.mp hmem with rfl | hmem
    · exact hid
    · exact h.returned handler hmem
  · exact h.returned handler hmem

theorem snapshot_update {table : Subscribers ℤ} {snapshot : ℤ → List ℕ} {streamId : ℤ}
    {order : List ℕ} (horder : table.Lists streamId order)
    (hother : ∀ stream, stream ≠ streamId → ∀ id ∈ snapshot stream, (stream, id) ∈ table.entries) :
    ∀ stream, ∀ id ∈ Function.update snapshot streamId order stream,
      (stream, id) ∈ table.entries := by
  intro stream id hid
  by_cases hs : stream = streamId
  · subst hs
    rw [Function.update_self] at hid
    exact horder.mem hid
  · rw [Function.update_of_ne hs] at hid
    exact hother stream hs id hid

theorem inv_step {s t : MediaSource} {i : Label} (h : Inv s) (hstep : step s i = some t) :
    Inv t := by
  cases i with
  | setTrack _ =>
    obtain rfl := Option.some_inj.mp hstep
    exact ⟨h.snapshot, h.returned, h.unsubscribing⟩
  | setStreamDemandHandler _ =>
    obtain rfl := Option.some_inj.mp hstep
    exact ⟨h.snapshot, h.returned, h.unsubscribing⟩
  | subscribe streamId =>
    simp only [step] at hstep
    split_ifs at hstep
    · obtain rfl := Option.some_inj.mp hstep
      exact ⟨h.snapshot, h.returned, fun _ _ hd => absurd hd (by simp)⟩
    · obtain rfl := Option.some_inj.mp hstep
      exact h
  | subscribed answer order =>
    simp only [step] at hstep
    split at hstep
    case h_2 => exact absurd hstep (by simp)
    case h_1 streamId asks hdemand =>
      split_ifs at hstep with hrefused horder
      · obtain rfl := Option.some_inj.mp hstep
        exact ⟨h.snapshot, h.returned, fun _ _ hd => absurd hd (by simp)⟩
      · obtain rfl := Option.some_inj.mp hstep
        refine ⟨snapshot_update horder fun stream _ id hid => ?_, fun handler hmem => ?_,
          fun _ _ hd => absurd hd (by simp)⟩
        -- a new number is above all that a snapshot or a handler has
        · exact Finset.mem_insert_of_mem (h.snapshot stream id hid)
        · exact Nat.lt_succ_of_lt (h.returned handler hmem)
  | unsubscribe streamId id order =>
    simp only [step] at hstep
    split_ifs at hstep with hbusy hmem horder
    · obtain rfl := Option.some_inj.mp hstep
      refine ⟨snapshot_update horder fun stream hs id' hid => ?_, h.returned, ?_⟩
      -- only this stream's snapshot changes, and it loses the number that is erased
      · exact Finset.mem_erase.mpr ⟨fun he => hs (congrArg Prod.fst he), h.snapshot stream id' hid⟩
      · intro stream id' hd
        obtain ⟨rfl, rfl⟩ : streamId = stream ∧ id = id' := by simpa using hd
        exact ⟨Finset.notMem_erase _ _, s.subscribers.fresh (streamId, id) hmem⟩
    · obtain rfl := Option.some_inj.mp hstep
      exact inv_returns h streamId id
  | unsubscribed =>
    simp only [step] at hstep
    split at hstep
    case h_2 => exact absurd hstep (by simp)
    case h_1 streamId id hdemand =>
      obtain rfl := Option.some_inj.mp hstep
      have hret := inv_returns h streamId id
      exact ⟨hret.snapshot, hret.returned, fun _ _ hd => absurd hd (by simp)⟩
  | publish streamId =>
    simp only [step] at hstep
    split_ifs at hstep
    · obtain rfl := Option.some_inj.mp hstep
      exact ⟨h.snapshot, h.returned, h.unsubscribing⟩
    · obtain rfl := Option.some_inj.mp hstep
      exact h
  | invoke n =>
    simp only [step] at hstep
    split at hstep
    · obtain rfl := Option.some_inj.mp hstep
      exact ⟨h.snapshot, h.returned, h.unsubscribing⟩
    · exact absurd hstep (by simp)
  | published n =>
    simp only [step] at hstep
    split at hstep
    · obtain rfl := Option.some_inj.mp hstep
      exact ⟨h.snapshot, h.returned, h.unsubscribing⟩
    · exact absurd hstep (by simp)

/-- A call that returns is the return of its removal from the bus, unless its
id was never handed out. -/
theorem bus_returns {s : MediaSource} {streamId : ℤ} {id : ℕ}
    (hmem : (streamId, id) ∉ s.subscribers.entries) :
    (s.returns streamId id).bus = s.bus ∨
      SnapshotBus.step s.bus (.returns (streamId, id)) = some (s.returns streamId id).bus := by
  unfold returns
  split_ifs with hid
  · right
    exact if_neg hmem
  · exact .inl rfl

/-- **A media source is a bus that publishes to snapshots.** -/
theorem simulates {s : MediaSource} {i : Label} (h : Inv s) (hi : Settled s i) :
    (NoLateCall s i ∧ ∀ t, step s i = some t → t.bus = s.bus) ∨
    ∃ j, SnapshotBus.Settled s.bus j ∧ (SnapshotBus.NoLateCall s.bus j → NoLateCall s i) ∧
      ∀ t, step s i = some t → SnapshotBus.step s.bus j = some t.bus := by
  cases i with
  | setTrack _ => exact .inl ⟨trivial, fun t ht => Option.some_inj.mp ht ▸ rfl⟩
  | setStreamDemandHandler _ => exact .inl ⟨trivial, fun t ht => Option.some_inj.mp ht ▸ rfl⟩
  | subscribe streamId =>
    refine .inl ⟨trivial, fun t ht => ?_⟩
    simp only [step] at ht
    split_ifs at ht <;> exact Option.some_inj.mp ht ▸ rfl
  | subscribed answer order =>
    cases hdemand : s.demand with
    | none => exact .inl ⟨trivial, fun t ht => absurd ht (by simp [step, hdemand])⟩
    | some call =>
      cases call with
      | unsubscribing _ _ => exact .inl ⟨trivial, fun t ht => absurd ht (by simp [step, hdemand])⟩
      | subscribing streamId asks =>
        by_cases hrefused : (asks && !answer) = true
        · refine .inl ⟨trivial, fun t ht => ?_⟩
          simp only [step, hdemand, if_pos hrefused] at ht
          exact Option.some_inj.mp ht ▸ rfl
        · refine .inr ⟨.add (streamId, s.subscribers.nextSubscriptionId), trivial,
            fun _ => trivial, fun t ht => ?_⟩
          simp only [step, hdemand, if_neg hrefused] at ht
          obtain ⟨horder, ht⟩ := Option.ite_none_right_eq_some.mp ht
          obtain rfl := Option.some_inj.mp ht
          -- the counter makes the new handler one that was never there
          refine if_neg ?_
          rintro (hmem | hmem)
          · exact Subscribers.ne_of_mem hmem rfl
          · exact (h.returned _ hmem).ne rfl
  | unsubscribe streamId id order =>
    by_cases hmem : (streamId, id) ∈ s.subscribers.entries
    · refine .inr ⟨.remove (streamId, id), trivial, fun _ => trivial, fun t ht => ?_⟩
      simp only [step, if_pos hmem] at ht
      obtain ⟨-, ht⟩ := Option.ite_none_left_eq_some.mp ht
      obtain ⟨-, ht⟩ := Option.ite_none_right_eq_some.mp ht
      exact Option.some_inj.mp ht ▸ rfl
    · have hret : ∀ t, step s (.unsubscribe streamId id order) = some t →
          t = s.returns streamId id := by
        intro t ht
        simp only [step, if_neg hmem] at ht
        exact (Option.some_inj.mp (Option.ite_none_left_eq_some.mp ht).2).symm
      rcases bus_returns hmem with hsame | hreturns
      · exact .inl ⟨trivial, fun t ht => hret t ht ▸ hsame⟩
      · exact .inr ⟨.returns (streamId, id), hi hmem, fun _ => trivial,
          fun t ht => hret t ht ▸ hreturns⟩
  | unsubscribed =>
    cases hdemand : s.demand with
    | none => exact .inl ⟨trivial, fun t ht => absurd ht (by simp [step, hdemand])⟩
    | some call =>
      cases call with
      | subscribing _ _ => exact .inl ⟨trivial, fun t ht => absurd ht (by simp [step, hdemand])⟩
      | unsubscribing streamId id =>
        have hquiet : s.Quiet (streamId, id) := hi _ (by simp [unsubscribing, hdemand])
        have hret : ∀ t, step s .unsubscribed = some t → t.bus = (s.returns streamId id).bus := by
          intro t ht
          simp only [step, hdemand] at ht
          exact Option.some_inj.mp ht ▸ rfl
        rcases bus_returns (h.unsubscribing streamId id hdemand).1 with hsame | hreturns
        · exact .inl ⟨trivial, fun t ht => (hret t ht).trans hsame⟩
        · exact .inr ⟨.returns (streamId, id), hquiet, fun _ => trivial,
            fun t ht => hret t ht ▸ hreturns⟩
  | publish streamId =>
    by_cases hstream : streamId ∈ s.streams
    · refine .inr ⟨.snapshot ((s.subscriberSnapshot streamId).map fun id => (streamId, id)),
        trivial, fun _ => trivial, fun t ht => ?_⟩
      simp only [step, if_pos hstream] at ht
      obtain rfl := Option.some_inj.mp ht
      refine if_pos fun handler hmem => ?_
      obtain ⟨id, hid, rfl⟩ := List.mem_map.mp hmem
      exact h.snapshot streamId id hid
    · refine .inl ⟨trivial, fun t ht => ?_⟩
      simp only [step, if_neg hstream] at ht
      exact Option.some_inj.mp ht ▸ rfl
  | invoke n =>
    refine .inr ⟨.invoke n, trivial, id, fun t ht => ?_⟩
    simp only [step] at ht
    split at ht
    case h_1 handler rest hn =>
      obtain rfl := Option.some_inj.mp ht
      simp only [SnapshotBus.step, bus, hn]
    case h_2 => exact absurd ht (by simp)
  | published n =>
    refine .inr ⟨.done n, trivial, fun _ => trivial, fun t ht => ?_⟩
    simp only [step] at ht
    split at ht
    · exact Option.some_inj.mp ht ▸ rfl
    · exact absurd ht (by simp)

end MediaSource

/-! ### `DetectionSource` -/

structure DetectionSource where
  handlers : Subscribers Unit
  /-- the ids of the `unsubscribe` calls behind their critical section -/
  unsubscribing : List ℕ
  /-- for each `publish` under way the handlers it still has to invoke -/
  publishes : List (List (Unit × ℕ))
  /-- the ids whose `unsubscribe` has returned -/
  returned : Finset (Unit × ℕ)

namespace DetectionSource

/-- One step of one thread.  `order` is the order of the copied handlers. -/
inductive Label
  | subscribe
  | unsubscribe (id : ℕ)
  | unsubscribed (id : ℕ)
  | publish (order : List ℕ)
  | invoke (n : ℕ)
  | published (n : ℕ)

def init : DetectionSource := ⟨.empty, [], [], ∅⟩

def step (s : DetectionSource) : Label → Option DetectionSource
  | .subscribe => some { s with handlers := (s.handlers.subscribe () true).2 }
  | .unsubscribe id =>
    -- an id that was never handed out is nobody's
    if id < s.handlers.nextSubscriptionId then
      some { s with
        handlers := s.handlers.unsubscribe () id
        unsubscribing := id :: s.unsubscribing }
    else some s
  | .unsubscribed id =>
    if id ∈ s.unsubscribing then
      some { s with
        unsubscribing := s.unsubscribing.erase id
        returned := insert ((), id) s.returned }
    else none
  | .publish order =>
    if s.handlers.Lists () order then
      some { s with publishes := s.publishes ++ [order.map fun id => ((), id)] }
    else none
  | .invoke n =>
    match s.publishes[n]? with
    | some (_ :: rest) => some { s with publishes := s.publishes.set n rest }
    | _ => none
  | .published n =>
    match s.publishes[n]? with
    | some [] => some { s with publishes := s.publishes.eraseIdx n }
    | _ => none

/-- No handler is invoked after the `unsubscribe` for its id has returned. -/
def NoLateCall (s : DetectionSource) : Label → Prop
  | .invoke n => ∀ handlers ∈ s.publishes[n]?, ∀ handler ∈ handlers.head?, handler ∉ s.returned
  | _ => True

/-- `unsubscribe` returns when no `publish` under way has its handler ahead. -/
def Settled (s : DetectionSource) : Label → Prop
  | .unsubscribed id => ∀ handlers ∈ s.publishes, ((), id) ∉ handlers
  | _ => True

instance (s : DetectionSource) (i : Label) : Decidable (NoLateCall s i) := by
  cases i <;> unfold NoLateCall <;> infer_instance

instance (s : DetectionSource) (i : Label) : Decidable (Settled s i) := by
  cases i <;> unfold Settled <;> infer_instance

/-- The bus of snapshots behind a detection source. -/
def bus (s : DetectionSource) : SnapshotBus.Bus (Unit × ℕ) :=
  ⟨s.handlers.entries, s.returned, s.publishes⟩

/-- The handlers of the calls that have returned or are about to are off the
table for good. -/
structure Inv (s : DetectionSource) : Prop where
  returned : ∀ handler ∈ s.returned, handler.2 < s.handlers.nextSubscriptionId
  unsubscribing : ∀ id ∈ s.unsubscribing,
    ((), id) ∉ s.handlers.entries ∧ id < s.handlers.nextSubscriptionId

theorem inv_init : Inv init :=
  ⟨fun _ h => absurd h (by simp [init]), fun _ h => absurd h (by simp [init])⟩

theorem inv_step {s t : DetectionSource} {i : Label} (h : Inv s) (hstep : step s i = some t) :
    Inv t := by
  cases i with
  | subscribe =>
    obtain rfl := Option.some_inj.mp hstep
    refine ⟨fun handler hmem => Nat.lt_succ_of_lt (h.returned handler hmem), fun id hid => ?_⟩
    obtain ⟨hoff, hlt⟩ := h.unsubscribing id hid
    -- an id that is given back later is older than the new one
    refine ⟨fun hmem => ?_, Nat.lt_succ_of_lt hlt⟩
    rcases Finset.mem_insert.mp hmem with he | hmem
    · exact hlt.ne (congrArg Prod.snd he)
    · exact hoff hmem
  | unsubscribe id =>
    simp only [step] at hstep
    split_ifs at hstep with hid
    · obtain rfl := Option.some_inj.mp hstep
      refine ⟨h.returned, fun id' hmem => ?_⟩
      rcases List.mem_cons.mp hmem with rfl | hmem
      · exact ⟨Finset.notMem_erase _ _, hid⟩
      · obtain ⟨hoff, hlt⟩ := h.unsubscribing id' hmem
        exact ⟨fun hmem => hoff (Finset.mem_of_mem_erase hmem), hlt⟩
    · obtain rfl := Option.some_inj.mp hstep
      exact h
  | unsubscribed id =>
    obtain ⟨hid, hstep⟩ := Option.ite_none_right_eq_some.mp hstep
    obtain rfl := Option.some_inj.mp hstep
    refine ⟨fun handler hmem => ?_, fun id' hmem => ?_⟩
    · rcases Finset.mem_insert.mp hmem with rfl | hmem
      · exact (h.unsubscribing id hid).2
      · exact h.returned handler hmem
    · exact h.unsubscribing id' (List.mem_of_mem_erase hmem)
  | publish order =>
    obtain ⟨-, hstep⟩ := Option.ite_none_right_eq_some.mp hstep
    obtain rfl := Option.some_inj.mp hstep
    exact ⟨h.returned, h.unsubscribing⟩
  | invoke n =>
    simp only [step] at hstep
    split at hstep
    · obtain rfl := Option.some_inj.mp hstep
      exact ⟨h.returned, h.unsubscribing⟩
    · exact absurd hstep (by simp)
  | published n =>
    simp only [step] at hstep
    split at hstep
    · obtain rfl := Option.some_inj.mp hstep
      exact ⟨h.returned, h.unsubscribing⟩
    · exact absurd hstep (by simp)

/-- **A detection source is a bus that publishes to snapshots.** -/
theorem simulates {s : DetectionSource} {i : Label} (h : Inv s) (hi : Settled s i) :
    (NoLateCall s i ∧ ∀ t, step s i = some t → t.bus = s.bus) ∨
    ∃ j, SnapshotBus.Settled s.bus j ∧ (SnapshotBus.NoLateCall s.bus j → NoLateCall s i) ∧
      ∀ t, step s i = some t → SnapshotBus.step s.bus j = some t.bus := by
  cases i with
  | subscribe =>
    refine .inr ⟨.add ((), s.handlers.nextSubscriptionId), trivial, fun _ => trivial,
      fun t ht => ?_⟩
    obtain rfl := Option.some_inj.mp ht
    refine if_neg ?_
    rintro (hmem | hmem)
    · exact Subscribers.ne_of_mem hmem rfl
    · exact (h.returned _ hmem).ne rfl
  | unsubscribe id =>
    by_cases hid : id < s.handlers.nextSubscriptionId
    · refine .inr ⟨.remove ((), id), trivial, fun _ => trivial, fun t ht => ?_⟩
      simp only [step, if_pos hid] at ht
      -- an id that was never given out is refused, and the bus stays as it is
      exact Option.some_inj.mp ht ▸ rfl
    · refine .inl ⟨trivial, fun t ht => ?_⟩
      simp only [step, if_neg hid] at ht
      exact Option.some_inj.mp ht ▸ rfl
  | unsubscribed id =>
    refine .inr ⟨.returns ((), id), hi, fun _ => trivial, fun t ht => ?_⟩
    obtain ⟨hid, ht⟩ := Option.ite_none_right_eq_some.mp ht
    obtain rfl := Option.some_inj.mp ht
    exact if_neg (h.unsubscribing id hid).1
  | publish order =>
    refine .inr ⟨.snapshot (order.map fun id => ((), id)), trivial, fun _ => trivial,
      fun t ht => ?_⟩
    obtain ⟨horder, ht⟩ := Option.ite_none_right_eq_some.mp ht
    obtain rfl := Option.some_inj.mp ht
    refine if_pos fun handler hmem => ?_
    obtain ⟨id, hid, rfl⟩ := List.mem_map.mp hmem
    exact horder.mem hid
  | invoke n =>
    refine .inr ⟨.invoke n, trivial, id, fun t ht => ?_⟩
    simp only [step] at ht
    split at ht
    case h_1 handler rest hn =>
      obtain rfl := Option.some_inj.mp ht
      simp only [SnapshotBus.step, bus, hn]
    case h_2 => exact absurd ht (by simp)
  | published n =>
    refine .inr ⟨.done n, trivial, fun _ => trivial, fun t ht => ?_⟩
    simp only [step] at ht
    split at ht
    · exact Option.some_inj.mp ht ▸ rfl
    · exact absurd ht (by simp)

end DetectionSource

/-! ### Calls after `unsubscribe` -/

namespace MediaBus

/-- **Settled `unsubscribe` calls leave no late call**, in both classes. -/
theorem no_call_after_unsubscribe {is : List MediaSource.Label} {js : List DetectionSource.Label}
    (hi : Along MediaSource.step MediaSource.Settled .init is)
    (hj : Along DetectionSource.step DetectionSource.Settled .init js) :
    Along MediaSource.step MediaSource.NoLateCall .init is ∧
      Along DetectionSource.step DetectionSource.NoLateCall .init js :=
  ⟨along_simulation (fun _ _ _ => MediaSource.inv_step) (fun _ _ => MediaSource.simulates)
      MediaSource.inv_init (fun _ => SnapshotBus.noLateCall_of_settled SnapshotBus.inv_empty) hi,
    along_simulation (fun _ _ _ => DetectionSource.inv_step)
      (fun _ _ => DetectionSource.simulates) DetectionSource.inv_init
      (fun _ => SnapshotBus.noLateCall_of_settled SnapshotBus.inv_empty) hj⟩

/-- A handler is subscribed, called by a `publish` and unsubscribed. -/
theorem orderly_unsubscribe :
    Along MediaSource.step MediaSource.NoLateCall .init
        [.setTrack 0, .subscribe 0, .subscribed true [1], .publish 0, .invoke 0, .published 0,
          .unsubscribe 0 1 [], .unsubscribed] ∧
      Along DetectionSource.step DetectionSource.NoLateCall .init
        [.subscribe, .publish [1], .invoke 0, .published 0, .unsubscribe 1, .unsubscribed 1] :=
  no_call_after_unsubscribe (by decide) (by decide)

/-- **A `publish` that has taken its snapshot calls the handler after the
`unsubscribe` has returned.** -/
theorem handler_after_unsubscribe :
    (∃ is, (run MediaSource.step .init is).isSome ∧
      ¬ Along MediaSource.step MediaSource.NoLateCall .init is) ∧
    ∃ js, (run DetectionSource.step .init js).isSome ∧
      ¬ Along DetectionSource.step DetectionSource.NoLateCall .init js :=
  ⟨⟨[.setTrack 0, .subscribe 0, .subscribed true [1], .publish 0, .unsubscribe 0 1 [],
      .unsubscribed, .invoke 0], by decide, by decide⟩,
    ⟨[.subscribe, .publish [1], .unsubscribe 1, .unsubscribed 1, .invoke 0],
      by decide, by decide⟩⟩

end MediaBus

end IpcMini
