/-
The demand for the streams of a media source (`src/media/media_source.cpp`).

The first subscriber of a stream asks the demand handler to start the encoder,
and the last one that leaves releases it.  A refused activation refuses the
subscription; the answer to a release is not looked at.

* `step` — a call of `set_track`, `subscribe` or `unsubscribe`, one after the
  other, with the calls of the demand handler and the ids returned;
* `Served` — what a call can do;
* `Balanced` — activations and releases alternate and end as there are
  subscribers;
* **`demand_follows_subscribers`** — in every state of every run the demand is
  balanced, the snapshots list the subscribers, and no id comes twice;
* `release_refused` — an ignored refusal, and a snapshot not in the order of ids.
-/
import Mathlib.Data.List.Chain
import IpcMini.MediaBus

namespace IpcMini

open Interleaving

/-! ### Calls -/

/-- A call of the demand handler and its answer. -/
structure Demand where
  streamId : ℤ
  active : Bool
  granted : Bool
  deriving DecidableEq, Repr

/-- A media source with the calls of its demand handler and the ids that
`subscribe` has returned so far. -/
structure DemandedSource where
  source : MediaSource
  demands : List Demand
  ids : List ℕ

namespace DemandedSource

/-- A call and what is answered in it: `subscriber` says whether the handler
given to `subscribe` is not empty, `answer` is that of the demand handler, and
`order` the order in which the hash table yields the handlers. -/
inductive Call
  | setTrack (streamId : ℤ)
  | subscribe (streamId : ℤ) (subscriber answer : Bool) (order : List ℕ)
  | unsubscribe (streamId : ℤ) (subscriptionId : ℕ) (answer : Bool) (order : List ℕ)

/-- A new source with a demand handler. -/
def start : DemandedSource := ⟨{ MediaSource.init with streamDemandHandler := true }, [], []⟩

/-- `subscribe` returns `id`. -/
def returned (s : DemandedSource) (id : ℕ) : DemandedSource := { s with ids := s.ids ++ [id] }

/-- The demand handler is called. -/
def demanded (s : DemandedSource) (called : Bool) (demand : Demand) : DemandedSource :=
  if called then { s with demands := s.demands ++ [demand] } else s

@[simp] theorem demanded_source (s : DemandedSource) (called : Bool) (demand : Demand) :
    (s.demanded called demand).source = s.source := by
  cases called <;> rfl

theorem demanded_demands (s : DemandedSource) (called : Bool) (demand : Demand) :
    (s.demanded called demand).demands =
      if called then s.demands ++ [demand] else s.demands := by
  cases called <;> rfl

@[simp] theorem demanded_ids (s : DemandedSource) (called : Bool) (demand : Demand) :
    (s.demanded called demand).ids = s.ids := by
  cases called <;> rfl

/-- A call from its start to its return, without another one in between. -/
def step (s : DemandedSource) : Call → Option DemandedSource
  | .setTrack streamId =>
    (MediaSource.step s.source (.setTrack streamId)).map fun t => { s with source := t }
  | .subscribe streamId subscriber answer order =>
    if !subscriber then some (s.returned 0)
    else
      (MediaSource.step s.source (.subscribe streamId)).bind fun t =>
        match t.demand with
        | some (.subscribing _ asks) =>
          (MediaSource.step t (.subscribed answer order)).map fun u =>
            let s := { s with source := u }.demanded asks ⟨streamId, true, answer⟩
            s.returned (if asks && !answer then 0 else t.subscribers.nextSubscriptionId)
        | _ => some ({ s with source := t }.returned 0)
  | .unsubscribe streamId subscriptionId answer order =>
    (MediaSource.step s.source (.unsubscribe streamId subscriptionId order)).bind fun t =>
      match t.demand with
      | some (.unsubscribing _ _) =>
        let lastSubscriber := t.subscribers.entries.filter (·.1 = streamId) = ∅
        (MediaSource.step t .unsubscribed).map fun u =>
          { s with source := u }.demanded (lastSubscriber && t.streamDemandHandler)
            ⟨streamId, false, answer⟩
      | _ => some { s with source := t }

/-- The stream has a subscriber. -/
def Subscribed (s : DemandedSource) (streamId : ℤ) : Prop :=
  ∃ id, (streamId, id) ∈ s.source.subscribers.entries

/-- What a call does. -/
inductive Served (s : DemandedSource) : Call → DemandedSource → Prop
  | track (streamId : ℤ) (t : DemandedSource)
      (subscribers : t.source.subscribers = s.source.subscribers)
      (snapshot : t.source.subscriberSnapshot = s.source.subscriberSnapshot)
      (demands : t.demands = s.demands) (ids : t.ids = s.ids) :
      Served s (.setTrack streamId) t
  | refused (streamId : ℤ) (subscriber answer : Bool) (order : List ℕ) (t : DemandedSource)
      (subscribers : t.source.subscribers = s.source.subscribers)
      (snapshot : t.source.subscriberSnapshot = s.source.subscriberSnapshot)
      (demands : t.demands = s.demands ∨ t.demands = s.demands ++ [⟨streamId, true, false⟩])
      (ids : t.ids = s.ids ++ [0]) :
      Served s (.subscribe streamId subscriber answer order) t
  | subscribed (streamId : ℤ) (subscriber answer : Bool) (order : List ℕ) (t : DemandedSource)
      (subscribers : t.source.subscribers = (s.source.subscribers.subscribe streamId true).2)
      (lists : t.source.subscribers.Lists streamId order)
      (snapshot : t.source.subscriberSnapshot =
        Function.update s.source.subscriberSnapshot streamId order)
      (demands : s.Subscribed streamId ∧ t.demands = s.demands ∨
        ¬ s.Subscribed streamId ∧ t.demands = s.demands ++ [⟨streamId, true, true⟩])
      (ids : t.ids = s.ids ++ [s.source.subscribers.nextSubscriptionId]) :
      Served s (.subscribe streamId subscriber answer order) t
  | unknown (streamId : ℤ) (id : ℕ) (answer : Bool) (order : List ℕ) (t : DemandedSource)
      (subscribers : t.source.subscribers = s.source.subscribers)
      (snapshot : t.source.subscriberSnapshot = s.source.subscriberSnapshot)
      (demands : t.demands = s.demands) (ids : t.ids = s.ids) :
      Served s (.unsubscribe streamId id answer order) t
  | unsubscribed (streamId : ℤ) (id : ℕ) (answer : Bool) (order : List ℕ) (t : DemandedSource)
      (member : (streamId, id) ∈ s.source.subscribers.entries)
      (subscribers : t.source.subscribers = s.source.subscribers.unsubscribe streamId id)
      (lists : t.source.subscribers.Lists streamId order)
      (snapshot : t.source.subscriberSnapshot =
        Function.update s.source.subscriberSnapshot streamId order)
      (demands : t.Subscribed streamId ∧ t.demands = s.demands ∨
        ¬ t.Subscribed streamId ∧ t.demands = s.demands ++ [⟨streamId, false, answer⟩])
      (ids : t.ids = s.ids) :
      Served s (.unsubscribe streamId id answer order) t

/-- Between two calls `demand_mutex_` is free, and the handler is set. -/
def Ready (s : DemandedSource) : Prop :=
  s.source.demand = none ∧ s.source.streamDemandHandler = true

variable {s t : DemandedSource} {c : Call}

theorem returns_handler (s : MediaSource) (streamId : ℤ) (id : ℕ) :
    (s.returns streamId id).streamDemandHandler = s.streamDemandHandler := by
  unfold MediaSource.returns
  split_ifs <;> rfl

theorem subscribed_iff (s : DemandedSource) (streamId : ℤ) :
    s.Subscribed streamId ↔ s.source.subscribers.entries.filter (·.1 = streamId) ≠ ∅ := by
  rw [Subscribed, ← Finset.nonempty_iff_ne_empty]
  constructor
  · rintro ⟨id, hid⟩
    exact ⟨(streamId, id), Finset.mem_filter.mpr ⟨hid, rfl⟩⟩
  · rintro ⟨⟨stream, id⟩, hmem⟩
    obtain ⟨hid, rfl⟩ := Finset.mem_filter.mp hmem
    exact ⟨id, hid⟩

theorem served_subscribe (h : s.Ready) {streamId : ℤ} {subscriber answer : Bool}
    {order : List ℕ} (hstep : s.step (.subscribe streamId subscriber answer order) = some t) :
    s.Served (.subscribe streamId subscriber answer order) t ∧ t.Ready := by
  obtain ⟨hdemand, hhandler⟩ := h
  rw [step] at hstep
  split at hstep
  · obtain rfl := Option.some_inj.mp hstep
    exact ⟨.refused _ _ _ _ _ rfl rfl (.inl rfl) rfl, hdemand, hhandler⟩
  rw [MediaSource.step, hdemand, if_neg (by simp), hhandler] at hstep
  split at hstep
  case isFalse =>
    rw [Option.bind_some, hdemand] at hstep
    obtain rfl := Option.some_inj.mp hstep
    exact ⟨.refused _ _ _ _ _ rfl rfl (.inl rfl) rfl, hdemand, hhandler⟩
  case isTrue =>
    rw [Option.bind_some] at hstep
    dsimp only at hstep
    have hfirst : (decide (s.source.subscribers.entries.filter (·.1 = streamId) = ∅) && true) =
        true ↔ ¬ s.Subscribed streamId := by
      rw [subscribed_iff, Bool.and_true, decide_eq_true_iff, not_not]
    generalize (decide (s.source.subscribers.entries.filter (·.1 = streamId) = ∅) && true) = asks
      at hstep hfirst
    obtain ⟨u, hu, rfl⟩ := Option.map_eq_some_iff.mp hstep
    rw [MediaSource.step] at hu
    dsimp only at hu
    split at hu
    next hrefused =>
      -- the first subscriber, and the demand handler refuses
      obtain rfl := Option.some_inj.mp hu
      obtain ⟨hasks, hanswer⟩ := Bool.and_eq_true_iff.mp hrefused
      obtain rfl : answer = false := by simpa using hanswer
      refine ⟨.refused _ _ _ _ _ ?_ ?_ (.inr ?_) ?_, ?_, ?_⟩
      · rw [returned, demanded_source]
      · rw [returned, demanded_source]
      · rw [returned, demanded_demands, if_pos hasks]
      · rw [returned, demanded_ids, if_pos hrefused]
      · rw [returned, demanded_source]
      · rw [returned, demanded_source]
    next haccepted =>
      split at hu
      case isFalse => cases hu
      case isTrue hlists =>
        obtain rfl := Option.some_inj.mp hu
        refine ⟨.subscribed _ _ _ _ _ ?_ ?_ ?_ ?_ ?_, ?_, ?_⟩
        · rw [returned, demanded_source]
        · rw [returned, demanded_source]
          exact hlists
        · rw [returned, demanded_source]
        · rw [returned, demanded_demands]
          cases asks with
          | true =>
            obtain rfl : answer = true := by simpa using haccepted
            exact .inr ⟨hfirst.mp rfl, rfl⟩
          | false => exact .inl ⟨not_not.mp fun hs => absurd (hfirst.mpr hs) (by simp), rfl⟩
        · rw [returned, demanded_ids, if_neg haccepted]
        · rw [returned, demanded_source]
        · rw [returned, demanded_source]

theorem served_unsubscribe (h : s.Ready) {streamId : ℤ} {id : ℕ} {answer : Bool}
    {order : List ℕ} (hstep : s.step (.unsubscribe streamId id answer order) = some t) :
    s.Served (.unsubscribe streamId id answer order) t ∧ t.Ready := by
  obtain ⟨hdemand, hhandler⟩ := h
  rw [step, MediaSource.step, hdemand, if_neg (by simp)] at hstep
  split at hstep
  case isFalse hmem =>
    rw [Option.bind_some, MediaSource.returns_demand, hdemand] at hstep
    -- an unknown id is given back, and nobody is asked
    obtain rfl := Option.some_inj.mp hstep
    refine ⟨.unknown _ _ _ _ _ ?_ ?_ rfl rfl, ?_, ?_⟩
    · exact MediaSource.returns_subscribers _ _ _
    · exact MediaSource.returns_subscriberSnapshot _ _ _
    · exact (MediaSource.returns_demand _ _ _).trans hdemand
    · exact (returns_handler _ _ _).trans hhandler
  case isTrue hmem =>
    dsimp only at hstep
    split at hstep
    case isFalse => cases hstep
    case isTrue hlists =>
      rw [Option.bind_some] at hstep
      dsimp only at hstep
      obtain ⟨u, hu, rfl⟩ := Option.map_eq_some_iff.mp hstep
      rw [MediaSource.step] at hu
      obtain rfl := Option.some_inj.mp hu
      refine ⟨.unsubscribed _ _ _ _ _ hmem ?_ ?_ ?_ ?_ ?_, ?_, ?_⟩
      · rw [demanded_source]
        exact MediaSource.returns_subscribers _ _ _
      · rw [demanded_source]
        show Subscribers.Lists (MediaSource.returns _ _ _).subscribers _ _
        rw [MediaSource.returns_subscribers]
        exact hlists
      · rw [demanded_source]
        exact MediaSource.returns_subscriberSnapshot _ _ _
      · rw [demanded_demands, subscribed_iff, demanded_source]
        show (MediaSource.returns _ _ _).subscribers.entries.filter _ ≠ ∅ ∧ _ ∨
          ¬ (MediaSource.returns _ _ _).subscribers.entries.filter _ ≠ ∅ ∧ _
        rw [MediaSource.returns_subscribers, hhandler, Bool.and_true, not_not]
        -- the stream is given up when its last subscriber has gone
        by_cases hlast : (s.source.subscribers.unsubscribe streamId id).entries.filter
            (·.1 = streamId) = ∅
        · exact .inr ⟨hlast, if_pos (decide_eq_true hlast)⟩
        · exact .inl ⟨hlast, if_neg (by rw [decide_eq_true_iff]; exact hlast)⟩
      · rw [demanded_ids]
      · rw [demanded_source]
      · rw [demanded_source]
        exact (returns_handler _ _ _).trans hhandler

theorem served_of_step (h : s.Ready) (hstep : s.step c = some t) : s.Served c t ∧ t.Ready := by
  cases c with
  | setTrack streamId =>
    obtain rfl := Option.some_inj.mp hstep
    exact ⟨.track _ _ rfl rfl rfl rfl, h⟩
  | subscribe streamId subscriber answer order => exact served_subscribe h hstep
  | unsubscribe streamId id answer order => exact served_unsubscribe h hstep

/-! ### The demand -/

/-- The demand calls of a stream that `select` selects. -/
def demandedOf (s : DemandedSource) (select : Demand → Bool) (streamId : ℤ) : List Bool :=
  (s.demands.filter fun d => decide (d.streamId = streamId) && select d).map Demand.active

/-- The calls alternate, an activation first, and the last one is an activation
exactly when the stream has a subscriber. -/
structure Balanced (calls : List Bool) (subscribed : Prop) : Prop where
  alternate : calls.IsChain (· ≠ ·)
  first : ∀ active ∈ calls.head?, active = true
  last : calls.getLast? = some true ↔ subscribed

/-- The demand call is not a refused activation. -/
def effective (d : Demand) : Bool := d.granted || !d.active

variable {calls : List Bool} {P Q : Prop}

theorem Balanced.congr (h : Balanced calls P) (hPQ : P ↔ Q) : Balanced calls Q :=
  ⟨h.alternate, h.first, h.last.trans hPQ⟩

/-- The first subscriber activates the stream. -/
theorem Balanced.activate (h : Balanced calls P) (hP : ¬ P) (hQ : Q) :
    Balanced (calls ++ [true]) Q := by
  have hlast : calls.getLast? ≠ some true := fun he => hP (h.last.mp he)
  refine ⟨List.isChain_append.mpr ⟨h.alternate, by simp, fun x hx y hy => ?_⟩,
    fun active hactive => ?_, by simp [hQ]⟩
  · obtain rfl : true = y := by simpa using hy
    rintro rfl
    exact hlast hx
  · cases calls with
    | nil => simpa using hactive.symm
    | cons x xs => exact h.first active hactive

/-- The last subscriber releases it. -/
theorem Balanced.release (h : Balanced calls P) (hP : P) (hQ : ¬ Q) :
    Balanced (calls ++ [false]) Q := by
  have hlast : calls.getLast? = some true := h.last.mpr hP
  refine ⟨List.isChain_append.mpr ⟨h.alternate, by simp, fun x hx y hy => ?_⟩,
    fun active hactive => ?_, by simp [hQ]⟩
  · obtain rfl : false = y := by simpa using hy
    obtain rfl : true = x := by simpa [hlast] using hx
    simp
  · cases calls with
    | nil => exact absurd hlast (by simp)
    | cons x xs => exact h.first active hactive

/-- The demand of every stream is balanced, the snapshots list the subscribers,
and the ids that were returned are distinct. -/
structure Inv (s : DemandedSource) : Prop where
  ready : s.Ready
  balanced : ∀ streamId, Balanced (s.demandedOf effective streamId) (s.Subscribed streamId)
  lists : ∀ streamId,
    s.source.subscribers.Lists streamId (s.source.subscriberSnapshot streamId)
  ids_lt : ∀ id ∈ s.ids, id < s.source.subscribers.nextSubscriptionId
  distinct : (s.ids.filter (· ≠ 0)).Nodup

theorem inv_start : Inv start where
  ready := ⟨rfl, rfl⟩
  balanced streamId := by
    refine ⟨List.isChain_nil, fun active hactive => absurd hactive (by simp [demandedOf, start]),
      ⟨fun h => absurd h (by simp [demandedOf, start]), ?_⟩⟩
    rintro ⟨id, hid⟩
    exact absurd hid (Finset.notMem_empty _)
  lists streamId := ⟨List.nodup_nil, by
    show _ = Finset.filter _ ∅
    rw [Finset.filter_empty]
    rfl⟩
  ids_lt id hid := absurd hid List.not_mem_nil
  distinct := List.nodup_nil

theorem demandedOf_congr (h : t.demands = s.demands) (select : Demand → Bool) (streamId : ℤ) :
    t.demandedOf select streamId = s.demandedOf select streamId := by
  rw [demandedOf, h, demandedOf]

/-- A demand call more: it counts for its stream, if it is selected. -/
theorem demandedOf_concat {d : Demand} (h : t.demands = s.demands ++ [d])
    (select : Demand → Bool) (streamId : ℤ) :
    t.demandedOf select streamId =
      if d.streamId = streamId ∧ select d = true then
        s.demandedOf select streamId ++ [d.active]
      else s.demandedOf select streamId := by
  rw [demandedOf, h, List.filter_append, List.map_append, ← demandedOf]
  by_cases hd : d.streamId = streamId ∧ select d = true
  · simp [hd]
  · have hno : (decide (d.streamId = streamId) && select d) = false := by simpa using hd
    rw [if_neg hd, List.filter_singleton, hno]
    exact List.append_nil _

/-- The entries of the streams that a call does not name are left alone. -/
theorem lists_other {table table' : Subscribers ℤ} {stream : ℤ} {order : List ℕ}
    (h : table.Lists stream order)
    (hsame : ∀ id, (stream, id) ∈ table'.entries ↔ (stream, id) ∈ table.entries) :
    table'.Lists stream order := by
  refine ⟨h.1, h.2.trans (Finset.ext fun e => ?_)⟩
  rw [Finset.mem_filter, Finset.mem_filter]
  constructor
  · rintro ⟨he, rfl⟩
    exact ⟨(hsame e.2).mpr he, rfl⟩
  · rintro ⟨he, rfl⟩
    exact ⟨(hsame e.2).mp he, rfl⟩

theorem lists_update {snapshot : ℤ → List ℕ} {table table' : Subscribers ℤ} {streamId : ℤ}
    {order : List ℕ} (h : ∀ stream, table.Lists stream (snapshot stream))
    (horder : table'.Lists streamId order)
    (hsame : ∀ stream, stream ≠ streamId →
      ∀ id, (stream, id) ∈ table'.entries ↔ (stream, id) ∈ table.entries) (stream : ℤ) :
    table'.Lists stream (Function.update snapshot streamId order stream) := by
  by_cases hs : stream = streamId
  · subst hs
    rw [Function.update_self]
    exact horder
  · rw [Function.update_of_ne hs]
    exact lists_other (h stream) (hsame stream hs)

/-- Without a change of the table the demand calls are balanced as before. -/
theorem Inv.balanced_of_same (h : s.Inv) (hsame : t.source.subscribers = s.source.subscribers)
    (hcalls : ∀ streamId, t.demandedOf effective streamId = s.demandedOf effective streamId)
    (streamId : ℤ) : Balanced (t.demandedOf effective streamId) (t.Subscribed streamId) := by
  rw [hcalls, Subscribed, hsame]
  exact h.balanced streamId

/-- A call that finds nothing to do keeps the invariant. -/
theorem Inv.of_same (h : s.Inv) (hready : t.Ready)
    (hsubscribers : t.source.subscribers = s.source.subscribers)
    (hsnapshot : t.source.subscriberSnapshot = s.source.subscriberSnapshot)
    (hdemands : t.demands = s.demands) (hids : t.ids = s.ids) : t.Inv := by
  refine ⟨hready, h.balanced_of_same hsubscribers (demandedOf_congr hdemands _), ?_, ?_, ?_⟩
  · rw [hsubscribers, hsnapshot]
    exact h.lists
  · rw [hids, hsubscribers]
    exact h.ids_lt
  · rw [hids]
    exact h.distinct

/-- A demand call for one stream leaves the others balanced. -/
theorem Inv.balanced_other (h : s.Inv) {streamId stream : ℤ} (hne : stream ≠ streamId)
    {active granted : Bool}
    (hdemands : t.demands = s.demands ∨ t.demands = s.demands ++ [⟨streamId, active, granted⟩])
    (hsame : ∀ id, (stream, id) ∈ t.source.subscribers.entries ↔
      (stream, id) ∈ s.source.subscribers.entries) :
    Balanced (t.demandedOf effective stream) (t.Subscribed stream) := by
  have hcalls : t.demandedOf effective stream = s.demandedOf effective stream := by
    rcases hdemands with hd | hd
    · exact demandedOf_congr hd _ _
    · rw [demandedOf_concat hd, if_neg fun hc => hne hc.1.symm]
  rw [hcalls]
  exact (h.balanced stream).congr (exists_congr hsame).symm

/-- **A refused `subscribe`** returns 0, which no id is. -/
theorem inv_refused (h : s.Inv) (hready : t.Ready) {streamId : ℤ}
    (hsubscribers : t.source.subscribers = s.source.subscribers)
    (hsnapshot : t.source.subscriberSnapshot = s.source.subscriberSnapshot)
    (hdemands : t.demands = s.demands ∨ t.demands = s.demands ++ [⟨streamId, true, false⟩])
    (hids : t.ids = s.ids ++ [0]) : t.Inv := by
  -- a refused activation does not count
  have hcalls : ∀ stream, t.demandedOf effective stream = s.demandedOf effective stream := by
    intro stream
    rcases hdemands with hd | hd
    · exact demandedOf_congr hd _ _
    · rw [demandedOf_concat hd, if_neg (by simp [effective])]
  refine ⟨hready, h.balanced_of_same hsubscribers hcalls, ?_, ?_, ?_⟩
  · rw [hsubscribers, hsnapshot]
    exact h.lists
  · rw [hids, hsubscribers]
    intro id hid
    rcases List.mem_append.mp hid with hid | hid
    · exact h.ids_lt id hid
    · obtain rfl := List.mem_singleton.mp hid
      exact s.source.subscribers.pos
  · rw [hids, List.filter_append]
    simpa using h.distinct

/-- **A `subscribe` that is served** returns a new id. -/
theorem inv_subscribed (h : s.Inv) (hready : t.Ready) {streamId : ℤ} {order : List ℕ}
    (hsubscribers : t.source.subscribers = (s.source.subscribers.subscribe streamId true).2)
    (hlists : t.source.subscribers.Lists streamId order)
    (hsnapshot : t.source.subscriberSnapshot =
      Function.update s.source.subscriberSnapshot streamId order)
    (hdemands : s.Subscribed streamId ∧ t.demands = s.demands ∨
      ¬ s.Subscribed streamId ∧ t.demands = s.demands ++ [⟨streamId, true, true⟩])
    (hids : t.ids = s.ids ++ [s.source.subscribers.nextSubscriptionId]) : t.Inv := by
  have hmem : ∀ stream id, (stream, id) ∈ t.source.subscribers.entries ↔
      (stream, id) = (streamId, s.source.subscribers.nextSubscriptionId) ∨
        (stream, id) ∈ s.source.subscribers.entries := by
    intro stream id
    rw [hsubscribers, Subscribers.entries_subscribe, Finset.mem_insert]
  have hother : ∀ stream, stream ≠ streamId → ∀ id,
      (stream, id) ∈ t.source.subscribers.entries ↔
        (stream, id) ∈ s.source.subscribers.entries := by
    intro stream hne id
    rw [hmem]
    exact ⟨fun ho => ho.resolve_left fun he => hne (congrArg Prod.fst he), .inr⟩
  have hnow : t.Subscribed streamId := ⟨_, (hmem _ _).mpr (.inl rfl)⟩
  refine ⟨hready, fun stream => ?_, ?_, ?_, ?_⟩
  -- this stream is demanded if it was not yet; the others are as before
  · by_cases hs : stream = streamId
    · subst hs
      rcases hdemands with ⟨hP, hd⟩ | ⟨hP, hd⟩
      · rw [demandedOf_congr hd]
        exact (h.balanced stream).congr ⟨fun _ => hnow, fun _ => hP⟩
      · rw [demandedOf_concat hd, if_pos ⟨rfl, rfl⟩]
        exact (h.balanced stream).activate hP hnow
    · exact h.balanced_other hs (hdemands.imp And.right And.right) (hother stream hs)
  · rw [hsnapshot]
    exact lists_update h.lists hlists hother
  · rw [hids, hsubscribers]
    intro id hid
    show id < s.source.subscribers.nextSubscriptionId + 1
    rcases List.mem_append.mp hid with hid | hid
    · exact Nat.lt_succ_of_lt (h.ids_lt id hid)
    · obtain rfl := List.mem_singleton.mp hid
      exact Nat.lt_succ_self _
  · rw [hids, List.filter_append, List.nodup_append]
    refine ⟨h.distinct, (List.nodup_singleton _).filter _, fun a ha b hb => ?_⟩
    obtain rfl := List.mem_singleton.mp (List.mem_filter.mp hb).1
    exact (h.ids_lt a (List.mem_filter.mp ha).1).ne

/-- **An `unsubscribe` of a subscriber** releases the stream if it was the last one. -/
theorem inv_unsubscribed (h : s.Inv) (hready : t.Ready) {streamId : ℤ} {id : ℕ} {answer : Bool}
    {order : List ℕ} (hmember : (streamId, id) ∈ s.source.subscribers.entries)
    (hsubscribers : t.source.subscribers = s.source.subscribers.unsubscribe streamId id)
    (hlists : t.source.subscribers.Lists streamId order)
    (hsnapshot : t.source.subscriberSnapshot =
      Function.update s.source.subscriberSnapshot streamId order)
    (hdemands : t.Subscribed streamId ∧ t.demands = s.demands ∨
      ¬ t.Subscribed streamId ∧ t.demands = s.demands ++ [⟨streamId, false, answer⟩])
    (hids : t.ids = s.ids) : t.Inv := by
  have hother : ∀ stream, stream ≠ streamId → ∀ id',
      (stream, id') ∈ t.source.subscribers.entries ↔
        (stream, id') ∈ s.source.subscribers.entries := by
    intro stream hne id'
    rw [hsubscribers, Subscribers.entries_unsubscribe, Finset.mem_erase]
    exact ⟨And.right, fun hm => ⟨fun he => hne (congrArg Prod.fst he), hm⟩⟩
  have hbefore : s.Subscribed streamId := ⟨id, hmember⟩
  refine ⟨hready, fun stream => ?_, ?_, ?_, ?_⟩
  · by_cases hs : stream = streamId
    · subst hs
      rcases hdemands with ⟨hQ, hd⟩ | ⟨hQ, hd⟩
      · rw [demandedOf_congr hd]
        exact (h.balanced stream).congr ⟨fun _ => hQ, fun _ => hbefore⟩
      · -- the answer to a release does not matter
        rw [demandedOf_concat hd, if_pos ⟨rfl, by simp [effective]⟩]
        exact (h.balanced stream).release hbefore hQ
    · exact h.balanced_other hs (hdemands.imp And.right And.right) (hother stream hs)
  · rw [hsnapshot]
    exact lists_update h.lists hlists hother
  · rw [hids, hsubscribers]
    exact h.ids_lt
  · rw [hids]
    exact h.distinct

/-- **Every call keeps the invariant.** -/
theorem inv_step (h : s.Inv) (hstep : s.step c = some t) : t.Inv := by
  obtain ⟨hserved, hready⟩ := served_of_step h.ready hstep
  cases hserved with
  | track _ _ subscribers snapshot demands ids =>
    exact h.of_same hready subscribers snapshot demands ids
  | refused _ _ _ _ _ subscribers snapshot demands ids =>
    exact inv_refused h hready subscribers snapshot demands ids
  | subscribed _ _ _ _ _ subscribers lists snapshot demands ids =>
    exact inv_subscribed h hready subscribers lists snapshot demands ids
  | unknown _ _ _ _ _ subscribers snapshot demands ids =>
    exact h.of_same hready subscribers snapshot demands ids
  | unsubscribed _ _ _ _ _ member subscribers lists snapshot demands ids =>
    exact inv_unsubscribed h hready member subscribers lists snapshot demands ids

/-! ### Runs -/

/-- A `subscribe` that returns 0 leaves table and snapshots alone. -/
def RefusedIsVoid (s : DemandedSource) (c : Call) : Prop :=
  ∀ t, s.step c = some t → t.ids = s.ids ++ [0] →
    t.source.subscribers = s.source.subscribers ∧
      t.source.subscriberSnapshot = s.source.subscriberSnapshot

theorem refusedIsVoid (h : s.Inv) (c : Call) : s.RefusedIsVoid c := by
  intro t hstep hzero
  obtain ⟨hserved, -⟩ := served_of_step h.ready hstep
  cases hserved with
  | subscribed _ _ _ _ _ _ _ _ _ ids =>
    -- an id that is handed out is not 0
    have hid : s.source.subscribers.nextSubscriptionId = 0 := by
      simpa using ids.symm.trans hzero
    exact absurd hid s.source.subscribers.nextSubscriptionId_ne_zero
  | track _ _ subscribers snapshot => exact ⟨subscribers, snapshot⟩
  | refused _ _ _ _ _ subscribers snapshot => exact ⟨subscribers, snapshot⟩
  | unknown _ _ _ _ _ _ _ demands ids => exact absurd (ids.symm.trans hzero) (by simp)
  | unsubscribed _ _ _ _ _ _ _ _ _ _ ids => exact absurd (ids.symm.trans hzero) (by simp)

/-- **The demand follows the subscribers.**  In every run, whatever the demand
handler answers and whatever order the hash table yields: the calls of the
handler other than refused activations alternate from an activation on and end
with one exactly when the stream has a subscriber; a refused `subscribe` changes
nothing; the snapshots have the current subscribers, each once; and no id is
returned twice. -/
theorem demand_follows_subscribers (calls : List Call) :
    Along step RefusedIsVoid start calls ∧
    ∀ s, run step start calls = some s → ∀ streamId,
      Balanced (s.demandedOf effective streamId) (s.Subscribed streamId) ∧
      s.source.subscribers.Lists streamId (s.source.subscriberSnapshot streamId) ∧
      (s.ids.filter (· ≠ 0)).Nodup := by
  refine ⟨?_, fun s hrun streamId => ?_⟩
  · exact along_of_invariant (fun _ _ _ => inv_step) (fun _ c h => refusedIsVoid h c) inv_start
  · have h : s.Inv := run_preserves (fun _ _ _ => inv_step) inv_start hrun
    exact ⟨h.balanced streamId, h.lists streamId, h.distinct⟩

/-- **An ignored refusal**: the handler refuses to release the stream, and the
activation that was granted is the last one although nobody subscribes any more.
And a table that yields the newest handler first, as one may, has its snapshot
not in the order of the ids. -/
theorem release_refused :
    (¬ ∀ calls s, run step start calls = some s → ∀ streamId,
      Balanced (s.demandedOf Demand.granted streamId) (s.Subscribed streamId)) ∧
    ¬ ∀ calls s, run step start calls = some s → ∀ streamId,
      (s.source.subscriberSnapshot streamId).Pairwise (· < ·) := by
  constructor
  · intro h
    have hrun : (run step start [.setTrack 0, .subscribe 0 true true [1],
        .unsubscribe 0 1 false []]).map (fun s =>
          (s.demandedOf Demand.granted 0, s.source.subscribers.entries)) = some ([true], ∅) := by
      decide
    obtain ⟨s, hs, hstate⟩ := Option.map_eq_some_iff.mp hrun
    obtain ⟨hcalls, hentries⟩ := Prod.mk.inj hstate
    obtain ⟨id, hid⟩ := (h _ s hs 0).last.mp (by rw [hcalls]; rfl)
    rw [hentries] at hid
    exact absurd hid (Finset.notMem_empty _)
  · intro h
    have hrun : (run step start [.setTrack 0, .subscribe 0 true true [1],
        .subscribe 0 true true [2, 1]]).map (fun s => s.source.subscriberSnapshot 0) =
          some [2, 1] := by
      decide
    obtain ⟨s, hs, hsnapshot⟩ := Option.map_eq_some_iff.mp hrun
    have hsorted := h _ s hs 0
    rw [hsnapshot] at hsorted
    exact absurd hsorted (by decide)

end DemandedSource

end IpcMini
