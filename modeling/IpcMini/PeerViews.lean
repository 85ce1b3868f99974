/-
What the peers of a room know of it (`cloud/signaling/rooms.js`,
`cloud/signaling/public/viewer.js`).

Nobody asks for the state of a room: a viewer learns the master's id, and the
master the ids of the viewers, from `joined` and from the `peer-joined` and
`peer-left` messages that the operations on the room send.

* `sinceJoin` — the messages to a socket since its last join;
* `masterSeen`, `viewersSeen` — the views that they fold to;
* `leave_synced`, `master_synced`, `viewer_synced` — what one operation sends
  to one peer is what has changed for it;
* **`views_in_sync`** — in every reachable state the view of every registered
  peer with an open socket is the state of its room.
-/
import Mathlib.Data.Finset.Basic
import Mathlib.Data.Finset.Dedup
import IpcMini.SignalRouting

namespace IpcMini

open Interleaving

namespace Signaling

variable {β : Type}

/-! ### Views -/

/-- What was sent to a socket. -/
def inbox (s : State β) (ws : ℕ) : List (Message β) :=
  s.log.filterMap fun entry => if entry.1 = ws then some entry.2 else none

def Message.isJoined : Message β → Bool
  | .joinedMaster _ _ _ | .joinedViewer _ _ _ => true
  | _ => false

/-- The messages from the last `joined` on. -/
def sinceJoin (messages : List (Message β)) : List (Message β) :=
  messages.foldl (fun since message => if message.isJoined then [message] else since ++ [message])
    []

/-- The id of the master, as a viewer keeps it. -/
def seeMaster (master : Option String) : Message β → Option String
  | .joinedViewer _ _ masterId => masterId
  | .joinedMaster _ _ _ => none
  | .peerJoined .master clientId => some clientId
  | .peerLeft .master _ => none
  | _ => master

/-- The ids of the viewers, as the master keeps them. -/
def seeViewers (viewers : Finset String) : Message β → Finset String
  | .joinedMaster _ _ ids => ids.toFinset
  | .joinedViewer _ _ _ => ∅
  | .peerJoined .viewer clientId => insert clientId viewers
  | .peerLeft .viewer clientId => viewers.erase clientId
  | _ => viewers

def masterSeen (messages : List (Message β)) : Option String :=
  (sinceJoin messages).foldl seeMaster none

def viewersSeen (messages : List (Message β)) : Finset String :=
  (sinceJoin messages).foldl seeViewers ∅

/-- A view that every `joined` resets is the same over all messages. -/
theorem foldl_sinceJoin {σ : Type} (see : σ → Message β → σ) (start : σ)
    (hreset : ∀ message, message.isJoined = true → ∀ v w, see v message = see w message)
    (messages : List (Message β)) :
    (sinceJoin messages).foldl see start = messages.foldl see start := by
  induction messages using List.reverseRecOn with
  | nil => rfl
  | append_singleton messages message ih =>
    rw [sinceJoin, List.foldl_concat, ← sinceJoin, List.foldl_concat]
    split_ifs with hjoined
    · exact hreset message hjoined _ _
    · rw [List.foldl_concat, ih]

theorem masterSeen_eq (messages : List (Message β)) :
    masterSeen messages = messages.foldl seeMaster none := by
  refine foldl_sinceJoin seeMaster none (fun message h v w => ?_) messages
  cases message <;> first | rfl | exact absurd h (by simp [Message.isJoined])

theorem viewersSeen_eq (messages : List (Message β)) :
    viewersSeen messages = messages.foldl seeViewers ∅ := by
  refine foldl_sinceJoin seeViewers ∅ (fun message h v w => ?_) messages
  cases message <;> first | rfl | exact absurd h (by simp [Message.isJoined])

/-- Messages that change nothing in a view. -/
theorem foldl_kept {σ : Type} {see : σ → Message β → σ} {messages : List (Message β)} {v : σ}
    (h : ∀ message ∈ messages, see v message = v) : messages.foldl see v = v := by
  induction messages with
  | nil => rfl
  | cons message messages ih =>
    rw [List.foldl_cons, h message List.mem_cons_self]
    exact ih fun m hm => h m (List.mem_cons_of_mem _ hm)

/-- Messages that all say the same. -/
theorem foldl_told {σ : Type} {see : σ → Message β → σ} {messages : List (Message β)} {w : σ}
    (h : ∀ message ∈ messages, ∀ v, see v message = w) (hne : messages ≠ []) (v : σ) :
    messages.foldl see v = w := by
  obtain ⟨message, messages, rfl⟩ := List.exists_cons_of_ne_nil hne
  rw [List.foldl_cons, h message List.mem_cons_self]
  induction messages with
  | nil => rfl
  | cons message' messages ih =>
    rw [List.foldl_cons, h message' (by simp)]
    exact ih (fun m hm => h m (by rcases List.mem_cons.mp hm with rfl | hm <;> simp [*])) (by simp)

/-! ### What actions send to a socket -/

def Action.messageTo (ws : ℕ) : Action β → Option (Message β)
  | .send toWs message => if toWs = ws then some message else none
  | .close _ => none

def sentTo (ws : ℕ) (actions : List (Action β)) : List (Message β) :=
  actions.filterMap (Action.messageTo ws)

@[simp] theorem sentTo_nil (ws : ℕ) : sentTo ws ([] : List (Action β)) = [] := rfl

theorem sentTo_append (ws : ℕ) (actions more : List (Action β)) :
    sentTo ws (actions ++ more) = sentTo ws actions ++ sentTo ws more :=
  List.filterMap_append

theorem mem_sentTo {ws : ℕ} {actions : List (Action β)} {message : Message β} :
    message ∈ sentTo ws actions ↔ .send ws message ∈ actions := by
  rw [sentTo, List.mem_filterMap]
  constructor
  · rintro ⟨action, haction, h⟩
    cases action with
    | send toWs message' =>
      obtain ⟨hto, heq⟩ := Option.ite_none_right_eq_some.mp h
      rw [← hto, ← Option.some_inj.mp heq]
      exact haction
    | close _ => exact absurd h (by simp [Action.messageTo])
  · exact fun h => ⟨_, h, if_pos rfl⟩

theorem sentTo_send (ws toWs : ℕ) (message : Message β) :
    sentTo ws [.send toWs message] = if toWs = ws then [message] else [] := by
  by_cases h : toWs = ws <;> simp [sentTo, Action.messageTo, h]

/-- A socket that is open in the end got everything that was sent to it. -/
theorem inbox_performAll (s : State β) (actions : List (Action β)) (ws : ℕ)
    (h : (s.performAll actions).isOpen ws = true) :
    inbox (s.performAll actions) ws = inbox s ws ++ sentTo ws actions ∧ s.isOpen ws = true := by
  induction actions generalizing s with
  | nil => exact ⟨(List.append_nil _).symm, h⟩
  | cons action actions ih =>
    obtain ⟨hinbox, hopen⟩ := ih (s.perform action) h
    have hcons : sentTo ws (action :: actions) = sentTo ws [action] ++ sentTo ws actions :=
      sentTo_append ws [action] actions
    rw [State.performAll, List.foldl_cons, ← State.performAll, hinbox, hcons, ← List.append_assoc]
    cases action with
    | send toWs message =>
      simp only [State.perform] at hopen ⊢
      split_ifs at hopen ⊢ with hto
      · refine ⟨?_, hopen⟩
        rw [inbox, List.filterMap_append, ← inbox]
        by_cases hws : toWs = ws <;> simp [sentTo, Action.messageTo, hws]
      · refine ⟨?_, hopen⟩
        have hne : toWs ≠ ws := by
          rintro rfl
          exact hto hopen
        simp [sentTo, Action.messageTo, hne]
    | close toWs =>
      simp only [State.perform] at hopen ⊢
      split_ifs at hopen ⊢ with hto
      · refine ⟨by simp [sentTo, Action.messageTo, inbox, State.setReady], ?_⟩
        by_cases hws : ws = toWs
        · subst hws
          exact hto
        · simpa only [State.isOpen, State.setReady, Function.update_of_ne hws] using hopen
      · exact ⟨by simp [sentTo, Action.messageTo], hopen⟩

theorem mem_notifyViewers {room : Room} {message : Message β} {action : Action β} :
    action ∈ notifyViewers room message ↔
      ∃ viewer ∈ room.viewerList, action = .send viewer.ws message := by
  rw [notifyViewers, List.mem_map]
  exact ⟨fun ⟨v, hv, he⟩ => ⟨v, hv, he.symm⟩, fun ⟨v, hv, he⟩ => ⟨v, hv, he.symm⟩⟩

/-! ### One operation, one peer -/

/-- The view that the peer has after these messages is the state of its room. -/
structure Synced (table : String → Room) (heard : List (Message β)) (peer : Peer) : Prop where
  viewer : peer.role = .viewer →
    heard.foldl seeMaster none = (table peer.room).master.map Peer.id
  master : peer.role = .master →
    heard.foldl seeViewers ∅ = (table peer.room).viewerIds.toFinset

/-- Peers that are filed in a table and sit on sockets of their own. -/
structure Seated (table : String → Room) (sits : Peer → Prop) : Prop where
  filed : FiledIn table sits
  alone : ∀ p q, sits p → sits q → p.ws = q.ws → p = q

section Operations

variable {table : String → Room} {sits : Peer → Prop} {heard : List (Message β)}

theorem Seated.of_lookup (h : Seated table sits) {name id : String} {viewer : Peer}
    (hv : (table name).viewers.lookup id = some viewer) :
    (table name).viewers.lookup viewer.id = some viewer ∧ viewer.role = .viewer ∧
      viewer.room = name ∧ sits viewer := by
  obtain ⟨hrole, rfl, hroom, hsits⟩ := h.filed.viewer name id viewer hv
  exact ⟨hv, hrole, hroom, hsits⟩

/-- A registered peer is in its own room only, and sits. -/
theorem Seated.of_has (h : Seated table sits) {name : String} {q : Peer}
    (hq : (table name).Has q) : q.room = name ∧ sits q := by
  rcases hq with hm | hv
  · exact (h.filed.master name q hm).2
  · exact (h.filed.viewer name q.id q hv).2.2

/-- Nothing that a view regards. -/
theorem Synced.ignore (h : Synced table heard q) {table' : String → Room}
    (hroom : table' q.room = table q.room) {sent : List (Message β)}
    (hv : q.role = .viewer → ∀ message ∈ sent, ∀ v, seeMaster v message = v)
    (hm : q.role = .master → ∀ message ∈ sent, ∀ v, seeViewers v message = v) :
    Synced table' (heard ++ sent) q where
  viewer := by
    intro hrole
    rw [List.foldl_append, foldl_kept fun m hm => hv hrole m hm _, hroom, h.viewer hrole]
  master := by
    intro hrole
    rw [List.foldl_append, foldl_kept fun m hmem => hm hrole m hmem _, hroom, h.master hrole]

theorem toFinset_keys_erase (viewers : AList fun _ : String => Peer) (id : String) :
    ((viewers.erase id).keys.reverse).toFinset = viewers.keys.reverse.toFinset.erase id := by
  ext other
  simp [AList.keys_erase, viewers.keys_nodup.mem_erase_iff]

theorem Seated.master_of_role (h : Seated table sits) {name : String} {q : Peer}
    (hq : (table name).Has q) (hrole : q.role = .master) : (table name).master = some q := by
  rcases hq with hm | hv
  · exact hm
  · exact absurd (hrole.symm.trans (h.of_lookup hv).2.1) (by simp)

theorem Seated.viewer_of_role (h : Seated table sits) {name : String} {q : Peer}
    (hq : (table name).Has q) (hrole : q.role = .viewer) : q ∈ (table name).viewerList := by
  rcases hq with hm | hv
  · exact absurd (hrole.symm.trans (h.filed.master name q hm).1) (by simp)
  · exact mem_viewerList.mpr ⟨q.id, hv⟩

/-- A registered peer of one room gets nothing that is meant for the viewers of
another one. -/
theorem Seated.viewer_elsewhere (h : Seated table sits) {name : String} {q viewer : Peer}
    (hq : (table q.room).Has q) (hne : q.room ≠ name) (hv : viewer ∈ (table name).viewerList) :
    viewer.ws ≠ q.ws := by
  intro hws
  obtain ⟨id, hl⟩ := mem_viewerList.mp hv
  obtain ⟨-, -, hroom, hsits⟩ := h.of_lookup hl
  obtain rfl := h.alone viewer q hsits (h.of_has hq).2 hws
  exact hne hroom

theorem Seated.master_elsewhere (h : Seated table sits) {name : String} {q master : Peer}
    (hq : (table q.room).Has q) (hne : q.room ≠ name) (hm : (table name).master = some master) :
    master.ws ≠ q.ws := by
  intro hws
  obtain ⟨-, hroom, hsits⟩ := h.filed.master name master hm
  obtain rfl := h.alone master q hsits (h.of_has hq).2 hws
  exact hne hroom

/-- A master that leaves is reported to every viewer of its room. -/
theorem master_left_synced (h : Seated table sits) {p q : Peer} (hq : (table q.room).Has q)
    (hsync : Synced table heard q) :
    Synced (Function.update table p.room { table p.room with master := none })
      (heard ++ sentTo q.ws (notifyViewers { table p.room with master := none }
        (.peerLeft .master p.id : Message β))) q := by
  have hsent : ∀ message ∈ sentTo q.ws (notifyViewers { table p.room with master := none }
      (.peerLeft .master p.id : Message β)), message = .peerLeft .master p.id := by
    intro message hmem
    obtain ⟨viewer, -, he⟩ := mem_notifyViewers.mp (mem_sentTo.mp hmem)
    exact (Action.send.inj he).2
  by_cases hroom : q.room = p.room
  · refine ⟨fun hrole => ?_, fun hrole => ?_⟩
    · have hmem := h.viewer_of_role hq hrole
      rw [hroom] at hmem
      have hne : sentTo q.ws (notifyViewers { table p.room with master := none }
          (.peerLeft .master p.id : Message β)) ≠ [] :=
        List.ne_nil_of_mem (mem_sentTo.mpr (mem_notifyViewers.mpr ⟨q, hmem, rfl⟩))
      rw [List.foldl_append, foldl_told (fun message hs v => by rw [hsent message hs]; rfl) hne,
        hroom, Function.update_self]
      rfl
    · rw [List.foldl_append, foldl_kept fun message hs => by rw [hsent message hs]; rfl,
        hsync.master hrole, hroom, Function.update_self]
      rfl
  · have hnone : sentTo q.ws (notifyViewers { table p.room with master := none }
        (.peerLeft .master p.id : Message β)) = [] := by
      rw [List.eq_nil_iff_forall_not_mem]
      intro message hmem
      obtain ⟨viewer, hviewer, he⟩ := mem_notifyViewers.mp (mem_sentTo.mp hmem)
      exact h.viewer_elsewhere hq hroom hviewer (Action.send.inj he).1.symm
    rw [hnone]
    exact hsync.ignore (Function.update_of_ne hroom _ _) (by simp) (by simp)

/-- A viewer that leaves is reported to the master of its room. -/
theorem viewer_left_synced (h : Seated table sits) {p q : Peer} (hq : (table q.room).Has q)
    (hsync : Synced table heard q) :
    Synced (Function.update table p.room ⟨(table p.room).master, (table p.room).viewers.erase p.id⟩)
      (heard ++ sentTo q.ws (match (table p.room).master with
        | some master => [Action.send master.ws (.peerLeft .viewer p.id : Message β)]
        | none => [])) q := by
  have hsame : (Function.update table p.room ⟨(table p.room).master,
      (table p.room).viewers.erase p.id⟩ q.room).master = (table q.room).master := by
    by_cases hroom : q.room = p.room
    · rw [hroom, Function.update_self]
    · rw [Function.update_of_ne hroom]
  revert hsame
  cases hmaster : (table p.room).master with
  | none =>
    intro hsame
    -- a room without a master has nobody who keeps a list of viewers
    have hroom : q.role = .master → q.room ≠ p.room := by
      intro hrole hr
      have hq' := h.master_of_role hq hrole
      rw [hr, hmaster] at hq'
      exact absurd hq' (by simp)
    refine ⟨fun hrole => ?_, fun hrole => ?_⟩
    · rw [sentTo_nil, List.append_nil, hsame, hsync.viewer hrole]
    · rw [sentTo_nil, List.append_nil, Function.update_of_ne (hroom hrole), hsync.master hrole]
  | some master =>
    intro hsame
    refine ⟨fun hrole => ?_, fun hrole => ?_⟩
    · rw [List.foldl_append, foldl_kept, hsame, hsync.viewer hrole]
      intro message hmem
      obtain ⟨-, rfl⟩ := Action.send.inj (List.mem_singleton.mp (mem_sentTo.mp hmem))
      rfl
    · rw [sentTo_send]
      by_cases hroom : q.room = p.room
      · have hq' := h.master_of_role hq hrole
        rw [hroom, hmaster] at hq'
        rw [if_pos (congrArg Peer.ws (Option.some_inj.mp hq')), List.foldl_append,
          hsync.master hrole, hroom, Function.update_self]
        exact (toFinset_keys_erase _ _).symm
      · rw [if_neg (h.master_elsewhere hq hroom hmaster), List.append_nil,
          Function.update_of_ne hroom, hsync.master hrole]

/-- **`leave` tells the others in the room**, and nobody else. -/
theorem leave_synced (h : Seated table sits) {p q : Peer} (hq : (table q.room).Has q)
    (hsync : Synced table heard q) :
    Synced (Function.update table p.room ((table p.room).remove p))
      (heard ++ sentTo q.ws ((table p.room).farewell p)) q := by
  unfold Room.remove Room.farewell
  split_ifs with hm hv
  · exact master_left_synced h hq hsync
  · exact viewer_left_synced h hq hsync
  · rw [Function.update_eq_self]
    exact hsync.ignore rfl (by simp) (by simp)

/-- What a new master sends to a socket. -/
theorem mem_welcomeMaster {room : Room} {new : Peer} {ws : ℕ} {message : Message β}
    (h : .send ws message ∈ room.welcomeMaster new) :
    (∃ old, room.master = some old ∧ ws = old.ws) ∨ ws = new.ws ∨
      ∃ viewer ∈ room.viewerList, ws = viewer.ws := by
  rw [Room.welcomeMaster, List.mem_append, List.mem_append] at h
  rcases h with (h | h) | h
  · cases hm : room.master with
    | none => exact absurd h (by simp [hm])
    | some old =>
      rw [hm] at h
      rcases List.mem_append.mp h with h | h
      · left
        refine ⟨old, rfl, ?_⟩
        have h' : (.send ws message : Action β) =
            .send old.ws (.error "master replaced by new device") := by simpa using h
        exact (Action.send.inj h').1
      · obtain ⟨viewer, hv, he⟩ := mem_notifyViewers.mp h
        exact .inr (.inr ⟨viewer, hv, (Action.send.inj he).1⟩)
  · exact .inr (.inl (Action.send.inj (List.mem_singleton.mp h)).1)
  · obtain ⟨viewer, hv, h⟩ := List.mem_flatMap.mp h
    rcases List.mem_cons.mp h with he | h
    · exact .inr (.inr ⟨viewer, hv, (Action.send.inj he).1⟩)
    · exact .inr (.inl (Action.send.inj (List.mem_singleton.mp h)).1)

/-- **A new master is announced to the viewers of its room**, and to nobody
else that stays. -/
theorem master_synced (h : Seated table sits) (new : Peer) {q : Peer} (hq : (table q.room).Has q)
    (hws : q.ws ≠ new.ws) (hstays : q.role = .master → q.room ≠ new.room)
    (hsync : Synced table heard q) :
    Synced (Function.update table new.room { table new.room with master := some new })
      (heard ++ sentTo q.ws ((table new.room).welcomeMaster new)) q := by
  by_cases hroom : q.room = new.room
  · refine ⟨fun hrole => ?_, fun hrole => absurd hroom (hstays hrole)⟩
    rw [Room.welcomeMaster, sentTo_append, ← List.append_assoc, List.foldl_append, foldl_told,
      hroom, Function.update_self]
    · intro message hmem v
      obtain ⟨viewer, -, hmem⟩ := List.mem_flatMap.mp (mem_sentTo.mp hmem)
      rcases List.mem_cons.mp hmem with he | he
      · rw [(Action.send.inj he).2]
        rfl
      · exact absurd (Action.send.inj (List.mem_singleton.mp he)).1 hws
    · have hmem := h.viewer_of_role hq hrole
      rw [hroom] at hmem
      exact List.ne_nil_of_mem (mem_sentTo.mpr
        (List.mem_flatMap.mpr ⟨q, hmem, List.mem_cons_self⟩))
  · have hnone : sentTo q.ws ((table new.room).welcomeMaster new : List (Action β)) = [] := by
      rw [List.eq_nil_iff_forall_not_mem]
      intro message hmem
      rcases mem_welcomeMaster (mem_sentTo.mp hmem) with ⟨old, hold, he⟩ | he | ⟨viewer, hv, he⟩
      · exact h.master_elsewhere hq hroom hold he.symm
      · exact hws he
      · exact h.viewer_elsewhere hq hroom hv he.symm
    rw [hnone]
    exact hsync.ignore (Function.update_of_ne hroom _ _) (by simp) (by simp)

/-- The new master is told the viewers. -/
theorem master_synced_self (h : Seated table sits) (heard : List (Message β)) (new : Peer)
    (hrole : new.role = .master) :
    Synced (Function.update table new.room { table new.room with master := some new })
      (heard ++ sentTo new.ws ((table new.room).welcomeMaster new)) new := by
  refine ⟨fun hviewer => absurd (hrole.symm.trans hviewer) (by simp), fun _ => ?_⟩
  have hids : ∀ viewers : Finset String,
      seeViewers viewers (.joinedMaster new.room new.id (table new.room).viewerIds : Message β) =
        (table new.room).viewerIds.toFinset := fun _ => rfl
  rw [Room.welcomeMaster, sentTo_append, sentTo_append, sentTo_send, if_pos rfl,
    ← List.append_assoc, ← List.append_assoc, List.foldl_append, List.foldl_concat, hids,
    Function.update_self, foldl_kept]
  · rfl
  · intro message hmem
    obtain ⟨viewer, hv, hmem⟩ := List.mem_flatMap.mp (mem_sentTo.mp hmem)
    rcases List.mem_cons.mp hmem with he | he
    · rw [(Action.send.inj he).2]
      rfl
    · rw [(Action.send.inj (List.mem_singleton.mp he)).2]
      -- the id is among those that `joined` has listed
      refine Finset.insert_eq_of_mem (List.mem_toFinset.mpr (List.mem_reverse.mpr ?_))
      obtain ⟨id, hl⟩ := mem_viewerList.mp hv
      rw [(h.filed.viewer _ id viewer hl).2.1]
      exact AList.mem_keys.mp (AList.lookup_isSome.mp (by rw [hl]; rfl))

/-- What a new viewer sends to another socket. -/
theorem sent_welcomeViewer (room : Room) {new : Peer} {ws : ℕ} (hws : ws ≠ new.ws) :
    sentTo ws (room.welcomeViewer new : List (Action β)) =
      if room.master.any (·.ws = ws) then [.peerJoined .viewer new.id] else [] := by
  have hne : new.ws ≠ ws := fun he => hws he.symm
  rw [Room.welcomeViewer]
  cases hm : room.master with
  | none => simp [sentTo, Action.messageTo, hne]
  | some master =>
    by_cases hmaster : master.ws = ws <;> simp [sentTo, Action.messageTo, hne, hmaster]

theorem viewerIds_addViewer (room : Room) (new : Peer) :
    (room.addViewer new).viewerIds.toFinset = insert new.id room.viewerIds.toFinset := by
  ext id
  by_cases hid : id = new.id <;>
    simp [Room.viewerIds, Room.addViewer, AList.keys_insert, hid,
      room.viewers.keys_nodup.mem_erase_iff]

/-- **A new viewer is announced to the master of its room**, and to nobody
else. -/
theorem viewer_synced (h : Seated table sits) (new : Peer) {q : Peer} (hq : (table q.room).Has q)
    (hws : q.ws ≠ new.ws) (hsync : Synced table heard q) :
    Synced (Function.update table new.room ((table new.room).addViewer new))
      (heard ++ sentTo q.ws ((table new.room).welcomeViewer new)) q := by
  have hmaster : (Function.update table new.room ((table new.room).addViewer new) q.room).master =
      (table q.room).master := by
    by_cases hroom : q.room = new.room
    · rw [hroom, Function.update_self]
      rfl
    · rw [Function.update_of_ne hroom]
  rw [sent_welcomeViewer _ hws]
  refine ⟨fun hrole => ?_, fun hrole => ?_⟩
  · rw [List.foldl_append, foldl_kept, hmaster, hsync.viewer hrole]
    intro message hmem
    split_ifs at hmem
    · rw [List.mem_singleton.mp hmem]
      rfl
    · exact absurd hmem (by simp)
  · have hq' := h.master_of_role hq hrole
    by_cases hroom : q.room = new.room
    · rw [hroom] at hq'
      rw [hq', if_pos (by simp), List.foldl_concat, hsync.master hrole, hroom,
        Function.update_self, viewerIds_addViewer]
      rfl
    · have hany : (table new.room).master.any (·.ws = q.ws) = false := by
        cases hm : (table new.room).master with
        | none => rfl
        | some master => simpa using h.master_elsewhere hq hroom hm
      rw [hany, if_neg (by simp), List.append_nil, Function.update_of_ne hroom, hsync.master hrole]

/-- The new viewer is told the master. -/
theorem viewer_synced_self (table : String → Room) (heard : List (Message β)) (new : Peer)
    (hrole : new.role = .viewer) :
    Synced (Function.update table new.room ((table new.room).addViewer new))
      (heard ++ sentTo new.ws ((table new.room).welcomeViewer new)) new := by
  refine ⟨fun _ => ?_, fun hmaster => absurd (hrole.symm.trans hmaster) (by simp)⟩
  rw [Function.update_self, Room.welcomeViewer, Room.addViewer]
  cases hm : (table new.room).master with
  | none => simp [sentTo, Action.messageTo, seeMaster]
  | some master =>
    by_cases hws : master.ws = new.ws <;>
      simp [sentTo, Action.messageTo, seeMaster, hws]

end Operations

/-! ### Events -/

/-- `leave`, for a peer variable that may be unset. -/
theorem left_synced {rooms : Rooms} {sits : Peer → Prop} (h : Seated (ensure rooms) sits)
    (peer : Option Peer) {q : Peer} (hq : (ensure (leave (β := β) rooms peer).1 q.room).Has q) :
    (ensure rooms q.room).Has q ∧ ∀ heard, Synced (ensure rooms) heard q →
      Synced (ensure (leave (β := β) rooms peer).1)
        (heard ++ sentTo q.ws (leave (β := β) rooms peer).2) q := by
  cases peer with
  | none =>
    refine ⟨hq, fun heard hsync => ?_⟩
    rw [leave_none, sentTo_nil, List.append_nil]
    exact hsync
  | some peer =>
    obtain ⟨htable, hsent⟩ := leave_spec (β := β) rooms peer
    rw [htable] at hq
    have hold : (ensure rooms q.room).Has q := by
      by_cases hroom : q.room = peer.room
      · rw [hroom, Function.update_self] at hq
        rw [hroom]
        exact hq.imp remove_master removeViewer
      · rwa [Function.update_of_ne hroom] at hq
    rw [htable, hsent]
    exact ⟨hold, fun heard hsync => leave_synced h hold hsync⟩

/-- Actions that no view regards. -/
theorem Synced.unregarded {table : String → Room} {heard : List (Message β)} {q : Peer}
    (h : Synced table heard q) {ws : ℕ} {message : Message β}
    (hm : ∀ v, seeMaster v message = v) (hv : ∀ v, seeViewers v message = v) :
    Synced table (heard ++ sentTo q.ws [.send ws message]) q := by
  have hall : ∀ m ∈ sentTo q.ws [.send ws message], m = message := fun m hmem =>
    (Action.send.inj (List.mem_singleton.mp (mem_sentTo.mp hmem))).2
  exact h.ignore rfl (fun _ m hmem v => by rw [hall m hmem, hm])
    fun _ m hmem v => by rw [hall m hmem, hv]

/-- Who is registered after `joinMaster` is the new master, or was registered. -/
theorem has_of_set_master {table : String → Room} {sits : Peer → Prop} (h : Seated table sits)
    (new : Peer) {q : Peer} (hq : (Function.update table new.room
      ⟨some new, (table new.room).viewers⟩ q.room).Has q) :
    q = new ∨ ((table q.room).Has q ∧ (q.role = .master → q.room ≠ new.room)) := by
  by_cases hroom : q.room = new.room
  · rw [hroom, Function.update_self] at hq
    rcases hq with hm | hv
    · exact .inl (Option.some_inj.mp hm).symm
    · refine .inr ⟨hroom ▸ .inr hv, fun hrole => ?_⟩
      exact absurd (hrole.symm.trans (h.of_lookup hv).2.1) (by simp)
  · rw [Function.update_of_ne hroom] at hq
    exact .inr ⟨hq, fun _ => hroom⟩

/-- Who is registered after `joinViewer` is the new viewer, or was registered. -/
theorem has_of_addViewer {table : String → Room} (new : Peer) {q : Peer}
    (hq : (Function.update table new.room ((table new.room).addViewer new) q.room).Has q) :
    q = new ∨ (table q.room).Has q := by
  by_cases hroom : q.room = new.room
  · rw [hroom, Function.update_self] at hq
    rw [hroom]
    rcases hq with hm | hv
    · exact .inr (.inl hm)
    · by_cases hid : q.id = new.id
      · rw [Room.addViewer, hid, AList.lookup_insert] at hv
        exact .inl (Option.some_inj.mp hv).symm
      · rw [Room.addViewer, AList.lookup_insert_ne hid] at hv
        exact .inr (.inr hv)
  · rw [Function.update_of_ne hroom] at hq
    exact .inr hq

/-- A signal is relayed or answered by an error, which no view regards. -/
theorem handle_signal (cfg : Config) (rooms : Rooms) (ws : ℕ) (peer : Peer) (serial : ℕ)
    (newId toId : String) (message : β) :
    ∃ toWs sent, handleClientMessage cfg rooms ws (some peer) serial newId
        (.signal toId message) = (rooms, some peer, [.send toWs sent]) ∧
      (∀ v, seeMaster v sent = v) ∧ ∀ v, seeViewers v sent = v := by
  simp only [handleClientMessage]
  split_ifs
  · rw [routeDefault]
    cases defaultTarget rooms peer <;> exact ⟨_, _, rfl, fun _ => rfl, fun _ => rfl⟩
  · rw [route]
    cases find rooms peer.room toId <;> exact ⟨_, _, rfl, fun _ => rfl, fun _ => rfl⟩

/-- **A message keeps every view in sync**, that of a peer that it registers
included. -/
theorem handle_synced (cfg : Config) {rooms : Rooms} {sits : Peer → Prop}
    (h : Seated (ensure rooms) sits) {ws : ℕ} {peer : Option Peer}
    (hws : ∀ q, sits q → q.ws = ws → some q = peer) (serial : ℕ) (newId : String)
    (message : ClientMessage β)
    (hfresh : ∀ room role, message = .join room role "" →
      (ensure (leave (β := β) rooms peer).1 room).hasId newId = false)
    {q : Peer} {heard : List (Message β)}
    (hsync : (ensure rooms q.room).Has q → Synced (ensure rooms) heard q)
    (hq : (ensure (handleClientMessage cfg rooms ws peer serial newId message).1 q.room).Has q) :
    Synced (ensure (handleClientMessage cfg rooms ws peer serial newId message).1)
      (heard ++ sentTo q.ws
        (handleClientMessage cfg rooms ws peer serial newId message).2.2) q := by
  -- a peer that joins has left its room before, so the others hear of both
  have hleft : Seated (ensure (leave (β := β) rooms peer).1) fun q => sits q ∧ some q ≠ peer :=
    ⟨h.filed.leave peer, fun p q hp hq => h.alone p q hp.1 hq.1⟩
  have hother : ∀ q, sits q ∧ some q ≠ peer → q.ws ≠ ws := fun q hq he => hq.2 (hws q hq.1 he)
  cases message with
  | ping => exact (hsync hq).unregarded (fun _ => rfl) fun _ => rfl
  | join room role clientId =>
    cases role with
    | master =>
      simp only [handleClientMessage, joinMaster_spec, ensure_update] at hq ⊢
      rw [sentTo_append, ← List.append_assoc]
      rcases has_of_set_master hleft
        ⟨Signaling.clientId clientId newId, .master, room, ws, serial⟩ hq with rfl | ⟨hq, hstays⟩
      · exact master_synced_self hleft _
          ⟨Signaling.clientId clientId newId, .master, room, ws, serial⟩ rfl
      · obtain ⟨hold, hsynced⟩ := left_synced h peer hq
        exact master_synced hleft
          ⟨Signaling.clientId clientId newId, .master, room, ws, serial⟩ hq
          (hother q (hleft.of_has hq).2) hstays (hsynced heard (hsync hold))
    | viewer =>
      -- a refused viewer is answered, and has left its room nevertheless
      rcases joinViewer_cases (β := β) cfg.maxViewers (leave (β := β) rooms peer).1 ws room
        clientId newId serial (fun he => hfresh room .viewer (he ▸ rfl)) with
        ⟨error, hjoin, -⟩ | ⟨hjoin, -, -⟩
      · simp only [handleClientMessage, hjoin, ensure_update_ensure] at hq ⊢
        obtain ⟨hold, hsynced⟩ := left_synced h peer hq
        rw [List.append_nil, sentTo_append, ← List.append_assoc]
        exact (hsynced heard (hsync hold)).unregarded (fun _ => rfl) fun _ => rfl
      · simp only [handleClientMessage, hjoin, ensure_update] at hq ⊢
        rw [sentTo_append, ← List.append_assoc]
        rcases has_of_addViewer
          ⟨Signaling.clientId clientId newId, .viewer, room, ws, serial⟩ hq with rfl | hq
        · exact viewer_synced_self _ _
            ⟨Signaling.clientId clientId newId, .viewer, room, ws, serial⟩ rfl
        · obtain ⟨hold, hsynced⟩ := left_synced h peer hq
          exact viewer_synced hleft
            ⟨Signaling.clientId clientId newId, .viewer, room, ws, serial⟩ hq
            (hother q (hleft.of_has hq).2) (hsynced heard (hsync hold))
  | leave =>
    cases peer with
    | none => exact (hsync hq).unregarded (fun _ => rfl) fun _ => rfl
    | some peer =>
      simp only [handleClientMessage] at hq ⊢
      obtain ⟨hold, hsynced⟩ := left_synced h (some peer) hq
      rw [sentTo_append, ← List.append_assoc]
      exact (hsynced heard (hsync hold)).unregarded (fun _ => rfl) fun _ => rfl
  | signal toId message =>
    cases peer with
    | none => exact (hsync hq).unregarded (fun _ => rfl) fun _ => rfl
    | some peer =>
      obtain ⟨toWs, sent, hhandle, hm, hv⟩ :=
        handle_signal cfg rooms ws peer serial newId toId message
      rw [hhandle] at hq ⊢
      exact (hsync hq).unregarded hm hv

/-! ### Runs -/

@[simp] theorem isOpen_setPeer (s : State β) (ws : ℕ) (peer : Option Peer) (ws' : ℕ) :
    (s.setPeer ws peer).isOpen ws' = s.isOpen ws' := by
  by_cases hws : ws' = ws
  · subst hws
    simp only [State.isOpen, State.setPeer, Function.update_self]
    cases s.sockets ws' <;> rfl
  · simp only [State.isOpen, State.setPeer, Function.update_of_ne hws]

/-- A socket that is still open is another one than the one that is closed. -/
theorem isOpen_of_setReady {s : State β} {ws ws' : ℕ} {ready : Ready} (hready : ready ≠ .open)
    (h : (s.setReady ws ready).isOpen ws' = true) : ws' ≠ ws ∧ s.isOpen ws' = true := by
  by_cases hws : ws' = ws
  · subst hws
    simp only [State.isOpen, State.setReady, Function.update_self] at h
    cases hs : s.sockets ws' with
    | none => exact absurd h (by simp [hs])
    | some socket => exact absurd h (by simp [hs, hready])
  · simp only [State.isOpen, State.setReady, Function.update_of_ne hws] at h
    exact ⟨hws, h⟩

theorem seated_of_filed {s : State β} (h : Filed s) :
    Seated (ensure s.rooms) fun peer => s.peerOf peer.ws = some (some peer) where
  filed := h
  alone := by
    intro p q hp hq hws
    rw [hws, hq] at hp
    simpa using hp.symm

/-- The views of the registered peers with an open socket are in sync. -/
def Told (s : State β) : Prop :=
  ∀ peer, Registered s peer → s.isOpen peer.ws = true →
    Synced (ensure s.rooms) (inbox s peer.ws) peer

theorem told_step {cfg : Config} {s t : State β} {i : Label β} (hf : Filed s) (h : Told s)
    (hstep : step cfg s i = some t) : Told t := by
  have hseat := seated_of_filed hf
  intro q hreg hopen
  cases i with
  | connect ws =>
    obtain ⟨hnone, rfl⟩ := step_connect hstep
    -- who opens the socket now is not registered yet
    have hne : q.ws ≠ ws := by
      intro he
      have hq : s.peerOf q.ws = some (some q) := (hseat.of_has hreg).2
      rw [he, State.peerOf, hnone] at hq
      exact absurd hq (by simp)
    refine h q hreg ?_
    simpa only [State.isOpen, Function.update_of_ne hne] using hopen
  | message ws message newId =>
    obtain ⟨socket, hsocket, -, -, hfresh, rfl⟩ := step_message hstep
    rw [handled, isOpen_setPeer] at hopen
    obtain ⟨hinbox, hopen⟩ := inbox_performAll _ _ _ hopen
    rw [Registered, rooms_handled] at hreg
    rw [rooms_handled]
    -- the messages of this step go behind what the peer has heard
    have hheard : inbox (handled cfg s ws socket.peer newId message) q.ws = _ := hinbox
    rw [hheard]
    refine handle_synced cfg hseat (fun p hp he => ?_) s.serial newId message ?_
      (fun hold => h q hold hopen) hreg
    · exact Option.some_inj.mp ((he ▸ hp).symm.trans (peerOf_eq hsocket))
    · rintro room role rfl
      exact (hfresh rfl).2
  | refused ws error close =>
    obtain rfl := step_refused hstep
    obtain ⟨hinbox, hopen⟩ := inbox_performAll _ _ _ hopen
    rw [Registered, State.rooms_performAll] at hreg
    rw [State.rooms_performAll, hinbox]
    -- to be closed is no message
    have hsent : sentTo q.ws (.send ws (.error error) :: if close then [.close ws] else []) =
        sentTo q.ws [(.send ws (.error error) : Action β)] := by
      cases close <;> simp [sentTo, List.filterMap_cons, Action.messageTo]
    rw [hsent]
    exact (h q hreg hopen).unregarded (fun _ => rfl) fun _ => rfl
  | closing ws =>
    obtain rfl := step_closing hstep
    exact h q hreg (isOpen_of_setReady (by simp) hopen).2
  | close ws =>
    obtain ⟨socket, hsocket, -, rfl⟩ := step_close hstep
    rw [gone, isOpen_setPeer] at hopen
    obtain ⟨hinbox, hopen⟩ := inbox_performAll _ _ _ hopen
    obtain ⟨-, hopen⟩ := isOpen_of_setReady (by simp) hopen
    rw [Registered, rooms_gone] at hreg
    obtain ⟨hold, hsynced⟩ := left_synced hseat socket.peer hreg
    rw [rooms_gone]
    have hheard : inbox (gone s ws socket.peer) q.ws = _ := hinbox
    rw [hheard]
    exact hsynced _ (h q hold hopen)

/-- **In every reachable state the views are in sync**: the messages to the
socket of a registered peer since its last join, if the socket is still open,
fold to the master of its room, or to the viewers. -/
theorem views_in_sync {cfg : Config} {is : List (Label β)} {s : State β}
    (hrun : run (step cfg) init is = some s) {peer : Peer} (hreg : Registered s peer)
    (hopen : s.isOpen peer.ws = true) :
    (peer.role = .viewer →
      masterSeen (inbox s peer.ws) = (ensure s.rooms peer.room).master.map Peer.id) ∧
    (peer.role = .master →
      viewersSeen (inbox s peer.ws) = (ensure s.rooms peer.room).viewerIds.toFinset) := by
  have htold : Filed s ∧ Told s := by
    refine run_preserves (P := fun s => Filed s ∧ Told s) (fun s i t h hstep => ?_)
      ⟨filed_init, fun q hq => ?_⟩ hrun
    · exact ⟨filed_step h.1 hstep, told_step h.1 h.2 hstep⟩
    · exact absurd hq (by simp [Registered, Room.Has, init, ensure, Room.new])
  obtain ⟨hviewer, hmaster⟩ := htold.2 peer hreg hopen
  rw [masterSeen_eq, viewersSeen_eq]
  exact ⟨hviewer, hmaster⟩

/-- A device joins, a viewer joins, and the device is replaced. -/
def replacement : List (Label Unit) :=
  [.connect 0, .message 0 (.join "r" .master "m") "", .connect 1,
    .message 1 (.join "r" .viewer "v") "", .connect 2, .message 2 (.join "r" .master "n") ""]

/-- The viewer and the new device both know of each other. -/
theorem replacement_in_sync :
    ∃ s, run (step defaultConfig) init replacement = some s ∧
      masterSeen (inbox s 1) = (ensure s.rooms "r").master.map Peer.id ∧
      viewersSeen (inbox s 2) = (ensure s.rooms "r").viewerIds.toFinset := by
  obtain ⟨s, hs⟩ : ∃ s, run (step defaultConfig) init replacement = some s :=
    Option.isSome_iff_exists.mp (by decide +kernel)
  have hmaster : (run (step defaultConfig) init replacement).map
      (fun s => (ensure s.rooms "r").master) = some (some ⟨"n", .master, "r", 2, 2⟩) := by
    decide +kernel
  have hviewer : (run (step defaultConfig) init replacement).map
      (fun s => (ensure s.rooms "r").viewers.lookup "v") =
        some (some ⟨"v", .viewer, "r", 1, 1⟩) := by decide +kernel
  have hopen : (run (step defaultConfig) init replacement).map
      (fun s => (s.isOpen 1, s.isOpen 2)) = some (true, true) := by decide +kernel
  rw [hs, Option.map_some] at hmaster hviewer hopen
  obtain ⟨hopen1, hopen2⟩ := Prod.mk.inj (Option.some_inj.mp hopen)
  have hv : Registered s ⟨"v", .viewer, "r", 1, 1⟩ := .inr (Option.some_inj.mp hviewer)
  have hm : Registered s ⟨"n", .master, "r", 2, 2⟩ := .inl (Option.some_inj.mp hmaster)
  exact ⟨s, hs, (views_in_sync hs hv hopen1).1 rfl, (views_in_sync hs hm hopen2).2 rfl⟩

end Signaling

end IpcMini
