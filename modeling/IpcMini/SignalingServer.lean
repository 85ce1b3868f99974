/-
The signaling server (`cloud/signaling/protocol.js`, `cloud/signaling/server.js`).

Every socket has a peer variable of its own, which the message handler sets;
the room table is shared.  A message is handled as long as its socket is not
closed, also when it is closing.

* `handleClientMessage` — one message, with the table, the peer variable and
  the actions it leaves;
* `step` — a connection, a message, the closing and the end of a socket;
* `Filed` — a registered peer is filed under its own id, role and room, and is
  the peer variable of its socket;
* **`filed_step`** — every step keeps that.

Connections that fail the authorisation get no handlers and are left out.
-/
import IpcMini.Rooms
import IpcMini.Run

namespace IpcMini

namespace Signaling

variable {β : Type}

/-- `validIdentifier`: `/^[A-Za-z0-9._:-]+$/`, with a bound on the length. -/
def validIdentifier (value : String) (maximumLength : ℕ) : Bool :=
  !value.toList.isEmpty && decide (value.toList.length ≤ maximumLength) &&
    value.toList.all fun c => c.isAlphanum || ['.', '_', ':', '-'].contains c

/-- A message that passes `validateSignalMessage`.  An id that is not given is
the empty string. -/
inductive ClientMessage (β : Type)
  | ping
  | join (room : String) (role : Role) (clientId : String)
  | leave
  /-- `offer`, `answer` or `candidate` -/
  | signal (toId : String) (message : β)
  deriving DecidableEq, Repr

/-- What `validateSignalMessage` checks of the ids. -/
def ClientMessage.valid : ClientMessage β → Bool
  | .ping | .leave => true
  | .join room _ clientId =>
    validIdentifier room 128 && (decide (clientId = "") || validIdentifier clientId 128)
  | .signal toId _ => decide (toId = "") || validIdentifier toId 128

/-- `maxViewers` as `loadConfig` reads it. -/
structure Config where
  maxViewers : ℕ
  valid : 1 ≤ maxViewers ∧ maxViewers ≤ 3

/-- `MAX_VIEWERS` is not set. -/
def defaultConfig : Config := ⟨3, by decide⟩

/-- `handleClientMessage`: the table, the peer variable and the actions. -/
def handleClientMessage (cfg : Config) (rooms : Rooms) (ws : ℕ) (peer : Option Peer)
    (serial : ℕ) (newId : String) :
    ClientMessage β → Rooms × Option Peer × List (Action β)
  | .ping => (rooms, peer, [.send ws .pong])
  | .join room role clientId =>
    let (rooms, left) := Signaling.leave rooms peer
    match role with
    | .master =>
      let (rooms, joined, actions) := joinMaster rooms ws room clientId newId serial
      (rooms, some joined, left ++ actions)
    | .viewer =>
      match joinViewer cfg.maxViewers rooms ws room clientId newId serial with
      | (rooms, .ok joined, actions) => (rooms, some joined, left ++ actions)
      | (rooms, .error error, actions) =>
        (rooms, none, left ++ actions ++ [.send ws (.error error)])
  | .leave =>
    match peer with
    | none => (rooms, none, [.send ws (.error "join first")])
    | some peer =>
      let (rooms, left) := Signaling.leave rooms (some peer)
      (rooms, none, left ++ [.send ws .left])
  | .signal toId message =>
    match peer with
    | none => (rooms, none, [.send ws (.error "join first")])
    | some peer =>
      if toId = "" then
        match routeDefault rooms peer message with
        | some actions => (rooms, some peer, actions)
        | none => (rooms, some peer, [.send ws (.error "missing to")])
      else
        match route rooms peer toId message with
        | some actions => (rooms, some peer, actions)
        | none => (rooms, some peer, [.send ws (.error "target offline")])

/-! ### The server -/

/-- `readyState` of a socket that is connected. -/
inductive Ready
  | open
  | closing
  | closed
  deriving DecidableEq, Repr

structure Socket where
  ready : Ready
  peer : Option Peer
  deriving DecidableEq, Repr

structure State (β : Type) where
  rooms : Rooms
  sockets : ℕ → Option Socket
  /-- the number of the next peer object -/
  serial : ℕ
  /-- the messages given to open sockets -/
  log : List (ℕ × Message β)

/-- An event of the server.  `newId` is what `crypto.randomBytes` yields in a
join without an id. -/
inductive Label (β : Type)
  | connect (ws : ℕ)
  | message (ws : ℕ) (message : ClientMessage β) (newId : String)
  /-- a message that `parseClientMessage` refuses -/
  | refused (ws : ℕ) (error : String) (close : Bool)
  /-- the client closes the socket or goes away, or the heartbeat ends it -/
  | closing (ws : ℕ)
  /-- the `close` event -/
  | close (ws : ℕ)

def init : State β := ⟨fun _ => none, fun _ => none, 0, []⟩

namespace State

/-- The socket is open. -/
def isOpen (s : State β) (ws : ℕ) : Bool := (s.sockets ws).any (·.ready = .open)

def setReady (s : State β) (ws : ℕ) (ready : Ready) : State β :=
  let socket := (s.sockets ws).map fun socket => { socket with ready := ready }
  { s with sockets := Function.update s.sockets ws socket }

def setPeer (s : State β) (ws : ℕ) (peer : Option Peer) : State β :=
  let socket := (s.sockets ws).map fun socket => { socket with peer := peer }
  { s with sockets := Function.update s.sockets ws socket }

/-- `send` and `ws.close`. -/
def perform (s : State β) : Action β → State β
  | .send ws message => if s.isOpen ws then { s with log := s.log ++ [(ws, message)] } else s
  | .close ws => if s.isOpen ws then s.setReady ws .closing else s

def performAll (s : State β) (actions : List (Action β)) : State β := actions.foldl perform s

end State

/-- `newClientId` yields an id that the room does not have. -/
def Fresh (s : State β) (socket : Socket) (newId : String) : ClientMessage β → Prop
  | .join room _ clientId => clientId = "" → newId ≠ "" ∧
    (ensure (leave (β := β) s.rooms socket.peer).1 room).hasId newId = false
  | _ => True

instance (s : State β) (socket : Socket) (newId : String) (message : ClientMessage β) :
    Decidable (Fresh s socket newId message) := by
  cases message <;> unfold Fresh <;> infer_instance

/-- The state after a message is handled. -/
def handled (cfg : Config) (s : State β) (ws : ℕ) (peer : Option Peer) (newId : String)
    (message : ClientMessage β) : State β :=
  let (rooms, peer, actions) := handleClientMessage cfg s.rooms ws peer s.serial newId message
  ({ s with rooms := rooms, serial := s.serial + 1 }.performAll actions).setPeer ws peer

/-- The state after a `close` event. -/
def gone (s : State β) (ws : ℕ) (peer : Option Peer) : State β :=
  let (rooms, actions) := leave s.rooms peer
  (({ s with rooms := rooms }.setReady ws .closed).performAll actions).setPeer ws none

def step (cfg : Config) (s : State β) : Label β → Option (State β)
  | .connect ws =>
    if (s.sockets ws).isSome then none
    else some { s with sockets := Function.update s.sockets ws (some ⟨.open, none⟩) }
  | .message ws message newId =>
    match s.sockets ws with
    | some socket =>
      if socket.ready ≠ .closed ∧ message.valid ∧ Fresh s socket newId message then
        some (handled cfg s ws socket.peer newId message)
      else none
    | none => none
  | .refused ws error close =>
    match s.sockets ws with
    | some socket =>
      if socket.ready ≠ .closed then
        some (s.performAll (.send ws (.error error) :: if close then [.close ws] else []))
      else none
    | none => none
  | .closing ws => if s.isOpen ws then some (s.setReady ws .closing) else none
  | .close ws =>
    match s.sockets ws with
    | some socket =>
      if socket.ready ≠ .closed then some (gone s ws socket.peer) else none
    | none => none

/-! ### What the actions leave alone -/

namespace State

/-- The peer variable of a socket. -/
def peerOf (s : State β) (ws : ℕ) : Option (Option Peer) := (s.sockets ws).map (·.peer)

@[simp] theorem rooms_perform (s : State β) (action : Action β) :
    (s.perform action).rooms = s.rooms := by
  cases action <;> simp only [perform] <;> split_ifs <;> rfl

@[simp] theorem peerOf_setReady (s : State β) (ws : ℕ) (ready : Ready) (ws' : ℕ) :
    (s.setReady ws ready).peerOf ws' = s.peerOf ws' := by
  by_cases h : ws' = ws
  · subst h
    simp only [peerOf, setReady, Function.update_self, Option.map_map]
    rfl
  · simp only [peerOf, setReady, Function.update_of_ne h]

@[simp] theorem peerOf_perform (s : State β) (action : Action β) (ws : ℕ) :
    (s.perform action).peerOf ws = s.peerOf ws := by
  cases action with
  | send _ _ => simp only [perform]; split_ifs <;> rfl
  | close _ =>
    simp only [perform]
    split_ifs
    · exact peerOf_setReady _ _ _ _
    · rfl

@[simp] theorem rooms_performAll (s : State β) (actions : List (Action β)) :
    (s.performAll actions).rooms = s.rooms := by
  induction actions generalizing s with
  | nil => rfl
  | cons action actions ih => exact (ih _).trans (rooms_perform s action)

@[simp] theorem peerOf_performAll (s : State β) (actions : List (Action β)) (ws : ℕ) :
    (s.performAll actions).peerOf ws = s.peerOf ws := by
  induction actions generalizing s with
  | nil => rfl
  | cons action actions ih => exact (ih _).trans (peerOf_perform s action ws)

theorem peerOf_setPeer_self (s : State β) {ws : ℕ} (h : (s.peerOf ws).isSome)
    (peer : Option Peer) : (s.setPeer ws peer).peerOf ws = some peer := by
  obtain ⟨_, hp⟩ := Option.isSome_iff_exists.mp h
  obtain ⟨socket, hsocket, -⟩ := Option.map_eq_some_iff.mp hp
  simp only [peerOf, setPeer, Function.update_self, hsocket]
  rfl

theorem peerOf_setPeer_of_ne (s : State β) {ws ws' : ℕ} (h : ws' ≠ ws) (peer : Option Peer) :
    (s.setPeer ws peer).peerOf ws' = s.peerOf ws' := by
  simp only [peerOf, setPeer, Function.update_of_ne h]

end State

/-! ### Registered peers -/

/-- The peer is the room's master or one of its viewers. -/
def Room.Has (room : Room) (peer : Peer) : Prop :=
  room.master = some peer ∨ room.viewers.lookup peer.id = some peer

/-- Masters and viewers are filed under their own room, role and id, and `sits`
holds of them. -/
structure FiledIn (table : String → Room) (sits : Peer → Prop) : Prop where
  master : ∀ name peer, (table name).master = some peer →
    peer.role = .master ∧ peer.room = name ∧ sits peer
  viewer : ∀ name id peer, (table name).viewers.lookup id = some peer →
    peer.role = .viewer ∧ peer.id = id ∧ peer.room = name ∧ sits peer

/-- Every registered peer is the peer variable of its socket. -/
def Filed (s : State β) : Prop :=
  FiledIn (ensure s.rooms) fun peer => s.peerOf peer.ws = some (some peer)

theorem filed_init : Filed (init : State β) :=
  ⟨fun _ _ h => absurd h (by simp [init, ensure, Room.new]),
    fun _ _ _ h => absurd h (by simp [init, ensure, Room.new])⟩

namespace FiledIn

variable {table : String → Room} {sits sits' : Peer → Prop}

theorem mono (h : FiledIn table sits) (himp : ∀ peer, sits peer → sits' peer) :
    FiledIn table sits' where
  master := fun name peer hm =>
    let ⟨hrole, hroom, hsits⟩ := h.master name peer hm
    ⟨hrole, hroom, himp peer hsits⟩
  viewer := fun name id peer hv =>
    let ⟨hrole, hid, hroom, hsits⟩ := h.viewer name id peer hv
    ⟨hrole, hid, hroom, himp peer hsits⟩

/-- One room is changed. -/
theorem update (h : FiledIn table sits) {name : String}
    (himp : ∀ peer, peer.room ≠ name → sits peer → sits' peer) {room : Room}
    (hmaster : ∀ peer, room.master = some peer →
      peer.role = .master ∧ peer.room = name ∧ sits' peer)
    (hviewer : ∀ id peer, room.viewers.lookup id = some peer →
      peer.role = .viewer ∧ peer.id = id ∧ peer.room = name ∧ sits' peer) :
    FiledIn (Function.update table name room) sits' where
  master := by
    intro other peer hm
    by_cases hn : other = name
    · subst hn
      rw [Function.update_self] at hm
      exact hmaster peer hm
    · rw [Function.update_of_ne hn] at hm
      obtain ⟨hrole, rfl, hsits⟩ := h.master other peer hm
      exact ⟨hrole, rfl, himp peer hn hsits⟩
  viewer := by
    intro other id peer hv
    by_cases hn : other = name
    · subst hn
      rw [Function.update_self] at hv
      exact hviewer id peer hv
    · rw [Function.update_of_ne hn] at hv
      obtain ⟨hrole, hid, rfl, hsits⟩ := h.viewer other id peer hv
      exact ⟨hrole, hid, rfl, himp peer hn hsits⟩

end FiledIn

/-- `leave` takes nobody in and keeps everybody but the peer. -/
theorem remove_master {room : Room} {peer q : Peer} :
    (room.remove peer).master = some q → room.master = some q := by
  unfold Room.remove
  split_ifs
  · exact fun h => absurd h (by simp)
  · exact fun h => h
  · exact fun h => h

theorem removeViewer {room : Room} {peer q : Peer} {id : String} :
    (room.remove peer).viewers.lookup id = some q → room.viewers.lookup id = some q := by
  unfold Room.remove
  split_ifs
  · exact fun h => h
  · intro h
    by_cases hid : id = peer.id
    · subst hid
      exact absurd h (by simp [AList.lookup_erase])
    · rwa [AList.lookup_erase_ne hid] at h
  · exact fun h => h

theorem remove_master_self {room : Room} {peer : Peer} (hrole : peer.role = .master) :
    (room.remove peer).master ≠ some peer := by
  unfold Room.remove
  split_ifs with hm hv
  · simp
  · exact absurd (hrole.symm.trans hv.1) (by simp)
  · exact fun h => hm ⟨hrole, h⟩

theorem removeViewer_self {room : Room} {peer : Peer} (hrole : peer.role = .viewer) :
    (room.remove peer).viewers.lookup peer.id ≠ some peer := by
  unfold Room.remove
  split_ifs with hm hv
  · exact absurd (hrole.symm.trans hm.1) (by simp)
  · simp [AList.lookup_erase]
  · exact fun h => hv ⟨hrole, h⟩

namespace FiledIn

variable {table : String → Room} {sits sits' : Peer → Prop}

/-- After `leave` the peer is registered nowhere. -/
theorem leave {rooms : Rooms} (h : FiledIn (ensure rooms) sits) (peer : Option Peer) :
    FiledIn (ensure (Signaling.leave (β := β) rooms peer).1) fun q => sits q ∧ some q ≠ peer := by
  cases peer with
  | none => exact h.mono fun q hq => ⟨hq, by simp⟩
  | some peer =>
    rw [(leave_spec rooms peer).1]
    refine h.update (fun q hroom hq => ?_) (fun q hq => ?_) fun id q hq => ?_
    · exact ⟨hq, fun he => hroom (congrArg Peer.room (Option.some_inj.mp he))⟩
    · obtain ⟨hrole, hroom, hsits⟩ := h.master _ q (remove_master hq)
      refine ⟨hrole, hroom, hsits, fun he => ?_⟩
      obtain rfl := Option.some_inj.mp he
      exact remove_master_self hrole hq
    · obtain ⟨hrole, rfl, hroom, hsits⟩ := h.viewer _ id q (removeViewer hq)
      refine ⟨hrole, rfl, hroom, hsits, fun he => ?_⟩
      obtain rfl := Option.some_inj.mp he
      exact removeViewer_self hrole hq

theorem set_master (h : FiledIn table sits) (peer : Peer) (hrole : peer.role = .master)
    (himp : ∀ q, sits q → sits' q) (hsits : sits' peer) :
    FiledIn (Function.update table peer.room { table peer.room with master := some peer })
      sits' := by
  refine h.update (fun q _ => himp q) (fun q hq => ?_) fun id q hq => ?_
  · obtain rfl := Option.some_inj.mp hq
    exact ⟨hrole, rfl, hsits⟩
  · obtain ⟨hrole, hid, hroom, hq⟩ := h.viewer _ id q hq
    exact ⟨hrole, hid, hroom, himp q hq⟩

theorem addViewer (h : FiledIn table sits) (peer : Peer) (hrole : peer.role = .viewer)
    (himp : ∀ q, sits q → sits' q) (hsits : sits' peer) :
    FiledIn (Function.update table peer.room ((table peer.room).addViewer peer)) sits' := by
  refine h.update (fun q _ => himp q) (fun q hq => ?_) fun id q hq => ?_
  · obtain ⟨hrole, hroom, hq⟩ := h.master _ q hq
    exact ⟨hrole, hroom, himp q hq⟩
  · by_cases hid : id = peer.id
    · subst hid
      rw [Room.addViewer, AList.lookup_insert] at hq
      obtain rfl := Option.some_inj.mp hq
      exact ⟨hrole, rfl, rfl, hsits⟩
    · rw [Room.addViewer, AList.lookup_insert_ne hid] at hq
      obtain ⟨hrole, hid, hroom, hq⟩ := h.viewer _ id q hq
      exact ⟨hrole, hid, hroom, himp q hq⟩

/-- A message sets the peer variable of its own socket, and registers that peer
or none on it. -/
theorem handle (cfg : Config) {rooms : Rooms} (h : FiledIn (ensure rooms) sits) {ws : ℕ}
    {peer : Option Peer} (hws : ∀ q, sits q → q.ws = ws → some q = peer) (serial : ℕ)
    (newId : String) (message : ClientMessage β)
    (hfresh : ∀ room role, message = .join room role "" →
      (ensure (Signaling.leave (β := β) rooms peer).1 room).hasId newId = false) :
    FiledIn (ensure (handleClientMessage cfg rooms ws peer serial newId message).1) fun q =>
      (sits q ∧ q.ws ≠ ws) ∨ (q.ws = ws ∧
        some q = (handleClientMessage cfg rooms ws peer serial newId message).2.1) := by
  have hsame : FiledIn (ensure rooms) fun q => (sits q ∧ q.ws ≠ ws) ∨ (q.ws = ws ∧ some q = peer) :=
    h.mono fun q hq => by
      by_cases he : q.ws = ws
      · exact .inr ⟨he, hws q hq he⟩
      · exact .inl ⟨hq, he⟩
  -- whoever stays when the peer leaves sits on another socket
  have hleft : FiledIn (ensure (Signaling.leave (β := β) rooms peer).1) fun q =>
      sits q ∧ q.ws ≠ ws :=
    (h.leave peer).mono fun q hq => ⟨hq.1, fun he => hq.2 (hws q hq.1 he)⟩
  cases message with
  | ping => exact hsame
  | join room role clientId =>
    cases role with
    | master =>
      simp only [handleClientMessage, joinMaster_spec, ensure_update]
      refine hleft.set_master ⟨Signaling.clientId clientId newId, .master, room, ws, serial⟩ rfl
        (fun q hq => ?_) ?_
      · exact .inl hq
      · exact .inr ⟨rfl, rfl⟩
    | viewer =>
      rcases joinViewer_cases (β := β) cfg.maxViewers
        (Signaling.leave (β := β) rooms peer).1 ws room clientId newId serial
        (fun he => hfresh room .viewer (he ▸ rfl)) with ⟨error, hjoin, -⟩ | ⟨hjoin, -, -⟩
      · simp only [handleClientMessage, hjoin, ensure_update_ensure]
        exact hleft.mono fun q hq => .inl hq
      · simp only [handleClientMessage, hjoin, ensure_update]
        refine hleft.addViewer
          ⟨Signaling.clientId clientId newId, .viewer, room, ws, serial⟩ rfl (fun q hq => ?_) ?_
        · exact .inl hq
        · exact .inr ⟨rfl, rfl⟩
  | leave =>
    cases peer with
    | none => exact hsame
    | some peer => exact hleft.mono fun q hq => .inl hq
  | signal toId message =>
    cases peer with
    | none => exact hsame
    | some peer =>
      simp only [handleClientMessage]
      split_ifs
      · cases routeDefault rooms peer message <;> exact hsame
      · cases route rooms peer toId message <;> exact hsame

end FiledIn

/-! ### Steps -/

section Step

variable {cfg : Config} {s t : State β} {ws : ℕ}

theorem step_message {message : ClientMessage β} {newId : String}
    (h : step cfg s (.message ws message newId) = some t) :
    ∃ socket, s.sockets ws = some socket ∧ socket.ready ≠ .closed ∧ message.valid = true ∧
      Fresh s socket newId message ∧ t = handled cfg s ws socket.peer newId message := by
  simp only [step] at h
  split at h
  case h_2 => exact absurd h (by simp)
  case h_1 socket hsocket =>
    obtain ⟨⟨hready, hvalid, hfresh⟩, h⟩ := Option.ite_none_right_eq_some.mp h
    exact ⟨socket, hsocket, hready, hvalid, hfresh, (Option.some_inj.mp h).symm⟩

theorem step_close (h : step cfg s (.close ws) = some t) :
    ∃ socket, s.sockets ws = some socket ∧ socket.ready ≠ .closed ∧ t = gone s ws socket.peer := by
  simp only [step] at h
  split at h
  case h_2 => exact absurd h (by simp)
  case h_1 socket hsocket =>
    obtain ⟨hready, h⟩ := Option.ite_none_right_eq_some.mp h
    exact ⟨socket, hsocket, hready, (Option.some_inj.mp h).symm⟩

theorem step_refused {error : String} {close : Bool}
    (h : step cfg s (.refused ws error close) = some t) :
    t = s.performAll (.send ws (.error error) :: if close then [.close ws] else []) := by
  simp only [step] at h
  split at h
  case h_2 => exact absurd h (by simp)
  case h_1 =>
    obtain ⟨-, h⟩ := Option.ite_none_right_eq_some.mp h
    exact (Option.some_inj.mp h).symm

theorem step_closing (h : step cfg s (.closing ws) = some t) : t = s.setReady ws .closing := by
  obtain ⟨-, h⟩ := Option.ite_none_right_eq_some.mp h
  exact (Option.some_inj.mp h).symm

theorem step_connect (h : step cfg s (.connect ws) = some t) :
    s.sockets ws = none ∧
      t = { s with sockets := Function.update s.sockets ws (some ⟨.open, none⟩) } := by
  obtain ⟨hnone, h⟩ := Option.ite_none_left_eq_some.mp h
  exact ⟨Option.not_isSome_iff_eq_none.mp hnone, (Option.some_inj.mp h).symm⟩

theorem rooms_handled (cfg : Config) (s : State β) (ws : ℕ) (peer : Option Peer)
    (newId : String) (message : ClientMessage β) :
    (handled cfg s ws peer newId message).rooms =
      (handleClientMessage cfg s.rooms ws peer s.serial newId message).1 :=
  State.rooms_performAll _ _

theorem rooms_gone (s : State β) (ws : ℕ) (peer : Option Peer) :
    (gone s ws peer).rooms = (leave (β := β) s.rooms peer).1 :=
  State.rooms_performAll _ _

theorem peerOf_eq {socket : Socket} (h : s.sockets ws = some socket) :
    s.peerOf ws = some socket.peer := by
  rw [State.peerOf, h, Option.map_some]

/-- A message sets the peer variable of its socket, and no other. -/
theorem peerOf_handled_self {socket : Socket} (h : s.sockets ws = some socket) (peer : Option Peer)
    (newId : String) (message : ClientMessage β) :
    (handled cfg s ws peer newId message).peerOf ws =
      some (handleClientMessage cfg s.rooms ws peer s.serial newId message).2.1 := by
  refine State.peerOf_setPeer_self _ ?_ _
  rw [State.peerOf_performAll]
  exact Option.isSome_of_eq_some (peerOf_eq h)

theorem peerOf_handled_of_ne {q : ℕ} (hq : q ≠ ws) (peer : Option Peer) (newId : String)
    (message : ClientMessage β) :
    (handled cfg s ws peer newId message).peerOf q = s.peerOf q := by
  rw [handled, State.peerOf_setPeer_of_ne _ hq, State.peerOf_performAll]
  rfl

/-- So does a `close` event. -/
theorem peerOf_gone_self {socket : Socket} (h : s.sockets ws = some socket) (peer : Option Peer) :
    (gone s ws peer).peerOf ws = some none := by
  refine State.peerOf_setPeer_self _ ?_ none
  rw [State.peerOf_performAll, State.peerOf_setReady]
  exact Option.isSome_of_eq_some (peerOf_eq h)

theorem peerOf_gone_of_ne {q : ℕ} (hq : q ≠ ws) (peer : Option Peer) :
    (gone s ws peer).peerOf q = s.peerOf q := by
  rw [gone, State.peerOf_setPeer_of_ne _ hq, State.peerOf_performAll, State.peerOf_setReady]
  rfl

/-- **Every step keeps the peers filed.** -/
theorem filed_step {i : Label β} (h : Filed s) (hstep : step cfg s i = some t) : Filed t := by
  cases i with
  | connect ws =>
    obtain ⟨hnone, rfl⟩ := step_connect hstep
    refine h.mono fun q hq => ?_
    -- the socket that opens belongs to no peer yet
    have hne : q.ws ≠ ws := by
      intro he
      rw [he, State.peerOf, hnone] at hq
      exact absurd hq (by simp)
    simpa only [State.peerOf, Function.update_of_ne hne] using hq
  | message ws message newId =>
    obtain ⟨socket, hsocket, -, -, hfresh, rfl⟩ := step_message hstep
    have hpeer := peerOf_eq hsocket
    rw [Filed, rooms_handled]
    refine (h.handle cfg (fun q hq he => ?_) s.serial newId message ?_).mono fun q hq => ?_
    · exact Option.some_inj.mp ((he ▸ hq).symm.trans hpeer)
    · rintro room role rfl
      exact (hfresh rfl).2
    · rcases hq with ⟨hq, hne⟩ | ⟨rfl, hq⟩
      · rwa [peerOf_handled_of_ne hne]
      · rw [hq]
        exact peerOf_handled_self hsocket _ _ _
  | refused ws error close =>
    obtain rfl := step_refused hstep
    rw [Filed, State.rooms_performAll]
    exact h.mono fun q hq => by rwa [State.peerOf_performAll]
  | closing ws =>
    obtain rfl := step_closing hstep
    exact h.mono fun q hq => by rwa [State.peerOf_setReady]
  | close ws =>
    obtain ⟨socket, hsocket, -, rfl⟩ := step_close hstep
    have hpeer := peerOf_eq hsocket
    rw [Filed, rooms_gone]
    refine (h.leave socket.peer).mono fun q ⟨hq, hne⟩ => ?_
    have hws : q.ws ≠ ws := fun he => hne (Option.some_inj.mp ((he ▸ hq).symm.trans hpeer))
    rwa [peerOf_gone_of_ne hws]

end Step

end Signaling

end IpcMini
