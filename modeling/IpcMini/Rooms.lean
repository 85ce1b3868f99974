/-
The room table of the signaling server (`cloud/signaling/rooms.js`).

A room has at most one master (the device) and some viewers, each under its
client id.  The operations change the table and send messages; what they send
and which sockets they close is the list of actions that they return.

* `joinMaster`, `joinViewer`, `leave` — the operations on the table;
* `find`, `route`, `routeDefault` — whom a signal goes to;
* `leave_eq_of_not_registered` — `leave` only removes registered peers.

`Map` objects are association lists with the newest key first.
-/
import Mathlib.Data.List.AList
import Mathlib.Data.Nat.Notation
import Mathlib.Tactic.Common

namespace IpcMini

namespace Signaling

inductive Role
  | master
  | viewer
  deriving DecidableEq, Repr

/-- A peer object; `serial` tells objects apart. -/
structure Peer where
  id : String
  role : Role
  room : String
  ws : ℕ
  serial : ℕ
  deriving DecidableEq, Repr

/-- What the server sends; `β` is the payload of the signals that it relays. -/
inductive Message (β : Type)
  | joinedMaster (room clientId : String) (viewers : List String)
  | joinedViewer (room clientId : String) (masterId : Option String)
  | peerJoined (role : Role) (clientId : String)
  | peerLeft (role : Role) (clientId : String)
  /-- `{ ...message, from, to }` -/
  | relay (sender toId : String) (message : β)
  | left
  | pong
  | error (message : String)
  deriving DecidableEq, Repr

inductive Action (β : Type)
  | send (ws : ℕ) (message : Message β)
  | close (ws : ℕ)
  deriving DecidableEq, Repr

structure Room where
  master : Option Peer
  viewers : AList fun _ : String => Peer

abbrev Rooms := String → Option Room

variable {β : Type}

namespace Room

/-- `{ viewers: new Map() }`. -/
def new : Room := ⟨none, ∅⟩

/-- `room.viewers.keys()`. -/
def viewerIds (room : Room) : List String := room.viewers.keys.reverse

/-- `room.viewers.values()`. -/
def viewerList (room : Room) : List Peer := room.viewers.entries.reverse.map Sigma.snd

/-- `roomHasId`. -/
def hasId (room : Room) (id : String) : Bool :=
  room.master.any (·.id = id) || (room.viewers.lookup id).isSome

end Room

/-- `ensure`. -/
def ensure (rooms : Rooms) (name : String) : Room := (rooms name).getD .new

/-- `dropIfEmpty`. -/
def dropIfEmpty (rooms : Rooms) (name : String) (room : Room) : Rooms :=
  Function.update rooms name
    (if room.master = none ∧ room.viewers.keys = [] then none else some room)

/-- `notifyViewers`. -/
def notifyViewers (room : Room) (message : Message β) : List (Action β) :=
  room.viewerList.map fun viewer => .send viewer.ws message

/-- `requestedId || newClientId(room)`. -/
def clientId (requestedId newId : String) : String :=
  if requestedId = "" then newId else requestedId

/-- `joinMaster`. -/
def joinMaster (rooms : Rooms) (ws : ℕ) (roomName requestedId newId : String)
    (serial : ℕ) : Rooms × Peer × List (Action β) :=
  let room := ensure rooms roomName
  let id := clientId requestedId newId
  let replaced :=
    match room.master with
    | some old =>
      [.send old.ws (.error "master replaced by new device"), .close old.ws] ++
        notifyViewers room (.peerLeft .master old.id)
    | none => []
  let peer := ⟨id, .master, roomName, ws, serial⟩
  (Function.update rooms roomName (some { room with master := some peer }), peer,
    replaced ++ [.send ws (.joinedMaster roomName id room.viewerIds)] ++
      room.viewerList.flatMap fun viewer =>
        [.send viewer.ws (.peerJoined .master id), .send ws (.peerJoined .viewer viewer.id)])

/-- `joinViewer`, with the error of a refused one. -/
def joinViewer (maxViewers : ℕ) (rooms : Rooms) (ws : ℕ)
    (roomName requestedId newId : String) (serial : ℕ) :
    Rooms × Except String Peer × List (Action β) :=
  let room := ensure rooms roomName
  let ensured := Function.update rooms roomName (some room)
  if requestedId ≠ "" ∧ room.hasId requestedId then
    (ensured, .error "client id already in use", [])
  else if room.viewers.keys.length ≥ maxViewers then
    (ensured, .error s!"viewer limit reached (max {maxViewers})", [])
  else
    let id := clientId requestedId newId
    let peer := ⟨id, .viewer, roomName, ws, serial⟩
    (Function.update rooms roomName (some { room with viewers := room.viewers.insert id peer }),
      .ok peer,
      .send ws (.joinedViewer roomName id (room.master.map (·.id))) ::
        match room.master with
        | some master =>
          [.send master.ws (.peerJoined .viewer id), .send ws (.peerJoined .master master.id)]
        | none => [])

/-- `leave`. -/
def leave (rooms : Rooms) : Option Peer → Rooms × List (Action β)
  | none => (rooms, [])
  | some peer =>
    match rooms peer.room with
    | none => (rooms, [])
    | some room =>
      if peer.role = .master ∧ room.master = some peer then
        let room := { room with master := none }
        (dropIfEmpty rooms peer.room room, notifyViewers room (.peerLeft .master peer.id))
      else if peer.role = .viewer ∧ room.viewers.lookup peer.id = some peer then
        let room := { room with viewers := room.viewers.erase peer.id }
        (dropIfEmpty rooms peer.room room,
          match room.master with
          | some master => [.send master.ws (.peerLeft .viewer peer.id)]
          | none => [])
      else (dropIfEmpty rooms peer.room room, [])

/-- `find`. -/
def find (rooms : Rooms) (roomName id : String) : Option Peer :=
  match rooms roomName with
  | none => none
  | some room =>
    match room.master with
    | some master => if master.id = id then some master else room.viewers.lookup id
    | none => room.viewers.lookup id

/-- `route`; `none` is `false`. -/
def route (rooms : Rooms) (sender : Peer) (toId : String) (message : β) :
    Option (List (Action β)) :=
  (find rooms sender.room toId).map fun target =>
    [.send target.ws (.relay sender.id toId message)]

/-- Whom `routeDefault` sends the message to. -/
def defaultTarget (rooms : Rooms) (sender : Peer) : Option Peer :=
  match rooms sender.room with
  | none => none
  | some room =>
    match sender.role, room.master, room.viewerList with
    | .viewer, some master, _ => some master
    | .master, _, [viewer] => some viewer
    | _, _, _ => none

/-- `routeDefault`; `none` is `false`. -/
def routeDefault (rooms : Rooms) (sender : Peer) (message : β) : Option (List (Action β)) :=
  (defaultTarget rooms sender).map fun target =>
    [.send target.ws (.relay sender.id target.id message)]

/-! ### The table

A room that is not in the map is as good as one without peers, so what the
operations do is said of `ensure rooms`. -/

/-- What `leave` does to the room of the peer. -/
def Room.remove (room : Room) (peer : Peer) : Room :=
  if peer.role = .master ∧ room.master = some peer then { room with master := none }
  else if peer.role = .viewer ∧ room.viewers.lookup peer.id = some peer then
    { room with viewers := room.viewers.erase peer.id }
  else room

/-- What `leave` sends to the others in the room. -/
def Room.farewell (room : Room) (peer : Peer) : List (Action β) :=
  if peer.role = .master ∧ room.master = some peer then
    notifyViewers { room with master := none } (.peerLeft .master peer.id)
  else if peer.role = .viewer ∧ room.viewers.lookup peer.id = some peer then
    match room.master with
    | some master => [.send master.ws (.peerLeft .viewer peer.id)]
    | none => []
  else []

/-- The room with a new viewer. -/
def Room.addViewer (room : Room) (peer : Peer) : Room :=
  { room with viewers := room.viewers.insert peer.id peer }

/-- What `joinViewer` sends. -/
def Room.welcomeViewer (room : Room) (peer : Peer) : List (Action β) :=
  .send peer.ws (.joinedViewer peer.room peer.id (room.master.map (·.id))) ::
    match room.master with
    | some master =>
      [.send master.ws (.peerJoined .viewer peer.id),
        .send peer.ws (.peerJoined .master master.id)]
    | none => []

/-- What `joinMaster` sends, with the closing of the replaced master. -/
def Room.welcomeMaster (room : Room) (peer : Peer) : List (Action β) :=
  (match room.master with
    | some old =>
      [.send old.ws (.error "master replaced by new device"), .close old.ws] ++
        notifyViewers room (.peerLeft .master old.id)
    | none => []) ++
  [.send peer.ws (.joinedMaster peer.room peer.id room.viewerIds)] ++
    room.viewerList.flatMap fun viewer =>
      [.send viewer.ws (.peerJoined .master peer.id),
        .send peer.ws (.peerJoined .viewer viewer.id)]

theorem mem_viewerList {room : Room} {viewer : Peer} :
    viewer ∈ room.viewerList ↔ ∃ id, room.viewers.lookup id = some viewer := by
  rw [Room.viewerList, List.mem_map]
  constructor
  · rintro ⟨⟨id, v⟩, hmem, rfl⟩
    exact ⟨id, AList.mem_lookup_iff.mpr (List.mem_reverse.mp hmem)⟩
  · rintro ⟨id, hl⟩
    exact ⟨⟨id, viewer⟩, List.mem_reverse.mpr (AList.mem_lookup_iff.mp hl), rfl⟩

theorem ensure_of_eq {rooms : Rooms} {name : String} {room : Room} (h : rooms name = some room) :
    ensure rooms name = room := by rw [ensure, h, Option.getD_some]

theorem ensure_update_self (rooms : Rooms) (name : String) (room : Room) :
    ensure (Function.update rooms name (some room)) name = room :=
  ensure_of_eq (Function.update_self _ _ _)

theorem ensure_update_of_ne (rooms : Rooms) {name other : String} (h : other ≠ name)
    (room : Option Room) : ensure (Function.update rooms name room) other = ensure rooms other := by
  rw [ensure, Function.update_of_ne h, ← ensure]

/-- Setting a room of the map sets it in the table. -/
theorem ensure_update (rooms : Rooms) (name : String) (room : Room) :
    ensure (Function.update rooms name (some room)) = Function.update (ensure rooms) name room := by
  funext other
  by_cases hn : other = name
  · subst hn
    rw [Function.update_self, ensure_update_self]
  · rw [Function.update_of_ne hn, ensure_update_of_ne _ hn]

theorem Room.eq_new {room : Room} (hmaster : room.master = none)
    (hviewers : room.viewers.keys = []) : room = .new := by
  obtain ⟨master, viewers⟩ := room
  obtain rfl : master = none := hmaster
  have hentries : viewers.entries = [] := List.map_eq_nil_iff.mp hviewers
  have hempty : viewers = ∅ := AList.ext hentries
  rw [hempty, Room.new]

/-- `dropIfEmpty` drops nothing but an empty room. -/
theorem ensure_dropIfEmpty (rooms : Rooms) (name : String) (room : Room) :
    ensure (dropIfEmpty rooms name room) = Function.update (ensure rooms) name room := by
  funext other
  by_cases hn : other = name
  · subst hn
    rw [Function.update_self, ensure, dropIfEmpty, Function.update_self]
    split_ifs with hempty
    · exact (Room.eq_new hempty.1 hempty.2).symm
    · rfl
  · rw [Function.update_of_ne hn, dropIfEmpty, ensure_update_of_ne _ hn]

/-- **What `leave` does**: the peer is taken out of its room, and the others
there are told. -/
theorem leave_spec (rooms : Rooms) (peer : Peer) :
    ensure (leave (β := β) rooms (some peer)).1 =
        Function.update (ensure rooms) peer.room ((ensure rooms peer.room).remove peer) ∧
      (leave (β := β) rooms (some peer)).2 = (ensure rooms peer.room).farewell peer := by
  cases hroom : rooms peer.room with
  | none =>
    have hnew : ensure rooms peer.room = .new := by rw [ensure, hroom, Option.getD_none]
    have hremove : Room.new.remove peer = .new := by simp [Room.remove, Room.new]
    have hfarewell : (Room.new.farewell peer : List (Action β)) = [] := by
      simp [Room.farewell, Room.new]
    simp only [leave, hroom]
    rw [hnew, hremove, hfarewell, ← hnew, Function.update_eq_self]
    exact ⟨rfl, rfl⟩
  | some room =>
    rw [ensure_of_eq hroom]
    simp only [leave, hroom, Room.remove, Room.farewell]
    split_ifs <;> exact ⟨ensure_dropIfEmpty _ _ _, rfl⟩

/-- **What `joinMaster` does**: the peer becomes the master. -/
theorem joinMaster_spec (rooms : Rooms) (ws : ℕ) (roomName requestedId newId : String)
    (serial : ℕ) :
    joinMaster (β := β) rooms ws roomName requestedId newId serial =
      (Function.update rooms roomName (some { ensure rooms roomName with
          master := some ⟨clientId requestedId newId, .master, roomName, ws, serial⟩ }),
        ⟨clientId requestedId newId, .master, roomName, ws, serial⟩,
        (ensure rooms roomName).welcomeMaster
          ⟨clientId requestedId newId, .master, roomName, ws, serial⟩) := rfl

/-- **What `joinViewer` does**: it refuses, or files the viewer under an id that
the room does not have. -/
theorem joinViewer_cases (maxViewers : ℕ) (rooms : Rooms) (ws : ℕ)
    (roomName requestedId newId : String) (serial : ℕ)
    (hfresh : requestedId = "" → (ensure rooms roomName).hasId newId = false) :
    (∃ error, joinViewer (β := β) maxViewers rooms ws roomName requestedId newId serial =
        (Function.update rooms roomName (some (ensure rooms roomName)), .error error, []) ∧
      ((ensure rooms roomName).hasId requestedId = true ∨
        maxViewers ≤ (ensure rooms roomName).viewers.keys.length)) ∨
    (joinViewer (β := β) maxViewers rooms ws roomName requestedId newId serial =
        (Function.update rooms roomName (some ((ensure rooms roomName).addViewer
            ⟨clientId requestedId newId, .viewer, roomName, ws, serial⟩)),
          .ok ⟨clientId requestedId newId, .viewer, roomName, ws, serial⟩,
          (ensure rooms roomName).welcomeViewer
            ⟨clientId requestedId newId, .viewer, roomName, ws, serial⟩) ∧
      (ensure rooms roomName).hasId (clientId requestedId newId) = false ∧
      (ensure rooms roomName).viewers.keys.length < maxViewers) := by
  by_cases hused : requestedId ≠ "" ∧ (ensure rooms roomName).hasId requestedId
  · exact .inl ⟨_, by simp only [joinViewer]; rw [if_pos hused], .inl hused.2⟩
  · by_cases hfull : (ensure rooms roomName).viewers.keys.length ≥ maxViewers
    · exact .inl ⟨_, by simp only [joinViewer]; rw [if_neg hused, if_pos hfull], .inr hfull⟩
    · refine .inr ⟨by simp only [joinViewer]; rw [if_neg hused, if_neg hfull]; rfl, ?_,
        not_le.mp hfull⟩
      by_cases hr : requestedId = ""
      · rw [clientId, if_pos hr]
        exact hfresh hr
      · rw [clientId, if_neg hr]
        exact Bool.of_not_eq_true fun hid => hused ⟨hr, hid⟩

theorem ensure_update_ensure (rooms : Rooms) (name : String) :
    ensure (Function.update rooms name (some (ensure rooms name))) = ensure rooms := by
  rw [ensure_update, Function.update_eq_self]

theorem leave_none (rooms : Rooms) : leave (β := β) rooms none = (rooms, []) := rfl

end Signaling

end IpcMini
