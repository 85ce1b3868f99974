/-
Joins that fail (`cloud/signaling/protocol.js`, `cloud/signaling/rooms.js`).

A peer that joins again leaves its old room first, and a join that the new room
refuses does not bring it back.

* `Alike` — two states that differ in nothing but what one socket was sent;
* `AnsweredWithError` — the sender of a message gets an error for it;
* `join_fails` — how a join comes to that;
* **`failed_join_leaves`** — a join that is answered with an error does what a
  `leave` of its sender does, and nothing at all if the sender was in no room;
* `full_room_costs_membership` — a viewer that asks for a full room loses the
  room that it had.
-/
import IpcMini.PeerViews

namespace IpcMini

open Interleaving

namespace Signaling

variable {β : Type}

/-! ### States that differ in one inbox -/

/-- The table, the peer variables and the messages to every other socket are the
same. -/
structure Alike (ws : ℕ) (s t : State β) : Prop where
  rooms : s.rooms = t.rooms
  peerOf : ∀ ws', s.peerOf ws' = t.peerOf ws'
  inbox : ∀ ws', ws' ≠ ws → inbox s ws' = inbox t ws'

namespace Alike

variable {ws : ℕ} {s t u : State β}

theorem symm (h : Alike ws s t) : Alike ws t s where
  rooms := h.rooms.symm
  peerOf ws' := (h.peerOf ws').symm
  inbox ws' hws := (h.inbox ws' hws).symm

theorem trans (h : Alike ws s t) (h' : Alike ws t u) : Alike ws s u where
  rooms := h.rooms.trans h'.rooms
  peerOf ws' := (h.peerOf ws').trans (h'.peerOf ws')
  inbox ws' hws := (h.inbox ws' hws).trans (h'.inbox ws' hws)

/-- A message to the socket. -/
theorem send (s : State β) (ws : ℕ) (message : Message β) :
    Alike ws s (s.perform (.send ws message)) where
  rooms := (State.rooms_perform s _).symm
  peerOf ws' := (State.peerOf_perform s _ ws').symm
  inbox := by
    intro ws' hws
    rw [State.perform]
    split
    · simp [Signaling.inbox, Ne.symm hws]
    · rfl

theorem close (s : State β) (ws : ℕ) : Alike ws s (s.perform (.close ws)) where
  rooms := (State.rooms_perform s _).symm
  peerOf ws' := (State.peerOf_perform s _ ws').symm
  inbox := by
    intro ws' _
    rw [State.perform]
    split <;> rfl

theorem setPeer (h : Alike ws s t) (ws' : ℕ) (peer : Option Peer) :
    Alike ws (s.setPeer ws' peer) (t.setPeer ws' peer) where
  rooms := h.rooms
  peerOf := by
    intro other
    by_cases hws : other = ws'
    · subst hws
      have hsockets := h.peerOf other
      rw [State.peerOf, State.peerOf] at hsockets ⊢
      simp only [State.setPeer, Function.update_self]
      cases hs : s.sockets other <;> cases ht : t.sockets other <;> simp_all
    · rw [State.peerOf_setPeer_of_ne s hws, State.peerOf_setPeer_of_ne t hws, h.peerOf]
  inbox := h.inbox

/-- The peer variable is set to what it is. -/
theorem keep_peer {peer : Option Peer} (h : s.peerOf ws = some peer) :
    Alike ws s (s.setPeer ws peer) where
  rooms := rfl
  peerOf := by
    intro other
    by_cases hws : other = ws
    · subst hws
      rw [State.peerOf_setPeer_self s (Option.isSome_iff_exists.mpr ⟨_, h⟩), h]
    · rw [State.peerOf_setPeer_of_ne s hws]
  inbox _ _ := rfl

end Alike

/-! ### Joins that fail -/

/-- The sender of the message is sent an error. -/
def AnsweredWithError (cfg : Config) (s : State β) (ws : ℕ) (peer : Option Peer) (newId : String)
    (message : ClientMessage β) : Prop :=
  ∃ error, Action.send ws (.error error) ∈
    (handleClientMessage cfg s.rooms ws peer s.serial newId message).2.2

/-- Nobody is sent an error because a peer leaves. -/
theorem not_mem_leave_error (rooms : Rooms) (peer : Option Peer) (ws : ℕ) (error : String) :
    Action.send ws (.error error) ∉ (leave (β := β) rooms peer).2 := by
  cases peer with
  | none => simp [leave_none]
  | some peer =>
    rw [(leave_spec rooms peer).2, Room.farewell]
    split_ifs
    · rw [mem_notifyViewers]
      rintro ⟨viewer, -, h⟩
      cases (Action.send.inj h).2
    · split
      · simp
      · simp
    · simp

/-- A new master is not sent an error. -/
theorem not_mem_welcome_error {room : Room} {new : Peer} (error : String)
    (hws : ∀ old, room.master = some old → old.ws ≠ new.ws) :
    Action.send new.ws (.error error) ∉ (room.welcomeMaster new : List (Action β)) := by
  rw [Room.welcomeMaster, List.mem_append, List.mem_append]
  rintro ((h | h) | h)
  · cases hmaster : room.master with
    | none => exact absurd h (by simp [hmaster])
    | some old =>
      rw [hmaster] at h
      rcases List.mem_append.mp h with h | h
      · have hne := hws old hmaster
        simp [Ne.symm hne] at h
      · obtain ⟨viewer, -, he⟩ := mem_notifyViewers.mp h
        cases (Action.send.inj he).2
  · cases (Action.send.inj (List.mem_singleton.mp h)).2
  · obtain ⟨viewer, -, h⟩ := List.mem_flatMap.mp h
    simp at h

/-- Neither is a new viewer. -/
theorem not_mem_welcomeViewer_error (room : Room) (new : Peer) (error : String) :
    Action.send new.ws (.error error) ∉ (room.welcomeViewer new : List (Action β)) := by
  rw [Room.welcomeViewer]
  cases room.master <;> simp

/-- A room that refuses a viewer is in the table already. -/
theorem update_of_refused (cfg : Config) {rooms : Rooms} {name clientId : String}
    (h : (ensure rooms name).hasId clientId = true ∨
      cfg.maxViewers ≤ (ensure rooms name).viewers.keys.length) :
    Function.update rooms name (some (ensure rooms name)) = rooms := by
  cases hroom : rooms name with
  | none =>
    have hnew : ensure rooms name = .new := by rw [ensure, hroom, Option.getD_none]
    have hkeys : Room.new.viewers.keys.length = 0 := rfl
    have hpos := cfg.valid.1
    rw [hnew, hkeys] at h
    rcases h with h | h
    · cases h
    · omega
  | some room => rw [ensure_of_eq hroom, ← hroom, Function.update_eq_self]

/-- **How a join comes to fail**: the sender has left its room, and the table is
as it was left. -/
theorem join_fails {cfg : Config} {s : State β} (hf : Filed s) {ws : ℕ} {socket : Socket}
    (hsocket : s.sockets ws = some socket) {room clientId newId : String} {role : Role}
    (hfresh : Fresh s socket newId (.join (β := β) room role clientId))
    (h : AnsweredWithError cfg s ws socket.peer newId (.join (β := β) room role clientId)) :
    ∃ error, handleClientMessage cfg s.rooms ws socket.peer s.serial newId
        (.join (β := β) room role clientId) =
      ((leave (β := β) s.rooms socket.peer).1, none,
        (leave (β := β) s.rooms socket.peer).2 ++ [.send ws (.error error)]) := by
  have hpeer := peerOf_eq hsocket
  obtain ⟨error, herror⟩ := h
  cases role with
  | master =>
    exfalso
    rcases List.mem_append.mp herror with hleft | hjoined
    · exact not_mem_leave_error _ _ _ _ hleft
    · have hother : ∀ old, (ensure (leave (β := β) s.rooms socket.peer).1 room).master = some old →
          old.ws ≠ ws := by
        intro old hold hws
        -- whoever is the master then is another socket's peer
        obtain ⟨-, -, hsits, hne⟩ := (hf.leave (β := β) socket.peer).master room old hold
        rw [hws] at hsits
        exact hne (Option.some.inj (hsits.symm.trans hpeer))
      exact @not_mem_welcome_error β _ ⟨Signaling.clientId clientId newId, .master, room, ws,
        s.serial⟩ error hother hjoined
  | viewer =>
    simp only [handleClientMessage] at herror ⊢
    rcases joinViewer_cases (β := β) cfg.maxViewers (leave (β := β) s.rooms socket.peer).1 ws room
      clientId newId s.serial (fun hid => (hfresh hid).2) with ⟨error', hjoin, hwhy⟩ | ⟨hjoin, -⟩
    · refine ⟨error', ?_⟩
      rw [hjoin, update_of_refused cfg hwhy]
      dsimp only
      rw [List.append_nil]
    · exfalso
      rw [hjoin] at herror
      rcases List.mem_append.mp herror with hleft | hjoined
      · exact not_mem_leave_error _ _ _ _ hleft
      · exact not_mem_welcomeViewer_error _ _ _ hjoined

/-- What is left of a message to a peer that is in no room afterwards. -/
theorem alike_of_left {cfg : Config} {s : State β} {ws : ℕ} {peer : Option Peer} {newId : String}
    {message message' : ClientMessage β} {rooms : Rooms} {left : List (Action β)}
    {answer answer' : Message β}
    (h : handleClientMessage cfg s.rooms ws peer s.serial newId message =
      (rooms, none, left ++ [.send ws answer]))
    (h' : handleClientMessage cfg s.rooms ws peer s.serial newId message' =
      (rooms, none, left ++ [.send ws answer'])) :
    Alike ws (handled cfg s ws peer newId message) (handled cfg s ws peer newId message') := by
  rw [handled, handled, h, h']
  dsimp only
  refine Alike.setPeer ?_ ws none
  rw [State.performAll, State.performAll, List.foldl_append, List.foldl_append]
  exact (Alike.send _ ws answer).symm.trans (Alike.send _ ws answer')

/-- **A join that is answered with an error does what a `leave` does**, in every
reachable state, and nothing if its sender was in no room; a message that is
refused does nothing. -/
theorem failed_join_leaves {cfg : Config} {is : List (Label β)} {s : State β}
    (hrun : run (step cfg) init is = some s) :
    (∀ ws socket room role clientId newId t, s.sockets ws = some socket →
      step cfg s (.message ws (.join room role clientId) newId) = some t →
      AnsweredWithError cfg s ws socket.peer newId (.join (β := β) room role clientId) →
        t.peerOf ws = some none ∧
        (socket.peer = none → Alike ws s t) ∧
        (socket.peer ≠ none → ∃ u, step cfg s (.message ws .leave newId) = some u ∧
          Alike ws u t)) ∧
    ∀ ws error close t, step cfg s (.refused ws error close) = some t → Alike ws s t := by
  have hfiled : Filed s := run_preserves (fun _ _ _ hf => filed_step hf) filed_init hrun
  refine ⟨?_, ?_⟩
  · intro ws socket room role clientId newId t hsocket hstep herror
    obtain ⟨socket', hsocket', hready, -, hfresh, rfl⟩ := step_message hstep
    obtain rfl := Option.some.inj (hsocket.symm.trans hsocket')
    obtain ⟨error, hfails⟩ := join_fails hfiled hsocket hfresh herror
    have hpeer := peerOf_eq hsocket
    refine ⟨?_, ?_, ?_⟩
    · rw [peerOf_handled_self hsocket, hfails]
    · intro hnone
      rw [hnone, leave_none, List.nil_append] at hfails
      rw [hnone] at hpeer
      rw [handled, hnone, hfails]
      -- without a room there is only the serial number and the answer
      have hserial : Alike ws s { s with serial := s.serial + 1 } :=
        ⟨rfl, fun _ => rfl, fun _ _ => rfl⟩
      refine (hserial.trans (Alike.send _ ws (.error error))).trans (Alike.keep_peer ?_)
      rw [State.peerOf_perform]
      exact hpeer
    · intro hsome
      obtain ⟨peer, hpeer⟩ := Option.ne_none_iff_exists'.mp hsome
      -- the `leave` finds the same socket ready
      refine ⟨handled cfg s ws socket.peer newId .leave, ?_, ?_⟩
      · rw [step, hsocket]
        exact if_pos ⟨hready, rfl, trivial⟩
      · have hleave : handleClientMessage cfg s.rooms ws socket.peer s.serial newId
            (.leave : ClientMessage β) =
              ((leave (β := β) s.rooms socket.peer).1, none,
                (leave (β := β) s.rooms socket.peer).2 ++ [.send ws .left]) := by
          rw [hpeer]
          rfl
        exact alike_of_left hleave hfails
  · intro ws error close t hstep
    rw [step_refused hstep]
    cases close with
    | false => exact Alike.send s ws _
    | true => exact (Alike.send s ws _).trans (Alike.close _ ws)

/-- One viewer is allowed. -/
def oneViewer : Config := ⟨1, by decide⟩

/-- A device and a viewer in one room, and a viewer in another. -/
def twoRooms : List (Label Unit) :=
  [.connect 0, .message 0 (.join "a" .master "m") "", .connect 1,
    .message 1 (.join "a" .viewer "v") "", .connect 2, .message 2 (.join "b" .viewer "w") ""]

/-- The viewer of the first room asks for the second. -/
theorem second_room_full :
    ∃ s t, run (step oneViewer) init twoRooms = some s ∧
      s.sockets 1 = some ⟨.open, some ⟨"v", .viewer, "a", 1, 1⟩⟩ ∧
      step oneViewer s (.message 1 (.join "b" .viewer "v") "") = some t ∧
      AnsweredWithError oneViewer s 1 (some ⟨"v", .viewer, "a", 1, 1⟩) ""
        (.join (β := Unit) "b" .viewer "v") ∧
      inbox t 0 = inbox s 0 ++ [.peerLeft .viewer "v"] := by
  obtain ⟨s, hs⟩ : ∃ s, run (step oneViewer) init twoRooms = some s :=
    Option.isSome_iff_exists.mp (by decide +kernel)
  have hsocket : (run (step oneViewer) init twoRooms).map (·.sockets 1) =
      some (some ⟨.open, some ⟨"v", .viewer, "a", 1, 1⟩⟩) := by decide +kernel
  have hstep : (run (step oneViewer) init twoRooms).map
      (fun s => (step oneViewer s (.message 1 (.join "b" .viewer "v") "")).map
        fun t => decide (inbox t 0 = inbox s 0 ++ [.peerLeft .viewer "v"])) =
          some (some true) := by decide +kernel
  have herror : (run (step oneViewer) init twoRooms).map
      (fun s => decide (Action.send 1 (.error "viewer limit reached (max 1)") ∈
        (handleClientMessage oneViewer s.rooms 1 (some ⟨"v", .viewer, "a", 1, 1⟩) s.serial ""
          (.join (β := Unit) "b" .viewer "v")).2.2)) = some true := by decide +kernel
  rw [hs, Option.map_some] at hsocket hstep herror
  obtain ⟨t, ht, hinbox⟩ := Option.map_eq_some_iff.mp (Option.some.inj hstep)
  exact ⟨s, t, hs, Option.some.inj hsocket, ht,
    ⟨_, of_decide_eq_true (Option.some.inj herror)⟩, of_decide_eq_true hinbox⟩

/-- The viewer has left, as far as everybody else can tell. -/
theorem second_room_leaves :
    ∃ s t u, run (step oneViewer) init twoRooms = some s ∧
      step oneViewer s (.message 1 (.join "b" .viewer "v") "") = some t ∧
      step oneViewer s (.message 1 .leave "") = some u ∧ Alike 1 u t := by
  obtain ⟨s, t, hs, hsocket, ht, herror, -⟩ := second_room_full
  obtain ⟨-, -, hleaves⟩ := (failed_join_leaves hs).1 _ _ _ _ _ _ _ hsocket ht herror
  obtain ⟨u, hu, halike⟩ := hleaves (by simp)
  exact ⟨s, t, u, hs, ht, hu, halike⟩

/-- **A viewer that asks for a full room loses the room that it had**, and the
device there is told that it left. -/
theorem full_room_costs_membership :
    ¬ ∀ (cfg : Config) (is : List (Label Unit)) (s : State Unit),
      run (step cfg) init is = some s →
        ∀ ws socket room role clientId newId t, s.sockets ws = some socket →
          step cfg s (.message ws (.join room role clientId) newId) = some t →
          AnsweredWithError cfg s ws socket.peer newId (.join (β := Unit) room role clientId) →
            Alike ws s t := by
  intro h
  obtain ⟨s, t, hs, hsocket, ht, herror, hinbox⟩ := second_room_full
  have hsame := (h _ _ s hs _ _ _ _ _ _ t hsocket ht herror).inbox 0 (by decide)
  rw [hinbox] at hsame
  exact List.cons_ne_nil _ _ (List.self_eq_append_right.mp hsame)

end Signaling

end IpcMini
