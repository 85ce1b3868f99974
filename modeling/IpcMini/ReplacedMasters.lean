/-
The masters that a new device replaces (`cloud/signaling/rooms.js`).

`joinMaster` takes the room from the device that it finds there and tells its
socket to close.  Until that socket is gone its peer variable still holds the
replaced peer.

* `watched` — the server with the sockets of the replaced masters;
* `handle_has_iff` — a message of another socket takes nobody's place but that
  of a replaced master;
* `Followed` — the peer variable of a socket is registered exactly when the
  socket is not one of these;
* **`followed_step`** — every step keeps that.
-/
import IpcMini.SignalingServer

namespace IpcMini

namespace Signaling

variable {β : Type}

/-- The peer is at this moment the master or a viewer of its room. -/
def Registered (s : State β) (peer : Peer) : Prop := (ensure s.rooms peer.room).Has peer

/-- Whom `joinMaster` finds in the room and replaces. -/
def replacedMaster (rooms : Rooms) (peer : Option Peer) : ClientMessage β → Option Peer
  | .join room .master _ => (ensure (leave (β := β) rooms peer).1 room).master
  | _ => none

/-- A join or a leave sets the peer variable anew. -/
def ClientMessage.setsPeer : ClientMessage β → Bool
  | .join _ _ _ | .leave => true
  | .ping | .signal _ _ => false

/-- The sockets of the replaced masters after an event. -/
def stillReplaced (s : State β) (replaced : List ℕ) : Label β → List ℕ
  | .message ws message _ =>
    let old := replacedMaster s.rooms ((s.sockets ws).bind (·.peer)) message
    (old.map (·.ws)).toList ++
      if message.setsPeer then replaced.filter (· ≠ ws) else replaced
  | .close ws => replaced.filter (· ≠ ws)
  | .connect _ | .refused _ _ _ | .closing _ => replaced

/-- The server, and the sockets of the masters that were replaced before. -/
def watched (cfg : Config) (w : State β × List ℕ) (i : Label β) : Option (State β × List ℕ) :=
  (step cfg w.1 i).map fun t => (t, stillReplaced w.1 w.2 i)

/-- A peer that a socket holds sits on it, and is registered unless it is a
replaced master. -/
structure Followed (w : State β × List ℕ) : Prop where
  filed : Filed w.1
  own : ∀ ws peer, w.1.peerOf ws = some (some peer) → peer.ws = ws
  registered : ∀ ws peer, w.1.peerOf ws = some (some peer) →
    (Registered w.1 peer ↔ ws ∉ w.2)

theorem followed_init : Followed ((init, []) : State β × List ℕ) where
  filed := filed_init
  own := fun _ _ h => absurd h (by simp [init, State.peerOf])
  registered := fun _ _ h => absurd h (by simp [init, State.peerOf])

/-! ### Who stays registered -/

namespace Room

variable {room : Room} {new peer q : Peer}

theorem remove_has_iff (h : q ≠ peer) : (room.remove peer).Has q ↔ room.Has q := by
  refine ⟨fun hq => hq.imp remove_master removeViewer, ?_⟩
  rintro (hm | hv)
  · refine .inl ?_
    unfold remove
    split_ifs with hmaster
    · exact absurd (Option.some_inj.mp (hm.symm.trans hmaster.2)) h
    · exact hm
    · exact hm
  · refine .inr ?_
    unfold remove
    split_ifs with hmaster hviewer
    · exact hv
    · have hid : q.id ≠ peer.id := fun he =>
        h (Option.some_inj.mp (hv.symm.trans (he ▸ hviewer.2)))
      rwa [AList.lookup_erase_ne hid]
    · exact hv

theorem addViewer_has_iff (hfree : room.hasId new.id = false) (h : q ≠ new) :
    (room.addViewer new).Has q ↔ room.Has q := by
  refine or_congr_right ?_
  by_cases hid : q.id = new.id
  · have hnone : room.viewers.lookup q.id = none := by
      rw [hasId, Bool.or_eq_false_iff] at hfree
      rw [hid]
      exact Option.not_isSome_iff_eq_none.mp (by simp [hfree.2])
    rw [hnone, addViewer, hid, AList.lookup_insert]
    simp [h.symm]
  · rw [addViewer, AList.lookup_insert_ne hid]

/-- A new master takes the place of the old one. -/
theorem set_master_has_iff {table : String → Room} {sits : Peer → Prop} (hf : FiledIn table sits)
    {name : String} (h : q ≠ new) :
    ({ table name with master := some new } : Room).Has q ↔
      (table name).Has q ∧ (table name).master ≠ some q := by
  constructor
  · rintro (hm | hv)
    · exact absurd (Option.some_inj.mp hm).symm h
    · refine ⟨.inr hv, fun hm => ?_⟩
      exact absurd ((hf.master _ _ hm).1.symm.trans (hf.viewer _ _ _ hv).1) (by simp)
  · rintro ⟨hm | hv, hne⟩
    · exact absurd hm hne
    · exact .inr hv

end Room

theorem leave_has_iff {rooms : Rooms} {peer : Option Peer} {q : Peer} (h : some q ≠ peer) :
    (ensure (leave (β := β) rooms peer).1 q.room).Has q ↔ (ensure rooms q.room).Has q := by
  cases peer with
  | none => exact Iff.rfl
  | some peer =>
    rw [(leave_spec rooms peer).1]
    by_cases hroom : q.room = peer.room
    · rw [hroom, Function.update_self]
      exact Room.remove_has_iff fun he => h (congrArg some he)
    · rw [Function.update_of_ne hroom]

section Message

variable (cfg : Config) {rooms : Rooms} {sits : Peer → Prop} {ws : ℕ} {peer : Option Peer}
  (serial : ℕ) (newId : String)

/-- A message takes no peer of another socket out of its room but the master
that it replaces. -/
theorem handle_has_iff (hf : FiledIn (ensure rooms) sits)
    (hpeer : ∀ p, peer = some p → p.ws = ws) (message : ClientMessage β)
    (hfresh : ∀ room role, message = .join room role "" →
      (ensure (leave (β := β) rooms peer).1 room).hasId newId = false)
    {q : Peer} (hq : q.ws ≠ ws) :
    (ensure (handleClientMessage cfg rooms ws peer serial newId message).1 q.room).Has q ↔
      (ensure rooms q.room).Has q ∧ replacedMaster rooms peer message ≠ some q := by
  have hne : some q ≠ peer := fun he => hq (hpeer q he.symm)
  have hnew : ∀ id role room, q ≠ ⟨id, role, room, ws, serial⟩ := fun _ _ _ he =>
    hq (congrArg Peer.ws he)
  have hleave : (ensure (leave (β := β) rooms peer).1 q.room).Has q ↔ (ensure rooms q.room).Has q :=
    leave_has_iff hne
  have hnone : ∀ P : Prop, P ↔ P ∧ (none : Option Peer) ≠ some q := fun P =>
    (and_iff_left (by simp)).symm
  cases message with
  | ping => exact hnone _
  | join room role clientId =>
    have hleft := hf.leave (β := β) peer
    cases role with
    | master =>
      simp only [handleClientMessage, joinMaster_spec, ensure_update, replacedMaster]
      rw [← hleave]
      by_cases hroom : q.room = room
      · rw [hroom, Function.update_self]
        exact Room.set_master_has_iff hleft (hnew _ _ _)
      · rw [Function.update_of_ne hroom]
        refine (and_iff_left fun hm => hroom ?_).symm
        exact (hleft.master room q hm).2.1
    | viewer =>
      rcases joinViewer_cases (β := β) cfg.maxViewers
        (leave (β := β) rooms peer).1 ws room clientId newId serial
        (fun he => hfresh room .viewer (he ▸ rfl)) with ⟨error, hjoin, -⟩ | ⟨hjoin, hfree, -⟩
      · simp only [handleClientMessage, hjoin, ensure_update_ensure, replacedMaster]
        rw [hleave]
        exact hnone _
      · simp only [handleClientMessage, hjoin, ensure_update, replacedMaster]
        rw [← hnone, ← hleave]
        by_cases hroom : q.room = room
        · rw [hroom, Function.update_self]
          exact Room.addViewer_has_iff hfree (hnew _ _ _)
        · rw [Function.update_of_ne hroom]
  | leave =>
    cases peer with
    | none => exact hnone _
    | some peer =>
      simp only [handleClientMessage, replacedMaster]
      rw [hleave]
      exact hnone _
  | signal toId message =>
    have hsame : (handleClientMessage cfg rooms ws peer serial newId
        (.signal toId message)).1 = rooms := by
      cases peer with
      | none => rfl
      | some peer =>
        simp only [handleClientMessage]
        split_ifs
        · cases routeDefault rooms peer message <;> rfl
        · cases route rooms peer toId message <;> rfl
    rw [hsame]
    exact hnone _

/-- A message that leaves the socket a peer has registered it, or leaves the
peer and the rooms as they were. -/
theorem handle_own (message : ClientMessage β) {p : Peer}
    (hfresh : ∀ room role, message = .join room role "" →
      (ensure (leave (β := β) rooms peer).1 room).hasId newId = false)
    (h : (handleClientMessage cfg rooms ws peer serial newId message).2.1 = some p) :
    (message.setsPeer = true ∧ p.ws = ws ∧
      (ensure (handleClientMessage cfg rooms ws peer serial newId message).1 p.room).Has p) ∨
    (message.setsPeer = false ∧ peer = some p ∧
      (handleClientMessage cfg rooms ws peer serial newId message).1 = rooms) := by
  cases message with
  | ping => exact .inr ⟨rfl, h, rfl⟩
  | join room role clientId =>
    refine .inl ⟨rfl, ?_⟩
    cases role with
    | master =>
      simp only [handleClientMessage, joinMaster_spec, ensure_update] at h ⊢
      obtain rfl := Option.some_inj.mp h
      rw [Function.update_self]
      exact ⟨rfl, .inl rfl⟩
    | viewer =>
      rcases joinViewer_cases (β := β) cfg.maxViewers
        (leave (β := β) rooms peer).1 ws room clientId newId serial
        (fun he => hfresh room .viewer (he ▸ rfl)) with ⟨error, hjoin, -⟩ | ⟨hjoin, -, -⟩
      · simp only [handleClientMessage, hjoin] at h
        exact absurd h (by simp)
      · simp only [handleClientMessage, hjoin, ensure_update] at h ⊢
        obtain rfl := Option.some_inj.mp h
        rw [Function.update_self]
        exact ⟨rfl, .inr (AList.lookup_insert _)⟩
  | leave =>
    cases peer with
    | none => exact absurd h (by simp [handleClientMessage])
    | some peer => exact absurd h (by simp [handleClientMessage])
  | signal toId message =>
    refine .inr ⟨rfl, ?_⟩
    cases peer with
    | none => exact absurd h (by simp [handleClientMessage])
    | some peer =>
      simp only [handleClientMessage] at h ⊢
      split_ifs at h ⊢
      · cases hr : routeDefault rooms peer message <;> rw [hr] at h <;> exact ⟨h, rfl⟩
      · cases hr : route rooms peer toId message <;> rw [hr] at h <;> exact ⟨h, rfl⟩

end Message

/-! ### Events -/

section Step

variable {cfg : Config} {w v : State β × List ℕ}

/-- Nobody's peer variable or place in a room changes. -/
theorem Followed.same (h : Followed w) {t : State β} (hrooms : t.rooms = w.1.rooms)
    (hpeer : ∀ ws, t.peerOf ws = w.1.peerOf ws) (hfiled : Filed t) : Followed (t, w.2) where
  filed := hfiled
  own := fun ws peer hp => h.own ws peer (hpeer ws ▸ hp)
  registered := fun ws peer hp => by
    rw [Registered, hrooms]
    exact h.registered ws peer (hpeer ws ▸ hp)

theorem Followed.message (h : Followed w) {ws : ℕ} {message : ClientMessage β} {newId : String}
    {t : State β} (hstep : step cfg w.1 (.message ws message newId) = some t) :
    Followed (t, stillReplaced w.1 w.2 (.message ws message newId)) := by
  have hfiled := filed_step h.filed hstep
  obtain ⟨socket, hsocket, -, -, hfresh, rfl⟩ := step_message hstep
  have hpeer := peerOf_eq hsocket
  have hown : ∀ p, socket.peer = some p → p.ws = ws := fun p hp => h.own ws p (hp ▸ hpeer)
  have hnew : ∀ room role, message = .join room role "" →
      (ensure (leave (β := β) w.1.rooms socket.peer).1 room).hasId newId = false := by
    rintro room role rfl
    exact (hfresh rfl).2
  -- the replaced master sits on another socket, and that holds it
  have hold : ∀ old, replacedMaster w.1.rooms socket.peer message = some old →
      old.ws ≠ ws ∧ w.1.peerOf old.ws = some (some old) := by
    intro old hr
    unfold replacedMaster at hr
    split at hr
    case h_2 => exact absurd hr (by simp)
    case h_1 room _ =>
      obtain ⟨-, -, hsits, hne⟩ := (h.filed.leave (β := β) socket.peer).master room old hr
      refine ⟨fun he => hne ?_, hsits⟩
      rw [he, hpeer] at hsits
      exact (Option.some_inj.mp hsits).symm
  refine ⟨hfiled, fun q p hp => ?_, fun q p hp => ?_⟩
  · by_cases hq : q = ws
    · subst hq
      rw [peerOf_handled_self hsocket] at hp
      rcases handle_own cfg _ _ message hnew (Option.some_inj.mp hp) with ⟨-, hws, -⟩ | ⟨-, hs, -⟩
      · exact hws
      · exact hown p hs
    · rw [peerOf_handled_of_ne hq] at hp
      exact h.own q p hp
  · rw [Registered, rooms_handled]
    simp only [stillReplaced, hsocket, Option.bind_some, List.mem_append, Option.mem_toList,
      Option.map_eq_some_iff, not_or, not_exists, not_and]
    by_cases hq : q = ws
    · subst hq
      rw [peerOf_handled_self hsocket] at hp
      rcases handle_own cfg _ _ message hnew (Option.some_inj.mp hp) with
        ⟨hsets, -, hhas⟩ | ⟨hsets, hs, hrooms⟩
      · refine iff_of_true hhas ⟨fun old hr he => (hold old hr).1 he, ?_⟩
        simp [hsets]
      · rw [hrooms, hsets, if_neg (by simp)]
        refine (h.registered q p (hs ▸ hpeer)).trans (and_iff_right fun old hr he => ?_).symm
        exact (hold old hr).1 he
    · rw [peerOf_handled_of_ne hq] at hp
      obtain rfl := h.own q p hp
      rw [handle_has_iff cfg _ _ h.filed hown message hnew hq, and_comm]
      refine and_congr ⟨fun hne old hr he => hne ?_, fun hne hr => hne p hr rfl⟩ ?_
      · -- the socket of the replaced master holds nobody else
        have hsits := (hold old hr).2
        rw [he, hp] at hsits
        rw [hr, Option.some_inj.mp (Option.some_inj.mp hsits)]
      · refine (h.registered _ p hp).trans (not_congr ?_)
        split_ifs
        · simp [hq]
        · exact Iff.rfl

/-- **Every step keeps the peer variables registered, but those of the replaced
masters.** -/
theorem followed_step {i : Label β} (h : Followed w) (hstep : watched cfg w i = some v) :
    Followed v := by
  obtain ⟨t, ht, rfl⟩ := Option.map_eq_some_iff.mp hstep
  have hfiled := filed_step h.filed ht
  cases i with
  | connect ws =>
    obtain ⟨-, rfl⟩ := step_connect ht
    have hpeer : ∀ q p, (State.peerOf { w.1 with
        sockets := Function.update w.1.sockets ws (some ⟨.open, none⟩) } q) = some (some p) →
        w.1.peerOf q = some (some p) := by
      intro q p hp
      by_cases hq : q = ws
      · subst hq
        simp only [State.peerOf, Function.update_self] at hp
        exact absurd hp (by simp)
      · simpa only [State.peerOf, Function.update_of_ne hq] using hp
    exact ⟨hfiled, fun q p hp => h.own q p (hpeer q p hp),
      fun q p hp => h.registered q p (hpeer q p hp)⟩
  | message ws message newId => exact h.message ht
  | refused ws error close =>
    obtain rfl := step_refused ht
    exact h.same (State.rooms_performAll _ _) (State.peerOf_performAll _ _) hfiled
  | closing ws =>
    obtain rfl := step_closing ht
    exact h.same rfl (State.peerOf_setReady _ _ _) hfiled
  | close ws =>
    obtain ⟨socket, hsocket, -, rfl⟩ := step_close ht
    have hother : ∀ q p, (gone w.1 ws socket.peer).peerOf q = some (some p) →
        q ≠ ws ∧ w.1.peerOf q = some (some p) := by
      intro q p hp
      have hq : q ≠ ws := by
        rintro rfl
        rw [peerOf_gone_self hsocket] at hp
        exact absurd hp (by simp)
      exact ⟨hq, by rwa [peerOf_gone_of_ne hq] at hp⟩
    refine ⟨hfiled, fun q p hp => h.own q p (hother q p hp).2, fun q p hp => ?_⟩
    obtain ⟨hq, hp⟩ := hother q p hp
    obtain rfl := h.own q p hp
    rw [Registered, rooms_gone, leave_has_iff]
    · refine (h.registered _ p hp).trans (not_congr ?_)
      simp [stillReplaced, hq]
    · exact fun he => hq (h.own ws p (he ▸ peerOf_eq hsocket))

/-- **An unregistered peer is a replaced master**: in every state that the
server reaches, the peer that a socket holds is unregistered exactly when the
socket is one of those. -/
theorem unregistered_iff_replaced {is : List (Label β)} {s : State β} {replaced : List ℕ}
    (hrun : Interleaving.run (watched cfg) (init, []) is = some (s, replaced)) {ws : ℕ}
    {peer : Peer} (hpeer : s.peerOf ws = some (some peer)) :
    ¬ Registered s peer ↔ ws ∈ replaced := by
  have h : Followed (s, replaced) :=
    Interleaving.run_preserves (fun _ _ _ h => followed_step h) followed_init hrun
  exact (not_congr (h.registered ws peer hpeer)).trans not_not

end Step

end Signaling

end IpcMini
