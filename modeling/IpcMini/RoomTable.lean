/-
The rooms of the signaling server stay well formed (`cloud/signaling/rooms.js`).

`joinViewer` refuses an id that its room has, `joinMaster` takes whatever id
the device asks for.

* `TableStep` — what an event does to the room table;
* `Consistent` — distinct ids, not too many viewers, no empty room, viewers
  under their own id and room, and `find` finds every peer;
* **`consistent_iff`** — a run keeps all rooms consistent exactly if no device
  joins under the id of a viewer in the room;
* **`master_with_viewerId`** — a device that does.
-/
import Mathlib.Data.List.Nodup
import IpcMini.SignalingServer

namespace IpcMini

open Interleaving

namespace Signaling

variable {β : Type}

/-- What the server relies on in a room of the map. -/
structure RoomConsistent (maxViewers : ℕ) (rooms : Rooms) (name : String) (room : Room) :
    Prop where
  distinct : ((room.master.toList ++ room.viewerList).map Peer.id).Nodup
  bounded : room.viewerList.length ≤ maxViewers
  occupied : room.master ≠ none ∨ room.viewerList ≠ []
  filed : ∀ id viewer, room.viewers.lookup id = some viewer → viewer.id = id ∧ viewer.room = name
  found : ∀ peer, room.Has peer → find rooms name peer.id = some peer

def Consistent (cfg : Config) (s : State β) : Prop :=
  ∀ name room, s.rooms name = some room → RoomConsistent cfg.maxViewers s.rooms name room

/-- The rooms are consistent after the step. -/
def KeepsConsistent (cfg : Config) (s : State β) (i : Label β) : Prop :=
  ∀ t, step cfg s i = some t → Consistent cfg t

/-- No device joins under an id that a viewer of the room has, the peer of its
own socket apart. -/
def NoIdClash (s : State β) : Label β → Prop
  | .message ws (.join room .master clientId) _ =>
    ∀ socket, s.sockets ws = some socket → socket.ready ≠ .closed → clientId ≠ "" →
      (validIdentifier room 128 && validIdentifier clientId 128) = true →
      ∀ viewer, (ensure s.rooms room).viewers.lookup clientId = some viewer →
        socket.peer = some viewer
  | _ => True

/-! ### What an event does to the table -/

/-- The table after an event; in a join the socket's old peer leaves first. -/
inductive TableStep (maxViewers : ℕ) (clash : Prop) (rooms : Rooms) : Rooms → Prop
  | same : TableStep maxViewers clash rooms rooms
  | leave (peer : Option Peer) :
    TableStep maxViewers clash rooms (Signaling.leave (β := Unit) rooms peer).1
  | refuse (peer : Option Peer) (name : String) {left : Rooms}
    (hleft : left = (Signaling.leave (β := Unit) rooms peer).1)
    (hroom : ensure left name ≠ .new) :
    TableStep maxViewers clash rooms (Function.update left name (some (ensure left name)))
  | master (peer : Option Peer) (new : Peer) {left : Rooms}
    (hleft : left = (Signaling.leave (β := Unit) rooms peer).1)
    (hid : ¬ clash → (ensure left new.room).viewers.lookup new.id = none) :
    TableStep maxViewers clash rooms (Function.update left new.room
      (some { ensure left new.room with master := some new }))
  | viewer (peer : Option Peer) (new : Peer) {left : Rooms}
    (hleft : left = (Signaling.leave (β := Unit) rooms peer).1)
    (hid : (ensure left new.room).hasId new.id = false)
    (hroom : (ensure left new.room).viewers.keys.length < maxViewers) :
    TableStep maxViewers clash rooms
      (Function.update left new.room (some ((ensure left new.room).addViewer new)))

/-- The messages do not matter for the table. -/
theorem leave_rooms (rooms : Rooms) (peer : Option Peer) :
    (leave (β := β) rooms peer).1 = (leave (β := Unit) rooms peer).1 := by
  cases peer with
  | none => rfl
  | some peer =>
    simp only [leave]
    split
    · rfl
    · split_ifs <;> rfl

/-- A viewer that another socket registered stays when the peer leaves. -/
theorem lookup_leave {rooms : Rooms} {name id : String} {viewer : Peer}
    (h : (ensure rooms name).viewers.lookup id = some viewer) {peer : Option Peer}
    (hne : peer ≠ some viewer) :
    (ensure (leave (β := β) rooms peer).1 name).viewers.lookup id = some viewer := by
  cases peer with
  | none => exact h
  | some peer =>
    rw [(leave_spec rooms peer).1]
    by_cases hn : name = peer.room
    · subst hn
      rw [Function.update_self, Room.remove]
      split_ifs with hm hv
      · exact h
      · have hid : id ≠ peer.id := by
          rintro rfl
          exact hne (hv.2.symm.trans h)
        rwa [AList.lookup_erase_ne hid]
      · exact h
    · rwa [Function.update_of_ne hn]

/-- Nobody comes under an id when a peer leaves. -/
theorem lookup_of_leave {rooms : Rooms} {name id : String} {viewer : Peer} {peer : Option Peer}
    (h : (ensure (leave (β := β) rooms peer).1 name).viewers.lookup id = some viewer) :
    (ensure rooms name).viewers.lookup id = some viewer := by
  cases peer with
  | none => exact h
  | some peer =>
    rw [(leave_spec rooms peer).1] at h
    by_cases hn : name = peer.room
    · subst hn
      rw [Function.update_self] at h
      exact removeViewer h
    · rwa [Function.update_of_ne hn] at h

theorem hasId_new (id : String) : Room.new.hasId id = false := rfl

theorem lookup_of_hasId {room : Room} {id : String} (h : room.hasId id = false) :
    room.viewers.lookup id = none := by
  rw [Room.hasId, Bool.or_eq_false_iff] at h
  exact Option.not_isSome_iff_eq_none.mp (by simp [h.2])

theorem master_of_hasId {room : Room} {id : String} (h : room.hasId id = false) {master : Peer}
    (hm : room.master = some master) : master.id ≠ id := by
  rw [Room.hasId, Bool.or_eq_false_iff, hm] at h
  simpa using h.1

/-- What a message does to the table. -/
theorem table_message {cfg : Config} {s : State β} (hf : Filed s) {ws : ℕ} {socket : Socket}
    (hsocket : s.sockets ws = some socket) (hready : socket.ready ≠ .closed) {newId : String}
    {message : ClientMessage β} (hvalid : message.valid = true)
    (hfresh : Fresh s socket newId message) :
    TableStep cfg.maxViewers (¬ NoIdClash s (.message ws message newId)) s.rooms
      (handleClientMessage cfg s.rooms ws socket.peer s.serial newId message).1 := by
  cases message with
  | ping => exact .same
  | join room role clientId =>
    cases role with
    | master =>
      simp only [handleClientMessage, joinMaster_spec]
      rw [leave_rooms]
      refine .master socket.peer
        ⟨Signaling.clientId clientId newId, .master, room, ws, s.serial⟩ rfl fun hclash => ?_
      rw [← leave_rooms (β := β)]
      by_cases hid : clientId = ""
      · have hnew : Signaling.clientId clientId newId = newId := if_pos hid
        rw [hnew]
        exact lookup_of_hasId (hfresh hid).2
      · have hnew : Signaling.clientId clientId newId = clientId := if_neg hid
        rw [hnew]
        -- who has the id in the room would be the peer that has just left
        rw [Option.eq_none_iff_forall_ne_some]
        intro viewer hv
        have hids : (validIdentifier room 128 && validIdentifier clientId 128) = true := by
          simpa [ClientMessage.valid, hid] using hvalid
        have hpeer := not_not.mp hclash socket hsocket hready hid hids viewer (lookup_of_leave hv)
        exact ((hf.leave socket.peer).viewer _ _ viewer hv).2.2.2.2 hpeer.symm
    | viewer =>
      rcases joinViewer_cases (β := β) cfg.maxViewers
        (Signaling.leave (β := β) s.rooms socket.peer).1 ws room clientId newId s.serial
        (fun he => (hfresh he).2) with ⟨error, hjoin, hfull⟩ | ⟨hjoin, hid, hroom⟩
      · simp only [handleClientMessage, hjoin]
        rw [leave_rooms] at hfull ⊢
        refine .refuse socket.peer room rfl fun hnew => ?_
        rw [hnew] at hfull
        rcases hfull with hused | hfull
        · exact absurd hused (by simp [hasId_new])
        · exact absurd (Nat.le_trans cfg.valid.1 hfull) (by simp [Room.new])
      · simp only [handleClientMessage, hjoin]
        rw [leave_rooms] at hid hroom ⊢
        exact .viewer socket.peer
          ⟨Signaling.clientId clientId newId, .viewer, room, ws, s.serial⟩ rfl hid hroom
  | leave =>
    cases hp : socket.peer with
    | none => exact .same
    | some peer =>
      simp only [handleClientMessage]
      rw [leave_rooms]
      exact .leave (some peer)
  | signal toId message =>
    cases hp : socket.peer with
    | none => exact .same
    | some peer =>
      simp only [handleClientMessage]
      split_ifs
      · cases routeDefault s.rooms peer message <;> exact .same
      · cases route s.rooms peer toId message <;> exact .same

/-- **What an event does to the table.** -/
theorem table_step {cfg : Config} {s t : State β} (hf : Filed s) {i : Label β}
    (hstep : step cfg s i = some t) :
    TableStep cfg.maxViewers (¬ NoIdClash s i) s.rooms t.rooms := by
  cases i with
  | connect ws =>
    obtain ⟨-, rfl⟩ := step_connect hstep
    exact .same
  | message ws message newId =>
    obtain ⟨socket, hsocket, hready, hvalid, hfresh, rfl⟩ := step_message hstep
    rw [rooms_handled]
    exact table_message hf hsocket hready hvalid hfresh
  | refused ws error close =>
    obtain rfl := step_refused hstep
    rw [State.rooms_performAll]
    exact .same
  | closing ws =>
    obtain rfl := step_closing hstep
    exact .same
  | close ws =>
    obtain ⟨socket, -, -, rfl⟩ := step_close hstep
    rw [rooms_gone, leave_rooms]
    exact .leave socket.peer

/-! ### What every event keeps -/

/-- No room of the map is without peers. -/
def NoEmpty (rooms : Rooms) : Prop := ∀ name room, rooms name = some room → room ≠ .new

/-- No room has more viewers than allowed. -/
def Bounded (maxViewers : ℕ) (rooms : Rooms) : Prop :=
  ∀ name, (ensure rooms name).viewers.keys.length ≤ maxViewers

/-- No viewer has the id of its room's master. -/
def MasterApart (rooms : Rooms) : Prop :=
  ∀ name master, (ensure rooms name).master = some master →
    (ensure rooms name).viewers.lookup master.id = none

theorem NoEmpty.update {rooms : Rooms} (h : NoEmpty rooms) (name : String) {room : Room}
    (hroom : room ≠ .new) : NoEmpty (Function.update rooms name (some room)) := by
  intro other room' hr
  by_cases hn : other = name
  · subst hn
    rw [Function.update_self] at hr
    exact Option.some_inj.mp hr ▸ hroom
  · rw [Function.update_of_ne hn] at hr
    exact h other room' hr

theorem NoEmpty.dropIfEmpty {rooms : Rooms} (h : NoEmpty rooms) (name : String) (room : Room) :
    NoEmpty (dropIfEmpty rooms name room) := by
  unfold Signaling.dropIfEmpty
  split_ifs with hempty
  · intro other room' hr
    by_cases hn : other = name
    · subst hn
      rw [Function.update_self] at hr
      exact absurd hr (by simp)
    · rw [Function.update_of_ne hn] at hr
      exact h other room' hr
  · exact h.update name fun he => hempty (by simp [he, Room.new])

theorem NoEmpty.leave {rooms : Rooms} (h : NoEmpty rooms) (peer : Option Peer) :
    NoEmpty (Signaling.leave (β := β) rooms peer).1 := by
  cases peer with
  | none => exact h
  | some peer =>
    simp only [Signaling.leave]
    split
    · exact h
    · split_ifs <;> exact h.dropIfEmpty _ _

theorem keys_remove_le (room : Room) (peer : Peer) :
    (room.remove peer).viewers.keys.length ≤ room.viewers.keys.length := by
  unfold Room.remove
  split_ifs
  · exact le_rfl
  · rw [AList.keys_erase]
    exact List.length_erase_le
  · exact le_rfl

theorem Bounded.leave {maxViewers : ℕ} {rooms : Rooms} (h : Bounded maxViewers rooms)
    (peer : Option Peer) : Bounded maxViewers (Signaling.leave (β := β) rooms peer).1 := by
  cases peer with
  | none => exact h
  | some peer =>
    intro name
    rw [(leave_spec rooms peer).1]
    by_cases hn : name = peer.room
    · subst hn
      rw [Function.update_self]
      exact Nat.le_trans (keys_remove_le _ _) (h _)
    · rw [Function.update_of_ne hn]
      exact h name

theorem MasterApart.leave {rooms : Rooms} (h : MasterApart rooms) (peer : Option Peer) :
    MasterApart (Signaling.leave (β := β) rooms peer).1 := by
  intro name master hm
  rw [Option.eq_none_iff_forall_ne_some]
  intro viewer hv
  have hm' : (ensure rooms name).master = some master := by
    cases peer with
    | none => exact hm
    | some peer =>
      rw [(leave_spec rooms peer).1] at hm
      by_cases hn : name = peer.room
      · subst hn
        rw [Function.update_self] at hm
        exact remove_master hm
      · rwa [Function.update_of_ne hn] at hm
  exact absurd ((h name master hm').symm.trans (lookup_of_leave hv)) (by simp)

theorem noEmpty_step {maxViewers : ℕ} {clash : Prop} {rooms rooms' : Rooms} (h : NoEmpty rooms)
    (hstep : TableStep maxViewers clash rooms rooms') : NoEmpty rooms' := by
  cases hstep with
  | same => exact h
  | leave peer => exact h.leave peer
  | refuse peer name hleft hroom => exact (hleft ▸ h.leave peer : NoEmpty _).update name hroom
  | master peer new hleft hid =>
    refine (hleft ▸ h.leave peer : NoEmpty _).update _ fun he => ?_
    exact absurd (congrArg Room.master he) (by simp [Room.new])
  | viewer peer new hleft hid hroom =>
    refine (hleft ▸ h.leave peer : NoEmpty _).update _ fun he => ?_
    have hl := congrArg (fun room : Room => room.viewers.lookup new.id) he
    exact absurd hl (by simp [Room.addViewer, Room.new])

theorem bounded_step {maxViewers : ℕ} {clash : Prop} {rooms rooms' : Rooms}
    (h : Bounded maxViewers rooms) (hstep : TableStep maxViewers clash rooms rooms') :
    Bounded maxViewers rooms' := by
  cases hstep with
  | same => exact h
  | leave peer => exact h.leave peer
  | refuse peer name hleft hroom =>
    rw [Bounded, ensure_update_ensure, hleft]
    exact h.leave peer
  | @master peer new left hleft hid =>
    have hl : Bounded maxViewers left := hleft ▸ h.leave peer
    intro name
    rw [ensure_update]
    by_cases hn : name = new.room
    · subst hn
      rw [Function.update_self]
      exact hl new.room
    · rw [Function.update_of_ne hn]
      exact hl name
  | @viewer peer new left hleft hid hroom =>
    have hl : Bounded maxViewers left := hleft ▸ h.leave peer
    intro name
    rw [ensure_update]
    by_cases hn : name = new.room
    · subst hn
      rw [Function.update_self, Room.addViewer, AList.keys_insert, List.length_cons]
      exact Nat.lt_of_le_of_lt List.length_erase_le hroom
    · rw [Function.update_of_ne hn]
      exact hl name

theorem masterApart_step {maxViewers : ℕ} {clash : Prop} {rooms rooms' : Rooms}
    (h : MasterApart rooms) (hno : ¬ clash) (hstep : TableStep maxViewers clash rooms rooms') :
    MasterApart rooms' := by
  cases hstep with
  | same => exact h
  | leave peer => exact h.leave peer
  | refuse peer name hleft hroom =>
    rw [MasterApart, ensure_update_ensure, hleft]
    exact h.leave peer
  | @master peer new left hleft hid =>
    have hl : MasterApart left := hleft ▸ h.leave peer
    intro name master hm
    -- only the room of the new peer changes
    rw [ensure_update] at hm ⊢
    by_cases hn : name = new.room
    · subst hn
      rw [Function.update_self] at hm ⊢
      obtain rfl := Option.some_inj.mp hm
      exact hid hno
    · rw [Function.update_of_ne hn] at hm ⊢
      exact hl name master hm
  | @viewer peer new left hleft hid hroom =>
    have hl : MasterApart left := hleft ▸ h.leave peer
    intro name master hm
    rw [ensure_update] at hm ⊢
    by_cases hn : name = new.room
    · subst hn
      rw [Function.update_self] at hm ⊢
      rw [Room.addViewer, AList.lookup_insert_ne (master_of_hasId hid hm)]
      exact hl new.room master hm
    · rw [Function.update_of_ne hn] at hm ⊢
      exact hl name master hm

/-! ### Consistent rooms -/

/-- The invariant of a run in which no id clashes. -/
structure Inv (cfg : Config) (s : State β) : Prop where
  filed : Filed s
  noEmpty : NoEmpty s.rooms
  bounded : Bounded cfg.maxViewers s.rooms
  masterApart : MasterApart s.rooms

theorem inv_init (cfg : Config) : Inv cfg (init : State β) :=
  ⟨filed_init, fun _ _ h => absurd h (by simp [init]), fun _ => Nat.zero_le _,
    fun _ _ h => absurd h (by simp [init, ensure, Room.new])⟩

theorem inv_step {cfg : Config} {s t : State β} {i : Label β} (h : Inv cfg s)
    (hi : NoIdClash s i) (hstep : step cfg s i = some t) : Inv cfg t :=
  have htable := table_step h.filed hstep
  ⟨filed_step h.filed hstep, noEmpty_step h.noEmpty htable, bounded_step h.bounded htable,
    masterApart_step h.masterApart (fun hclash => hclash hi) htable⟩

/-- The viewers are listed under their ids. -/
theorem viewerList_ids {sits : Peer → Prop} {table : String → Room} (h : FiledIn table sits)
    (name : String) : (table name).viewerList.map Peer.id = (table name).viewerIds := by
  rw [Room.viewerList, Room.viewerIds, AList.keys, List.keys, List.map_map, ← List.map_reverse]
  refine List.map_congr_left fun entry hentry => ?_
  have hl : (table name).viewers.lookup entry.1 = some entry.2 :=
    AList.mem_lookup_iff.mpr (List.mem_reverse.mp hentry)
  exact (h.viewer name entry.1 entry.2 hl).2.1

theorem consistent_of_inv {cfg : Config} {s : State β} (h : Inv cfg s) : Consistent cfg s := by
  intro name room hroom
  have hensure := ensure_of_eq hroom
  have hids := viewerList_ids h.filed name
  have hmaster := h.masterApart name
  have hbound := h.bounded name
  have hviewer := h.filed.viewer name
  rw [hensure] at hids hmaster hbound hviewer
  have hlen : room.viewerList.length = room.viewers.keys.length := by
    rw [← List.length_map (f := Peer.id), hids, Room.viewerIds, List.length_reverse]
  refine ⟨?_, hlen ▸ hbound, ?_, fun id viewer hv => ?_, fun peer hpeer => ?_⟩
  · rw [List.map_append, hids]
    have hnodup : room.viewerIds.Nodup := List.nodup_reverse.mpr room.viewers.keys_nodup
    cases hm : room.master with
    | none => exact hnodup
    | some master =>
      -- no viewer has the id of the master
      refine List.nodup_cons.mpr ⟨fun hmem => ?_, hnodup⟩
      have hkey : master.id ∈ room.viewers := AList.mem_keys.mpr (List.mem_reverse.mp hmem)
      exact absurd (hmaster master hm) (AList.lookup_eq_none.not.mpr (not_not.mpr hkey))
  · by_contra hnone
    rw [not_or, not_not, not_not] at hnone
    refine h.noEmpty name room hroom (Room.eq_new hnone.1 ?_)
    rw [← List.length_eq_zero_iff, ← hlen, hnone.2, List.length_nil]
  · exact ⟨(hviewer id viewer hv).2.1, (hviewer id viewer hv).2.2.1⟩
  · rw [find, hroom]
    rcases hpeer with hm | hv
    · simp [hm]
    · cases hm : room.master with
      | none => simpa [hm] using hv
      | some master =>
        have hne : master.id ≠ peer.id := by
          intro he
          exact absurd ((hmaster master hm).symm.trans (he ▸ hv)) (by simp)
        simpa [hm, hne] using hv

/-- A device joins under the id of a viewer: the room has two peers of one id. -/
theorem not_consistent_of_clash {cfg : Config} {s : State β} (hf : Filed s) {i : Label β}
    (hclash : ¬ NoIdClash s i) : ¬ KeepsConsistent cfg s i := by
  intro hkeeps
  cases i with
  | message ws message newId =>
    cases message with
    | join room role clientId =>
      cases role with
      | master =>
        rw [NoIdClash] at hclash
        push Not at hclash
        -- the viewer stays in the room that the device joins under its id
        obtain ⟨socket, hsocket, hready, hne, hvalid, viewer, hviewer, hpeer⟩ := hclash
        have hv : (ClientMessage.join room .master clientId : ClientMessage β).valid = true := by
          simpa [ClientMessage.valid, hne] using hvalid
        have hstep : step cfg s (.message ws (.join room .master clientId) newId) =
            some (handled cfg s ws socket.peer newId (.join room .master clientId)) := by
          simp only [step, hsocket]
          rw [if_pos ⟨hready, hv, fun he => absurd he hne⟩]
        have hcons := hkeeps _ hstep
        have hrooms := rooms_handled cfg s ws socket.peer newId (.join room .master clientId)
        simp only [handleClientMessage, joinMaster_spec] at hrooms
        have hroom := congrFun hrooms room
        rw [Function.update_self] at hroom
        have hstays := lookup_leave (β := β) hviewer hpeer
        have hid := (hf.viewer room clientId viewer hviewer).2.1
        have hnodup := (hcons room _ hroom).distinct
        have hmem : viewer ∈ (ensure (leave (β := β) s.rooms socket.peer).1 room).viewerList :=
          mem_viewerList.mpr ⟨clientId, hstays⟩
        rw [List.map_append] at hnodup
        have hnew : Signaling.clientId clientId newId = clientId := if_neg hne
        refine (List.nodup_append.mp hnodup).2.2 clientId ?_ clientId ?_ rfl
        · simp [hnew]
        · exact List.mem_map.mpr ⟨viewer, hmem, hid⟩
      | viewer => exact hclash trivial
    | _ => exact hclash trivial
  | _ => exact hclash trivial

/-- **Exactly the runs in which no device joins under the id of a viewer of its
room keep all rooms consistent.** -/
theorem consistent_iff (cfg : Config) (is : List (Label β)) :
    Along (step cfg) (KeepsConsistent cfg) init is ↔ Along (step cfg) NoIdClash init is := by
  constructor
  · refine along_imp (P := Filed) (fun s i t h _ hstep => filed_step h hstep) (fun s i h hi => ?_)
      filed_init
    by_contra hclash
    exact not_consistent_of_clash h hclash hi
  · exact along_imp (fun s i t h hi hstep => inv_step h hi hstep)
      (fun s i h hi t hstep => consistent_of_inv (inv_step h hi hstep)) (inv_init cfg)

/-- A viewer joins the room as `a`, and the device connects. -/
def viewerThenDevice : List (Label Unit) :=
  [.connect 0, .message 0 (.join "r" .viewer "a") "", .connect 1]

/-- **A device joins under the id of a viewer**, and the room has two peers of
that id. -/
theorem master_with_viewerId :
    (run (step defaultConfig) init
        (viewerThenDevice ++ [.message 1 (.join "r" .master "a") ""])).isSome ∧
      ¬ Along (step defaultConfig) (KeepsConsistent defaultConfig) init
        (viewerThenDevice ++ [.message 1 (.join "r" .master "a") ""]) := by
  refine ⟨by decide +kernel, fun h => ?_⟩
  obtain ⟨s, hs⟩ : ∃ s, run (step defaultConfig) init viewerThenDevice = some s :=
    Option.isSome_iff_exists.mp (by decide +kernel)
  have hsocket : (run (step defaultConfig) init viewerThenDevice).map (·.sockets 1) =
      some (some ⟨.open, none⟩) := by decide +kernel
  have hviewer : (run (step defaultConfig) init viewerThenDevice).map
      (fun s => (ensure s.rooms "r").viewers.lookup "a") =
        some (some ⟨"a", .viewer, "r", 0, 0⟩) := by decide +kernel
  rw [hs, Option.map_some] at hsocket hviewer
  have hfiled : Filed s := run_preserves (fun _ _ _ hf => filed_step hf) filed_init hs
  refine not_consistent_of_clash hfiled (fun hno => ?_) ((along_append.mp h).2 s hs).1
  have hpeer := hno _ (Option.some_inj.mp hsocket) (by decide) (by decide) (by decide +kernel) _
    (Option.some_inj.mp hviewer)
  exact absurd hpeer (by simp)

end Signaling

end IpcMini
