/-
Late state events of a replaced peer (`WebRtcPlugin::Impl::on_peer_state`).

The state handler of a peer keeps the viewer id and a weak pointer.  A second
offer of the same viewer installs a new session under that id, while the old
peer lives on until the cleanup thread has stopped it; its events, posted to
the signaling thread, are run after the replacement.  `on_connected` compares
the peers, the removal does not.

* `StaleKept` — a step that runs a late end event of a replaced peer keeps the
  session that holds the id;
* **`stale_kept_iff`** — a run keeps them exactly if every such event runs
  after its peer was reaped and while no drain batch holds it;
* `onConnected_stale` — what the comparison buys;
* `stale_event_removes` — the run that loses the new session.
-/
import IpcMini.Session

namespace IpcMini

open Interleaving

namespace WebRtcPlugin

open State

variable {options : WebRtcPluginOptions}

/-- The state event that a step handles. -/
def event (s : State) : Label → Option (Peer × PeerState)
  | .runTask _ => if s.signaling = .idle then s.tasks.head? else none
  | .inlineState state _ =>
    match s.signaling with
    | .offering peer =>
      if (s.viewers.lookup peer.viewerId).any (fun viewer => viewer.peer = peer) then
        some (peer, state)
      else none
    | _ => none
  | _ => none

/-- The step handles an end event of a peer while `viewer`, the session under
the id of that peer, has another peer. -/
def HandlesStale (s : State) (i : Label) (peer : Peer) (viewer : ViewerSession) : Prop :=
  (∃ state, event s i = some (peer, state) ∧ state.ends = true) ∧
    s.viewers.lookup peer.viewerId = some viewer ∧ viewer.peer ≠ peer

/-- An end event of a replaced peer leaves the session under its id as it is. -/
def StaleKept (options : WebRtcPluginOptions) (s : State) (i : Label) : Prop :=
  ∀ peer viewer t, HandlesStale s i peer viewer → step options s i = some t →
    t.viewers.lookup peer.viewerId = some viewer

/-- The cleanup thread is done with the peer of a late end event, and no drain
batch holds it. -/
def StaleReaped (s : State) (i : Label) : Prop :=
  ∀ peer viewer, HandlesStale s i peer viewer → peer ∉ s.reaping ∧ peer ∉ s.draining

/-! ### The peers of the sessions -/

/-- Sessions are filed under the id that their peer's handlers captured. -/
def Keyed (viewers : AList fun _ : String => ViewerSession) : Prop :=
  ∀ id viewer, viewers.lookup id = some viewer → viewer.peer.viewerId = id

theorem keyed_empty : Keyed ∅ := by
  intro id viewer h
  rw [AList.lookup_empty] at h
  exact absurd h (by simp)

theorem Keyed.erase {viewers : AList fun _ : String => ViewerSession} (h : Keyed viewers)
    (id : String) : Keyed (viewers.erase id) := by
  intro id' viewer hl
  by_cases hid : id' = id
  · subst hid
    rw [AList.lookup_erase] at hl
    exact absurd hl (by simp)
  · rw [AList.lookup_erase_ne hid] at hl
    exact h id' viewer hl

theorem Keyed.insert {viewers : AList fun _ : String => ViewerSession} (h : Keyed viewers)
    {id : String} {viewer : ViewerSession} (hv : viewer.peer.viewerId = id) :
    Keyed (viewers.insert id viewer) := by
  intro id' viewer' hl
  by_cases hid : id' = id
  · subst hid
    rw [AList.lookup_insert] at hl
    exact Option.some_inj.mp hl ▸ hv
  · rw [AList.lookup_insert_ne hid] at hl
    exact h id' viewer' hl

theorem keyed_onPeerState {s : State} (h : Keyed s.viewers) (peer : Peer) (state : PeerState)
    (accepted : Bool) : Keyed (onPeerState options s peer state accepted).viewers := by
  simp only [onPeerState, onConnected]
  split
  · exact h
  split
  · split
    · exact h
    · rename_i viewer hl
      split
      · exact h
      · rw [startAiUplink_viewers]
        exact h.insert (h _ viewer hl)
  split
  · rw [removeViewer_viewers]
    exact h.erase _
  · exact h

theorem keyed_startPeer {s : State} (h : Keyed s.viewers) (viewerId : String)
    (started : Bool) : Keyed (startPeer s viewerId started).viewers := by
  simp only [startPeer]
  split_ifs
  · exact h
  · exact h
  · exact h
  · exact h.insert rfl

theorem keyed_offered {s : State} (h : Keyed s.viewers) (peer : Peer) (answered : Bool) :
    Keyed (offered options s peer answered).viewers := by
  simp only [offered]
  split
  · exact (removeViewer_viewers options s _) ▸ h.erase _
  · split
    · rename_i viewer hl
      exact h.insert (h _ viewer hl)
    · exact h

theorem keyed_offer {s : State} (h : Keyed s.viewers) (viewerId sdp : String) :
    Keyed (offer options s viewerId sdp).viewers := by
  simp only [offer]
  split_ifs
  · exact h
  · rw [removeViewer_viewers]
    exact h.erase _
  · exact (removeViewer_viewers options s viewerId) ▸ h.erase viewerId

theorem keyed_step {s t : State} {i : Label} (h : Keyed s.viewers)
    (hstep : step options s i = some t) : Keyed t.viewers := by
  cases step_cases hstep with
  | offer _ viewerId sdp => exact keyed_offer h viewerId sdp
  | uplink _ accepted => rwa [uplink_viewers]
  | startPeer _ started => exact keyed_startPeer h _ started
  | inlineState _ state accepted => exact keyed_onPeerState h _ state accepted
  | offered _ answered => exact keyed_offered h _ answered
  | peerLeft _ _ viewerId =>
    rw [removeViewer_viewers]
    exact h.erase viewerId
  | signalingDisconnected =>
    rw [removeAllViewers_viewers]
    exact keyed_empty
  | runTask _ peer state rest _ accepted =>
    exact keyed_onPeerState (s := { s with tasks := rest }) h peer state accepted
  | stopRemove => exact (removeAllViewers_viewers options s).symm ▸ keyed_empty
  | elsewhere | otherSubscriber | stop | stopReset => exact h

/-! ### Late events -/

/-- While the session under the id of a peer has another peer, only the
cleanup thread and a drain batch can keep the peer alive between two tasks. -/
theorem alive_of_stale {s : State} (h : Keyed s.viewers) (hidle : s.signaling = .idle)
    {peer : Peer} {viewer : ViewerSession}
    (hl : s.viewers.lookup peer.viewerId = some viewer) (hne : viewer.peer ≠ peer) :
    s.alive peer = true ↔ peer ∈ s.reaping ∨ peer ∈ s.draining := by
  have hlisted : (s.viewers.entries.any fun entry => entry.2.peer = peer) = false := by
    rw [List.any_eq_false]
    rintro ⟨id, other⟩ hmem heq
    have hother : s.viewers.lookup id = some other := AList.mem_lookup_iff.mpr hmem
    obtain rfl : other.peer = peer := by simpa using heq
    rw [h id other hother, hother] at hl
    exact hne (Option.some_inj.mp hl ▸ rfl)
  simp [alive, hlisted, hidle]

/-- The comparison of `on_connected` turns a replaced peer away. -/
theorem onConnected_stale {s : State} {viewerId : String} {peer : Peer}
    {viewer : ViewerSession} (hl : s.viewers.lookup viewerId = some viewer)
    (hne : viewer.peer ≠ peer) (accepted : Bool) :
    onConnected options s viewerId peer accepted = s := by
  simp [onConnected, hl, hne]

/-- Only posted tasks handle end events of replaced peers. -/
theorem HandlesStale.runTask {s : State} {i : Label} {peer : Peer} {viewer : ViewerSession}
    (h : HandlesStale s i peer viewer) : ∃ accepted state rest, i = .runTask accepted ∧
      s.signaling = .idle ∧ s.tasks = (peer, state) :: rest ∧ state.ends = true := by
  obtain ⟨⟨state, hevent, hends⟩, hl, hne⟩ := h
  cases i with
  | runTask accepted =>
    simp only [event] at hevent
    split at hevent
    · rename_i hidle
      obtain ⟨rest, hrest⟩ := List.head?_eq_some_iff.mp hevent
      exact ⟨accepted, state, rest, rfl, hidle, hrest, hends⟩
    · exact absurd hevent (by simp)
  | inlineState state' accepted =>
    -- the handler of the peer being offered is called while its session is there
    simp only [event] at hevent
    split at hevent
    · split at hevent
      · rename_i hany
        obtain ⟨rfl, rfl⟩ := Prod.mk.inj (Option.some_inj.mp hevent)
        simp [hl, hne] at hany
      · exact absurd hevent (by simp)
    · exact absurd hevent (by simp)
  | _ => exact absurd hevent (by simp [event])

theorem stale_kept_iff_reaped {s : State} (h : Keyed s.viewers) (i : Label) :
    StaleKept options s i ↔ StaleReaped s i := by
  constructor
  · intro hkept peer viewer hstale
    have hl := hstale.2.1
    obtain ⟨accepted, state, rest, rfl, hidle, htasks, hends⟩ := hstale.runTask
    by_contra hheld
    have halive : ({ s with tasks := rest } : State).alive peer = true :=
      (alive_of_stale h hidle hl hstale.2.2).mpr (by tauto)
    -- the weak pointer is locked and the session of the new peer is removed
    have hrun := hkept peer viewer _ hstale (step_runTask hidle htasks accepted)
    rw [onPeerState_ends halive hends, removeViewer_viewers, AList.lookup_erase] at hrun
    exact absurd hrun (by simp)
  · intro hreaped peer viewer t hstale hstep
    obtain ⟨hr, hd⟩ := hreaped peer viewer hstale
    have hl := hstale.2.1
    obtain ⟨accepted, state, rest, rfl, hidle, htasks, hends⟩ := hstale.runTask
    have hexpired : ({ s with tasks := rest } : State).alive peer = false := by
      refine Bool.eq_false_iff.mpr fun halive => ?_
      rcases (alive_of_stale h hidle hl hstale.2.2).mp halive with hmem | hmem
      · exact hr hmem
      · exact hd hmem
    rw [step_runTask hidle htasks, onPeerState_expired hexpired] at hstep
    exact Option.some_inj.mp hstep ▸ hl

/-- **Late end events are harmless exactly after the reap.**  In every run of
the plugin, no end event of a replaced peer removes or changes the session
that holds its viewer id if and only if each such event is run when the
cleanup thread is done with its peer and no drain batch holds it. -/
theorem stale_kept_iff (options : WebRtcPluginOptions) (detectionSource : Bool)
    (is : List Label) :
    Along (step options) (StaleKept options) (init detectionSource) is ↔
      Along (step options) StaleReaped (init detectionSource) is :=
  along_congr (P := fun s => Keyed s.viewers) (fun _ _ _ => keyed_step)
    (fun _ i h => stale_kept_iff_reaped h i) keyed_empty

/-- An offer of viewer "a" that is answered. -/
def offerA : List Label :=
  [.offer "a" "ice-ufrag ice-pwd", .uplink true, .startPeer true, .offered true]

/-- The peer of the first offer fails; before its event runs the viewer has
offered again, and the event removes the session of the second offer. -/
theorem stale_event_removes :
    ¬ ∀ (options : WebRtcPluginOptions) (detectionSource : Bool) (is : List Label),
      Along (step options) (StaleKept options) (init detectionSource) is := by
  intro h
  have hrun := h {} true (offerA ++ [.callback "a" .failed, .post 0 true] ++ offerA ++
    [.runTask true])
  have hlast := ((along_append.mp hrun).2 _ rfl).1
  have hlost := hlast ⟨0, "a"⟩ ⟨⟨1, "a"⟩, true, false⟩ _
    ⟨⟨.failed, rfl, rfl⟩, rfl, by decide⟩ rfl
  exact absurd hlost (by decide)

end WebRtcPlugin

end IpcMini
