/-
The viewer sessions of the WebRTC plugin (`protocol/webrtc/webrtc_session.cpp`,
`webrtc_media.cpp`, `webrtc_signaling.cpp`, `webrtc_plugin.cpp`).

Every change of the viewers is made on the signaling thread, which runs one
task at a time: a signaling message, a posted peer state, the two calls of
`stop`.  Between its reads of `running` a task is one step; `create_viewer`,
which reads it several times and calls into KVS, is four.  The other threads
copy peer state handlers and post to the signaling thread, hold peers in a
drain batch, stop the peers of removed viewers, and clear `running`.

* `createViewer` (`offer`, `uplink`, `startPeer`, `offered`), `onPeerState`,
  `onConnected`, `removeViewer`, `removeAllViewers`, `startUplink`,
  `startAiUplink`, `applyRemoteCandidate`;
* `step` — one step of one thread.

The frame queues of the viewers are the subject of `VideoQueue`.
-/
import Mathlib.Data.Int.Notation
import Mathlib.Data.List.AList
import Mathlib.Data.List.Infix
import IpcMini.Run
import IpcMini.Subscribers

namespace IpcMini

namespace WebRtcPlugin

/-! ### State -/

/-- The members of `WebRtcPluginOptions` that the session logic reads. -/
structure WebRtcPluginOptions where
  previewStreamId : ℤ := 1
  detectionsEnabled : Bool := true
  maxViewers : ℤ := 3
  deriving DecidableEq, Repr

def kMaxViewerLimit : ℕ := 3

def kPendingCandidateLimit : ℕ := 32

/-- `viewer_limit`. -/
def WebRtcPluginOptions.viewerLimit (options : WebRtcPluginOptions) : ℕ :=
  min kMaxViewerLimit (max options.maxViewers 1).toNat

/-- A `WebRtcPeerConnection` object, with the viewer id its handlers captured. -/
structure Peer where
  serial : ℕ
  viewerId : String
  deriving DecidableEq, Repr

/-- The names that the state handler is called with. -/
inductive PeerState
  | new
  | connecting
  | connected
  | disconnected
  | failed
  | closed
  | unknown
  deriving DecidableEq, Repr

/-- `on_peer_state` removes the viewer. -/
def PeerState.ends : PeerState → Bool
  | .disconnected | .failed | .closed => true
  | _ => false

/-- `ViewerSession`, without its frame queues. -/
structure ViewerSession where
  peer : Peer
  remoteDescriptionReady : Bool
  connected : Bool
  deriving DecidableEq, Repr

/-- `PendingCandidate`. -/
structure PendingCandidate where
  candidate : String
  mid : String
  deriving DecidableEq, Repr

/-- Where the signaling thread is. -/
inductive Signaling
  /-- between two tasks -/
  | idle
  /-- in `create_viewer`, before `start_uplink` -/
  | uplink (viewerId : String)
  /-- in `create_viewer`, before the peer is started -/
  | starting (viewerId : String)
  /-- in `create_viewer`, inside `handle_remote_offer` of the peer -/
  | offering (peer : Peer)
  deriving DecidableEq, Repr

/-- Where `WebRtcPlugin::stop` is. -/
inductive Stop
  | notCalled
  /-- `running` is cleared -/
  | called
  /-- `remove_all_viewers` has run on the signaling thread -/
  | removed
  /-- the references to the media sources are reset -/
  | done
  deriving DecidableEq, Repr

structure State where
  running : Bool
  /-- the reference `media` is set -/
  media : Bool
  /-- the reference `detection_source` is set -/
  detectionSource : Bool
  viewers : AList fun _ : String => ViewerSession
  pendingCandidates : AList fun _ : String => List PendingCandidate
  videoSub : ℕ
  aiHoldSub : ℕ
  detectSub : ℕ
  /-- what `MediaSource` holds, under stream ids -/
  mediaSubscribers : Subscribers ℤ
  /-- what `DetectionSource` holds -/
  detectionSubscribers : Subscribers Unit
  signaling : Signaling
  /-- `on_peer_state` calls posted to the signaling thread -/
  tasks : List (Peer × PeerState)
  /-- KVS callbacks that have copied the state handler of their peer -/
  callbacks : List (Peer × PeerState)
  /-- peers of removed viewers, in the order in which cleanup stops them -/
  reaping : List Peer
  /-- peers that the current drain batch holds -/
  draining : List Peer
  nextSerial : ℕ
  stop : Stop

/-- The plugin after `start`. -/
def init (detectionSource : Bool) : State where
  running := true
  media := true
  detectionSource := detectionSource
  viewers := ∅
  pendingCandidates := ∅
  videoSub := 0
  aiHoldSub := 0
  detectSub := 0
  mediaSubscribers := .empty
  detectionSubscribers := .empty
  signaling := .idle
  tasks := []
  callbacks := []
  reaping := []
  draining := []
  nextSerial := 0
  stop := .notCalled

namespace State

/-! ### Sessions -/

def anyConnected (s : State) : Bool :=
  s.viewers.entries.any fun entry => entry.2.connected

/-- Some owner keeps the peer alive, so that a weak pointer to it can be locked. -/
def alive (s : State) (peer : Peer) : Bool :=
  s.viewers.entries.any (fun entry => entry.2.peer = peer) || decide (peer ∈ s.reaping) ||
    decide (peer ∈ s.draining) || decide (s.signaling = .offering peer)

/-- `queue_reap`: the peer loses its handlers and is left to the cleanup thread. -/
def queueReap (s : State) (peer : Peer) : State :=
  { s with reaping := s.reaping ++ [peer] }

/-- The locked block of `remove_viewer`, for a viewer that is present: the
subscriptions are moved out of the fields. -/
def eraseViewer (s : State) (viewerId : String) : State :=
  let viewers := s.viewers.erase viewerId
  let anyConnected := viewers.entries.any fun entry => entry.2.connected
  { s with
    viewers := viewers
    pendingCandidates := s.pendingCandidates.erase viewerId
    aiHoldSub := if anyConnected then s.aiHoldSub else 0
    detectSub := if anyConnected then s.detectSub else 0
    videoSub := if viewers.entries = [] then 0 else s.videoSub }

/-- What `remove_viewer` does after the locked block with the subscriptions
that the fields held before (`s`) and no longer hold (`t`). -/
def release (options : WebRtcPluginOptions) (s t : State) : State :=
  let releaseDetection := s.detectSub ≠ 0 ∧ t.detectSub = 0 ∧ t.detectionSource = true
  let releaseAi := s.aiHoldSub ≠ 0 ∧ t.aiHoldSub = 0 ∧ t.media = true
  let releaseVideo := s.videoSub ≠ 0 ∧ t.videoSub = 0 ∧ t.media = true
  let detections := if releaseDetection then
      t.detectionSubscribers.unsubscribe () s.detectSub else t.detectionSubscribers
  let ai := if releaseAi then
      t.mediaSubscribers.unsubscribe 2 s.aiHoldSub else t.mediaSubscribers
  let video := if releaseVideo then
      ai.unsubscribe options.previewStreamId s.videoSub else ai
  { t with detectionSubscribers := detections, mediaSubscribers := video }

/-- `remove_viewer`. -/
def removeViewer (options : WebRtcPluginOptions) (s : State) (viewerId : String) : State :=
  match s.viewers.lookup viewerId with
  | none => s
  | some removed => (release options s (s.eraseViewer viewerId)).queueReap removed.peer

/-- `remove_all_viewers`. -/
def removeAllViewers (options : WebRtcPluginOptions) (s : State) : State :=
  s.viewers.keys.foldl (removeViewer options) s

/-- `start_uplink`; `accepted` is the answer of `MediaSource::subscribe`. -/
def startUplink (options : WebRtcPluginOptions) (s : State) (accepted : Bool) : Bool × State :=
  if s.videoSub ≠ 0 then (true, s)
  else if !s.media then (false, s)
  else
    let (subscription, mediaSubscribers) :=
      s.mediaSubscribers.subscribe options.previewStreamId accepted
    if subscription = 0 then (false, s)
    else if s.running && decide (s.videoSub = 0) then
      (true, { s with mediaSubscribers := mediaSubscribers, videoSub := subscription })
    else
      (false, { s with mediaSubscribers :=
        mediaSubscribers.unsubscribe options.previewStreamId subscription })

/-- `start_ai_uplink`; `accepted` is the answer of `MediaSource::subscribe`. -/
def startAiUplink (options : WebRtcPluginOptions) (s : State) (accepted : Bool) : State :=
  if !options.detectionsEnabled then s
  else if s.aiHoldSub ≠ 0 then s
  else if !s.media || !s.detectionSource then s
  else
    let (detectionSubscription, detectionSubscribers) :=
      s.detectionSubscribers.subscribe () true
    let (aiSubscription, mediaSubscribers) := s.mediaSubscribers.subscribe 2 accepted
    if aiSubscription = 0 then
      { s with detectionSubscribers :=
        detectionSubscribers.unsubscribe () detectionSubscription }
    else if s.running && s.anyConnected && decide (s.aiHoldSub = 0) then
      { s with
        mediaSubscribers := mediaSubscribers
        detectionSubscribers := detectionSubscribers
        aiHoldSub := aiSubscription
        detectSub := detectionSubscription }
    else
      { s with
        mediaSubscribers := mediaSubscribers.unsubscribe 2 aiSubscription
        detectionSubscribers :=
          detectionSubscribers.unsubscribe () detectionSubscription }

/-- `on_connected`. -/
def onConnected (options : WebRtcPluginOptions) (s : State) (viewerId : String) (peer : Peer)
    (accepted : Bool) : State :=
  match s.viewers.lookup viewerId with
  | none => s
  | some viewer =>
    if viewer.peer ≠ peer then s
    else
      startAiUplink options
        { s with viewers := s.viewers.insert viewerId { viewer with connected := true } }
        accepted

/-- `on_peer_state` on the signaling thread. -/
def onPeerState (options : WebRtcPluginOptions) (s : State) (peer : Peer) (state : PeerState)
    (accepted : Bool) : State :=
  if !s.alive peer then s
  else if state = .connected then onConnected options s peer.viewerId peer accepted
  else if state.ends then removeViewer options s peer.viewerId
  else s

/-- `apply_remote_candidate`. -/
def applyRemoteCandidate (s : State) (viewerId candidate mid : String) : State :=
  let pending := (s.pendingCandidates.lookup viewerId).getD []
  let queued := s.pendingCandidates.insert viewerId (pending ++ [⟨candidate, mid⟩])
  let viewer :=
    match s.viewers.lookup viewerId with
    | some viewer => some viewer
    | none =>
      match s.viewers.entries with
      | [entry] => if viewerId = "" then some entry.2 else none
      | _ => none
  match viewer with
  | some viewer =>
    if !viewer.remoteDescriptionReady && decide (candidate ≠ "") &&
        decide (pending.length < kPendingCandidateLimit) then
      { s with pendingCandidates := queued }
    else s
  | none =>
    if viewerId ≠ "" ∧ candidate ≠ "" ∧
        s.pendingCandidates.entries.length < kPendingCandidateLimit ∧
        pending.length < kPendingCandidateLimit then
      { s with pendingCandidates := queued }
    else s

/-! ### `create_viewer` -/

/-- What `on_offer` checks of the description. -/
def validSdp (sdp : String) : Bool :=
  decide ("ice-ufrag".toList <:+: sdp.toList) && decide ("ice-pwd".toList <:+: sdp.toList)

/-- `on_signaling_message` with an offer, up to `start_uplink`. -/
def offer (options : WebRtcPluginOptions) (s : State) (viewerId sdp : String) : State :=
  if !s.running || decide (sdp = "") || decide (viewerId = "") || !validSdp sdp then s
  else
    let s := removeViewer options s viewerId
    if s.viewers.entries.length ≥ options.viewerLimit then s
    else { s with signaling := .uplink viewerId }

/-- `start_uplink` and its early return. -/
def uplink (options : WebRtcPluginOptions) (s : State) (viewerId : String) (accepted : Bool) :
    State :=
  let (up, s) := startUplink options s accepted
  { s with signaling := if up then .starting viewerId else .idle }

/-- The new peer: its start, and its session. -/
def startPeer (s : State) (viewerId : String) (started : Bool) : State :=
  let peer : Peer := ⟨s.nextSerial, viewerId⟩
  let s := { s with nextSerial := s.nextSerial + 1 }
  if !started then { s.queueReap peer with signaling := .idle }
  else if !s.running then { s.queueReap peer with signaling := .idle }
  else
    { s with
      -- `emplace` leaves a session that is there alone
      viewers := if (s.viewers.lookup viewerId).isSome then s.viewers
        else s.viewers.insert viewerId ⟨peer, false, false⟩
      signaling := .offering peer }

/-- The end of `create_viewer`; `answered` is the result of
`handle_remote_offer`. -/
def offered (options : WebRtcPluginOptions) (s : State) (peer : Peer) (answered : Bool) : State :=
  if !answered then { removeViewer options s peer.viewerId with signaling := .idle }
  else
    { s with
      viewers :=
        match s.viewers.lookup peer.viewerId with
        | some viewer =>
          s.viewers.insert peer.viewerId { viewer with remoteDescriptionReady := true }
        | none => s.viewers
      pendingCandidates := s.pendingCandidates.erase peer.viewerId
      signaling := .idle }

end State

/-! ### Steps -/

/-- The thread that moves, with the answers it gets. -/
inductive Label
  /-- message "offer" -/
  | offer (viewerId sdp : String)
  | uplink (accepted : Bool)
  | startPeer (started : Bool)
  /-- KVS calls the state handler inside `handle_remote_offer` -/
  | inlineState (state : PeerState) (accepted : Bool)
  | offered (answered : Bool)
  /-- message "candidate" -/
  | candidate (viewerId candidate mid : String)
  /-- message "peer-left" -/
  | peerLeft (role viewerId : String)
  /-- message "signaling-disconnected" -/
  | signalingDisconnected
  /-- a KVS thread copies the state handler of a viewer's peer -/
  | callback (viewerId : String) (state : PeerState)
  /-- the `n`-th such thread calls it: `post_signaling` -/
  | post (n : ℕ) (posted : Bool)
  /-- the signaling thread runs the oldest posted task -/
  | runTask (accepted : Bool)
  /-- `drain` takes its batches -/
  | drain
  /-- `drain` returns -/
  | drained
  /-- the cleanup thread has stopped the oldest peer and drops it -/
  | reaped
  /-- another client subscribes to a source -/
  | otherSubscriber
  /-- `stop` clears `running` -/
  | stop
  /-- `stop` has `remove_all_viewers` run on the signaling thread -/
  | stopRemove
  /-- `stop` resets the references -/
  | stopReset
  deriving DecidableEq, Repr

open State

/-- One step of one thread. -/
def step (options : WebRtcPluginOptions) (s : State) : Label → Option State
  | .offer viewerId sdp =>
    if s.signaling = .idle then some (offer options s viewerId sdp) else none
  | .uplink accepted =>
    match s.signaling with
    | .uplink viewerId => some (uplink options s viewerId accepted)
    | _ => none
  | .startPeer started =>
    match s.signaling with
    | .starting viewerId => some (startPeer s viewerId started)
    | _ => none
  | .inlineState state accepted =>
    match s.signaling with
    | .offering peer =>
      -- a peer that was removed meanwhile has no handler
      if (s.viewers.lookup peer.viewerId).any (fun viewer => viewer.peer = peer) then
        some (onPeerState options s peer state accepted)
      else none
    | _ => none
  | .offered answered =>
    match s.signaling with
    | .offering peer => some (offered options s peer answered)
    | _ => none
  | .candidate viewerId candidate mid =>
    if s.signaling = .idle then
      some (if s.running && decide (viewerId ≠ "") && decide (candidate ≠ "") then
        applyRemoteCandidate s viewerId candidate mid else s)
    else none
  | .peerLeft role viewerId =>
    if s.signaling = .idle then
      some (if s.running && decide (role = "viewer") && decide (viewerId ≠ "") then
        removeViewer options s viewerId else s)
    else none
  | .signalingDisconnected =>
    if s.signaling = .idle then
      some (if s.running then removeAllViewers options s else s)
    else none
  | .callback viewerId state =>
    match s.viewers.lookup viewerId with
    | some viewer => some { s with callbacks := s.callbacks ++ [(viewer.peer, state)] }
    | none => none
  | .post n posted =>
    match s.callbacks[n]? with
    | some event =>
      some { s with
        callbacks := s.callbacks.eraseIdx n
        tasks := if s.running && posted then s.tasks ++ [event] else s.tasks }
    | none => none
  | .runTask accepted =>
    match s.tasks with
    | (peer, state) :: rest =>
      if s.signaling = .idle then
        some (onPeerState options { s with tasks := rest } peer state accepted)
      else none
    | [] => none
  | .drain =>
    if s.draining = [] then
      some { s with draining := s.viewers.entries.map fun entry => entry.2.peer }
    else none
  | .drained => some { s with draining := [] }
  | .reaped =>
    match s.reaping with
    | peer :: rest =>
      -- `stop` of the peer waits for the callbacks that are in flight
      if s.callbacks.all fun event => decide (event.1 ≠ peer) then
        some { s with reaping := rest }
      else none
    | [] => none
  | .otherSubscriber =>
    some { s with
      mediaSubscribers := s.mediaSubscribers.skip
      detectionSubscribers := s.detectionSubscribers.skip }
  | .stop =>
    if s.running then some { s with running := false, stop := .called } else none
  | .stopRemove =>
    if s.stop = .called ∧ s.signaling = .idle then
      some { removeAllViewers options s with stop := .removed }
    else none
  | .stopReset =>
    if s.stop = .removed ∧ s.signaling = .idle then
      some { s with
        media := false
        detectionSource := false
        pendingCandidates := ∅
        stop := .done }
    else none

/-! ### What the functions change -/

namespace State

variable {options : WebRtcPluginOptions}

theorem erase_of_lookup_none {β : Type} {m : AList fun _ : String => β} {key : String}
    (h : m.lookup key = none) : m.erase key = m :=
  AList.ext (List.kerase_of_notMem_keys (AList.lookup_eq_none.mp h))

theorem removeViewer_of_none {s : State} {viewerId : String}
    (h : s.viewers.lookup viewerId = none) : removeViewer options s viewerId = s := by
  simp [removeViewer, h]

theorem removeViewer_of_some {s : State} {viewerId : String} {removed : ViewerSession}
    (h : s.viewers.lookup viewerId = some removed) :
    removeViewer options s viewerId =
      (release options s (s.eraseViewer viewerId)).queueReap removed.peer := by
  simp [removeViewer, h]

@[simp] theorem removeViewer_viewers (options : WebRtcPluginOptions) (s : State)
    (viewerId : String) :
    (removeViewer options s viewerId).viewers = s.viewers.erase viewerId := by
  cases h : s.viewers.lookup viewerId with
  | none => rw [removeViewer_of_none h, erase_of_lookup_none h]
  | some removed => rw [removeViewer_of_some h]; rfl

/-- `remove_viewer` leaves the place of the threads and the references alone. -/
theorem removeViewer_frame (options : WebRtcPluginOptions) (s : State) (viewerId : String) :
    (removeViewer options s viewerId).running = s.running ∧
    (removeViewer options s viewerId).media = s.media ∧
    (removeViewer options s viewerId).detectionSource = s.detectionSource ∧
    (removeViewer options s viewerId).signaling = s.signaling ∧
    (removeViewer options s viewerId).stop = s.stop := by
  cases h : s.viewers.lookup viewerId with
  | none => simp [removeViewer_of_none h]
  | some removed => simp [removeViewer_of_some h, release, eraseViewer, queueReap]

theorem foldl_removeViewer_viewers (ids : List String) (s : State) :
    (ids.foldl (removeViewer options) s).viewers =
      ids.foldl (fun viewers id => viewers.erase id) s.viewers := by
  induction ids generalizing s with
  | nil => rfl
  | cons id ids ih => rw [List.foldl_cons, ih, removeViewer_viewers, List.foldl_cons]

theorem lookup_foldl_erase {β : Type} (ids : List String) (m : AList fun _ : String => β)
    (key : String) :
    (ids.foldl (fun m id => m.erase id) m).lookup key =
      if key ∈ ids then none else m.lookup key := by
  induction ids generalizing m with
  | nil => simp
  | cons id ids ih =>
    rw [List.foldl_cons, ih]
    by_cases hk : key = id
    · subst hk
      simp [AList.lookup_erase]
    · rw [AList.lookup_erase_ne hk]
      simp [hk]

/-- **`remove_all_viewers` leaves no viewer.** -/
@[simp] theorem removeAllViewers_viewers (options : WebRtcPluginOptions) (s : State) :
    (removeAllViewers options s).viewers = ∅ := by
  have hlookup : ∀ key, (removeAllViewers options s).viewers.lookup key = none := by
    intro key
    rw [removeAllViewers, foldl_removeViewer_viewers, lookup_foldl_erase]
    split
    · rfl
    · rename_i hkey
      exact AList.lookup_eq_none.mpr hkey
  refine AList.ext (List.eq_nil_iff_forall_not_mem.mpr fun entry hentry => ?_)
  have := (AList.mem_lookup_iff (s := (removeAllViewers options s).viewers)).mpr hentry
  rw [hlookup entry.1] at this
  exact absurd this (by simp)

/-- `start_uplink` finds a subscription, takes none, or records a new one. -/
theorem startUplink_cases (options : WebRtcPluginOptions) (s : State) (accepted : Bool) :
    (s.videoSub ≠ 0 ∧ startUplink options s accepted = (true, s)) ∨
    (s.videoSub = 0 ∧ ∃ m : Subscribers ℤ, m.entries = s.mediaSubscribers.entries ∧
      startUplink options s accepted = (false, { s with mediaSubscribers := m })) ∨
    (s.videoSub = 0 ∧ s.media = true ∧ startUplink options s accepted = (true, { s with
      mediaSubscribers := (s.mediaSubscribers.subscribe options.previewStreamId true).2
      videoSub := s.mediaSubscribers.nextSubscriptionId })) := by
  by_cases hv : s.videoSub ≠ 0
  · exact .inl ⟨hv, by rw [startUplink, if_pos hv]⟩
  have hz : s.videoSub = 0 := by simpa using hv
  have hid := s.mediaSubscribers.nextSubscriptionId_ne_zero
  by_cases hm : s.media = true
  · cases accepted with
    | false =>
      exact .inr (.inl ⟨hz, s.mediaSubscribers, rfl,
        by rw [startUplink, if_neg hv, if_neg (by simp [hm])]; rfl⟩)
    | true =>
      by_cases hr : s.running = true
      · exact .inr (.inr ⟨hz, hm, by simp [startUplink, hz, hm, hid, hr]⟩)
      · exact .inr (.inl ⟨hz, _, Subscribers.unsubscribe_subscribe s.mediaSubscribers
          options.previewStreamId, by simp [startUplink, hz, hm, hid, hr]⟩)
  · exact .inr (.inl ⟨hz, s.mediaSubscribers, rfl,
      by rw [startUplink, if_neg hv, if_pos (by simp [hm])]⟩)

@[simp] theorem startUplink_viewers (s : State) (accepted : Bool) :
    (startUplink options s accepted).2.viewers = s.viewers := by
  obtain ⟨-, h⟩ | ⟨-, _, -, h⟩ | ⟨-, -, h⟩ := startUplink_cases options s accepted <;> rw [h]

@[simp] theorem uplink_viewers (s : State) (viewerId : String) (accepted : Bool) :
    (uplink options s viewerId accepted).viewers = s.viewers :=
  startUplink_viewers s accepted

/-- A candidate is handed on or queued. -/
theorem applyRemoteCandidate_eq (s : State) (viewerId candidate mid : String) :
    ∃ pending, applyRemoteCandidate s viewerId candidate mid =
      { s with pendingCandidates := pending } := by
  simp only [applyRemoteCandidate]
  split <;> split_ifs <;> exact ⟨_, rfl⟩

/-- `start_ai_uplink` leaves the subscriptions as they are, or records a pair of
new ones. -/
theorem startAiUplink_cases (options : WebRtcPluginOptions) (s : State) (accepted : Bool) :
    (∃ (m : Subscribers ℤ) (d : Subscribers Unit), m.entries = s.mediaSubscribers.entries ∧
      d.entries = s.detectionSubscribers.entries ∧
      startAiUplink options s accepted =
        { s with mediaSubscribers := m, detectionSubscribers := d }) ∨
    (s.aiHoldSub = 0 ∧ s.media = true ∧ s.detectionSource = true ∧ s.anyConnected = true ∧
      startAiUplink options s accepted = { s with
        mediaSubscribers := (s.mediaSubscribers.subscribe 2 true).2
        detectionSubscribers := (s.detectionSubscribers.subscribe () true).2
        aiHoldSub := s.mediaSubscribers.nextSubscriptionId
        detectSub := s.detectionSubscribers.nextSubscriptionId }) := by
  have hid := s.mediaSubscribers.nextSubscriptionId_ne_zero
  have hm := Subscribers.unsubscribe_subscribe s.mediaSubscribers (2 : ℤ)
  have hd := Subscribers.unsubscribe_subscribe s.detectionSubscribers ()
  cases he : options.detectionsEnabled with
  | false => exact .inl ⟨_, _, rfl, rfl, by simp [startAiUplink, he]⟩
  | true =>
    by_cases hz : s.aiHoldSub = 0
    · cases href : s.media && s.detectionSource with
      | false =>
        exact .inl ⟨_, _, rfl, rfl, by rw [startAiUplink, if_neg (by simp [he]),
          if_neg (by simp [hz]), if_pos (by rw [← Bool.not_and, href]; rfl)]⟩
      | true =>
        obtain ⟨hmr, hdr⟩ := Bool.and_eq_true_iff.mp href
        cases accepted with
        | false =>
          exact .inl ⟨_, _, rfl, hd, by simp [startAiUplink, he, hz, hmr, hdr]⟩
        | true =>
          cases hkeep : s.running && s.anyConnected with
          | false =>
            exact .inl ⟨_, _, hm, hd, by simp [startAiUplink, he, hz, hmr, hdr, hid, hkeep]⟩
          | true =>
            exact .inr ⟨hz, hmr, hdr, (Bool.and_eq_true_iff.mp hkeep).2,
              by simp [startAiUplink, he, hz, hmr, hdr, hid, hkeep]⟩
    · exact .inl ⟨_, _, rfl, rfl, by simp [startAiUplink, he, hz]⟩

@[simp] theorem startAiUplink_viewers (s : State) (accepted : Bool) :
    (startAiUplink options s accepted).viewers = s.viewers := by
  obtain ⟨_, _, -, -, h⟩ | ⟨-, -, -, -, h⟩ := startAiUplink_cases options s accepted <;> rw [h]

theorem onPeerState_expired {s : State} {peer : Peer} (h : s.alive peer = false)
    (state : PeerState) (accepted : Bool) :
    onPeerState options s peer state accepted = s := by
  simp [onPeerState, h]

theorem onPeerState_ends {s : State} {peer : Peer} {state : PeerState}
    (h : s.alive peer = true) (hends : state.ends = true) (accepted : Bool) :
    onPeerState options s peer state accepted = removeViewer options s peer.viewerId := by
  cases state <;> simp_all [onPeerState, PeerState.ends]

end State

theorem step_runTask {options : WebRtcPluginOptions} {s : State} {peer : Peer}
    {state : PeerState} {rest : List (Peer × PeerState)} (hidle : s.signaling = .idle)
    (htasks : s.tasks = (peer, state) :: rest) (accepted : Bool) :
    step options s (.runTask accepted) =
      some (onPeerState options { s with tasks := rest } peer state accepted) := by
  simp only [step, htasks]
  rw [if_pos hidle]

/-- What a step can do. -/
inductive Step (options : WebRtcPluginOptions) (s : State) : Label → State → Prop
  | offer (hidle : s.signaling = .idle) (viewerId sdp : String) :
    Step options s (.offer viewerId sdp) (offer options s viewerId sdp)
  | uplink {viewerId : String} (hs : s.signaling = .uplink viewerId) (accepted : Bool) :
    Step options s (.uplink accepted) (uplink options s viewerId accepted)
  | startPeer {viewerId : String} (hs : s.signaling = .starting viewerId) (started : Bool) :
    Step options s (.startPeer started) (startPeer s viewerId started)
  | inlineState {peer : Peer} (hs : s.signaling = .offering peer) (state : PeerState)
      (accepted : Bool) :
    Step options s (.inlineState state accepted) (onPeerState options s peer state accepted)
  | offered {peer : Peer} (hs : s.signaling = .offering peer) (answered : Bool) :
    Step options s (.offered answered) (offered options s peer answered)
  | peerLeft (hidle : s.signaling = .idle) (role viewerId : String) :
    Step options s (.peerLeft role viewerId) (removeViewer options s viewerId)
  | signalingDisconnected (hidle : s.signaling = .idle) :
    Step options s .signalingDisconnected (removeAllViewers options s)
  | runTask (hidle : s.signaling = .idle) (peer : Peer) (state : PeerState)
      (rest : List (Peer × PeerState)) (htasks : s.tasks = (peer, state) :: rest)
      (accepted : Bool) :
    Step options s (.runTask accepted)
      (onPeerState options { s with tasks := rest } peer state accepted)
  /-- an ignored message, a candidate, or a step of a KVS thread, the media
  thread or the cleanup thread -/
  | elsewhere (i : Label) (pending : AList fun _ : String => List PendingCandidate)
      (tasks callbacks : List (Peer × PeerState)) (reaping draining : List Peer) :
    Step options s i { s with
      pendingCandidates := pending
      tasks := tasks
      callbacks := callbacks
      reaping := reaping
      draining := draining }
  | otherSubscriber :
    Step options s .otherSubscriber { s with
      mediaSubscribers := s.mediaSubscribers.skip
      detectionSubscribers := s.detectionSubscribers.skip }
  | stop (hrun : s.running = true) :
    Step options s .stop { s with running := false, stop := .called }
  | stopRemove (hstop : s.stop = .called) (hidle : s.signaling = .idle) :
    Step options s .stopRemove { removeAllViewers options s with stop := .removed }
  | stopReset (hstop : s.stop = .removed) (hidle : s.signaling = .idle) :
    Step options s .stopReset { s with
      media := false
      detectionSource := false
      pendingCandidates := ∅
      stop := .done }

/-- **Every step is one of these.** -/
theorem step_cases {options : WebRtcPluginOptions} {s t : State} {i : Label}
    (h : step options s i = some t) : Step options s i t := by
  -- a call that is not let in leaves the state as it is
  have hsame : ∀ i, Step options s i s := fun i => .elsewhere i _ _ _ _ _
  cases i with
  | offer viewerId sdp =>
    obtain ⟨hidle, h⟩ := Option.ite_none_right_eq_some.mp h
    exact Option.some_inj.mp h ▸ .offer hidle viewerId sdp
  | uplink accepted =>
    simp only [step] at h
    split at h
    · exact Option.some_inj.mp h ▸ .uplink ‹_› accepted
    · exact absurd h (by simp)
  | startPeer started =>
    simp only [step] at h
    split at h
    · exact Option.some_inj.mp h ▸ .startPeer ‹_› started
    · exact absurd h (by simp)
  | inlineState state accepted =>
    simp only [step] at h
    split at h
    · obtain ⟨-, h⟩ := Option.ite_none_right_eq_some.mp h
      exact Option.some_inj.mp h ▸ .inlineState ‹_› state accepted
    · exact absurd h (by simp)
  | offered answered =>
    simp only [step] at h
    split at h
    · exact Option.some_inj.mp h ▸ .offered ‹_› answered
    · exact absurd h (by simp)
  | candidate viewerId candidate mid =>
    obtain ⟨-, h⟩ := Option.ite_none_right_eq_some.mp h
    obtain rfl := Option.some_inj.mp h
    split
    · obtain ⟨pending, heq⟩ := applyRemoteCandidate_eq s viewerId candidate mid
      exact heq ▸ .elsewhere _ pending _ _ _ _
    · exact hsame _
  | peerLeft role viewerId =>
    obtain ⟨hidle, h⟩ := Option.ite_none_right_eq_some.mp h
    obtain rfl := Option.some_inj.mp h
    split
    · exact .peerLeft hidle role viewerId
    · exact hsame _
  | signalingDisconnected =>
    obtain ⟨hidle, h⟩ := Option.ite_none_right_eq_some.mp h
    obtain rfl := Option.some_inj.mp h
    split
    · exact .signalingDisconnected hidle
    · exact hsame _
  | runTask accepted =>
    simp only [step] at h
    split at h
    · rename_i htasks
      obtain ⟨hidle, h⟩ := Option.ite_none_right_eq_some.mp h
      exact Option.some_inj.mp h ▸ .runTask hidle _ _ _ htasks accepted
    · exact absurd h (by simp)
  | callback viewerId state =>
    simp only [step] at h
    split at h
    · exact Option.some_inj.mp h ▸ .elsewhere _ _ _ _ _ _
    · exact absurd h (by simp)
  | post n posted =>
    simp only [step] at h
    split at h
    · exact Option.some_inj.mp h ▸ .elsewhere _ _ _ _ _ _
    · exact absurd h (by simp)
  | drain =>
    obtain ⟨-, h⟩ := Option.ite_none_right_eq_some.mp h
    exact Option.some_inj.mp h ▸ .elsewhere _ _ _ _ _ _
  | drained => exact Option.some_inj.mp h ▸ .elsewhere _ _ _ _ _ _
  | reaped =>
    simp only [step] at h
    split at h
    · obtain ⟨-, h⟩ := Option.ite_none_right_eq_some.mp h
      exact Option.some_inj.mp h ▸ .elsewhere _ _ _ _ _ _
    · exact absurd h (by simp)
  | otherSubscriber => exact Option.some_inj.mp h ▸ .otherSubscriber
  | stop =>
    obtain ⟨hrun, h⟩ := Option.ite_none_right_eq_some.mp h
    exact Option.some_inj.mp h ▸ .stop hrun
  | stopRemove =>
    obtain ⟨⟨hstop, hidle⟩, h⟩ := Option.ite_none_right_eq_some.mp h
    exact Option.some_inj.mp h ▸ .stopRemove hstop hidle
  | stopReset =>
    obtain ⟨⟨hstop, hidle⟩, h⟩ := Option.ite_none_right_eq_some.mp h
    exact Option.some_inj.mp h ▸ .stopReset hstop hidle

end WebRtcPlugin

end IpcMini
