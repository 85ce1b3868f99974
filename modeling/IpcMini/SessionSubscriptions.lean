/-
The subscriptions of the WebRTC plugin follow its viewers.

`create_viewer` subscribes to the preview stream before it has a peer, and
`remove_viewer` of the last viewer gives the subscription back.  Between the
two, a peer that does not start and a plugin that is stopping end
`create_viewer` without a viewer.

* `SubscriptionsMatch` — what holds of the fields and the sources between two
  tasks of the signaling thread;
* `NoUplinkLeft` — no `create_viewer` ends that way while it is alone;
* **`subscriptions_match`** — under that condition every state between two
  tasks matches;
* `uplink_left` — one failed peer start keeps the encoder running.
-/
import Mathlib.Data.Finset.Lattice.Lemmas
import IpcMini.Session

namespace IpcMini

open Interleaving

namespace WebRtcPlugin

open State

variable {options : WebRtcPluginOptions} {s t : State}

/-! ### The recorded subscriptions -/

/-- The subscriptions that the fields record. -/
def recorded (options : WebRtcPluginOptions) (videoSub aiHoldSub : ℕ) : Finset (ℤ × ℕ) :=
  (if videoSub = 0 then ∅ else {(options.previewStreamId, videoSub)}) ∪
    (if aiHoldSub = 0 then ∅ else {(2, aiHoldSub)})

def recordedDetections (detectSub : ℕ) : Finset (Unit × ℕ) :=
  if detectSub = 0 then ∅ else {((), detectSub)}

theorem insert_video {n : ℕ} (hn : n ≠ 0) (a : ℕ) :
    insert (options.previewStreamId, n) (recorded options 0 a) = recorded options n a := by
  simp [recorded, hn]

theorem insert_ai {n : ℕ} (hn : n ≠ 0) (v : ℕ) :
    insert (2, n) (recorded options v 0) = recorded options v n := by
  simp [recorded, hn]

theorem erase_video {v a : ℕ} (hv : v ≠ 0) (hne : a ≠ v) :
    (recorded options v a).erase (options.previewStreamId, v) = recorded options 0 a := by
  rw [← insert_video hv, Finset.erase_insert]
  by_cases ha : a = 0 <;> simp [recorded, ha, Ne.symm hne]

theorem erase_ai {v a : ℕ} (ha : a ≠ 0) (hne : v ≠ 0 → a ≠ v) :
    (recorded options v a).erase (2, a) = recorded options v 0 := by
  rw [← insert_ai ha, Finset.erase_insert]
  by_cases hv : v = 0
  · simp [recorded, hv]
  · simp [recorded, hv, hne hv]

theorem insert_detection {n : ℕ} (hn : n ≠ 0) :
    insert ((), n) (recordedDetections 0) = recordedDetections n := by
  simp [recordedDetections, hn]

theorem erase_detection {d : ℕ} (hd : d ≠ 0) :
    (recordedDetections d).erase ((), d) = recordedDetections 0 := by
  simp [recordedDetections, hd]

/-! ### What the claim says of a state -/

/-- The fields, the viewers and the sources agree. -/
structure SubscriptionsMatch (options : WebRtcPluginOptions) (s : State) : Prop where
  video : s.videoSub ≠ 0 ↔ s.viewers.entries ≠ []
  ai : s.aiHoldSub ≠ 0 → ∃ id viewer, s.viewers.lookup id = some viewer ∧
    viewer.connected = true
  detect : s.detectSub ≠ 0 → s.aiHoldSub ≠ 0
  media : s.mediaSubscribers.entries = recorded options s.videoSub s.aiHoldSub
  detections : s.detectionSubscribers.entries = recordedDetections s.detectSub
  stopped : s.stop = .done → s.videoSub = 0 ∧ s.aiHoldSub = 0 ∧ s.detectSub = 0

/-- `create_viewer` does not end between `start_uplink` and `emplace` while
there is no other viewer. -/
def NoUplinkLeft (s : State) : Label → Prop
  | .startPeer started => started && s.running || !s.viewers.entries.isEmpty
  | _ => True

instance : ∀ (s : State) (i : Label), Decidable (NoUplinkLeft s i) := fun s i =>
  match i with
  | .startPeer started =>
    inferInstanceAs (Decidable ((started && s.running || !s.viewers.entries.isEmpty) = true))
  | .offer .. | .uplink .. | .inlineState .. | .offered .. | .candidate .. | .peerLeft ..
  | .signalingDisconnected | .callback .. | .post .. | .runTask .. | .drain | .drained
  | .reaped | .otherSubscriber | .stop | .stopRemove | .stopReset => .isTrue trivial

/-! ### The invariant -/

theorem anyConnected_iff : s.anyConnected = true ↔
    ∃ id viewer, s.viewers.lookup id = some viewer ∧ viewer.connected = true := by
  rw [anyConnected, List.any_eq_true]
  constructor
  · rintro ⟨⟨id, viewer⟩, hmem, hc⟩
    exact ⟨id, viewer, AList.mem_lookup_iff.mpr hmem, hc⟩
  · rintro ⟨id, viewer, hl, hc⟩
    exact ⟨⟨id, viewer⟩, AList.mem_lookup_iff.mp hl, hc⟩

/-- What holds of the subscriptions at every moment. -/
structure Held (options : WebRtcPluginOptions) (s : State) : Prop where
  ai : s.aiHoldSub ≠ 0 → s.anyConnected = true
  detect : s.detectSub ≠ 0 → s.aiHoldSub ≠ 0
  media : s.mediaSubscribers.entries = recorded options s.videoSub s.aiHoldSub
  detections : s.detectionSubscribers.entries = recordedDetections s.detectSub
  distinct : s.videoSub ≠ 0 → s.aiHoldSub ≠ s.videoSub
  media_ref : s.videoSub ≠ 0 ∨ s.aiHoldSub ≠ 0 → s.media = true
  detection_ref : s.detectSub ≠ 0 → s.detectionSource = true

/-- The preview is subscribed exactly while there are viewers. -/
def VideoHeld (s : State) : Prop := s.videoSub ≠ 0 ↔ s.viewers.entries ≠ []

/-- `release` gives back to `MediaSource` what the fields no longer hold. -/
theorem release_media (h : Held options s) (ht : t.mediaSubscribers = s.mediaSubscribers)
    (href : t.media = s.media) (hv : t.videoSub = s.videoSub ∨ t.videoSub = 0)
    (ha : t.aiHoldSub = s.aiHoldSub ∨ t.aiHoldSub = 0) :
    (release options s t).mediaSubscribers.entries =
      recorded options t.videoSub t.aiHoldSub := by
  have hai : (if s.aiHoldSub ≠ 0 ∧ t.aiHoldSub = 0 ∧ t.media = true then
      t.mediaSubscribers.unsubscribe 2 s.aiHoldSub else t.mediaSubscribers).entries =
        recorded options s.videoSub t.aiHoldSub := by
    by_cases hz : s.aiHoldSub = 0
    · rw [if_neg (by simp [hz]), ht, h.media, hz, show t.aiHoldSub = 0 by omega]
    rcases ha with ha | ha
    · rw [if_neg (by simp [ha, hz]), ht, h.media, ha]
    · rw [if_pos ⟨hz, ha, by rw [href, h.media_ref (.inr hz)]⟩, ht,
        Subscribers.entries_unsubscribe, h.media, ha, erase_ai hz h.distinct]
  simp only [release]
  by_cases hz : s.videoSub = 0
  · rw [if_neg (by simp [hz]), hai, hz, show t.videoSub = 0 by omega]
  rcases hv with hv | hv
  · rw [if_neg (by simp [hv, hz]), hai, hv]
  · have hne : t.aiHoldSub ≠ s.videoSub := by
      have := h.distinct hz
      omega
    rw [if_pos ⟨hz, hv, by rw [href, h.media_ref (.inl hz)]⟩, Subscribers.entries_unsubscribe,
      hai, hv, erase_video hz hne]

theorem release_detections (h : Held options s)
    (ht : t.detectionSubscribers = s.detectionSubscribers)
    (href : t.detectionSource = s.detectionSource)
    (hd : t.detectSub = s.detectSub ∨ t.detectSub = 0) :
    (release options s t).detectionSubscribers.entries = recordedDetections t.detectSub := by
  simp only [release]
  by_cases hz : s.detectSub = 0
  · rw [if_neg (by simp [hz]), ht, h.detections, hz, show t.detectSub = 0 by omega]
  rcases hd with hd | hd
  · rw [if_neg (by simp [hd, hz]), ht, h.detections, hd]
  · rw [if_pos ⟨hz, hd, by rw [href, h.detection_ref hz]⟩, ht, Subscribers.entries_unsubscribe,
      h.detections, hd, erase_detection hz]

/-- `remove_viewer` gives back what it clears. -/
theorem Held.removeViewer (h : Held options s) (hv : VideoHeld s) (viewerId : String) :
    Held options (removeViewer options s viewerId) ∧
      VideoHeld (removeViewer options s viewerId) := by
  cases hl : s.viewers.lookup viewerId with
  | none =>
    rw [removeViewer_of_none hl]
    exact ⟨h, hv⟩
  | some removed =>
    rw [removeViewer_of_some hl]
    have hne : s.viewers.entries ≠ [] :=
      List.ne_nil_of_mem (AList.mem_lookup_iff.mp hl)
    have hvid := hv.mpr hne
    -- a number is zero when the viewer was the last one to need it
    have hvs : (s.eraseViewer viewerId).videoSub =
        if (s.viewers.erase viewerId).entries = [] then 0 else s.videoSub := rfl
    have hais : (s.eraseViewer viewerId).aiHoldSub =
        if (s.eraseViewer viewerId).anyConnected then s.aiHoldSub else 0 := rfl
    have hds : (s.eraseViewer viewerId).detectSub =
        if (s.eraseViewer viewerId).anyConnected then s.detectSub else 0 := rfl
    refine ⟨⟨?_, ?_, release_media h rfl rfl ?_ ?_, release_detections h rfl rfl ?_, ?_, ?_, ?_⟩,
      ?_⟩
    · show (s.eraseViewer viewerId).aiHoldSub ≠ 0 → _
      rw [hais]
      split
      · exact fun _ => ‹_›
      · exact fun hn => absurd rfl hn
    · show (s.eraseViewer viewerId).detectSub ≠ 0 → (s.eraseViewer viewerId).aiHoldSub ≠ 0
      rw [hais, hds]
      split
      · exact h.detect
      · exact id
    · rw [hvs]
      split <;> simp
    · rw [hais]
      split <;> simp
    · rw [hds]
      split <;> simp
    · show (s.eraseViewer viewerId).videoSub ≠ 0 →
        (s.eraseViewer viewerId).aiHoldSub ≠ (s.eraseViewer viewerId).videoSub
      have := h.distinct hvid
      rw [hais, hvs]
      split <;> split <;> omega
    · show (s.eraseViewer viewerId).videoSub ≠ 0 ∨ _ → s.media = true
      exact fun _ => h.media_ref (.inl hvid)
    · show (s.eraseViewer viewerId).detectSub ≠ 0 → s.detectionSource = true
      rw [hds]
      split
      · exact h.detection_ref
      · exact fun hn => absurd rfl hn
    · show (s.eraseViewer viewerId).videoSub ≠ 0 ↔ (s.viewers.erase viewerId).entries ≠ []
      rw [hvs]
      split
      · rename_i hnil
        simp [hnil]
      · rename_i hnil
        exact iff_of_true hvid hnil

theorem Held.removeAllViewers (h : Held options s) (hv : VideoHeld s) :
    Held options (removeAllViewers options s) ∧ VideoHeld (removeAllViewers options s) := by
  rw [State.removeAllViewers]
  generalize s.viewers.keys = ids
  induction ids generalizing s with
  | nil => exact ⟨h, hv⟩
  | cons id ids ih =>
    obtain ⟨h', hv'⟩ := h.removeViewer hv id
    exact ih h' hv'

/-- Only the entries of the sources matter. -/
theorem Held.of_entries (h : Held options s) {m : Subscribers ℤ} {d : Subscribers Unit}
    (hm : m.entries = s.mediaSubscribers.entries)
    (hd : d.entries = s.detectionSubscribers.entries) :
    Held options { s with mediaSubscribers := m, detectionSubscribers := d } :=
  { h with media := hm.trans h.media, detections := hd.trans h.detections }

/-- A subscription of the preview that is not recorded is given back. -/
theorem Held.startUplink (h : Held options s) (accepted : Bool) :
    Held options (startUplink options s accepted).2 ∧
      ((startUplink options s accepted).1 = true →
        (startUplink options s accepted).2.videoSub ≠ 0) ∧
      ((startUplink options s accepted).1 = false →
        (startUplink options s accepted).2.videoSub = s.videoSub) := by
  obtain ⟨hv, heq⟩ | ⟨-, m, hm, heq⟩ | ⟨hv, href, heq⟩ := startUplink_cases options s accepted
  · rw [heq]
    exact ⟨h, fun _ => hv, fun _ => rfl⟩
  · rw [heq]
    exact ⟨h.of_entries hm rfl, fun hf => absurd hf (by simp), fun _ => rfl⟩
  · rw [heq]
    have hid := s.mediaSubscribers.nextSubscriptionId_ne_zero
    refine ⟨⟨h.ai, h.detect, ?_, h.detections, fun _ ha => ?_, fun _ => href, h.detection_ref⟩,
      fun _ => hid, fun hf => absurd hf (by simp)⟩
    · rw [Subscribers.entries_subscribe, h.media, hv]
      exact insert_video hid _
    · -- a recorded subscription is older than the new one
      have hai : s.aiHoldSub ≠ 0 := fun hz => hid (ha.symm.trans hz)
      have hmem : ((2 : ℤ), s.aiHoldSub) ∈ s.mediaSubscribers.entries := by
        rw [h.media]
        simp [recorded, hai]
      exact Subscribers.ne_of_mem hmem ha

theorem startUplink_frame (options : WebRtcPluginOptions) (s : State) (accepted : Bool) :
    (State.startUplink options s accepted).2.running = s.running ∧
    (State.startUplink options s accepted).2.stop = s.stop := by
  obtain ⟨-, h⟩ | ⟨-, _, -, h⟩ | ⟨-, -, h⟩ := startUplink_cases options s accepted <;> rw [h] <;>
    exact ⟨rfl, rfl⟩

/-- The subscriptions of `start_ai_uplink` are recorded together or given back. -/
theorem Held.startAiUplink (h : Held options s) (accepted : Bool) :
    Held options (startAiUplink options s accepted) := by
  obtain ⟨m, d, hm, hd, heq⟩ | ⟨hai, hm, hd, hc, heq⟩ :=
    startAiUplink_cases options s accepted
  · rw [heq]
    exact h.of_entries hm hd
  · rw [heq]
    have hid := s.mediaSubscribers.nextSubscriptionId_ne_zero
    have hdet : s.detectSub = 0 := by
      by_contra hne
      exact h.detect hne hai
    refine ⟨fun _ => hc, fun _ => hid, ?_, ?_, fun hv heq => ?_, fun _ => hm, fun _ => hd⟩
    · rw [Subscribers.entries_subscribe, h.media, hai]
      exact insert_ai hid _
    · rw [Subscribers.entries_subscribe, h.detections, hdet]
      exact insert_detection s.detectionSubscribers.nextSubscriptionId_ne_zero
    · have hmem : (options.previewStreamId, s.videoSub) ∈ s.mediaSubscribers.entries := by
        rw [h.media]
        simp [recorded, hv]
      exact Subscribers.ne_of_mem hmem heq.symm

/-! ### Steps -/

/-- The places of the signaling thread and of `stop` are left alone, and no
viewer is added to an empty table. -/
structure Frame (s t : State) : Prop where
  running : t.running = s.running
  stop : t.stop = s.stop
  signaling : t.signaling = s.signaling
  empty : s.viewers.entries = [] → t.viewers.entries = []

theorem Frame.refl (s : State) : Frame s s := ⟨rfl, rfl, rfl, id⟩

theorem Frame.trans {u : State} (h : Frame s t) (h' : Frame t u) : Frame s u :=
  ⟨h'.running.trans h.running, h'.stop.trans h.stop, h'.signaling.trans h.signaling,
    fun hnil => h'.empty (h.empty hnil)⟩

theorem lookup_of_empty (h : s.viewers.entries = []) (id : String) :
    s.viewers.lookup id = none := by
  rw [AList.lookup_eq_none, AList.mem_keys, AList.keys, h]
  simp

theorem erase_ne_nil_of {id : String} (h : s.viewers.entries = []) :
    (s.viewers.erase id).entries = [] := by
  rw [erase_of_lookup_none (lookup_of_empty h id), h]

theorem frame_removeViewer (options : WebRtcPluginOptions) (s : State) (id : String) :
    Frame s (removeViewer options s id) := by
  obtain ⟨hrun, -, -, hsig, hstop⟩ := removeViewer_frame options s id
  exact ⟨hrun, hstop, hsig, fun h => by rw [removeViewer_viewers, erase_ne_nil_of h]⟩

theorem frame_removeAllViewers (options : WebRtcPluginOptions) (s : State) :
    Frame s (removeAllViewers options s) := by
  rw [removeAllViewers]
  generalize s.viewers.keys = ids
  induction ids generalizing s with
  | nil => exact .refl s
  | cons id ids ih => exact (frame_removeViewer options s id).trans (ih _)

/-- A session that is there is updated. -/
theorem Held.insert (h : Held options s) (hv : VideoHeld s) {id : String}
    {viewer : ViewerSession} (hl : s.viewers.lookup id = some viewer) (viewer' : ViewerSession)
    (hc : viewer.connected = true → viewer'.connected = true) :
    Held options { s with viewers := s.viewers.insert id viewer' } ∧
      VideoHeld { s with viewers := s.viewers.insert id viewer' } := by
  refine ⟨{ h with ai := fun hai => ?_ }, ?_⟩
  · obtain ⟨id', other, hl', hc'⟩ := anyConnected_iff.mp (h.ai hai)
    rw [anyConnected_iff]
    by_cases hid : id' = id
    · subst hid
      obtain rfl := Option.some_inj.mp (hl.symm.trans hl')
      exact ⟨id', viewer', AList.lookup_insert _, hc hc'⟩
    · exact ⟨id', other, (AList.lookup_insert_ne hid).trans hl', hc'⟩
  · have hne : s.viewers.entries ≠ [] := List.ne_nil_of_mem (AList.mem_lookup_iff.mp hl)
    refine iff_of_true (hv.mpr hne) ?_
    simp

theorem frame_startAiUplink (options : WebRtcPluginOptions) (s : State) (accepted : Bool) :
    Frame s (startAiUplink options s accepted) ∧
      (startAiUplink options s accepted).videoSub = s.videoSub := by
  obtain ⟨_, _, -, -, heq⟩ | ⟨-, -, -, -, heq⟩ := startAiUplink_cases options s accepted <;>
  · rw [heq]
    exact ⟨⟨rfl, rfl, rfl, id⟩, rfl⟩

theorem Held.onConnected (h : Held options s) (hv : VideoHeld s) (viewerId : String)
    (peer : Peer) (accepted : Bool) :
    Held options (onConnected options s viewerId peer accepted) ∧
      VideoHeld (onConnected options s viewerId peer accepted) ∧
      Frame s (onConnected options s viewerId peer accepted) := by
  rw [State.onConnected]
  split
  · exact ⟨h, hv, .refl s⟩
  · rename_i viewer hl
    split
    · exact ⟨h, hv, .refl s⟩
    · obtain ⟨h', hv'⟩ := h.insert hv hl { viewer with connected := true } fun _ => rfl
      obtain ⟨hf, hvid⟩ := frame_startAiUplink options { s with
        viewers := s.viewers.insert viewerId { viewer with connected := true } } accepted
      refine ⟨h'.startAiUplink accepted, ?_, hf.running, hf.stop, hf.signaling, fun hnil => ?_⟩
      · rw [VideoHeld, hvid, startAiUplink_viewers]
        exact hv'
      · rw [lookup_of_empty hnil] at hl
        exact absurd hl (by simp)

theorem Held.onPeerState (h : Held options s) (hv : VideoHeld s) (peer : Peer)
    (state : PeerState) (accepted : Bool) :
    Held options (onPeerState options s peer state accepted) ∧
      VideoHeld (onPeerState options s peer state accepted) ∧
      Frame s (onPeerState options s peer state accepted) := by
  rw [State.onPeerState]
  split
  · exact ⟨h, hv, .refl s⟩
  split
  · exact h.onConnected hv _ _ _
  split
  · obtain ⟨h', hv'⟩ := h.removeViewer hv peer.viewerId
    exact ⟨h', hv', frame_removeViewer options s _⟩
  · exact ⟨h, hv, .refl s⟩

/-- The invariant of the runs. -/
structure Inv (options : WebRtcPluginOptions) (s : State) : Prop where
  held : Held options s
  video : (∀ id, s.signaling ≠ .starting id) → VideoHeld s
  starting : ∀ id, s.signaling = .starting id → s.videoSub ≠ 0
  stopping : s.stop ≠ .notCalled → s.running = false
  removed : s.stop = .removed ∨ s.stop = .done → s.viewers.entries = [] ∧ s.signaling = .idle

theorem Inv.of_frame (h : Inv options s) (hf : Frame s t) (ht : Held options t)
    (hv : VideoHeld s → VideoHeld t)
    (hs : ∀ id, s.signaling = .starting id → t.videoSub = s.videoSub) : Inv options t where
  held := ht
  video := fun hn => hv (h.video (by rwa [hf.signaling] at hn))
  starting := fun id hid => by
    rw [hf.signaling] at hid
    rw [hs id hid]
    exact h.starting id hid
  stopping := fun hstop => by
    rw [hf.stop] at hstop
    rw [hf.running]
    exact h.stopping hstop
  removed := fun hstop => by
    rw [hf.stop] at hstop
    rw [hf.signaling]
    exact ⟨hf.empty (h.removed hstop).1, (h.removed hstop).2⟩

theorem inv_init (options : WebRtcPluginOptions) (detectionSource : Bool) :
    Inv options (init detectionSource) where
  held := by constructor <;> simp [init, recorded, recordedDetections]
  video := fun _ => by simp [VideoHeld, init]
  starting := by simp [init]
  stopping := by simp [init]
  removed := by simp [init]

/-- While `create_viewer` runs, `stop` has not come to `remove_all_viewers`. -/
theorem Inv.not_removed (h : Inv options s) (hs : s.signaling ≠ .idle) :
    ¬ (s.stop = .removed ∨ s.stop = .done) := fun hstop => hs (h.removed hstop).2

theorem inv_offer (h : Inv options s) (hidle : s.signaling = .idle) (viewerId sdp : String) :
    Inv options (offer options s viewerId sdp) := by
  have hv : VideoHeld s := h.video (by simp [hidle])
  rw [State.offer]
  split
  · exact h
  · rename_i hrun
    obtain ⟨h', hv'⟩ := h.held.removeViewer hv viewerId
    have hremoved : Inv options (removeViewer options s viewerId) :=
      h.of_frame (frame_removeViewer options s viewerId) h' (fun _ => hv') (by simp [hidle])
    dsimp only
    split
    · exact hremoved
    · -- `running` was set, so `stop` has not been called
      have hnot : s.stop = .notCalled := by
        by_contra hn
        simp [h.stopping hn] at hrun
      have hstop := (frame_removeViewer options s viewerId).stop
      exact ⟨{ h' with }, fun _ => hv', by simp, hremoved.stopping, by simp [hstop, hnot]⟩

theorem inv_uplink (h : Inv options s) {viewerId : String}
    (hs : s.signaling = .uplink viewerId) (accepted : Bool) :
    Inv options (uplink options s viewerId accepted) := by
  have hv : VideoHeld s := h.video (by simp [hs])
  obtain ⟨h', hup, hdown⟩ := h.held.startUplink accepted
  obtain ⟨hrun, hstop⟩ := startUplink_frame options s accepted
  have hsig : (uplink options s viewerId accepted).signaling =
      if (State.startUplink options s accepted).1 then .starting viewerId else .idle := rfl
  refine ⟨{ h' with }, fun hn => ?_, fun id hid => ?_, fun hst => ?_, fun hst => ?_⟩
  · have hfalse : (State.startUplink options s accepted).1 = false := by
      by_contra hb
      exact hn viewerId (by rw [hsig, if_pos (by simpa using hb)])
    rw [VideoHeld, uplink_viewers]
    exact (hdown hfalse).symm ▸ hv
  · refine hup ?_
    by_contra hb
    rw [hsig, if_neg hb] at hid
    exact absurd hid (by simp)
  · exact hrun.trans (h.stopping fun hn => hst (hstop.trans hn))
  · refine absurd ?_ (h.not_removed (by simp [hs]))
    exact hst.imp (fun hn => hstop.symm.trans hn) fun hn => hstop.symm.trans hn

theorem inv_startPeer (h : Inv options s) {viewerId : String}
    (hs : s.signaling = .starting viewerId) {started : Bool}
    (hleft : NoUplinkLeft s (.startPeer started)) :
    Inv options (startPeer s viewerId started) := by
  have hvid := h.starting viewerId hs
  have hnot := h.not_removed (by simp [hs])
  -- a `create_viewer` that ends here leaves its uplink to the other viewers
  have hends : (started && s.running) = false →
      Inv options { ({ s with nextSerial := s.nextSerial + 1 } : State).queueReap
        ⟨s.nextSerial, viewerId⟩ with signaling := .idle } := fun hfail => by
    have hne : s.viewers.entries ≠ [] := by
      simpa [NoUplinkLeft, hfail] using hleft
    exact ⟨{ h.held with }, fun _ => iff_of_true hvid hne, by simp, h.stopping,
      fun hst => absurd hst hnot⟩
  rw [State.startPeer]
  dsimp only
  split
  · rename_i hst
    exact hends (by simp_all)
  split
  · rename_i hrun
    exact hends (by simp_all)
  · refine ⟨{ h.held with ai := fun hai => ?_ }, fun _ => ?_, by simp, h.stopping,
      fun hst => absurd hst hnot⟩
    · obtain ⟨id, viewer, hl, hc⟩ := anyConnected_iff.mp (h.held.ai hai)
      refine anyConnected_iff.mpr ⟨id, viewer, ?_, hc⟩
      dsimp only
      split
      · exact hl
      · rename_i hnone
        rw [AList.lookup_insert_ne, hl]
        rintro rfl
        simp [hl] at hnone
    · refine iff_of_true hvid ?_
      dsimp only
      split
      · rename_i hsome
        obtain ⟨viewer, hl⟩ := Option.isSome_iff_exists.mp hsome
        exact List.ne_nil_of_mem (AList.mem_lookup_iff.mp hl)
      · simp

theorem inv_offered (h : Inv options s) {peer : Peer} (hs : s.signaling = .offering peer)
    (answered : Bool) : Inv options (offered options s peer answered) := by
  have hv : VideoHeld s := h.video (by simp [hs])
  have hnot := h.not_removed (by simp [hs])
  rw [State.offered]
  split
  · obtain ⟨h', hv'⟩ := h.held.removeViewer hv peer.viewerId
    have hf := frame_removeViewer options s peer.viewerId
    exact ⟨{ h' with }, fun _ => hv', by simp,
      fun hst => hf.running.trans (h.stopping fun hn => hst (hf.stop.trans hn)),
      fun hst => absurd (hst.imp (hf.stop.symm.trans ·) (hf.stop.symm.trans ·)) hnot⟩
  · cases hl : s.viewers.lookup peer.viewerId with
    | none => exact ⟨{ h.held with }, fun _ => hv, by simp, h.stopping, fun hst => absurd hst hnot⟩
    | some viewer =>
      obtain ⟨h', hv'⟩ := h.held.insert hv hl { viewer with remoteDescriptionReady := true } id
      exact ⟨{ h' with }, fun _ => hv', by simp, h.stopping, fun hst => absurd hst hnot⟩

/-- Without viewers nothing is subscribed. -/
theorem Held.eq_zero (h : Held options s) (hv : VideoHeld s) (hnil : s.viewers.entries = []) :
    s.videoSub = 0 ∧ s.aiHoldSub = 0 ∧ s.detectSub = 0 := by
  have hai : s.aiHoldSub = 0 := by
    by_contra hne
    have := h.ai hne
    simp [anyConnected, hnil] at this
  refine ⟨?_, hai, ?_⟩
  · by_contra hne
    exact hv.mp hne hnil
  · by_contra hne
    exact h.detect hne hai

/-- `stop` has every viewer removed. -/
theorem inv_stopRemove (h : Inv options s) (hstop : s.stop = .called)
    (hidle : s.signaling = .idle) :
    Inv options { removeAllViewers options s with stop := .removed } := by
  obtain ⟨h', hv'⟩ := h.held.removeAllViewers (h.video (by simp [hidle]))
  have hf := frame_removeAllViewers options s
  refine ⟨{ h' with }, fun _ => hv', fun id hid => ?_, fun _ => ?_, fun _ => ⟨?_, ?_⟩⟩
  · exact absurd (hf.signaling.symm.trans hid) (by simp [hidle])
  · exact hf.running.trans (h.stopping (by simp [hstop]))
  · show (removeAllViewers options s).viewers.entries = []
    rw [removeAllViewers_viewers]
    rfl
  · exact hf.signaling.trans hidle

/-- When the references are reset nothing is subscribed any more. -/
theorem inv_stopReset (h : Inv options s) (hstop : s.stop = .removed)
    (hidle : s.signaling = .idle) :
    Inv options { s with
      media := false
      detectionSource := false
      pendingCandidates := ∅
      stop := .done } := by
  have hnil := (h.removed (.inl hstop)).1
  have hv : VideoHeld s := h.video (by simp [hidle])
  obtain ⟨hvid, hai, hdet⟩ := h.held.eq_zero hv hnil
  exact ⟨{ h.held with
    media_ref := fun hn => absurd hn (by simp [hvid, hai])
    detection_ref := fun hn => absurd hdet hn }, fun _ => hv, h.starting,
    fun _ => h.stopping (by simp [hstop]), fun _ => ⟨hnil, hidle⟩⟩

theorem inv_step {i : Label} (h : Inv options s) (hi : NoUplinkLeft s i)
    (hstep : step options s i = some t) : Inv options t := by
  have hvideo : s.signaling = .idle → VideoHeld s := fun hidle => h.video (by simp [hidle])
  cases step_cases hstep with
  | offer hidle viewerId sdp => exact inv_offer h hidle viewerId sdp
  | uplink hs accepted => exact inv_uplink h hs accepted
  | startPeer hs started => exact inv_startPeer h hs hi
  | inlineState hs state accepted =>
    obtain ⟨h', hv', hf⟩ := h.held.onPeerState (h.video (by simp [hs])) _ state accepted
    exact h.of_frame hf h' (fun _ => hv') (by simp [hs])
  | offered hs answered => exact inv_offered h hs answered
  | peerLeft hidle role viewerId =>
    obtain ⟨h', hv'⟩ := h.held.removeViewer (hvideo hidle) viewerId
    exact h.of_frame (frame_removeViewer options s _) h' (fun _ => hv') (by simp [hidle])
  | signalingDisconnected hidle =>
    obtain ⟨h', hv'⟩ := h.held.removeAllViewers (hvideo hidle)
    exact h.of_frame (frame_removeAllViewers options s) h' (fun _ => hv') (by simp [hidle])
  | runTask hidle peer state rest htasks accepted =>
    have hv : VideoHeld { s with tasks := rest } := hvideo hidle
    have hh : Held options { s with tasks := rest } := { h.held with }
    obtain ⟨h', hv', hf⟩ := hh.onPeerState hv peer state accepted
    exact h.of_frame ⟨hf.running, hf.stop, hf.signaling, hf.empty⟩ h' (fun _ => hv')
      (by simp [hidle])
  | elsewhere => exact h.of_frame ⟨rfl, rfl, rfl, id⟩ { h.held with } id fun _ _ => rfl
  | otherSubscriber =>
    exact h.of_frame ⟨rfl, rfl, rfl, id⟩ (h.held.of_entries rfl rfl) id fun _ _ => rfl
  | stop => exact ⟨{ h.held with }, h.video, h.starting, fun _ => rfl, by simp⟩
  | stopRemove hstop hidle => exact inv_stopRemove h hstop hidle
  | stopReset hstop hidle => exact inv_stopReset h hstop hidle

/-- **Subscriptions follow the viewers.**  In every run in which no
`create_viewer` that has its uplink ends before `emplace` while there is no
other viewer, every state between two tasks of the signaling thread matches:
the preview is subscribed exactly while there are viewers, the AI stream and
the detections only while one is connected, the sources hold exactly what the
fields record, and after `stop` nothing is left. -/
theorem subscriptions_match (options : WebRtcPluginOptions) (detectionSource : Bool)
    {is : List Label} {s : State}
    (hC : Along (step options) NoUplinkLeft (init detectionSource) is)
    (h : run (step options) (init detectionSource) is = some s) (hidle : s.signaling = .idle) :
    SubscriptionsMatch options s := by
  have hinv : Inv options s :=
    run_invariant (fun _ _ _ => inv_step) (inv_init options detectionSource) hC h
  have hv : VideoHeld s := hinv.video (by simp [hidle])
  exact ⟨hv, fun hai => anyConnected_iff.mp (hinv.held.ai hai), hinv.held.detect,
    hinv.held.media, hinv.held.detections,
    fun hst => hinv.held.eq_zero hv (hinv.removed (.inr hst)).1⟩

/-- A viewer comes, is connected and stays until the plugin stops. -/
def oneViewer : List Label :=
  [.offer "a" "ice-ufrag ice-pwd", .uplink true, .startPeer true, .offered true,
    .callback "a" .connected, .post 0 true, .runTask true, .stop, .stopRemove, .stopReset]

theorem oneViewer_match : ∃ s, run (step {}) (init true) oneViewer = some s ∧
    s.stop = .done ∧ SubscriptionsMatch {} s := by
  have hleft : Along (step {}) NoUplinkLeft (init true) oneViewer := by decide
  exact ⟨_, rfl, rfl, subscriptions_match {} true hleft rfl rfl⟩

/-- The peer of the only offer does not start: the preview stays subscribed
without a viewer, and `stop` does not give it back. -/
theorem uplink_left :
    ¬ ∀ (options : WebRtcPluginOptions) (detectionSource : Bool) (is : List Label) (s : State),
      run (step options) (init detectionSource) is = some s → s.signaling = .idle →
        SubscriptionsMatch options s := by
  intro h
  have hmatch := h {} true [.offer "a" "ice-ufrag ice-pwd", .uplink true, .startPeer false,
    .stop, .stopRemove, .stopReset] _ rfl rfl
  exact absurd (hmatch.stopped rfl).1 (by decide)

end WebRtcPlugin

end IpcMini
