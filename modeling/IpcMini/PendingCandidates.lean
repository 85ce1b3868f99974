/-
Early candidates of viewers that have left (`WebRtcPlugin::Impl`).

A candidate that comes before the offer of its viewer is kept in
`pending_candidates` until the offer succeeds.  When a viewer leaves, its entry
should go with it; `remove_viewer` erases the entry, but returns before that
when the viewer has no session, and `remove_all_viewers` calls it for the
viewers with a session only.

* `Departs` — the step is the departure of a viewer, `SentSince` — a candidate
  was sent after the last one;
* `pending_step` — how a step can change the entries;
* **`entries_end_iff`** — a run ends the entries of the viewers that leave
  exactly if each of them has a session or no entry; then every entry, and every
  candidate that a successful offer applies, was sent since the last departure;
* `entry_left` — the run that keeps the entry of a viewer that has left.
-/
import IpcMini.Session

namespace IpcMini

open Interleaving

namespace WebRtcPlugin

open State

variable {options : WebRtcPluginOptions} {s t : State} {label : Label} {viewerId : String}
  {past : List (State × Label)}

/-! ### Departures -/

/-- The step is one in which the plugin handles the departure of the viewer. -/
def Departs (s : State) (label : Label) (viewerId : String) : Prop :=
  s.running = true ∧
    ((label = .peerLeft "viewer" viewerId ∧ viewerId ≠ "") ∨ label = .signalingDisconnected)

/-- The viewer sent the candidate, and has not left since. -/
def SentSince (past : List (State × Label)) (viewerId : String) (c : PendingCandidate) : Prop :=
  ∃ before sent after, past = before ++ (sent, .candidate viewerId c.candidate c.mid) :: after ∧
    ∀ e ∈ after, ¬ Departs e.1 e.2 viewerId

/-- The viewer has left, and has sent no candidate since. -/
def Gone (past : List (State × Label)) (viewerId : String) : Prop :=
  ∃ before e after, past = before ++ e :: after ∧ Departs e.1 e.2 viewerId ∧
    ∀ e' ∈ after, ∀ candidate mid, e'.2 ≠ .candidate viewerId candidate mid

/-- After a departure there is no entry for the viewer. -/
def EntryEnds (options : WebRtcPluginOptions) (s : State) (label : Label) : Prop :=
  ∀ viewerId t, Departs s label viewerId → step options s label = some t →
    t.pendingCandidates.lookup viewerId = none

/-- A viewer that leaves has a session, or no entry. -/
def LeavesWithSession (s : State) (label : Label) : Prop :=
  ∀ viewerId, s.signaling = .idle → Departs s label viewerId →
    (s.viewers.lookup viewerId).isSome = true ∨
      s.pendingCandidates.lookup viewerId = none

/-! ### How a step changes the entries -/

/-- Entries were taken away at most. -/
def Shrinks (s t : State) : Prop :=
  ∀ viewerId queue, t.pendingCandidates.lookup viewerId = some queue →
    s.pendingCandidates.lookup viewerId = some queue

theorem shrinks_of_eq (h : t.pendingCandidates = s.pendingCandidates) : Shrinks s t := by
  intro viewerId queue hlookup
  rwa [h] at hlookup

theorem Shrinks.trans {u : State} (h : Shrinks s t) (h' : Shrinks t u) : Shrinks s u :=
  fun viewerId queue hlookup => h viewerId queue (h' viewerId queue hlookup)

theorem shrinks_of_erase (viewerId : String)
    (h : t.pendingCandidates = s.pendingCandidates.erase viewerId) : Shrinks s t := by
  intro other queue hlookup
  rw [h] at hlookup
  by_cases heq : other = viewerId
  · subst heq
    simp [AList.lookup_erase] at hlookup
  · rwa [AList.lookup_erase_ne heq] at hlookup

/-- `remove_viewer` erases the entry of a viewer with a session, and only that. -/
theorem removeViewer_pending (options : WebRtcPluginOptions) (s : State) (viewerId : String) :
    (removeViewer options s viewerId).pendingCandidates =
      if (s.viewers.lookup viewerId).isSome then s.pendingCandidates.erase viewerId
      else s.pendingCandidates := by
  cases h : s.viewers.lookup viewerId with
  | none => rw [removeViewer_of_none h]; rfl
  | some removed => rw [removeViewer_of_some h]; rfl

theorem shrinks_removeViewer (options : WebRtcPluginOptions) (s : State) (viewerId : String) :
    Shrinks s (removeViewer options s viewerId) := by
  have h := removeViewer_pending options s viewerId
  split at h
  · exact shrinks_of_erase viewerId h
  · exact shrinks_of_eq h

theorem shrinks_foldl_removeViewer (ids : List String) (s : State) :
    Shrinks s (ids.foldl (removeViewer options) s) := by
  induction ids generalizing s with
  | nil => exact shrinks_of_eq rfl
  | cons id ids ih => exact (shrinks_removeViewer options s id).trans (ih _)

/-- Removing the viewers of a list ends the entries of those with a session. -/
theorem foldl_removeViewer_pending {ids : List String} (hmem : viewerId ∈ ids)
    (h : (s.viewers.lookup viewerId).isSome = true ∨
      s.pendingCandidates.lookup viewerId = none) :
    (ids.foldl (removeViewer options) s).pendingCandidates.lookup viewerId = none := by
  induction ids generalizing s with
  | nil => simp at hmem
  | cons id ids ih =>
    rw [List.foldl_cons]
    by_cases heq : viewerId = id
    · subst heq
      -- the entry is gone after this removal, and none comes back
      have hgone : (removeViewer options s viewerId).pendingCandidates.lookup viewerId =
          none := by
        rw [removeViewer_pending]
        split
        next => simp [AList.lookup_erase]
        next hno => exact h.resolve_left hno
      by_contra hstill
      obtain ⟨queue, hqueue⟩ := Option.ne_none_iff_exists'.mp hstill
      simp [shrinks_foldl_removeViewer ids _ viewerId queue hqueue] at hgone
    · refine ih (List.mem_of_ne_of_mem heq hmem) ?_
      rcases h with h | h
      · refine .inl ?_
        rwa [removeViewer_viewers, AList.lookup_erase_ne heq]
      · refine .inr ?_
        by_contra hstill
        obtain ⟨queue, hqueue⟩ := Option.ne_none_iff_exists'.mp hstill
        simp [shrinks_removeViewer options s id viewerId queue hqueue] at h

/-- Removing other viewers leaves an entry alone. -/
theorem foldl_removeViewer_pending_of_notMem {ids : List String} (hmem : viewerId ∉ ids) :
    (ids.foldl (removeViewer options) s).pendingCandidates.lookup viewerId =
      s.pendingCandidates.lookup viewerId := by
  induction ids generalizing s with
  | nil => rfl
  | cons id ids ih =>
    obtain ⟨hne, hrest⟩ := not_or.mp (fun h => hmem (List.mem_cons.mpr h))
    rw [List.foldl_cons, ih hrest, removeViewer_pending]
    split
    · exact AList.lookup_erase_ne hne
    · rfl

theorem shrinks_startAiUplink (s : State) (accepted : Bool) :
    Shrinks s (startAiUplink options s accepted) := by
  obtain ⟨_, _, -, -, h⟩ | ⟨-, -, -, -, h⟩ := startAiUplink_cases options s accepted
  · exact shrinks_of_eq (by rw [h])
  · exact shrinks_of_eq (by rw [h])

theorem shrinks_onPeerState (s : State) (peer : Peer) (state : PeerState) (accepted : Bool) :
    Shrinks s (onPeerState options s peer state accepted) := by
  rw [onPeerState]
  split
  next => exact shrinks_of_eq rfl
  next =>
  split
  next =>
    rw [onConnected]
    split
    next => exact shrinks_of_eq rfl
    next viewer _ =>
      split
      · exact shrinks_of_eq rfl
      · have hset : Shrinks s { s with
            viewers := s.viewers.insert peer.viewerId { viewer with connected := true } } :=
          shrinks_of_eq rfl
        exact hset.trans (shrinks_startAiUplink _ accepted)
  next =>
  split
  · exact shrinks_removeViewer options s peer.viewerId
  · exact shrinks_of_eq rfl

/-- A candidate is appended to the queue of its viewer, or leaves the queues alone. -/
theorem applyRemoteCandidate_pending (s : State) (viewerId candidate mid : String) :
    (applyRemoteCandidate s viewerId candidate mid).pendingCandidates =
        s.pendingCandidates ∨
      (applyRemoteCandidate s viewerId candidate mid).pendingCandidates =
        s.pendingCandidates.insert viewerId
          ((s.pendingCandidates.lookup viewerId).getD [] ++ [⟨candidate, mid⟩]) := by
  simp only [applyRemoteCandidate]
  split
  next =>
    split_ifs
    · exact .inr rfl
    · exact .inl rfl
  next =>
    split_ifs
    · exact .inr rfl
    · exact .inl rfl

/-- **How a step changes the entries**: it appends a candidate that was sent, or
takes entries away. -/
theorem pending_step (h : step options s label = some t) :
    Shrinks s t ∨ ∃ viewerId candidate mid, label = .candidate viewerId candidate mid ∧
      t.pendingCandidates = s.pendingCandidates.insert viewerId
        ((s.pendingCandidates.lookup viewerId).getD [] ++ [⟨candidate, mid⟩]) := by
  cases label with
  | candidate viewerId candidate mid =>
    obtain ⟨-, h⟩ := Option.ite_none_right_eq_some.mp h
    obtain rfl := Option.some_inj.mp h
    -- the one step that adds to an entry
    split
    · rcases applyRemoteCandidate_pending s viewerId candidate mid with hsame | hqueued
      · exact .inl (shrinks_of_eq hsame)
      · exact .inr ⟨viewerId, candidate, mid, rfl, hqueued⟩
    · exact .inl (shrinks_of_eq rfl)
  | offer viewerId sdp =>
    obtain ⟨-, h⟩ := Option.ite_none_right_eq_some.mp h
    obtain rfl := Option.some_inj.mp h
    refine .inl ?_
    rw [offer]
    split
    · exact shrinks_of_eq rfl
    · -- an offer replaces the viewer that has the id
      dsimp only
      split
      · exact shrinks_removeViewer options s viewerId
      · exact shrinks_removeViewer options s viewerId
  | uplink accepted =>
    simp only [step] at h
    split at h
    next viewerId _ =>
      obtain rfl := Option.some_inj.mp h
      refine .inl (shrinks_of_eq ?_)
      rw [uplink]
      obtain ⟨-, heq⟩ | ⟨-, _, -, heq⟩ | ⟨-, -, heq⟩ := startUplink_cases options s accepted
      · rw [heq]
      · rw [heq]
      · rw [heq]
    next => exact absurd h (by simp)
  | startPeer started =>
    simp only [step] at h
    split at h
    next viewerId _ =>
      obtain rfl := Option.some_inj.mp h
      refine .inl (shrinks_of_eq ?_)
      simp only [startPeer, queueReap]
      split_ifs <;> rfl
    next => exact absurd h (by simp)
  | inlineState state accepted =>
    simp only [step] at h
    split at h
    next peer _ =>
      obtain ⟨-, h⟩ := Option.ite_none_right_eq_some.mp h
      obtain rfl := Option.some_inj.mp h
      exact .inl (shrinks_onPeerState s peer state accepted)
    next => exact absurd h (by simp)
  | offered answered =>
    simp only [step] at h
    split at h
    next peer _ =>
      obtain rfl := Option.some_inj.mp h
      refine .inl ?_
      rw [offered]
      split
      · -- `handle_remote_offer` failed
        exact shrinks_removeViewer options s peer.viewerId
      · exact shrinks_of_erase peer.viewerId rfl
    next => exact absurd h (by simp)
  | peerLeft role viewerId =>
    obtain ⟨-, h⟩ := Option.ite_none_right_eq_some.mp h
    obtain rfl := Option.some_inj.mp h
    split
    · exact .inl (shrinks_removeViewer options s viewerId)
    · exact .inl (shrinks_of_eq rfl)
  | signalingDisconnected =>
    obtain ⟨-, h⟩ := Option.ite_none_right_eq_some.mp h
    obtain rfl := Option.some_inj.mp h
    split
    · exact .inl (shrinks_foldl_removeViewer _ s)
    · exact .inl (shrinks_of_eq rfl)
  | runTask accepted =>
    simp only [step] at h
    split at h
    next peer state rest _ =>
      obtain ⟨-, h⟩ := Option.ite_none_right_eq_some.mp h
      obtain rfl := Option.some_inj.mp h
      have hpop : Shrinks s { s with tasks := rest } := shrinks_of_eq rfl
      exact .inl (hpop.trans (shrinks_onPeerState _ peer state accepted))
    next => exact absurd h (by simp)
  | callback viewerId state =>
    simp only [step] at h
    split at h
    · exact Option.some_inj.mp h ▸ .inl (shrinks_of_eq rfl)
    · exact absurd h (by simp)
  | post n posted =>
    simp only [step] at h
    split at h
    · exact Option.some_inj.mp h ▸ .inl (shrinks_of_eq rfl)
    · exact absurd h (by simp)
  | drain =>
    obtain ⟨-, h⟩ := Option.ite_none_right_eq_some.mp h
    exact Option.some_inj.mp h ▸ .inl (shrinks_of_eq rfl)
  | drained => exact Option.some_inj.mp h ▸ .inl (shrinks_of_eq rfl)
  | reaped =>
    simp only [step] at h
    split at h
    · obtain ⟨-, h⟩ := Option.ite_none_right_eq_some.mp h
      exact Option.some_inj.mp h ▸ .inl (shrinks_of_eq rfl)
    · exact absurd h (by simp)
  | otherSubscriber => exact Option.some_inj.mp h ▸ .inl (shrinks_of_eq rfl)
  | stop =>
    obtain ⟨-, h⟩ := Option.ite_none_right_eq_some.mp h
    exact Option.some_inj.mp h ▸ .inl (shrinks_of_eq rfl)
  | stopRemove =>
    obtain ⟨-, h⟩ := Option.ite_none_right_eq_some.mp h
    obtain rfl := Option.some_inj.mp h
    exact .inl (shrinks_foldl_removeViewer _ s)
  | stopReset =>
    obtain ⟨-, h⟩ := Option.ite_none_right_eq_some.mp h
    obtain rfl := Option.some_inj.mp h
    refine .inl fun viewerId queue hlookup => ?_
    simp [AList.lookup_empty] at hlookup

/-! ### What holds along the runs -/

theorem step_peerLeft (hidle : s.signaling = .idle) (hrunning : s.running = true)
    (hne : viewerId ≠ "") :
    step options s (.peerLeft "viewer" viewerId) =
      some (removeViewer options s viewerId) := by
  simp [step, hidle, hrunning, hne]

theorem step_signalingDisconnected (hidle : s.signaling = .idle) (hrunning : s.running = true) :
    step options s .signalingDisconnected = some (removeAllViewers options s) := by
  simp [step, hidle, hrunning]

/-- A departure is handled between two tasks of the signaling thread. -/
theorem idle_of_departs (hdeparts : Departs s label viewerId)
    (hstep : step options s label = some t) : s.signaling = .idle := by
  obtain ⟨-, ⟨rfl, -⟩ | rfl⟩ := hdeparts
  · exact (Option.ite_none_right_eq_some.mp hstep).1
  · exact (Option.ite_none_right_eq_some.mp hstep).1

/-- **A step ends the entries of those who leave** exactly if they have sessions
or no entries. -/
theorem entry_ends_iff (options : WebRtcPluginOptions) (s : State) (label : Label) :
    EntryEnds options s label ↔ LeavesWithSession s label := by
  constructor
  · intro h viewerId hidle hdeparts
    by_contra hneither
    obtain ⟨hsession, hentry⟩ := not_or.mp hneither
    obtain ⟨hrunning, ⟨rfl, hne⟩ | rfl⟩ := hdeparts
    · have hends := h viewerId _ ⟨hrunning, .inl ⟨rfl, hne⟩⟩ (step_peerLeft hidle hrunning hne)
      rw [removeViewer_pending, if_neg hsession] at hends
      exact hentry hends
    · have hends := h viewerId _ ⟨hrunning, .inr rfl⟩
        (step_signalingDisconnected hidle hrunning)
      have hkeys : viewerId ∉ s.viewers.keys :=
        AList.lookup_eq_none.mp (by simpa using hsession)
      rw [removeAllViewers, foldl_removeViewer_pending_of_notMem hkeys] at hends
      exact hentry hends
  · intro h viewerId t hdeparts hstep
    have hidle := idle_of_departs hdeparts hstep
    have hleaves := h viewerId hidle hdeparts
    obtain ⟨hrunning, ⟨rfl, hne⟩ | rfl⟩ := hdeparts
    · rw [step_peerLeft hidle hrunning hne] at hstep
      obtain rfl := Option.some_inj.mp hstep
      exact foldl_removeViewer_pending (List.mem_singleton_self viewerId) hleaves
    · rw [step_signalingDisconnected hidle hrunning] at hstep
      obtain rfl := Option.some_inj.mp hstep
      by_cases hmem : viewerId ∈ s.viewers.keys
      · exact foldl_removeViewer_pending hmem hleaves
      · rw [removeAllViewers, foldl_removeViewer_pending_of_notMem hmem]
        refine hleaves.resolve_left fun hsession => ?_
        simp [AList.lookup_eq_none.mpr hmem] at hsession

/-- What is queued: no queue is empty, and all was sent since the last departure
of the viewer. -/
def Fresh (past : List (State × Label)) (s : State) : Prop :=
  ∀ viewerId queue, s.pendingCandidates.lookup viewerId = some queue →
    queue ≠ [] ∧ ∀ c ∈ queue, SentSince past viewerId c

theorem fresh_init (detectionSource : Bool) : Fresh [] (init detectionSource) := by
  intro viewerId queue hlookup
  simp [init] at hlookup

/-- A candidate stays fresh through a step in which its viewer does not leave. -/
theorem SentSince.step {c : PendingCandidate} (h : SentSince past viewerId c)
    (hstays : ¬ Departs s label viewerId) : SentSince (past ++ [(s, label)]) viewerId c := by
  obtain ⟨before, sent, after, rfl, hafter⟩ := h
  refine ⟨before, sent, after ++ [(s, label)], by simp, fun e he => ?_⟩
  rcases List.mem_append.mp he with he | he
  · exact hafter e he
  · rw [List.mem_singleton.mp he]
    exact hstays

/-- **Every step that ends the entries of those who leave keeps the queues fresh.** -/
theorem fresh_step (h : Fresh past s) (hends : EntryEnds options s label)
    (hstep : step options s label = some t) : Fresh (past ++ [(s, label)]) t := by
  intro viewerId queue hlookup
  have hstays : ¬ Departs s label viewerId := by
    intro hdeparts
    simp [hends viewerId t hdeparts hstep] at hlookup
  rcases pending_step hstep with hshrinks | ⟨sender, candidate, mid, rfl, hqueued⟩
  · obtain ⟨hne, hsent⟩ := h viewerId queue (hshrinks viewerId queue hlookup)
    exact ⟨hne, fun c hc => (hsent c hc).step hstays⟩
  · rw [hqueued] at hlookup
    by_cases heq : viewerId = sender
    · -- the queued candidates are as old as before, and the last one is of now
      subst heq
      rw [AList.lookup_insert] at hlookup
      obtain rfl := Option.some_inj.mp hlookup
      refine ⟨by simp, fun c hc => ?_⟩
      rcases List.mem_append.mp hc with hc | hc
      · cases hold : s.pendingCandidates.lookup viewerId with
        | none => simp [hold] at hc
        | some old =>
          rw [hold, Option.getD_some] at hc
          exact ((h viewerId old hold).2 c hc).step hstays
      · rw [List.mem_singleton.mp hc]
        exact ⟨past, s, [], by simp, by simp⟩
    · rw [AList.lookup_insert_ne heq] at hlookup
      obtain ⟨hne, hsent⟩ := h viewerId queue hlookup
      exact ⟨hne, fun c hc => (hsent c hc).step hstays⟩

/-- A viewer with a fresh candidate is not gone. -/
theorem SentSince.not_gone {c : PendingCandidate} (h : SentSince past viewerId c) :
    ¬ Gone past viewerId := by
  rintro ⟨before, e, after, rfl, hdeparts, hsilent⟩
  obtain ⟨before', sent, after', heq, hstays⟩ := h
  have hother : e ≠ (sent, .candidate viewerId c.candidate c.mid) := by
    rintro rfl
    obtain ⟨-, ⟨h, -⟩ | h⟩ := hdeparts
    · simp at h
    · simp at h
  -- the departure is after the candidate, or the candidate after the departure
  rcases List.append_eq_append_iff.mp heq with ⟨between, -, hrest⟩ | ⟨between, -, hrest⟩
  · rcases between with _ | ⟨first, between⟩
    · exact hother (List.cons.inj hrest).1
    · obtain ⟨-, rfl⟩ := List.cons.inj hrest
      exact hsilent (sent, .candidate viewerId c.candidate c.mid) (by simp) _ _ rfl
  · rcases between with _ | ⟨first, between⟩
    · exact hother (List.cons.inj hrest).1.symm
    · obtain ⟨-, rfl⟩ := List.cons.inj hrest
      exact hstays e (by simp) hdeparts

/-- The candidates that `create_viewer` hands to the new peer once
`handle_remote_offer` has succeeded. -/
def queuedCandidates (s : State) (peer : Peer) : List PendingCandidate :=
  (s.pendingCandidates.lookup peer.viewerId).getD []

/-- **The entries of viewers end when they leave**, in a run, exactly if each
viewer that leaves has a session or no entry.  In such a run every entry is that
of a viewer that has not left since, so none is kept for a viewer that is gone,
and a successful offer applies no candidate from before the last departure. -/
theorem entries_end_iff (options : WebRtcPluginOptions) (detectionSource : Bool)
    (labels : List Label) :
    (Along (step options) (EntryEnds options) (init detectionSource) labels ↔
      Along (step options) (fun s label => LeavesWithSession s label) (init detectionSource)
        labels) ∧
    (Along (step options) (fun s label => LeavesWithSession s label) (init detectionSource)
        labels → ∀ s, run (step options) (init detectionSource) labels = some s →
      (∀ viewerId queue, s.pendingCandidates.lookup viewerId = some queue →
        queue ≠ [] ∧
        (∀ c ∈ queue, SentSince (trace (step options) (init detectionSource) labels)
          viewerId c) ∧
        ¬ Gone (trace (step options) (init detectionSource) labels) viewerId) ∧
      ∀ peer, s.signaling = .offering peer → ∀ c ∈ queuedCandidates s peer,
        SentSince (trace (step options) (init detectionSource) labels) peer.viewerId c) := by
  have hiff : Along (step options) (EntryEnds options) (init detectionSource) labels ↔
      Along (step options) (fun s label => LeavesWithSession s label) (init detectionSource)
        labels := by
    refine along_congr (P := fun _ => True) (fun _ _ _ _ _ => trivial) ?_ trivial
    exact fun s label _ => entry_ends_iff options s label
  refine ⟨hiff, fun hleaves s hrun => ?_⟩
  have hfresh : Fresh (trace (step options) (init detectionSource) labels) s :=
    run_trace_along (fun past s i t h hends hstep => fresh_step h hends hstep)
      (fresh_init detectionSource) (hiff.mpr hleaves) hrun
  refine ⟨fun viewerId queue hlookup => ?_, fun peer _ c hc => ?_⟩
  · obtain ⟨hne, hsent⟩ := hfresh viewerId queue hlookup
    obtain ⟨c, hc⟩ := List.exists_mem_of_ne_nil queue hne
    exact ⟨hne, hsent, (hsent c hc).not_gone⟩
  · cases hlookup : s.pendingCandidates.lookup peer.viewerId with
    | none => simp [queuedCandidates, hlookup] at hc
    | some queue =>
      rw [queuedCandidates, hlookup, Option.getD_some] at hc
      exact (hfresh peer.viewerId queue hlookup).2 c hc

/-- A viewer sends a candidate and then its offer. -/
def early : List Label :=
  [.candidate "v" "c" "0", .offer "v" "ice-ufrag ice-pwd", .uplink true, .startPeer true]

/-- The new peer is given the candidate, which is fresh. -/
theorem early_candidate : ∃ s peer, run (step {}) (init true) early = some s ∧
    s.signaling = .offering peer ∧ queuedCandidates s peer = [⟨"c", "0"⟩] ∧
    SentSince (trace (step {}) (init true) early) "v" ⟨"c", "0"⟩ := by
  obtain ⟨s, hrun⟩ := Option.isSome_iff_exists.mp
    (by decide +kernel : (run (step {}) (init true) early).isSome = true)
  have hgiven : (run (step {}) (init true) early).any (fun s =>
      decide (s.signaling = .offering ⟨0, "v"⟩) &&
        decide (queuedCandidates s ⟨0, "v"⟩ = [⟨"c", "0"⟩])) = true := by decide +kernel
  have hleaves : Along (step {}) (fun s label => LeavesWithSession s label) (init true) early := by
    refine ⟨?_, fun _ _ => ⟨?_, fun _ _ => ⟨?_, fun _ _ => ⟨?_, fun _ _ => trivial⟩⟩⟩⟩
    all_goals
      intro viewerId _ hdeparts
      simp [Departs] at hdeparts
  rw [hrun] at hgiven
  obtain ⟨hoffering, hqueued⟩ := by simpa using hgiven
  refine ⟨s, ⟨0, "v"⟩, hrun, hoffering, hqueued, ?_⟩
  exact ((entries_end_iff {} true early).2 hleaves s hrun).2 _ hoffering _ (by rw [hqueued]; simp)

/-- **An entry outlives its viewer**: a viewer that has sent a candidate and no
offer leaves, and the entry stays. -/
theorem entry_left : ¬ ∀ labels, Along (step {}) (EntryEnds {}) (init true) labels := by
  intro h
  have hends := h [.candidate "v" "c" "0", .peerLeft "viewer" "v"]
  obtain ⟨s, hs⟩ := Option.isSome_iff_exists.mp
    (by decide +kernel : (step {} (init true) (.candidate "v" "c" "0")).isSome = true)
  have hstate : (step {} (init true) (.candidate "v" "c" "0")).any (fun s =>
      decide (s.signaling = .idle) && s.running && (s.viewers.lookup "v").isNone &&
        (s.pendingCandidates.lookup "v").isSome) = true := by decide +kernel
  rw [hs] at hstate
  simp only [Option.any_some, Bool.and_eq_true, decide_eq_true_eq] at hstate
  obtain ⟨⟨⟨hidle, hrunning⟩, hsession⟩, hentry⟩ := hstate
  have hleaves := (entry_ends_iff {} s _).mp (hends.2 s hs).1 "v" hidle
    ⟨hrunning, .inl ⟨rfl, by simp⟩⟩
  rcases hleaves with hleaves | hleaves
  · simp [Option.isNone_iff_eq_none.mp hsession] at hleaves
  · simp [hleaves] at hentry

end WebRtcPlugin

end IpcMini
