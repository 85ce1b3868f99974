/-
Switching the sub stream while the capture thread runs.

The capture thread walks `g_vencs` without a lock, so the list may change only
while no thread is there; `set_sub_stream_enabled` brackets its change by
`stop_capture` and `start_capture`.  The stream worker switches the sub encoder
off once nobody has asked for it during a whole idle interval.

* **`capture_list_guarded`** — in every run the list changes without a thread
  on it, agrees with the flag and the encoder, and survives failed calls;
* `subWatch` — the wait of the stream worker as an instance of `IdleWait`;
* `Demand` — the flag, the encoder and the wait, and `demand_step`: every step
  keeps them in accord;
* **`sub_encoder_follows_demand`** — a demanded sub stream is encoded, and the
  worker ends it only after an idle interval without demand and without a call.
-/
import IpcMini.HisiliconPipeline
import IpcMini.IdleWait

namespace IpcMini.HisiliconPipeline

open Interleaving State

variable {o : Options} {s t : State} {labels : List Label}

/-- The invariant of the pipeline holds in every run. -/
theorem inv_run (hrun : run (step o) init labels = some s) : Inv s :=
  run_preserves (fun _ _ _ h hstep => inv_step h hstep) inv_init hrun

/-! ### The list of the capture thread -/

/-- The sub encoder runs if and only if the list holds it, once. -/
theorem Encoding.mem_vencs (h : Encoding s) {c : Chn} (hc : c ∈ s.encodedChannel) {sub : Venc}
    (hsub : sub ∈ c.sub) :
    (sub.running = true ↔ sub.this ∈ s.capture.vencs) ∧
      s.capture.vencs.count sub.this ≤ 1 := by
  have htidy := h.tidy c hc
  have hother : sub.this ∉ (c.main.toList.filter (·.running)).map (·.this) := by
    intro hmem
    obtain ⟨main, hmain, heq⟩ := List.mem_map.mp hmem
    have hmain' : main ∈ c.main := by simpa using (List.mem_filter.mp hmain).1
    exact (htidy.apart main hmain' sub hsub).1 (by rw [heq])
  rw [htidy.vencs, Chn.runningVencs_of_sub hsub, List.count_append,
    List.count_eq_zero_of_not_mem hother, List.mem_append]
  cases hrun : sub.running with
  | false => simp [hother]
  | true => simp

/-- **The list of the capture thread is guarded.**  In every run it was changed
only without a capture thread; the flag of the sub stream is up if and only if
its encoder runs, which is if and only if the list holds it, at most once; and a
call of `set_sub_stream_enabled` that returns false changes neither the flag nor
the list nor whether frames are captured. -/
theorem capture_list_guarded (hrun : run (step o) init labels = some s) :
    s.capture.changedInFlight = false ∧
    (∀ c ∈ s.encodedChannel,
      (c.subStreamRunning = true ↔ ∃ sub ∈ c.sub, sub.running = true) ∧
      (∀ sub ∈ c.sub, (sub.running = true ↔ sub.this ∈ s.capture.vencs) ∧
        s.capture.vencs.count sub.this ≤ 1) ∧
      ∀ enable sdk c' g', c.setSubStreamEnabled s.capture enable sdk = (false, c', g') →
        c'.subStreamRunning = c.subStreamRunning ∧ g'.vencs = s.capture.vencs ∧
          g'.isCapturing = s.capture.isCapturing) := by
  have h := (inv_run hrun).encoding
  refine ⟨h.guarded.unchanged, fun c hc => ⟨?_, fun sub hsub => h.mem_vencs hc hsub, ?_⟩⟩
  · rw [(h.tidy c hc).flag, Chn.subRuns, Option.any_eq_true]
    simp
  · intro enable sdk c' g' hcall
    obtain ⟨-, -, hcapture, -, hflag, hsame⟩ :=
      Chn.tidy_setSubStreamEnabled (h.tidy c hc) h.guarded hcall
    exact ⟨hflag, hsame rfl, hcapture⟩

/-- Devices that answer every call. -/
def fine : VencAnswers := ⟨true, true, true, 5, true, true, true⟩

/-- A sensor and encoders that are there, and sixteen channel numbers, none in use. -/
def fineChn : ChnAnswers :=
  ⟨true, true, true, true, 16, fun _ => false, fun _ => false, fine, fine, true,
    fun _ => allocVencChn_nonneg (Nat.succ_pos 15) rfl⟩

/-- A channel whose sub stream waits for viewers. -/
def viewed : Options := ⟨0, false, true, false, true, false, 5⟩

/-- The pipeline starts and a viewer asks for the sub stream. -/
def viewing : List Label :=
  [.start true ⟨true, true, fineChn⟩, .boot ⟨fine, true, true, true⟩, .run,
    .setStreamActive 0 SUB_STREAM_ID true fine]

/-- The state after the labels. -/
def reached (o : Options) (labels : List Label) : State := (run (step o) init labels).getD init

theorem run_reached (h : (run (step o) init labels).isSome = true) :
    run (step o) init labels = some (reached o labels) := by
  obtain ⟨s, hs⟩ := Option.isSome_iff_exists.mp h
  rw [reached, hs, Option.getD_some]

/-- With a viewer the list holds both encoders, and the capture goes on. -/
theorem capture_list_viewed :
    (reached viewed viewing).capture.vencs = [⟨0, 0⟩, ⟨1, 1⟩] ∧
    (reached viewed viewing).capture.captureThread = true ∧
    (reached viewed viewing).capture.changedInFlight = false := by
  have hrun : run (step viewed) init viewing = some (reached viewed viewing) :=
    run_reached (by decide +kernel)
  exact ⟨rfl, rfl, (capture_list_guarded hrun).1⟩

/-! ### Demand and the idle interval -/

/-- Nobody wanted the sub stream in the idle interval that ends at `deadline`:
after its begin no state of the past demanded the stream, and no step of it was
a call for the stream. -/
def Unwanted (o : Options) (past : List (State × Label)) (deadline : ℕ) : Prop :=
  ∀ e ∈ past, deadline < e.1.now + o.idle →
    e.1.subStreamRequired = false ∧
      ∀ active sdk, e.2 ≠ .setStreamActive o.channelId SUB_STREAM_ID active sdk

/-- The wait of the stream worker, as an idle wait. -/
def subWatch (o : Options) : Watch State Label where
  wait s :=
    match s.streamWorker with
    | .waitIdle generation deadline => some (generation, deadline)
    | _ => none
  generation := streamGeneration
  stop := streamWorkerStop
  wanted := subStreamRequired
  now := now
  call label := o.subEnable = true ∧
    ∃ active sdk, label = .setStreamActive o.channelId SUB_STREAM_ID active sdk

/-- The invariant of the demand for the sub stream, with the past of a state. -/
structure Demand (o : Options) (past : List (State × Label)) (s : State) : Prop where
  inv : Inv s
  enabled : s.hasSub = true → o.subEnable = true
  booted : s.owner = .capturing → (o.subEnable && o.subBoot) = true →
    s.subStreamRunning = true
  demanded : s.running = true → s.subStreamRequired = true → s.subStreamRunning = true
  clock : (subWatch o).Clocked past s
  waiting : (subWatch o).Waiting o.idle past s

theorem demand_init : Demand o [] init where
  inv := inv_init
  enabled := fun h => by simp [hasSub, init] at h
  booted := fun h => by simp [init] at h
  demanded := fun h => by simp [init] at h
  clock := Watch.clocked_nil init
  waiting := Watch.waiting_of_none rfl

variable {past : List (State × Label)} {label : Label}

/-- The step is a call of `set_stream_active`. -/
def Label.setsStreamActive : Label → Bool
  | .setStreamActive .. => true
  | _ => false

/-- Every other step is no call for the sub stream. -/
theorem not_call (h : label.setsStreamActive = false) : ¬ (subWatch o).call label := by
  rintro ⟨-, active, sdk, rfl⟩
  simp [Label.setsStreamActive] at h

/-- Without a channel there is nothing to say about the sub encoder. -/
theorem Demand.of_bare (hinv : Inv t) (hbare : t.encodedChannel = none)
    (howner : t.owner ≠ .capturing) (hoff : t.running = false)
    (hclock : (subWatch o).Clocked past t) (hwaiting : (subWatch o).Waiting o.idle past t) :
    Demand o past t where
  inv := hinv
  enabled := fun h => by simp [hasSub, hbare] at h
  booted := fun h => absurd h howner
  demanded := fun h => by simp [hoff] at h
  clock := hclock
  waiting := hwaiting

/-- A worker that runs its loop waits with the generation of now. -/
theorem waiting_of_loop (hclock : (subWatch o).Clocked past s) :
    (subWatch o).Waiting o.idle (past ++ [(s, label)])
      { s with streamWorker := s.streamLoop o } := by
  refine Watch.waiting_of_entered hclock fun generation deadline hwait => ?_
  simp only [subWatch, streamLoop] at hwait ⊢
  -- the two other ways out of the loop are no idle wait
  split_ifs at hwait with hstop hrequired
  obtain ⟨rfl, rfl⟩ := by simpa using hwait
  exact ⟨rfl, rfl, by simpa using hrequired⟩

/-- The sub encoder runs. -/
def State.subEncoderRuns (s : State) : Bool := s.encodedChannel.any (·.subRuns)

theorem subStreamRunning_eq (h : Encoding s) : s.subStreamRunning = s.subEncoderRuns := by
  rcases hc : s.encodedChannel with _ | c
  · simp [subStreamRunning, subEncoderRuns, hc]
  · simpa [subStreamRunning, subEncoderRuns, hc] using (h.tidy c hc).flag

theorem hasSub_of_runs (h : s.subEncoderRuns = true) : s.hasSub = true := by
  rcases hc : s.encodedChannel with _ | c
  · simp [subEncoderRuns, hc] at h
  · rcases hsub : c.sub with _ | sub
    · simp [subEncoderRuns, Chn.subRuns, hc, hsub] at h
    · simp [hasSub, hc, hsub]

/-- What the worker has found when it ends the sub stream. -/
theorem stream_unchanged {generation : ℕ} (h : s.streamChanged generation = false) :
    s.streamWorkerStop = false ∧ s.subStreamRequired = false ∧
      s.streamGeneration = generation := by
  simpa [streamChanged, and_assoc] using h

/-- A worker that is woken runs its loop or goes on waiting. -/
theorem streamNext_cases {w : StreamWorker} (h : s.streamNext o = some w) :
    w = s.streamLoop o ∨ w = s.streamWorker := by
  rw [streamNext] at h
  split at h
  · exact .inl (Option.some_inj.mp h).symm
  · exact .inl (Option.some_inj.mp h).symm
  · split_ifs at h
    · exact .inl (Option.some_inj.mp h).symm
    · exact .inr (Option.some_inj.mp h).symm
  · split_ifs at h
    · exact .inl (Option.some_inj.mp h).symm
    · exact .inr (Option.some_inj.mp h).symm
  · simp at h
  · simp at h

/-- The call that raises or withdraws the demand. -/
theorem demand_setStreamActive (h : Demand o past s) {channelId streamId : ℤ}
    {active ok : Bool} {sdk : VencAnswers}
    (hcall : s.setStreamActive o channelId streamId active sdk = (ok, t)) (hinv : Inv t)
    (hclock : s.now ≤ t.now → (subWatch o).Clocked
      (past ++ [(s, .setStreamActive channelId streamId active sdk)]) t) :
    Demand o (past ++ [(s, .setStreamActive channelId streamId active sdk)]) t := by
  rcases setStreamActive_cases hcall with
    ⟨rfl, hrefused⟩ | ⟨hai, -, rfl⟩ | ⟨-, hon, rfl, rfl⟩ | ⟨-, hon, rfl, v, hswitch, rfl⟩
  · -- a refused call is none for a sub stream that the worker could end
    refine ⟨hinv, h.enabled, h.booted, h.demanded, hclock (Nat.le_refl _),
      Watch.waiting_of_same h.waiting rfl rfl rfl rfl ?_⟩
    rintro hwait hgo ⟨henable, act, sdk', hlabel⟩
    obtain ⟨rfl, rfl, -, -⟩ := by simpa using hlabel
    have hrunning := h.inv.phase.running_of_worker
      (fun hno => by simp [subWatch, hno.1] at hwait) (.inl hgo)
    have hnone := hrefused rfl rfl henable hrunning
    simpa [hnone] using (h.inv.phase.on_of_running hrunning).2.1
  · refine ⟨hinv, h.enabled, h.booted, h.demanded, hclock (Nat.le_refl _),
      Watch.waiting_of_same h.waiting rfl rfl rfl rfl ?_⟩
    rintro - - ⟨-, act, sdk', hlabel⟩
    obtain ⟨-, rfl, -, -⟩ := by simpa using hlabel
    exact absurd hai (by decide)
  · exact ⟨hinv, h.enabled, h.booted, fun _ hasked => absurd hasked (by simp),
      hclock (Nat.le_refl _), Watch.waiting_of_moved h.waiting rfl (Nat.lt_succ_self _)⟩
  · have hidle := (h.inv.phase.on_of_running hon).1
    have hasked : Encoding { s with
        subStreamRequired := true, streamGeneration := s.streamGeneration + 1 } :=
      h.inv.encoding.congr rfl rfl
    obtain ⟨channel, capture, rfl, -, -, -, hsub, hflag, -⟩ :=
      setSubStreamEnabled_spec hasked hswitch
    cases ok with
    | true =>
      exact ⟨hinv, fun hsome => h.enabled (hsub ▸ hsome), fun how => absurd how (by simp [hidle]),
        fun _ _ => hflag, hclock (Nat.le_refl _),
        Watch.waiting_of_moved h.waiting rfl (Nat.lt_succ_self _)⟩
    | false =>
      -- the demand is withdrawn in the same section that raised it
      exact ⟨hinv, fun hsome => h.enabled (hsub ▸ hsome), fun how => absurd how (by simp [hidle]),
        fun _ hasked => absurd hasked (by simp), hclock (Nat.le_refl _),
        Watch.waiting_of_moved h.waiting rfl (Nat.lt_succ_of_lt (Nat.lt_succ_self _))⟩

/-- **Every step keeps the invariant of the demand.** -/
theorem demand_step (h : Demand o past s) (hstep : step o s label = some t) :
    Demand o (past ++ [(s, label)]) t := by
  have hinv := inv_step h.inv hstep
  have hclock : s.now ≤ t.now → (subWatch o).Clocked (past ++ [(s, label)]) t :=
    Watch.clocked_step h.clock
  -- nothing that the demand speaks of belongs to the AI worker
  by_cases hby : label.byAiWorker = true
  · obtain ⟨-, _, _, _, _, _, _, rfl⟩ := aiWorker_frame hby hstep
    refine ⟨hinv, h.enabled, h.booted, h.demanded, hclock (Nat.le_refl _), ?_⟩
    refine Watch.waiting_of_same h.waiting rfl rfl rfl rfl ?_
    rintro - - ⟨-, active, sdk, rfl⟩
    simp [Label.byAiWorker] at hby
  cases label with
  | start source answers =>
    obtain ⟨howner, rfl⟩ := by simpa [step] using hstep
    rcases start_cases s source answers with
      heq | ⟨hoff, capture, next, heq⟩ | ⟨hoff, c, capture, next, hsub, heq⟩
    · rw [heq] at hinv hclock ⊢
      exact ⟨hinv, h.enabled, h.booted, h.demanded, hclock (Nat.le_refl _),
        Watch.waiting_of_same h.waiting rfl rfl rfl rfl fun _ _ => not_call rfl⟩
    · rw [heq] at hinv hclock ⊢
      exact .of_bare hinv rfl (by simp) hoff (hclock (Nat.le_refl _))
        (Watch.waiting_of_same h.waiting rfl rfl rfl rfl fun _ _ => not_call rfl)
    · rw [heq] at hinv hclock ⊢
      exact ⟨hinv, fun hsome => hsub (by simpa [hasSub] using hsome),
        fun how => absurd how (by simp), fun hon => absurd hon (by simp [hoff]),
        hclock (Nat.le_refl _),
        Watch.waiting_of_same h.waiting rfl rfl rfl rfl fun _ _ => not_call rfl⟩
  | boot answers =>
    obtain ⟨howner, rfl⟩ := by simpa [step] using hstep
    have hoff := h.inv.phase.not_running (by simp [howner])
    rcases boot_cases h.inv.encoding answers with
      ⟨capture, heq⟩ | ⟨channel, capture, svp, publisher, heq, hsub, hboot⟩
    · rw [heq] at hinv hclock ⊢
      exact .of_bare hinv rfl (by simp) hoff (hclock (Nat.le_refl _))
        (Watch.waiting_of_same h.waiting rfl rfl rfl rfl fun _ _ => not_call rfl)
    · rw [heq] at hinv hclock hsub hboot ⊢
      -- the pipeline does not run before `run`, so nothing is demanded so far
      exact ⟨hinv, fun hsome => h.enabled (hsub ▸ hsome), fun _ => hboot,
        fun hon => absurd hon (by simp [hoff]), hclock (Nat.le_refl _),
        Watch.waiting_of_same h.waiting rfl rfl rfl rfl fun _ _ => not_call rfl⟩
  | run =>
    obtain ⟨howner, rfl⟩ := by simpa [step] using hstep
    exact ⟨hinv, h.enabled, fun how => absurd how (by simp [runWorkers]), fun _ => h.booted howner,
      hclock (Nat.le_refl _), Watch.waiting_of_none rfl⟩
  | beginStop =>
    obtain ⟨-, rfl⟩ := by simpa [step] using hstep
    rw [beginStop] at hinv hclock ⊢
    split at hinv
    next hnothing =>
      rw [if_pos hnothing] at hclock ⊢
      exact ⟨hinv, h.enabled, h.booted, h.demanded, hclock (Nat.le_refl _),
        Watch.waiting_of_same h.waiting rfl rfl rfl rfl fun _ _ => not_call rfl⟩
    next hsomething =>
      rw [if_neg hsomething] at hclock ⊢
      exact ⟨hinv, h.enabled, fun how => absurd how (by simp), fun hon => absurd hon (by simp),
        hclock (Nat.le_refl _), Watch.waiting_of_moved h.waiting rfl (Nat.lt_succ_self _)⟩
  | finishStop =>
    obtain ⟨⟨howner, -⟩, rfl⟩ := by simpa [step] using hstep
    have hoff := h.inv.phase.not_running (by simp [howner])
    obtain ⟨capture, heq⟩ := finishStop_eq s
    rw [heq] at hinv hclock ⊢
    exact .of_bare hinv rfl (by simp) hoff (hclock (Nat.le_refl _)) (Watch.waiting_of_none rfl)
  | setStreamActive channelId streamId active sdk =>
    have ht := Option.some_inj.mp hstep
    rcases hcall : s.setStreamActive o channelId streamId active sdk with ⟨ok, u⟩
    rw [hcall] at ht
    obtain rfl : u = t := ht
    exact demand_setStreamActive h hcall hinv hclock
  | streamWake =>
    obtain ⟨w, hw, rfl⟩ := Option.map_eq_some_iff.mp hstep
    refine ⟨hinv, h.enabled, h.booted, h.demanded, hclock (Nat.le_refl _), ?_⟩
    rcases streamNext_cases hw with rfl | rfl
    · exact waiting_of_loop h.clock
    · exact Watch.waiting_of_same h.waiting rfl rfl rfl rfl fun _ _ => not_call rfl
  | streamTimeout sdk =>
    obtain ⟨generation, deadline, hworker, -, ⟨-, rfl⟩ | ⟨hquiet, ok, u, hswitch, rfl⟩⟩ :=
      streamTimeout_cases hstep
    · exact ⟨hinv, h.enabled, h.booted, h.demanded, hclock (Nat.le_refl _),
        waiting_of_loop h.clock⟩
    · obtain ⟨channel, capture, rfl, -, -, -, hsub, -⟩ :=
        setSubStreamEnabled_spec h.inv.encoding hswitch
      obtain ⟨hgo, hrequired, -⟩ := stream_unchanged hquiet
      -- the worker gives up only while nobody requires the sub stream
      have hrunning := h.inv.phase.running_of_worker
        (fun hno => by simp [NoWorkers, hworker] at hno) (.inl hgo)
      have hidle := (h.inv.phase.on_of_running hrunning).1
      exact ⟨hinv, fun hsome => h.enabled (hsub ▸ hsome), fun how => absurd how (by simp [hidle]),
        fun _ hreq => absurd hreq (by simp [hrequired]), hclock (Nat.le_refl _),
        Watch.waiting_of_none rfl⟩
  | captureExits =>
    obtain rfl := Option.some_inj.mp hstep
    exact ⟨hinv, h.enabled, h.booted, h.demanded, hclock (Nat.le_refl _),
      Watch.waiting_of_same h.waiting rfl rfl rfl rfl fun _ _ => not_call rfl⟩
  | tick elapsed =>
    obtain rfl := Option.some_inj.mp hstep
    exact ⟨hinv, h.enabled, h.booted, h.demanded, hclock (Nat.le_add_right _ _),
      Watch.waiting_of_same h.waiting rfl rfl rfl rfl fun _ _ => not_call rfl⟩
  | _ => exact absurd rfl hby

/-- The steps of `stream_lifecycle_worker`. -/
def Label.byStreamWorker : Label → Bool
  | .streamWake | .streamTimeout _ => true
  | _ => false

/-- **The sub encoder follows the demand.**  In every run of a pipeline that is
running, a demanded sub stream is encoded; and when the worker ends the sub
encoder, then throughout the idle interval before it the stream was not demanded
and nobody called `set_stream_active` for it. -/
theorem sub_encoder_follows_demand (hrun : run (step o) init labels = some s) :
    (s.running = true → s.subStreamRequired = true → s.subEncoderRuns = true) ∧
    ∀ label t, label.byStreamWorker = true → step o s label = some t →
      s.subEncoderRuns = true → t.subEncoderRuns = false →
        s.subStreamRequired = false ∧ Unwanted o (trace (step o) init labels) s.now := by
  have h : Demand o (trace (step o) init labels) s :=
    run_trace_invariant (fun past s i t h hstep => demand_step h hstep) demand_init hrun
  refine ⟨fun hon hrequired => ?_, fun label t hby hstep hruns hended => ?_⟩
  · rw [← subStreamRunning_eq h.inv.encoding]
    exact h.demanded hon hrequired
  cases label with
  | streamWake =>
    obtain ⟨w, -, rfl⟩ := Option.map_eq_some_iff.mp hstep
    exact absurd (hruns.symm.trans hended) (by decide)
  | streamTimeout sdk =>
    obtain ⟨generation, deadline, hworker, hdue, ⟨-, rfl⟩ | ⟨hquiet, -⟩⟩ :=
      streamTimeout_cases hstep
    · exact absurd (hruns.symm.trans hended) (by decide)
    · obtain ⟨hgo, hrequired, hgeneration⟩ := stream_unchanged hquiet
      have henable := h.enabled (hasSub_of_runs hruns)
      have hwait : (subWatch o).wait s = some (generation, deadline) := by
        simp [subWatch, hworker]
      refine ⟨hrequired, fun e he hlate => ?_⟩
      obtain ⟨hoff, hcall⟩ := Watch.unwanted_of_due h.waiting hwait hgo hgeneration hdue e he hlate
      exact ⟨hoff, fun active sdk hlabel => hcall ⟨henable, active, sdk, hlabel⟩⟩
  | _ => exact absurd hby Bool.false_ne_true

/-- The viewer leaves and the interval of the worker passes. -/
def leaving : List Label :=
  [.streamWake, .setStreamActive 0 SUB_STREAM_ID false fine, .streamWake, .tick 5000000000]

/-- A viewer comes and goes; five seconds later the worker ends the encoder. -/
theorem idle_interval : ∃ s t, run (step viewed) init (viewing ++ leaving) = some s ∧
    step viewed s (.streamTimeout fine) = some t ∧ s.subEncoderRuns = true ∧
    t.subEncoderRuns = false ∧
    Unwanted viewed (trace (step viewed) init (viewing ++ leaving)) s.now := by
  have hrun : run (step viewed) init (viewing ++ leaving) =
      some (reached viewed (viewing ++ leaving)) := run_reached (by decide +kernel)
  have hstep := (run_concat hrun (.streamTimeout fine)).symm.trans
    (run_reached (by decide +kernel))
  have hruns : (reached viewed (viewing ++ leaving)).subEncoderRuns = true := by decide +kernel
  have hended : (reached viewed (viewing ++ leaving ++ [.streamTimeout fine])).subEncoderRuns =
      false := by decide +kernel
  exact ⟨_, _, hrun, hstep, hruns, hended,
    ((sub_encoder_follows_demand hrun).2 _ _ rfl hstep hruns hended).2⟩

end IpcMini.HisiliconPipeline
