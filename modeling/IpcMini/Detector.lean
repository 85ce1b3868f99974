/-
Starting and ending the detector while its demand moves.

Loading the model takes seconds and happens outside of `stream_mutex_`
(`start_yolov8_async`), so the demand for the AI stream can come and go any
number of times, and `stop` can begin, while a detector is being started.  The
worker notes the generation of the demand before the load and compares it
afterwards.

* `aiWatch` — the wait of the AI worker as an instance of `IdleWait`;
* `Detecting` — the detectors that are started are that of the worker and the
  published one, and `detecting_step`: every step keeps it;
* `Doomed` — a detector that came too late;
* **`one_detector`** — at most one detector is started, late ones are stopped
  and never published, a published one ends after an idle interval or by
  `stop`, which leaves none.
-/
import IpcMini.SubStream

namespace IpcMini.HisiliconPipeline

open Interleaving State

variable {o : Options} {s t u : State} {labels : List Label} {label : Label}
  {past : List (State × Label)}

/-- The detector that the worker has in hand. -/
def AiWorker.detector : AiWorker → Option ℕ
  | .loading _ detector | .loaded _ detector => some detector
  | _ => none

/-- The generation of the demand that the worker is serving. -/
def AiWorker.attempt : AiWorker → Option ℕ
  | .starting generation | .loading generation _ | .loaded generation _ => some generation
  | _ => none

/-- The wait of the AI worker, as an idle wait. -/
def aiWatch : Watch State Label where
  wait s :=
    match s.aiWorker with
    | .waitIdle generation deadline => some (generation, deadline)
    | _ => none
  generation := aiGeneration
  stop := aiWorkerStop
  wanted := aiStreamRequired
  now := now
  call _ := False

/-- The detectors of a state, and what its AI worker knows. -/
structure Detecting (o : Options) (past : List (State × Label)) (s : State) : Prop where
  inv : Inv s
  owned : s.detectors = s.aiWorker.detector.toList ++ s.yolov8.toList
  unpublished : s.aiWorker.attempt.isSome = true → s.yolov8 = none
  current : ∀ generation ∈ s.aiWorker.attempt, generation ≤ s.aiGeneration ∧
    (s.aiGeneration = generation → s.aiStreamRequired = true ∧ s.aiWorkerStop = false)
  numbered : ∀ detector ∈ s.detectors, detector < s.nextDetector
  quiet : s.running = false → s.owner ≠ .stopping → s.detectors = []
  clock : aiWatch.Clocked past s
  waiting : aiWatch.Waiting o.idle past s

theorem detecting_init : Detecting o [] init where
  inv := inv_init
  owned := rfl
  unpublished := fun _ => rfl
  current := fun generation h => by simp [init, AiWorker.attempt] at h
  numbered := fun detector h => by simp [init] at h
  quiet := fun _ _ => rfl
  clock := Watch.clocked_nil init
  waiting := Watch.waiting_of_none rfl

/-- Without a detector in hand, ending the published one leaves none. -/
theorem otherDetectors_nil (h : s.detectors = s.yolov8.toList) : s.otherDetectors = [] := by
  rw [otherDetectors, h]
  rcases s.yolov8 with _ | detector
  · rfl
  · simp

/-- **Where the loop of the worker leads.** -/
theorem aiLoop_cases (o : Options) (s : State) :
    s.aiLoop o = .returned ∨ s.aiLoop o = .waiting ∨
    (s.aiLoop o = .starting s.aiGeneration ∧ s.aiWorkerStop = false ∧
      s.aiStreamRequired = true ∧ s.yolov8 = none) ∨
    (s.aiLoop o = .waitIdle s.aiGeneration (s.now + o.idle) ∧
      s.aiStreamRequired = false) := by
  rw [aiLoop]
  split_ifs with hstop hstart hidle
  · exact .inl rfl
  · obtain ⟨hrequired, hnone⟩ := by simpa using hstart
    exact .inr (.inr (.inl ⟨rfl, by simpa using hstop, hrequired, hnone⟩))
  · obtain ⟨hrequired, -⟩ := by simpa using hidle
    exact .inr (.inr (.inr ⟨rfl, hrequired⟩))
  · exact .inr (.inl rfl)

/-- With a worker that serves no demand. -/
theorem Detecting.of_unattempted (hinv : Inv t)
    (howned : t.detectors = t.aiWorker.detector.toList ++ t.yolov8.toList)
    (hattempt : t.aiWorker.attempt = none)
    (hnumbered : ∀ detector ∈ t.detectors, detector < t.nextDetector)
    (hquiet : t.running = false → t.owner ≠ .stopping → t.detectors = [])
    (hclock : aiWatch.Clocked past t) (hwaiting : aiWatch.Waiting o.idle past t) :
    Detecting o past t where
  inv := hinv
  owned := howned
  unpublished := fun h => by simp [hattempt] at h
  current := fun generation h => by simp [hattempt] at h
  numbered := hnumbered
  quiet := hquiet
  clock := hclock
  waiting := hwaiting

/-- A worker that runs its loop with no detector in hand. -/
theorem detecting_of_loop (hclock : aiWatch.Clocked past s) (hnow : t.now = s.now)
    (hinv : Inv { t with aiWorker := t.aiLoop o }) (howned : t.detectors = t.yolov8.toList)
    (hnumbered : ∀ detector ∈ t.detectors, detector < t.nextDetector)
    (hquiet : t.running = false → t.owner ≠ .stopping → t.detectors = []) :
    Detecting o (past ++ [(s, label)]) { t with aiWorker := t.aiLoop o } := by
  have hclock' : aiWatch.Clocked (past ++ [(s, label)]) { t with aiWorker := t.aiLoop o } :=
    Watch.clocked_step hclock (Nat.le_of_eq hnow.symm)
  rcases aiLoop_cases o t with hloop | hloop | ⟨hloop, hgo, hrequired, hnone⟩ | ⟨hloop, hoff⟩
  · rw [hloop] at hinv hclock' ⊢
    exact .of_unattempted hinv howned rfl hnumbered hquiet hclock' (Watch.waiting_of_none rfl)
  · rw [hloop] at hinv hclock' ⊢
    exact .of_unattempted hinv howned rfl hnumbered hquiet hclock' (Watch.waiting_of_none rfl)
  · rw [hloop] at hinv hclock' ⊢
    refine ⟨hinv, howned, fun _ => hnone, ?_, hnumbered, hquiet, hclock',
      Watch.waiting_of_none rfl⟩
    intro generation hattempt
    obtain rfl : t.aiGeneration = generation := by simpa [AiWorker.attempt] using hattempt
    exact ⟨Nat.le_refl _, fun _ => ⟨hrequired, hgo⟩⟩
  · rw [hloop] at hinv hclock' ⊢
    refine .of_unattempted hinv howned rfl hnumbered hquiet hclock'
      (Watch.waiting_of_entered hclock fun generation deadline hwait => ?_)
    obtain ⟨rfl, rfl⟩ := by simpa [aiWatch] using hwait
    exact ⟨rfl, by rw [hnow]; rfl, hoff⟩

/-- A step of another thread: the detectors and the worker stay, the demand stays
or its generation passes. -/
structure Kept (s t : State) : Prop where
  worker : t.aiWorker = s.aiWorker
  detectors : t.detectors = s.detectors
  yolov8 : t.yolov8 = s.yolov8
  next : t.nextDetector = s.nextDetector
  demand : (t.aiGeneration = s.aiGeneration ∧ t.aiStreamRequired = s.aiStreamRequired ∧
      t.aiWorkerStop = s.aiWorkerStop) ∨ s.aiGeneration < t.aiGeneration
  quiet : t.running = false → t.owner ≠ .stopping → s.detectors = []
  now : s.now ≤ t.now

theorem Detecting.of_kept (h : Detecting o past s) (hinv : Inv t) (hkept : Kept s t) :
    Detecting o (past ++ [(s, label)]) t where
  inv := hinv
  owned := by rw [hkept.detectors, hkept.worker, hkept.yolov8]; exact h.owned
  unpublished := by rw [hkept.worker, hkept.yolov8]; exact h.unpublished
  current := by
    intro generation hattempt
    rw [hkept.worker] at hattempt
    obtain ⟨hle, hcurrent⟩ := h.current generation hattempt
    rcases hkept.demand with ⟨hgeneration, hrequired, hstop⟩ | hpassed
    · rw [hgeneration, hrequired, hstop]
      exact ⟨hle, hcurrent⟩
    · exact ⟨by omega, fun hsame => by omega⟩
  numbered := by rw [hkept.detectors, hkept.next]; exact h.numbered
  quiet := by rw [hkept.detectors]; exact hkept.quiet
  clock := Watch.clocked_step h.clock hkept.now
  waiting := by
    have hwait : aiWatch.wait t = aiWatch.wait s := by simp [aiWatch, hkept.worker]
    rcases hkept.demand with ⟨hgeneration, hrequired, hstop⟩ | hpassed
    · exact Watch.waiting_of_same h.waiting hwait hgeneration hstop hrequired fun _ _ hcall => hcall
    · exact Watch.waiting_of_moved h.waiting hwait hpassed

/-- With a detector in hand, giving it up leaves the published ones. -/
theorem erase_owned {detector : ℕ} (h : s.detectors = [detector] ++ s.yolov8.toList) :
    s.detectors.erase detector = s.yolov8.toList := by
  rw [h, List.singleton_append, List.erase_cons_head]

/-- **The steps of the AI worker** keep the detectors in order. -/
theorem detecting_ai_step (h : Detecting o past s) (hby : label.byAiWorker = true)
    (hstep : step o s label = some t) : Detecting o (past ++ [(s, label)]) t := by
  have hinv := inv_step h.inv hstep
  have hpresent := (aiWorker_frame hby hstep).1
  -- the worker of a pipeline that is not running is being stopped
  have hquiet : ∀ {P : Prop}, s.running = false → s.owner ≠ .stopping → P := by
    intro P hoff hgo
    rcases h.inv.phase.of_worker (fun hno => hpresent hno.2) with hon | hstopping
    · exact absurd (hoff.symm.trans hon) (by decide)
    · exact absurd hstopping hgo
  have hclock : ∀ {t}, t.now = s.now → aiWatch.Clocked (past ++ [(s, label)]) t :=
    fun hnow => Watch.clocked_step h.clock (Nat.le_of_eq hnow.symm)
  have howned := h.owned
  have hunpublished := h.unpublished
  have hcurrent := h.current
  cases ai_step_cases hby hstep with
  | loops worker =>
    have hnone : s.aiWorker.detector = none := by
      rcases worker with worker | worker | ⟨generation, deadline, worker⟩ <;> rw [worker] <;> rfl
    rw [hnone] at howned
    exact detecting_of_loop h.clock rfl hinv howned h.numbered fun hoff hgo => hquiet hoff hgo
  | waits worker =>
    exact h.of_kept hinv ⟨rfl, rfl, rfl, rfl, .inl ⟨rfl, rfl, rfl⟩, h.quiet, Nat.le_refl _⟩
  | ends worker due unchanged =>
    rw [worker] at howned
    have hnil := otherDetectors_nil howned
    rw [stopYolov8Locked_eq] at hinv ⊢
    refine detecting_of_loop h.clock rfl hinv hnil ?_ fun _ _ => hnil
    intro detector hmem
    exact absurd hmem (by simp [hnil])
  | refuses worker =>
    rw [worker] at howned
    exact .of_unattempted hinv howned rfl h.numbered (fun hoff hgo => hquiet hoff hgo)
      (hclock rfl) (Watch.waiting_of_none rfl)
  -- the new detector is the youngest, and is not yet stored in `yolov8`
  | begins worker =>
    rw [worker] at howned hunpublished hcurrent
    refine ⟨hinv, ?_, hunpublished, hcurrent, ?_, fun hoff hgo => hquiet hoff hgo,
      hclock rfl, Watch.waiting_of_none rfl⟩
    · show s.nextDetector :: s.detectors = s.nextDetector :: s.yolov8.toList
      rw [howned]
      rfl
    · intro detector hmem
      rcases List.mem_cons.mp hmem with rfl | hmem
      · exact Nat.lt_succ_self _
      · exact Nat.lt_succ_of_lt (h.numbered detector hmem)
  | loads worker =>
    rw [worker] at howned hunpublished hcurrent
    exact ⟨hinv, howned, hunpublished, hcurrent, h.numbered, fun hoff hgo => hquiet hoff hgo,
      hclock rfl, Watch.waiting_of_none rfl⟩
  | fails worker =>
    rw [worker] at howned
    exact .of_unattempted hinv (erase_owned howned) rfl
      (fun d hd => h.numbered d (List.mem_of_mem_erase hd)) (fun hoff hgo => hquiet hoff hgo)
      (hclock rfl) (Watch.waiting_of_none rfl)
  | drops worker =>
    rw [worker] at howned
    exact .of_unattempted hinv (erase_owned howned) rfl
      (fun d hd => h.numbered d (List.mem_of_mem_erase hd)) (fun hoff hgo => hquiet hoff hgo)
      (hclock rfl) (Watch.waiting_of_none rfl)
  | publishes worker current =>
    rw [worker] at howned hunpublished
    rw [hunpublished rfl] at howned
    exact .of_unattempted hinv howned rfl h.numbered (fun hoff hgo => hquiet hoff hgo)
      (hclock rfl) (Watch.waiting_of_none rfl)
  | relocks worker =>
    rw [worker] at howned
    exact detecting_of_loop h.clock rfl hinv howned h.numbered fun hoff hgo => hquiet hoff hgo
  | withdraws worker =>
    rw [worker] at howned
    exact detecting_of_loop (t := s.withdrawAi) h.clock rfl hinv howned h.numbered
      fun hoff hgo => hquiet hoff hgo

/-- Nothing has been started in the parts of `start`. -/
theorem Detecting.none_started (h : Detecting o past s) (hrunning : s.running = false)
    (howner : s.owner ≠ .stopping) :
    s.detectors = [] ∧ s.yolov8 = none ∧ s.otherDetectors = [] := by
  have hnil := h.quiet hrunning howner
  have hparts : s.aiWorker.detector.toList ++ s.yolov8.toList = [] := h.owned.symm.trans hnil
  have hnone : s.yolov8 = none := by
    simpa using (List.append_eq_nil_iff.mp hparts).2
  exact ⟨hnil, hnone, by rw [otherDetectors, hnone, hnil]; rfl⟩

/-- Threads that can be joined have no detector in hand. -/
theorem Detecting.owned_of_joinable (h : Detecting o past s) (hjoin : s.joinable = true) :
    s.detectors = s.yolov8.toList := by
  have hworker : s.aiWorker = .absent ∨ s.aiWorker = .returned := by
    have hboth := hjoin
    simp only [joinable, Bool.and_eq_true, Bool.or_eq_true, beq_iff_eq] at hboth
    exact hboth.2
  have howned := h.owned
  rcases hworker with hworker | hworker
  · rw [hworker] at howned
    exact howned
  · rw [hworker] at howned
    exact howned

/-- The worker has a detector in hand only without a published one. -/
theorem Detecting.at_most_one (h : Detecting o past s) : s.detectors.length ≤ 1 := by
  rw [h.owned, List.length_append]
  cases hattempt : s.aiWorker.attempt with
  | some generation =>
    rw [h.unpublished (by simp [hattempt])]
    cases s.aiWorker.detector <;> simp
  | none =>
    have hnone : s.aiWorker.detector = none := by
      cases hworker : s.aiWorker <;>
        simp [hworker, AiWorker.attempt, AiWorker.detector] at hattempt ⊢
    rw [hnone]
    cases s.yolov8 <;> simp

/-- **The other threads** leave the detectors alone, but for the begin and the
end of the workers. -/
theorem kept_of_other (h : Detecting o past s) (hby : label.byAiWorker = false)
    (hrun : label ≠ .run) (hfinish : label ≠ .finishStop) (hstep : step o s label = some t) :
    Kept s t := by
  cases label with
  | start source answers =>
    obtain ⟨howner, rfl⟩ := by simpa [step] using hstep
    rcases start_cases s source answers with
      heq | ⟨hoff, capture, next, heq⟩ | ⟨hoff, c, capture, next, -, heq⟩
    · rw [heq]
      exact ⟨rfl, rfl, rfl, rfl, .inl ⟨rfl, rfl, rfl⟩, h.quiet, Nat.le_refl _⟩
    · -- the cleanup of a failed start finds no detector to end
      obtain ⟨hnil, hnone, hother⟩ := h.none_started hoff (by simp [howner])
      rw [heq]
      exact ⟨rfl, hother.trans hnil.symm, hnone.symm, rfl, .inl ⟨rfl, rfl, rfl⟩,
        fun _ _ => hnil, Nat.le_refl _⟩
    · rw [heq]
      exact ⟨rfl, rfl, rfl, rfl, .inl ⟨rfl, rfl, rfl⟩,
        fun _ _ => h.quiet hoff (by simp [howner]), Nat.le_refl _⟩
  | boot answers =>
    obtain ⟨howner, rfl⟩ := by simpa [step] using hstep
    have hoff := h.inv.phase.not_running (by simp [howner])
    obtain ⟨hnil, hnone, hother⟩ := h.none_started hoff (by simp [howner])
    rcases boot_cases h.inv.encoding answers with
      ⟨capture, heq⟩ | ⟨channel, capture, svp, publisher, heq, -, -⟩
    · rw [heq]
      exact ⟨rfl, hother.trans hnil.symm, hnone.symm, rfl, .inl ⟨rfl, rfl, rfl⟩,
        fun _ _ => hnil, Nat.le_refl _⟩
    · rw [heq]
      exact ⟨rfl, rfl, rfl, rfl, .inl ⟨rfl, rfl, rfl⟩, fun _ _ => hnil, Nat.le_refl _⟩
  | beginStop =>
    obtain ⟨-, rfl⟩ := by simpa [step] using hstep
    rw [beginStop]
    split
    · exact ⟨rfl, rfl, rfl, rfl, .inl ⟨rfl, rfl, rfl⟩, h.quiet, Nat.le_refl _⟩
    · -- `stop` steps both generations
      exact ⟨rfl, rfl, rfl, rfl, .inr (Nat.lt_succ_self _), fun _ hgo => absurd rfl hgo,
        Nat.le_refl _⟩
  | setStreamActive channelId streamId active sdk =>
    have ht := Option.some_inj.mp hstep
    rcases hcall : s.setStreamActive o channelId streamId active sdk with ⟨ok, u⟩
    rw [hcall] at ht
    obtain rfl : u = t := ht
    rcases setStreamActive_cases hcall with
      ⟨rfl, -⟩ | ⟨-, hon, rfl⟩ | ⟨-, hon, -, rfl⟩ | ⟨-, hon, -, v, hswitch, rfl⟩
    · exact ⟨rfl, rfl, rfl, rfl, .inl ⟨rfl, rfl, rfl⟩, h.quiet, Nat.le_refl _⟩
    · exact ⟨rfl, rfl, rfl, rfl, .inr (Nat.lt_succ_self _), h.quiet, Nat.le_refl _⟩
    · exact ⟨rfl, rfl, rfl, rfl, .inl ⟨rfl, rfl, rfl⟩, h.quiet, Nat.le_refl _⟩
    · obtain ⟨channel, capture, hv⟩ := setSubStreamEnabled_eq { s with
        subStreamRequired := true, streamGeneration := s.streamGeneration + 1 } true sdk
      rw [hswitch] at hv
      obtain rfl : v = _ := hv
      cases ok with
      | true => exact ⟨rfl, rfl, rfl, rfl, .inl ⟨rfl, rfl, rfl⟩, h.quiet, Nat.le_refl _⟩
      | false => exact ⟨rfl, rfl, rfl, rfl, .inl ⟨rfl, rfl, rfl⟩, h.quiet, Nat.le_refl _⟩
  | streamWake =>
    obtain ⟨w, -, rfl⟩ := Option.map_eq_some_iff.mp hstep
    exact ⟨rfl, rfl, rfl, rfl, .inl ⟨rfl, rfl, rfl⟩, h.quiet, Nat.le_refl _⟩
  | streamTimeout sdk =>
    obtain ⟨-, -, -, -, ⟨-, rfl⟩ | ⟨-, ok, u, hswitch, rfl⟩⟩ := streamTimeout_cases hstep
    · exact ⟨rfl, rfl, rfl, rfl, .inl ⟨rfl, rfl, rfl⟩, h.quiet, Nat.le_refl _⟩
    · obtain ⟨channel, capture, hu⟩ := setSubStreamEnabled_eq s false sdk
      rw [hswitch] at hu
      obtain rfl : u = _ := hu
      exact ⟨rfl, rfl, rfl, rfl, .inl ⟨rfl, rfl, rfl⟩, h.quiet, Nat.le_refl _⟩
  | captureExits =>
    obtain rfl := Option.some_inj.mp hstep
    exact ⟨rfl, rfl, rfl, rfl, .inl ⟨rfl, rfl, rfl⟩, h.quiet, Nat.le_refl _⟩
  | tick elapsed =>
    obtain rfl := Option.some_inj.mp hstep
    exact ⟨rfl, rfl, rfl, rfl, .inl ⟨rfl, rfl, rfl⟩, h.quiet, Nat.le_add_right _ _⟩
  | run => exact absurd rfl hrun
  | finishStop => exact absurd rfl hfinish
  | _ => simp [Label.byAiWorker] at hby

/-- The workers begin without a detector. -/
theorem detecting_run (h : Detecting o past s) (hstep : step o s .run = some t) :
    Detecting o (past ++ [(s, .run)]) t ∧ t.detectors = [] ∧ t.yolov8 = none ∧
      s.yolov8 = none := by
  have hinv := inv_step h.inv hstep
  obtain ⟨howner, rfl⟩ := by simpa [step] using hstep
  have hoff := h.inv.phase.not_running (by simp [howner])
  obtain ⟨hnil, hnone, -⟩ := h.none_started hoff (by simp [howner])
  obtain ⟨w, hw, hdetector, hattempt, hwait⟩ : ∃ w, (s.runWorkers o).aiWorker = w ∧
      w.detector = none ∧ w.attempt = none ∧ aiWatch.wait (s.runWorkers o) = none := by
    cases henable : o.aiEnable with
    | true => exact ⟨.fresh, by simp [runWorkers, henable], rfl, rfl,
        by simp [aiWatch, runWorkers, henable]⟩
    | false => exact ⟨.absent, by simp [runWorkers, henable], rfl, rfl,
        by simp [aiWatch, runWorkers, henable]⟩
  refine ⟨.of_unattempted hinv ?_ (hw ▸ hattempt) h.numbered ?_
    (Watch.clocked_step h.clock (Nat.le_refl _)) (Watch.waiting_of_none hwait), hnil, hnone, hnone⟩
  · rw [hw, hdetector]
    show s.detectors = _ ++ s.yolov8.toList
    rw [hnil, hnone]
    rfl
  · intro hoff
    simp [runWorkers] at hoff

/-- `stop` ends every detector. -/
theorem detecting_finishStop (h : Detecting o past s) (hstep : step o s .finishStop = some t) :
    Detecting o (past ++ [(s, .finishStop)]) t ∧ t.detectors = [] ∧ t.yolov8 = none := by
  have hinv := inv_step h.inv hstep
  obtain ⟨⟨-, hjoin⟩, rfl⟩ := by simpa [step] using hstep
  have hnil := otherDetectors_nil (h.owned_of_joinable hjoin)
  obtain ⟨capture, heq⟩ := finishStop_eq s
  rw [heq] at hinv ⊢
  refine ⟨.of_unattempted hinv hnil rfl ?_ (fun _ _ => hnil)
    (Watch.clocked_step h.clock (Nat.le_refl _)) (Watch.waiting_of_none rfl), hnil, rfl⟩
  intro detector hmem
  simp [hnil] at hmem

/-- **Every step keeps the detectors in order.** -/
theorem detecting_step (h : Detecting o past s) (hstep : step o s label = some t) :
    Detecting o (past ++ [(s, label)]) t := by
  cases hby : label.byAiWorker with
  | true => exact detecting_ai_step h hby hstep
  | false =>
    by_cases hrun : label = .run
    · subst hrun
      exact (detecting_run h hstep).1
    by_cases hfinish : label = .finishStop
    · subst hfinish
      exact (detecting_finishStop h hstep).1
    · exact h.of_kept (inv_step h.inv hstep) (kept_of_other h hby hrun hfinish hstep)

/-! ### Late detectors -/

/-- A detector that is not published, and whose worker, if it still has it in
hand, serves a generation that has passed. -/
structure Doomed (detector : ℕ) (s : State) : Prop where
  unpublished : s.yolov8 ≠ some detector
  numbered : detector < s.nextDetector
  inHand : detector ∈ s.detectors →
    ∃ generation < s.aiGeneration, s.aiWorker = .loaded generation detector

/-- A detector that nobody has any more stays out. -/
theorem doomed_of_gone {detector : ℕ} (hnone : s.yolov8 ≠ some detector)
    (hnumbered : detector < s.nextDetector) (hgone : detector ∉ s.detectors) :
    Doomed detector s :=
  ⟨hnone, hnumbered, fun hmem => absurd hmem hgone⟩

/-- **No step publishes a late detector.** -/
theorem doomed_step {detector : ℕ} (h : Detecting o past s) (hd : Doomed detector s)
    (hstep : step o s label = some t) : Doomed detector t := by
  cases hby : label.byAiWorker with
  | false =>
    by_cases hrun : label = .run
    · subst hrun
      obtain ⟨-, hnil, hnone, -⟩ := detecting_run h hstep
      have hnext : t.nextDetector = s.nextDetector := by
        obtain ⟨-, rfl⟩ := by simpa [step] using hstep
        rfl
      exact doomed_of_gone (by simp [hnone]) (hnext ▸ hd.numbered) (by simp [hnil])
    by_cases hfinish : label = .finishStop
    · subst hfinish
      obtain ⟨-, hnil, hnone⟩ := detecting_finishStop h hstep
      have hnext : t.nextDetector = s.nextDetector := by
        obtain ⟨-, rfl⟩ := by simpa [step] using hstep
        obtain ⟨capture, heq⟩ := finishStop_eq s
        rw [heq]
      exact doomed_of_gone (by simp [hnone]) (hnext ▸ hd.numbered) (by simp [hnil])
    have hkept := kept_of_other h hby hrun hfinish hstep
    refine ⟨hkept.yolov8 ▸ hd.unpublished, hkept.next ▸ hd.numbered, fun hmem => ?_⟩
    obtain ⟨generation, hpassed, hworker⟩ := hd.inHand (hkept.detectors ▸ hmem)
    refine ⟨generation, ?_, hkept.worker.trans hworker⟩
    rcases hkept.demand with ⟨hgeneration, -⟩ | hmoved
    · omega
    · omega
  | true =>
    -- a worker that has not got this detector in hand leaves it out
    have hgone : (∀ generation, s.aiWorker ≠ .loaded generation detector) →
        detector ∉ s.detectors := by
      intro hother hmem
      obtain ⟨generation, -, hworker⟩ := hd.inHand hmem
      exact hother generation hworker
    cases ai_step_cases hby hstep with
    | loops worker =>
      refine doomed_of_gone hd.unpublished hd.numbered (hgone fun generation hworker => ?_)
      simp [hworker] at worker
    | waits worker => exact hd
    | ends worker due unchanged =>
      have hnil := otherDetectors_nil (by rw [h.owned, worker]; rfl)
      rw [stopYolov8Locked_eq]
      exact doomed_of_gone (by simp) hd.numbered (by simp [hnil])
    | refuses worker =>
      exact doomed_of_gone hd.unpublished hd.numbered (hgone (by simp [worker]))
    | begins worker =>
      refine doomed_of_gone hd.unpublished (Nat.lt_succ_of_lt hd.numbered) fun hmem => ?_
      rcases List.mem_cons.mp hmem with rfl | hmem
      · exact absurd hd.numbered (Nat.lt_irrefl _)
      · exact hgone (by simp [worker]) hmem
    | loads worker =>
      exact doomed_of_gone hd.unpublished hd.numbered (hgone (by simp [worker]))
    | fails worker =>
      exact doomed_of_gone hd.unpublished hd.numbered fun hmem =>
        hgone (by simp [worker]) (List.mem_of_mem_erase hmem)
    | @drops generation other worker =>
      refine doomed_of_gone hd.unpublished hd.numbered fun hmem => ?_
      -- the worker gives up the only detector there is
      have howned := h.owned
      have hnone := h.unpublished (by rw [worker]; rfl)
      rw [worker, hnone] at howned
      have hlast : s.detectors = [other] := howned
      rw [hlast, List.erase_cons_head] at hmem
      simp at hmem
    | @publishes generation other worker current =>
      have hother : other ≠ detector := by
        rintro rfl
        have hmem : other ∈ s.detectors := by
          rw [h.owned, worker]
          simp [AiWorker.detector]
        obtain ⟨passed, hpassed, hworker⟩ := hd.inHand hmem
        obtain ⟨rfl, -⟩ := by simpa [worker] using hworker
        have hsame : s.aiGeneration = generation := by
          simp only [aiOvertaken, Bool.or_eq_false_iff, bne_eq_false_iff_eq] at current
          exact current.1.2
        omega
      refine doomed_of_gone (by simpa using hother) hd.numbered (hgone fun g hworker => ?_)
      obtain ⟨-, hsame⟩ := by simpa [worker] using hworker
      exact hother hsame
    | relocks worker =>
      exact doomed_of_gone hd.unpublished hd.numbered (hgone (by simp [worker]))
    | withdraws worker =>
      exact doomed_of_gone hd.unpublished hd.numbered (hgone (by simp [worker]))

/-- A load that ends after its demand has moved leaves a doomed detector. -/
theorem doomed_of_late {generation detector : ℕ} (h : Detecting o past s)
    (hworker : s.aiWorker = .loading generation detector)
    (hlate : s.aiGeneration ≠ generation ∨ s.aiStreamRequired = false ∨
      s.aiWorkerStop = true)
    (hstep : step o s (.aiLoad true) = some t) : Doomed detector t := by
  have hnone := h.unpublished (by rw [hworker]; rfl)
  have hmem : detector ∈ s.detectors := by
    rw [h.owned, hworker]
    simp [AiWorker.detector]
  obtain ⟨hle, hcurrent⟩ := h.current generation (by rw [hworker]; rfl)
  have hpassed : generation < s.aiGeneration := by
    rcases Nat.lt_or_eq_of_le hle with hlt | rfl
    · exact hlt
    · obtain ⟨hrequired, hgo⟩ := hcurrent rfl
      simp [hrequired, hgo] at hlate
  simp only [step, aiLoad, hworker, if_pos] at hstep
  obtain rfl := Option.some_inj.mp hstep
  exact ⟨by simp [hnone], h.numbered detector hmem, fun _ => ⟨generation, hpassed, rfl⟩⟩

/-- **The published detector ends** only at an idle timeout or in `stop`. -/
theorem ended_cases {detector : ℕ} (h : Detecting o past s) (hstep : step o s label = some t)
    (hpublished : s.yolov8 = some detector)
    (hended : t.yolov8 ≠ some detector ∨ detector ∉ t.detectors) :
    label = .finishStop ∨
      (s.aiStreamRequired = false ∧ aiWatch.Unwanted o.idle past s.now) := by
  have hmem : detector ∈ s.detectors := by
    rw [h.owned, hpublished]
    simp
  have hstays : t.yolov8 = s.yolov8 → t.detectors = s.detectors →
      label = .finishStop ∨
        (s.aiStreamRequired = false ∧ aiWatch.Unwanted o.idle past s.now) := by
    intro hyolov8 hdetectors
    rcases hended with hended | hended
    · exact absurd (hyolov8.trans hpublished) hended
    · exact absurd (hdetectors ▸ hmem) hended
  cases hby : label.byAiWorker with
  | false =>
    by_cases hrun : label = .run
    · subst hrun
      simp [(detecting_run h hstep).2.2.2] at hpublished
    by_cases hfinish : label = .finishStop
    · exact .inl hfinish
    have hkept := kept_of_other h hby hrun hfinish hstep
    exact hstays hkept.yolov8 hkept.detectors
  | true =>
    -- an attempt is under way only without a published detector
    have hno : ∀ generation, s.aiWorker.attempt ≠ some generation := by
      intro generation hattempt
      simp [h.unpublished (by rw [hattempt]; rfl)] at hpublished
    cases ai_step_cases hby hstep with
    | loops worker => exact hstays rfl rfl
    | waits worker => exact hstays rfl rfl
    | @ends generation deadline worker due unchanged =>
      obtain ⟨⟨hgo, hoff⟩, hsame⟩ :
          (s.aiWorkerStop = false ∧ s.aiStreamRequired = false) ∧
            s.aiGeneration = generation := by simpa [aiChanged] using unchanged
      have hwait : aiWatch.wait s = some (generation, deadline) := by simp [aiWatch, worker]
      exact .inr ⟨hoff, Watch.unwanted_of_due h.waiting hwait hgo hsame due⟩
    | refuses worker => exact hstays rfl rfl
    | @begins generation worker => exact absurd (by rw [worker]; rfl) (hno generation)
    | loads worker => exact hstays rfl rfl
    | @fails generation other worker => exact absurd (by rw [worker]; rfl) (hno generation)
    | @drops generation other worker => exact absurd (by rw [worker]; rfl) (hno generation)
    | @publishes generation other worker current =>
      exact absurd (by rw [worker]; rfl) (hno generation)
    | relocks worker => exact hstays rfl rfl
    | withdraws worker => exact hstays rfl rfl

/-- **One detector at a time.**  In every run at most one detector is started and
not yet stopped; one whose load ends after its demand has moved, was withdrawn
or `stop` has begun is never published and is started only until the worker has
the mutex again; a published one ends only after an idle interval without demand
or in `stop`, which leaves no detector. -/
theorem one_detector (hrun : run (step o) init labels = some s) :
    s.detectors.length ≤ 1 ∧
    (∀ generation detector t, s.aiWorker = .loading generation detector →
      step o s (.aiLoad true) = some t →
      (s.aiGeneration ≠ generation ∨ s.aiStreamRequired = false ∨ s.aiWorkerStop = true) →
        ∀ more u, run (step o) t more = some u → u.yolov8 ≠ some detector ∧
          (detector ∈ u.detectors → ∃ g, u.aiWorker = .loaded g detector)) ∧
    (∀ label t detector, step o s label = some t → s.yolov8 = some detector →
      (t.yolov8 ≠ some detector ∨ detector ∉ t.detectors) → label = .finishStop ∨
        (s.aiStreamRequired = false ∧ ∀ e ∈ trace (step o) init labels,
          s.now < e.1.now + o.idle → e.1.aiStreamRequired = false)) ∧
    (∀ t, step o s .finishStop = some t → t.yolov8 = none ∧ t.detectors = []) ∧
    (s.running = false → s.owner ≠ .stopping → s.detectors = []) := by
  have h : Detecting o (trace (step o) init labels) s :=
    run_trace_invariant (fun past s i t h hstep => detecting_step h hstep) detecting_init hrun
  refine ⟨h.at_most_one, ?_, ?_, ?_, h.quiet⟩
  · intro generation detector t hworker hload hlate more u hmore
    -- from here on no step publishes the detector
    have hkeeps : ∀ s label t, (Doomed detector s ∧ ∃ past, Detecting o past s) →
        step o s label = some t → Doomed detector t ∧ ∃ past, Detecting o past t :=
      fun s label t ⟨hd, past, h⟩ hstep => ⟨doomed_step h hd hstep, _, detecting_step h hstep⟩
    obtain ⟨hd, -⟩ := run_preserves hkeeps
      ⟨doomed_of_late h hworker hlate hload, _, detecting_step h hload⟩ hmore
    refine ⟨hd.unpublished, fun hmem => ?_⟩
    obtain ⟨g, -, hg⟩ := hd.inHand hmem
    exact ⟨g, hg⟩
  · intro label t detector hstep hpublished hended
    rcases ended_cases h hstep hpublished hended with hfinish | ⟨hoff, hunwanted⟩
    · exact .inl hfinish
    · exact .inr ⟨hoff, fun e he hlate => (hunwanted e he hlate).1⟩
  · intro t hstep
    obtain ⟨-, hnil, hnone⟩ := detecting_finishStop h hstep
    exact ⟨hnone, hnil⟩

/-- A viewer of the AI stream leaves while the model is loading. -/
def loading : List Label :=
  [.start true ⟨true, true, fineChn⟩, .boot ⟨fine, true, true, true⟩, .run,
    .setStreamActive 0 AI_STREAM_ID true fine, .aiWake, .aiCheck,
    .setStreamActive 0 AI_STREAM_ID false fine]

/-- The detector that it leaves behind is stopped and not published. -/
theorem late_detector : ∃ t u, step viewed (reached viewed loading) (.aiLoad true) = some t ∧
    run (step viewed) t [.aiPublish] = some u ∧ u.yolov8 ≠ some 0 ∧ 0 ∉ u.detectors := by
  have hrun : run (step viewed) init loading = some (reached viewed loading) :=
    run_reached (by decide +kernel)
  have hloaded : run (step viewed) init (loading ++ [.aiLoad true]) =
      some (reached viewed (loading ++ [.aiLoad true])) := run_reached (by decide +kernel)
  have hload := (run_concat hrun (.aiLoad true)).symm.trans hloaded
  have hpublish := (run_concat hloaded .aiPublish).symm.trans (run_reached (by decide +kernel))
  have hmore : run (step viewed) (reached viewed (loading ++ [.aiLoad true])) [.aiPublish] =
      some (reached viewed (loading ++ [.aiLoad true] ++ [.aiPublish])) := by
    rw [run_cons, hpublish]
    rfl
  have hworker : (reached viewed loading).aiWorker = .loading 2 0 := by decide +kernel
  have hlate : (reached viewed loading).aiGeneration ≠ 2 := by decide +kernel
  obtain ⟨hnone, hgone⟩ :=
    (one_detector hrun).2.1 2 0 _ hworker hload (.inl hlate) [.aiPublish] _ hmore
  refine ⟨_, _, hload, hmore, hnone, fun hmem => ?_⟩
  obtain ⟨g, hg⟩ := hgone hmem
  have hback : (reached viewed (loading ++ [.aiLoad true] ++ [.aiPublish])).aiWorker =
      .relocking 2 false := by decide +kernel
  rw [hback] at hg
  simp at hg

end IpcMini.HisiliconPipeline
