/-
The audio output (`src/devices/hisi_3516cv610/dev_aplay.cpp`).

Frames of talk open the output, frames of silence count up to a limit that closes
it.  `send_g711u` decides this in three critical sections, between which `start` and
`stop` run in their own.

* `Aplay`, `start`, `stop`, `sendG711u` — the output and its calls, each call of the
  SDK answering as it likes;
* `Since` — the latest event of a kind is followed by given ones, and nothing has
  broken it off;
* `send_talk`, `send_hush`, `send_last` — what a frame does when the SDK succeeds;
* **`output_follows_talk`** — the output is started exactly while less than the limit
  of silent frames have followed the latest talk.
-/
import Mathlib.Data.List.Induction
import IpcMini.Mulaw
import IpcMini.Run

namespace IpcMini

namespace AudioOutput

open Interleaving

def kSilenceFramesToStop : ℕ := 50

/-- What `ss_mpi_ao_send_frame` is given of an `ot_audio_frame`. -/
structure AoFrame where
  samples : List ℤ
  len : ℕ
  deriving DecidableEq, Repr

/-- The members of an `aplay` that its calls use, and the frames that the SDK took. -/
structure Aplay where
  started_ : Bool
  silenceFrames_ : ℕ
  sent : List AoFrame
  deriving DecidableEq, Repr

/-- What the calls of the SDK answer, with that of opening `/dev/acodec`. -/
structure AoAnswers where
  setPubAttr : Bool
  enable : Bool
  enableChn : Bool
  enableSysChn : Bool
  acodec : Bool
  sendFrame : Bool
  deriving DecidableEq, Repr

/-- The output after construction. -/
def idle : Aplay := ⟨false, 0, []⟩

/-- All calls of the SDK succeed. -/
def fine : AoAnswers := ⟨true, true, true, true, true, true⟩

/-- `aplay::start`. -/
def start (s : Aplay) (sdk : AoAnswers) : Bool × Aplay :=
  if s.started_ then (true, s)
  else if !sdk.setPubAttr then (false, s)
  else if !sdk.enable then (false, s)
  else if !sdk.enableChn then (false, s)
  else if !sdk.enableSysChn then (false, s)
  -- `configure_acodec_output`
  else if !sdk.acodec then (false, s)
  else (true, { s with silenceFrames_ := 0, started_ := true })

/-- `aplay::stop`. -/
def stop (s : Aplay) : Aplay :=
  if !s.started_ then s else { s with silenceFrames_ := 0, started_ := false }

/-- `aplay::send_pcm_locked`. -/
def sendPcmLocked (s : Aplay) (pcm : List ℤ) (bytes : ℕ) (sdk : AoAnswers) : Bool × Aplay :=
  if sdk.sendFrame then (true, { s with sent := s.sent ++ [⟨pcm, bytes⟩] }) else (false, s)

/-- The first critical section of `send_g711u`: `none` where it returns, otherwise
`need_start` and `stop_for_idle`. -/
def countSilence (s : Aplay) (silence : Bool) : Option (Bool × Bool) × Aplay :=
  if !s.started_ then
    if silence then (none, s) else (some (true, false), s)
  else if silence then
    let silenceFrames_ := (s.silenceFrames_ + 1) % 2 ^ 32
    (some (false, decide (silenceFrames_ ≥ kSilenceFramesToStop)),
      { s with silenceFrames_ := silenceFrames_ })
  else (some (false, false), { s with silenceFrames_ := 0 })

/-- The last critical section of `send_g711u`. -/
def play (s : Aplay) (data : List UInt8) (sdk : AoAnswers) : Bool × Aplay :=
  if !s.started_ then (false, s)
  else sendPcmLocked s (data.map mulawToLinear) (data.length * 2 % 2 ^ 32) sdk

/-- `aplay::send_g711u`; `none` is the null pointer. -/
def sendG711u (s : Aplay) (data : Option (List UInt8)) (sdk : AoAnswers) : Bool × Aplay :=
  match data with
  | none => (false, s)
  | some data =>
    if data.length = 0 ∨ data.length > 960 then (false, s)
    else
      match countSilence s (isMulawSilenceFrame data) with
      | (none, s) => (true, s)
      | (some (needStart, stopForIdle), s) =>
        let opened := if needStart then start s sdk else (true, s)
        if !opened.1 then (false, opened.2)
        else if stopForIdle then (true, stop opened.2)
        else play opened.2 data sdk

/-! ### The latest event of a kind -/

section Since

variable {α : Type*} {p brk : α → Prop} {past after : List α} {x : α}

/-- The latest `p` of the past is followed by `after`, where nothing breaks it off. -/
def Since (p brk : α → Prop) (past after : List α) : Prop :=
  ∃ before e, past = before ++ e :: after ∧ p e ∧ ∀ x ∈ after, ¬p x ∧ ¬brk x

theorem since_now (h : p x) : Since p brk (past ++ [x]) [] :=
  ⟨past, x, rfl, h, fun _ hx => absurd hx List.not_mem_nil⟩

theorem Since.snoc (h : Since p brk past after) (hp : ¬p x) (hbrk : ¬brk x) :
    Since p brk (past ++ [x]) (after ++ [x]) := by
  obtain ⟨before, e, rfl, he, hafter⟩ := h
  refine ⟨before, e, by simp, he, fun y hy => ?_⟩
  rcases List.mem_append.mp hy with hy | hy
  · exact hafter y hy
  · obtain rfl := List.mem_singleton.mp hy
    exact ⟨hp, hbrk⟩

theorem not_since_nil : ¬Since p brk [] after := by
  rintro ⟨before, e, heq, -⟩
  simp at heq

/-- The last event is the `p` itself, or one of those that follow it. -/
theorem since_snoc_cases (h : Since p brk (past ++ [x]) after) :
    (p x ∧ after = []) ∨
      (¬p x ∧ ¬brk x ∧ ∃ rest, after = rest ++ [x] ∧ Since p brk past rest) := by
  obtain ⟨before, e, heq, he, hafter⟩ := h
  rcases List.eq_nil_or_concat after with rfl | ⟨rest, y, rfl⟩
  · obtain ⟨-, hx⟩ := List.append_inj' heq rfl
    obtain rfl : x = e := by simpa using hx
    exact .inl ⟨he, rfl⟩
  · have hlast : past ++ [x] = (before ++ e :: rest) ++ [y] := by simpa using heq
    obtain ⟨hpast, hx⟩ := List.append_inj' hlast rfl
    obtain rfl : x = y := by simpa using hx
    obtain ⟨hp, hbrk⟩ := hafter x (by simp)
    refine .inr ⟨hp, hbrk, rest, List.concat_eq_append, before, e, hpast, he, fun y hy =>
      hafter y ?_⟩
    rw [List.concat_eq_append]
    exact List.mem_append_left _ hy

/-- What follows the latest `p` is determined by the past. -/
theorem since_unique {after' : List α} (h : Since p brk past after)
    (h' : Since p brk past after') : after = after' := by
  induction past using List.reverseRecOn generalizing after after' with
  | nil => exact absurd h not_since_nil
  | append_singleton past x ih =>
    rcases since_snoc_cases h with ⟨hp, rfl⟩ | ⟨hp, -, rest, rfl, hrest⟩ <;>
      rcases since_snoc_cases h' with ⟨hp', rfl⟩ | ⟨hp', -, rest', rfl, hrest'⟩
    · rfl
    · exact absurd hp hp'
    · exact absurd hp' hp
    · rw [ih hrest hrest']

end Since

/-! ### The frames -/

/-- The frame has 1 to 960 bytes. -/
def Accepted (data : List UInt8) : Prop := data.length ≠ 0 ∧ data.length ≤ 960

instance (data : List UInt8) : Decidable (Accepted data) := instDecidableAnd

/-- What the SDK is sent for a frame. -/
def decoded (data : List UInt8) : AoFrame := ⟨data.map mulawToLinear, 2 * data.length⟩

section Frames

variable {s : Aplay} {data : List UInt8}

/-- An accepted frame goes through the three critical sections. -/
theorem send_accepted (s : Aplay) (h : Accepted data) (sdk : AoAnswers) :
    sendG711u s (some data) sdk =
      match countSilence s (isMulawSilenceFrame data) with
      | (none, s) => (true, s)
      | (some (needStart, stopForIdle), s) =>
        let opened := if needStart then start s sdk else (true, s)
        if !opened.1 then (false, opened.2)
        else if stopForIdle then (true, stop opened.2)
        else play opened.2 data sdk := by
  have hlen : ¬(data.length = 0 ∨ data.length > 960) := by
    have := h.1
    have := h.2
    omega
  rw [sendG711u, if_neg hlen]

theorem send_rejected (s : Aplay) (h : ¬Accepted data) (sdk : AoAnswers) :
    sendG711u s (some data) sdk = (false, s) := by
  have hlen : data.length = 0 ∨ data.length > 960 := by
    by_contra hcon
    exact h ⟨by omega, by omega⟩
  rw [sendG711u, if_pos hlen]

theorem play_started (h : s.started_ = true) (hdata : Accepted data) :
    play s data fine = (true, { s with sent := s.sent ++ [decoded data] }) := by
  have hbytes : data.length * 2 % 4294967296 = 2 * data.length := by
    have := hdata.2
    omega
  simp [play, h, sendPcmLocked, fine, hbytes, decoded]

/-- Talk opens the output if it is closed, and is sent. -/
theorem send_talk (s : Aplay) (h : Accepted data) (htalk : isMulawSilenceFrame data = false) :
    sendG711u s (some data) fine = (true, ⟨true, 0, s.sent ++ [decoded data]⟩) := by
  rw [send_accepted s h, htalk]
  cases hs : s.started_
  · have hplay := play_started (s := ⟨true, 0, s.sent⟩) rfl h
    simpa [countSilence, hs, start, fine] using hplay
  · have hplay := play_started (s := ⟨true, 0, s.sent⟩) rfl h
    simpa [countSilence, hs] using hplay

/-- Silence leaves a closed output alone. -/
theorem send_idle (hs : s.started_ = false) (h : Accepted data)
    (hquiet : isMulawSilenceFrame data = true) (sdk : AoAnswers) :
    sendG711u s (some data) sdk = (true, s) := by
  rw [send_accepted s h, hquiet]
  simp [countSilence, hs]

/-- Silence below the limit is counted and sent. -/
theorem send_hush (hs : s.started_ = true) (h : Accepted data)
    (hquiet : isMulawSilenceFrame data = true)
    (hcount : s.silenceFrames_ + 1 < kSilenceFramesToStop) :
    sendG711u s (some data) fine =
      (true, ⟨true, s.silenceFrames_ + 1, s.sent ++ [decoded data]⟩) := by
  have hmod : (s.silenceFrames_ + 1) % 4294967296 = s.silenceFrames_ + 1 := by
    simp only [kSilenceFramesToStop] at hcount
    omega
  have hplay := play_started (s := ⟨true, s.silenceFrames_ + 1, s.sent⟩) rfl h
  rw [send_accepted s h, hquiet]
  simpa [countSilence, hs, hmod, Nat.not_le.mpr hcount] using hplay

/-- The silent frame that reaches the limit closes the output and is not sent. -/
theorem send_last (hs : s.started_ = true) (h : Accepted data)
    (hquiet : isMulawSilenceFrame data = true)
    (hcount : s.silenceFrames_ + 1 = kSilenceFramesToStop) :
    sendG711u s (some data) fine = (true, ⟨false, 0, s.sent⟩) := by
  rw [send_accepted s h, hquiet]
  simp [countSilence, hs, hcount, kSilenceFramesToStop, stop]

end Frames
/-! ### Runs -/

/-- The calls of one thread. -/
inductive AoCall
  | sendG711u (data : Option (List UInt8))
  | stop
  deriving DecidableEq, Repr

/-- The call while the SDK succeeds. -/
def perform (s : Aplay) : AoCall → Aplay
  | .sendG711u data => (sendG711u s data fine).2
  | .stop => stop s

def step (s : Aplay) (call : AoCall) : Option Aplay := some (perform s call)

/-- The bytes of the frame, if the call has one that is accepted. -/
def AoCall.accepted : AoCall → Option (List UInt8)
  | .sendG711u (some data) => if Accepted data then some data else none
  | _ => none

/-- The call has an accepted frame that is not silent. -/
def AoCall.talk (call : AoCall) : Bool :=
  call.accepted.any fun data => !isMulawSilenceFrame data

/-- The call has an accepted frame that is silent. -/
def AoCall.hush (call : AoCall) : Bool :=
  call.accepted.any isMulawSilenceFrame

/-- The call is a `stop`. -/
def AoCall.stops (call : AoCall) : Bool := call == .stop

/-- The latest accepted talk since the last `stop` is followed by these calls. -/
def TalkThen (past after : List (Aplay × AoCall)) : Prop :=
  Since (fun e => e.2.talk = true) (fun e => e.2.stops = true) past after

/-- The number of accepted silent frames. -/
def hushes (calls : List (Aplay × AoCall)) : ℕ := calls.countP fun e => e.2.hush

/-- Accepted talk has occurred since the last `stop`, and less silent frames than the
limit have followed the latest one. -/
def Talking (past : List (Aplay × AoCall)) : Prop :=
  ∃ after, TalkThen past after ∧ hushes after < kSilenceFramesToStop

@[simp] theorem hushes_snoc (calls : List (Aplay × AoCall)) (e : Aplay × AoCall) :
    hushes (calls ++ [e]) = hushes calls + if e.2.hush then 1 else 0 := by
  simp [hushes, List.countP_append, List.countP_cons]

/-- What is to be sent for a call: the frame if it leaves the output started. -/
def played (e : Aplay × AoCall) : Option AoFrame :=
  if (perform e.1 e.2).started_ then e.2.accepted.map decoded else none

/-- The counter and the frames sent as the past gives them. -/
structure Follows (past : List (Aplay × AoCall)) (s : Aplay) : Prop where
  /-- While started, the counter is the number of silent frames after the latest talk. -/
  counted : s.started_ = true → ∃ after, TalkThen past after ∧
    s.silenceFrames_ = hushes after ∧ s.silenceFrames_ < kSilenceFramesToStop
  /-- A closed output has been stopped since the latest talk, or silence has closed it. -/
  stopped : s.started_ = false → ∀ after, TalkThen past after →
    kSilenceFramesToStop ≤ hushes after
  sent : s.sent = past.filterMap played

theorem follows_idle : Follows [] idle where
  counted h := by simp [idle] at h
  stopped _ _ h := absurd h not_since_nil
  sent := rfl

/-- What a call does, by the frame that it has. -/
inductive Outcome (s : Aplay) (call : AoCall) : Aplay → Prop
  /-- Nothing to play: no accepted frame, or silence for a closed output. -/
  | nothing (htalk : call.talk = false)
      (hsame : s.started_ = false ∨ (call.accepted = none ∧ call.stops = false)) :
      Outcome s call s
  | talk (data : List UInt8) (hdata : call.accepted = some data) (htalk : call.talk = true) :
      Outcome s call ⟨true, 0, s.sent ++ [decoded data]⟩
  | hush (data : List UInt8) (hdata : call.accepted = some data) (htalk : call.talk = false)
      (hhush : call.hush = true) (hs : s.started_ = true)
      (hcount : s.silenceFrames_ + 1 < kSilenceFramesToStop) :
      Outcome s call ⟨true, s.silenceFrames_ + 1, s.sent ++ [decoded data]⟩
  /-- The silence has reached the limit. -/
  | close (htalk : call.talk = false) (hhush : call.hush = true) (hs : s.started_ = true)
      (hcount : s.silenceFrames_ + 1 = kSilenceFramesToStop) : Outcome s call ⟨false, 0, s.sent⟩
  | stop (htalk : call.talk = false) (hstops : call.stops = true) :
      Outcome s call ⟨false, 0, s.sent⟩

theorem perform_outcome (s : Aplay) (call : AoCall)
    (hcount : s.started_ = true → s.silenceFrames_ < kSilenceFramesToStop) :
    Outcome s call (perform s call) := by
  -- the null pointer, a frame, a stop
  rcases call with (_ | data) | _
  · exact .nothing rfl (.inr ⟨rfl, rfl⟩)
  · show Outcome s _ (sendG711u s (some data) fine).2
    by_cases hdata : Accepted data
    · have haccepted : (AoCall.sendG711u (some data)).accepted = some data := if_pos hdata
      cases hquiet : isMulawSilenceFrame data
      · rw [send_talk s hdata hquiet]
        exact .talk data haccepted (by simp [AoCall.talk, haccepted, hquiet])
      · have htalk : (AoCall.sendG711u (some data)).talk = false := by
          simp [AoCall.talk, haccepted, hquiet]
        have hhush : (AoCall.sendG711u (some data)).hush = true := by
          simp [AoCall.hush, haccepted, hquiet]
        cases hs : s.started_
        · rw [send_idle hs hdata hquiet]
          exact .nothing htalk (.inl hs)
        · have hlt := hcount hs
          by_cases hlast : s.silenceFrames_ + 1 = kSilenceFramesToStop
          · rw [send_last hs hdata hquiet hlast]
            exact .close htalk hhush hs hlast
          · rw [send_hush hs hdata hquiet (by omega)]
            exact .hush data haccepted htalk hhush hs (by omega)
    · have haccepted : (AoCall.sendG711u (some data)).accepted = none := if_neg hdata
      rw [send_rejected s hdata]
      exact .nothing (by simp [AoCall.talk, haccepted]) (.inr ⟨haccepted, rfl⟩)
  · show Outcome s _ (stop s)
    cases hs : s.started_
    · have hsame : stop s = s := by simp [stop, hs]
      rw [hsame]
      exact .nothing rfl (.inl hs)
    · have hclosed : stop s = ⟨false, 0, s.sent⟩ := by simp [stop, hs]
      rw [hclosed]
      exact .stop rfl rfl

/-- The SDK is sent what is to be sent for the call, once. -/
theorem perform_sent (s : Aplay) (call : AoCall)
    (hcount : s.started_ = true → s.silenceFrames_ < kSilenceFramesToStop) :
    (perform s call).sent = s.sent ++ (played (s, call)).toList := by
  have houtcome := perform_outcome s call hcount
  generalize ht : perform s call = t at houtcome
  cases houtcome with
  | nothing htalk hsame =>
    rcases hsame with hs | ⟨hnone, -⟩
    · simp [played, ht, hs]
    · simp [played, hnone]
  | talk data hdata htalk => simp [played, ht, hdata]
  | hush data hdata htalk hhush hs hlt => simp [played, ht, hdata]
  | close htalk hhush hs hlast => simp [played, ht]
  | stop htalk hstops => simp [played, ht]

/-- The counter has not reached the limit while the output is started. -/
theorem Follows.below_limit {past : List (Aplay × AoCall)} {s : Aplay} (h : Follows past s)
    (hs : s.started_ = true) : s.silenceFrames_ < kSilenceFramesToStop := by
  obtain ⟨after, -, -, hlt⟩ := h.counted hs
  exact hlt

/-- A silent frame is not a `stop`. -/
theorem hush_not_stops {call : AoCall} (h : call.hush = true) : call.stops = false := by
  rcases call with data | _
  · rfl
  · simp [AoCall.hush, AoCall.accepted] at h

/-- Every call keeps the counter and the frames sent in step with the past. -/
theorem follows_step {past : List (Aplay × AoCall)} {s t : Aplay} {call : AoCall}
    (h : Follows past s) (hstep : step s call = some t) : Follows (past ++ [(s, call)]) t := by
  obtain rfl : perform s call = t := Option.some_inj.mp hstep
  have houtcome := perform_outcome s call h.below_limit
  have hsent : (perform s call).sent = (past ++ [(s, call)]).filterMap played := by
    rw [perform_sent s call h.below_limit, List.filterMap_append, h.sent]
    cases hplayed : played (s, call) <;> simp [hplayed]
  generalize ht : perform s call = t at houtcome hsent
  cases houtcome with
  | nothing htalk hsame =>
    refine ⟨fun hs => ?_, fun hs after hsince => ?_, hsent⟩
    · -- an accepted silent frame would have been counted
      obtain ⟨after, hsince, hcount, hlt⟩ := h.counted hs
      obtain ⟨hnone, hstops⟩ := hsame.resolve_left (by simp [hs])
      refine ⟨after ++ [(s, call)], hsince.snoc (by simp [htalk]) (by simp [hstops]), ?_, hlt⟩
      simp [hcount, AoCall.hush, hnone]
    · rcases since_snoc_cases hsince with ⟨hnow, -⟩ | ⟨-, -, rest, rfl, hrest⟩
      · simp [htalk] at hnow
      · have hle := h.stopped hs rest hrest
        rw [hushes_snoc]
        omega
  | talk data hdata htalk =>
    -- the frame is itself the latest talk, and nothing has followed it
    refine ⟨fun _ => ⟨[], since_now htalk, rfl, ?_⟩, fun hs => by simp at hs, hsent⟩
    show 0 < kSilenceFramesToStop
    decide
  | hush data hdata htalk hhush hs hcount =>
    refine ⟨fun _ => ?_, fun hs => by simp at hs, hsent⟩
    obtain ⟨after, hsince, hbefore, -⟩ := h.counted hs
    refine ⟨after ++ [(s, call)], hsince.snoc (by simp [htalk]) ?_, ?_, hcount⟩
    · simp [hush_not_stops hhush]
    · simp [hbefore, hhush]
  | close htalk hhush hs hlast =>
    refine ⟨fun hs => by simp at hs, fun _ after hsince => ?_, hsent⟩
    -- this frame is the last one of the silence that the counter has counted
    obtain ⟨after', hsince', hbefore, -⟩ := h.counted hs
    have hall := since_unique hsince
      (hsince'.snoc (x := (s, call)) (by simp [htalk]) (by simp [hush_not_stops hhush]))
    rw [hall, hushes_snoc, ← hbefore, if_pos hhush, hlast]
  | stop htalk hstops =>
    refine ⟨fun hs => by simp at hs, fun _ after hsince => ?_, hsent⟩
    -- the stop comes after all talk so far
    rcases since_snoc_cases hsince with ⟨hnow, -⟩ | ⟨-, hnostop, -⟩
    · simp [htalk] at hnow
    · exact absurd hstops hnostop

theorem Follows.talking_iff {past : List (Aplay × AoCall)} {s : Aplay} (h : Follows past s) :
    s.started_ = true ↔ Talking past := by
  constructor
  · intro hs
    obtain ⟨after, hsince, hcount, hlt⟩ := h.counted hs
    exact ⟨after, hsince, hcount ▸ hlt⟩
  · rintro ⟨after, hsince, hlt⟩
    cases hs : s.started_ with
    | true => rfl
    | false => exact absurd hlt (Nat.not_lt.mpr (h.stopped hs after hsince))

/-- A silent frame does not start the output. -/
theorem hush_closed {s : Aplay} {call : AoCall} (hhush : call.hush = true)
    (hs : s.started_ = false) : (perform s call).started_ = false := by
  have houtcome := perform_outcome s call (by simp [hs])
  generalize perform s call = t at houtcome
  cases houtcome with
  | nothing => exact hs
  | talk data hdata htalk =>
    have hquiet : isMulawSilenceFrame data = true := by simpa [AoCall.hush, hdata] using hhush
    simp [AoCall.talk, hdata, hquiet] at htalk
  | hush _ _ _ _ hstarted => simp [hs] at hstarted
  | close => rfl
  | stop => rfl

theorem send_unaccepted (s : Aplay) {data : Option (List UInt8)}
    (h : (AoCall.sendG711u data).accepted = none) (sdk : AoAnswers) :
    sendG711u s data sdk = (false, s) := by
  rcases data with _ | data
  · rfl
  · refine send_rejected s (fun hdata => ?_) sdk
    simp [AoCall.accepted, hdata] at h

/-- **The output follows the talk.**  After every sequence of calls it is started if and
only if accepted talk has occurred since the last `stop` and less than
`kSilenceFramesToStop` silent frames have followed the latest one, and the SDK was sent,
once and in order, each frame that left it started.  A silent frame never starts it, and
a rejected one changes nothing. -/
theorem output_follows_talk (calls : List AoCall) (s : Aplay)
    (hrun : run step idle calls = some s) :
    (s.started_ = true ↔ Talking (trace step idle calls)) ∧
      s.sent = (trace step idle calls).filterMap played ∧
      (∀ call : AoCall, call.hush = true → s.started_ = false →
        (perform s call).started_ = false) ∧
      (∀ (call : AoCall) (data : List UInt8), call.accepted = some data →
        (perform s call).sent =
          if (perform s call).started_ then s.sent ++ [decoded data] else s.sent) ∧
      ∀ data : Option (List UInt8), (AoCall.sendG711u data).accepted = none →
        sendG711u s data fine = (false, s) := by
  have hfollows : Follows (trace step idle calls) s :=
    run_trace_invariant (fun past s call t h hstep => follows_step h hstep) follows_idle hrun
  refine ⟨hfollows.talking_iff, hfollows.sent, fun call => hush_closed, ?_,
    fun data h => send_unaccepted s h fine⟩
  intro call data hdata
  rw [perform_sent s call hfollows.below_limit, played, hdata]
  split <;> simp

/-- Talk and `n` frames of silence. -/
def conversation (n : ℕ) : List AoCall :=
  .sendG711u (some [0x10]) :: List.replicate n (.sendG711u (some [0xff]))

/-- The output stays open below the limit; after it, it is closed, with the frames up to
the limit sent. -/
theorem conversation_follows :
    Talking (trace step idle (conversation 49)) ∧
      ¬Talking (trace step idle (conversation 50)) ∧
      (∃ s, run step idle (conversation 51 ++ [.sendG711u none, .stop]) = some s ∧
        s.sent = decoded [0x10] :: List.replicate 49 (decoded [0xff])) := by
  have hopen : run step idle (conversation 49) =
      some ⟨true, 49, decoded [0x10] :: List.replicate 49 (decoded [0xff])⟩ := by
    decide +kernel
  have hclosed : run step idle (conversation 50) =
      some ⟨false, 0, decoded [0x10] :: List.replicate 49 (decoded [0xff])⟩ := by
    decide +kernel
  have hafter : run step idle (conversation 51 ++ [.sendG711u none, .stop]) =
      some ⟨false, 0, decoded [0x10] :: List.replicate 49 (decoded [0xff])⟩ := by
    decide +kernel
  refine ⟨(output_follows_talk _ _ hopen).1.mp rfl, fun htalking => ?_, _, hafter, rfl⟩
  have hstarted := (output_follows_talk _ _ hclosed).1.mpr htalking
  simp at hstarted

end AudioOutput

end IpcMini
