/-
The encoders of a channel and the list that the capture thread walks.

A `venc` (`src/devices/hisi_3516cv610/dev_venc.cpp`) is one encoder channel of
the SDK.  The running ones stand in the global list `g_vencs`, which the capture
thread walks without a lock.  A `chn` (`dev_chn.cpp`) owns a main encoder and,
where it is configured, a sub encoder that is switched on and off while the
main one goes on.  What the SDK answers is an argument of each function.

* `Capture` — the statics of `venc`, with a record of unguarded changes;
* `Venc.resume`, `Venc.pause`, `Venc.stop` — one encoder;
* `Chn.start`, `Chn.stop`, `Chn.setSubStreamEnabled` — the channel;
* **`Chn.Tidy`** — `g_vencs` holds the running encoders of the channel, in
  order, and the flag of the sub stream is that of its encoder;
* `tidy_start`, `tidy_stop`, **`tidy_setSubStreamEnabled`** — the three
  functions keep it, and change `g_vencs` only without a capture thread.
-/
import Mathlib.Data.Int.Notation
import Mathlib.Data.List.Basic
import Mathlib.Tactic.Common

namespace IpcMini

/-- A `venc_ptr` in `g_vencs`: the object, and the channel number that it keeps
for its whole life and is searched by. -/
structure VencPtr where
  addr : ℕ
  vencChn : ℤ
  deriving DecidableEq, Repr

/-! ### The capture thread and its list -/

/-- The statics of `venc`.  `captureThread` says that the thread has not
returned, `changedInFlight` that `g_vencs` was changed before it had. -/
structure Capture where
  isCapturing : Bool
  captureThread : Bool
  vencs : List VencPtr
  changedInFlight : Bool
  deriving DecidableEq, Repr

namespace Capture

/-- Before the program starts an encoder. -/
def init : Capture := ⟨false, false, [], false⟩

/-- `g_vencs.push_back`. -/
def pushBack (g : Capture) (ptr : VencPtr) : Capture :=
  { g with
    vencs := g.vencs ++ [ptr]
    changedInFlight := g.changedInFlight || g.captureThread }

/-- The loop of `pause`, which erases the first encoder of a channel number. -/
def erase (g : Capture) (vencChn : ℤ) : Capture :=
  if g.vencs.any (·.vencChn == vencChn) then
    { g with
      vencs := g.vencs.eraseP (·.vencChn == vencChn)
      changedInFlight := g.changedInFlight || g.captureThread }
  else g

/-- `venc::start_capture`. -/
def startCapture (g : Capture) : Bool × Capture :=
  if g.isCapturing then (false, g)
  else (true, { g with isCapturing := true, captureThread := true })

/-- `venc::stop_capture`, which returns when the thread has. -/
def stopCapture (g : Capture) : Capture :=
  if !g.isCapturing then g
  else { g with isCapturing := false, captureThread := false }

/-- `on_capturing` leaves its loop when `select` fails; the flag stays up. -/
def captureExits (g : Capture) : Capture := { g with captureThread := false }

/-- A thread is there only under the flag, and the list was left alone while one
was there. -/
structure Guarded (g : Capture) : Prop where
  flagged : g.captureThread = true → g.isCapturing = true
  unchanged : g.changedInFlight = false

variable {g : Capture}

theorem guarded_init : init.Guarded where
  flagged := nofun
  unchanged := rfl

theorem guarded_pushBack (h : g.Guarded) (hthread : g.captureThread = false) (ptr : VencPtr) :
    (g.pushBack ptr).Guarded where
  flagged := h.flagged
  unchanged := by simp [pushBack, h.unchanged, hthread]

theorem guarded_erase (h : g.Guarded) (hthread : g.captureThread = false) (vencChn : ℤ) :
    (g.erase vencChn).Guarded := by
  rw [erase]
  split
  · exact ⟨h.flagged, by simp [h.unchanged, hthread]⟩
  · exact h

theorem guarded_startCapture (h : g.Guarded) : g.startCapture.2.Guarded := by
  rw [startCapture]
  split
  · exact h
  · exact ⟨fun _ => rfl, h.unchanged⟩

theorem guarded_stopCapture (h : g.Guarded) : g.stopCapture.Guarded := by
  rw [stopCapture]
  split
  · exact h
  · exact ⟨nofun, h.unchanged⟩

theorem guarded_captureExits (h : g.Guarded) : g.captureExits.Guarded :=
  ⟨nofun, h.unchanged⟩

/-- Without a capture no thread walks the list. -/
theorem no_thread (h : g.Guarded) (hcapture : g.isCapturing = false) :
    g.captureThread = false := by
  cases hthread : g.captureThread with
  | false => rfl
  | true => simpa [hcapture] using h.flagged hthread

@[simp] theorem stopCapture_isCapturing (g : Capture) :
    g.stopCapture.isCapturing = false := by
  rw [stopCapture]
  split
  next hflag => simpa using hflag
  next => rfl

@[simp] theorem stopCapture_vencs (g : Capture) : g.stopCapture.vencs = g.vencs := by
  rw [stopCapture]
  split <;> rfl

@[simp] theorem startCapture_vencs (g : Capture) : g.startCapture.2.vencs = g.vencs := by
  rw [startCapture]
  split <;> rfl

@[simp] theorem startCapture_isCapturing (g : Capture) :
    g.startCapture.2.isCapturing = true := by
  rw [startCapture]
  split
  next hflag => exact hflag
  next => rfl

@[simp] theorem erase_isCapturing (g : Capture) (vencChn : ℤ) :
    (g.erase vencChn).isCapturing = g.isCapturing := by
  rw [erase]
  split <;> rfl

@[simp] theorem erase_captureThread (g : Capture) (vencChn : ℤ) :
    (g.erase vencChn).captureThread = g.captureThread := by
  rw [erase]
  split <;> rfl

theorem erase_vencs (g : Capture) (vencChn : ℤ) :
    (g.erase vencChn).vencs = g.vencs.eraseP (·.vencChn == vencChn) := by
  rw [erase]
  split
  next => rfl
  next hnone =>
    refine (List.eraseP_of_forall_not fun ptr hptr hchn => hnone ?_).symm
    exact List.any_eq_true.mpr ⟨ptr, hptr, hchn⟩

end Capture

/-! ### One encoder -/

/-- What the SDK answers to the calls of one function of an encoder. -/
structure VencAnswers where
  getChnConfig : Bool
  setChnConfig : Bool
  createChn : Bool
  getFd : ℤ
  bind : Bool
  startChn : Bool
  enableSvc : Bool
  deriving DecidableEq, Repr

/-- The members of `venc` that its life cycle reads. -/
structure Venc where
  this : VencPtr
  svcEnable : Bool
  vencFd : ℤ
  created : Bool
  bound : Bool
  running : Bool
  deriving DecidableEq, Repr

namespace Venc

/-- The constructor. -/
def make (this : VencPtr) (svcEnable : Bool) : Venc := ⟨this, svcEnable, -1, false, false, false⟩

/-- `venc::prepare`. -/
def prepare (v : Venc) (sdk : VencAnswers) : Bool × Venc :=
  if v.created then (true, v)
  else if v.svcEnable && !(sdk.getChnConfig && sdk.setChnConfig) then (false, v)
  else if !sdk.createChn then (false, v)
  else if sdk.getFd < 0 then (false, { v with vencFd := sdk.getFd })
  else (true, { v with created := true, vencFd := sdk.getFd })

/-- `venc::bind_source`. -/
def bindSource (v : Venc) (sdk : VencAnswers) : Bool × Venc :=
  if v.bound then (true, v)
  else if !sdk.bind then (false, v)
  else (true, { v with bound := true })

/-- `venc::unbind_source`. -/
def unbindSource (v : Venc) : Venc := { v with bound := false }

/-- `venc::resume`, which `venc::start` is. -/
def resume (v : Venc) (g : Capture) (sdk : VencAnswers) : Bool × Venc × Capture :=
  if v.running then (true, v, g)
  else
    match v.prepare sdk with
    | (false, v) => (false, v, g)
    | (true, v) =>
      match v.bindSource sdk with
      | (false, v) => (false, v, g)
      | (true, v) =>
        if !sdk.startChn then (false, v.unbindSource, g)
        else if v.svcEnable && !sdk.enableSvc then (false, v.unbindSource, g)
        else (true, { v with running := true }, g.pushBack v.this)

/-- `venc::pause`. -/
def pause (v : Venc) (g : Capture) : Venc × Capture :=
  if !v.running then (v, g)
  else ({ v.unbindSource with running := false }, g.erase v.this.vencChn)

/-- `venc::stop`. -/
def stop (v : Venc) (g : Capture) : Venc × Capture :=
  match v.pause g with
  | (v, g) => if v.created then ({ v with created := false, vencFd := -1 }, g) else (v, g)

variable {v : Venc} {g : Capture} {sdk : VencAnswers}

@[simp] theorem prepare_this (v : Venc) (sdk : VencAnswers) :
    (v.prepare sdk).2.this = v.this := by
  rw [prepare]
  split_ifs <;> rfl

@[simp] theorem prepare_running (v : Venc) (sdk : VencAnswers) :
    (v.prepare sdk).2.running = v.running := by
  rw [prepare]
  split_ifs <;> rfl

/-- Only a channel that the SDK creates is prepared. -/
theorem create_of_prepare (hnew : v.created = false) (h : (v.prepare sdk).1 = true) :
    sdk.createChn = true := by
  rw [prepare, if_neg (by simp [hnew])] at h
  split at h
  next => simp at h
  next =>
    split at h
    next => simp at h
    next hmade => simpa using hmade

@[simp] theorem bindSource_this (v : Venc) (sdk : VencAnswers) :
    (v.bindSource sdk).2.this = v.this := by
  rw [bindSource]
  split_ifs <;> rfl

@[simp] theorem bindSource_running (v : Venc) (sdk : VencAnswers) :
    (v.bindSource sdk).2.running = v.running := by
  rw [bindSource]
  split_ifs <;> rfl

/-- **What `resume` does to an encoder that does not run**: it runs and stands at
the end of `g_vencs`, or neither. -/
theorem resume_cases (h : v.running = false) (g : Capture) (sdk : VencAnswers) :
    (∃ v', v.resume g sdk = (true, v', g.pushBack v.this) ∧ v'.this = v.this ∧
      v'.running = true ∧ (v.prepare sdk).1 = true) ∨
    (∃ v', v.resume g sdk = (false, v', g) ∧ v'.this = v.this ∧ v'.running = false) := by
  have hthis := prepare_this v sdk
  have hrunning := prepare_running v sdk
  rw [resume, if_neg (by simp [h])]
  rcases hprepare : v.prepare sdk with ⟨_ | _, p⟩ <;> rw [hprepare] at hthis hrunning
  · exact .inr ⟨p, rfl, hthis, hrunning.trans h⟩
  have hthis' := bindSource_this p sdk
  have hrunning' := bindSource_running p sdk
  rcases hbind : p.bindSource sdk with ⟨_ | _, b⟩ <;> rw [hbind] at hthis' hrunning'
  · exact .inr ⟨b, by simp [hbind], hthis'.trans hthis, (hrunning'.trans hrunning).trans h⟩
  simp only [hbind]
  have hb : b.this = v.this := hthis'.trans hthis
  have hoff : b.running = false := (hrunning'.trans hrunning).trans h
  split_ifs with hstart hsvc
  · exact .inr ⟨b.unbindSource, rfl, hb, hoff⟩
  · exact .inr ⟨b.unbindSource, rfl, hb, hoff⟩
  · exact .inl ⟨{ b with running := true }, by rw [hb], hb, rfl, trivial⟩

/-- `pause` of a running encoder takes it off the list. -/
theorem pause_of_running (h : v.running = true) (g : Capture) :
    v.pause g = ({ v.unbindSource with running := false }, g.erase v.this.vencChn) := by
  rw [pause, if_neg (by simp [h])]

theorem pause_of_not_running (h : v.running = false) (g : Capture) : v.pause g = (v, g) := by
  rw [pause, if_pos (by simp [h])]

/-- `stop` leaves the list as `pause` does. -/
theorem stopCapture_eq (v : Venc) (g : Capture) : (v.stop g).2 = (v.pause g).2 := by
  rcases hpause : v.pause g with ⟨p, g'⟩
  rw [stop, hpause]
  dsimp only
  split_ifs <;> rfl

end Venc

/-! ### The channel -/

/-- `sys::alloc_venc_chn` over the table of the `maxChn` channel numbers. -/
def allocVencChn (maxChn : ℕ) (vencFlag : ℕ → Bool) : ℤ :=
  match (List.range maxChn).find? (!vencFlag ·) with
  | some i => i
  | none => -1

/-- The table gives out a number while one is free. -/
theorem allocVencChn_nonneg {maxChn i : ℕ} {vencFlag : ℕ → Bool} (hi : i < maxChn)
    (hfree : vencFlag i = false) : 0 ≤ allocVencChn maxChn vencFlag := by
  rw [allocVencChn]
  split
  next j hfind => exact Int.natCast_nonneg j
  next hnone =>
    have hused := List.find?_eq_none.mp hnone i (List.mem_range.mpr hi)
    simp [hfree] at hused

/-- What the surroundings answer to one call of `chn::start`. -/
structure ChnAnswers where
  /-- the channel number, `main.enable` and the name of the sensor pass -/
  admits : Bool
  /-- the picture fits into that of the sensor -/
  fits : Bool
  viStart : Bool
  /-- `make_venc` knows the encoder mode -/
  vencMode : Bool
  maxChn : ℕ
  /-- the channel numbers in use when each encoder is made -/
  mainFlag : ℕ → Bool
  subFlag : ℕ → Bool
  main : VencAnswers
  sub : VencAnswers
  osd : Bool
  /-- the SDK creates no channel with a negative number -/
  numbered : main.createChn = true → 0 ≤ allocVencChn maxChn mainFlag

/-- The channel number of the main encoder. -/
def ChnAnswers.mainChn (a : ChnAnswers) : ℤ := allocVencChn a.maxChn a.mainFlag

/-- The channel number of the sub encoder: that of the main one is in use. -/
def ChnAnswers.subChn (a : ChnAnswers) : ℤ :=
  allocVencChn a.maxChn fun i => a.subFlag i || decide ((i : ℤ) = a.mainChn)

/-- The members of `chn` that its life cycle reads. -/
structure Chn where
  isStart : Bool
  vi : Bool
  main : Option Venc
  sub : Option Venc
  subStreamRunning : Bool
  deriving DecidableEq, Repr

namespace Chn

/-- The constructor. -/
def make : Chn := ⟨false, false, none, none, false⟩

/-- `venc::stop` of an encoder that may not be there. -/
def stopVenc (v : Option Venc) (g : Capture) : Capture :=
  match v with
  | none => g
  | some v => (v.stop g).2

/-- `m_venc_sub_ptr && !m_venc_sub_ptr->prepare()`, negated. -/
def prepareSub (sub : Option Venc) (sdk : VencAnswers) : Bool × Option Venc :=
  match sub with
  | none => (true, none)
  | some v => ((v.prepare sdk).1, some (v.prepare sdk).2)

/-- `chn::start`; its encoders are made at `addr` and `addr + 1`. -/
def start (c : Chn) (g : Capture) (a : ChnAnswers) (addr : ℕ) (svcEnable subEnable : Bool) :
    Bool × Chn × Capture :=
  if c.isStart || !a.admits then (false, c, g)
  else if !a.fits then (false, { c with vi := true }, g)
  else if !a.viStart then (false, { c with vi := false }, g)
  else if !a.vencMode then (false, { c with vi := false, main := none }, g)
  else
    let sub := if subEnable then some (Venc.make ⟨addr + 1, a.subChn⟩ false) else c.sub
    match (Venc.make ⟨addr, a.mainChn⟩ svcEnable).resume g a.main with
    | (false, main, g) =>
      (false, { c with vi := false, main := none, sub := none }, stopVenc sub (main.stop g).2)
    | (true, main, g) =>
      match prepareSub sub a.sub with
      | (prepared, sub) =>
        -- both failures stop the two encoders in this order
        if !(prepared && a.osd) then
          (false, { c with vi := false, main := none, sub := none }, stopVenc sub (main.stop g).2)
        else (true, ⟨true, true, some main, sub, false⟩, g)

/-- `chn::stop`. -/
def stop (c : Chn) (g : Capture) : Chn × Capture :=
  if !c.isStart then (c, g)
  else (make, stopVenc c.sub (stopVenc c.main g))

/-- `chn::set_sub_stream_enabled`. -/
def setSubStreamEnabled (c : Chn) (g : Capture) (enable : Bool) (sdk : VencAnswers) :
    Bool × Chn × Capture :=
  match c.isStart, c.sub with
  | true, some sub =>
    if c.subStreamRunning = enable then (true, c, g)
    else
      let captureWasRunning := g.isCapturing
      let g := if captureWasRunning then g.stopCapture else g
      let changed :=
        if enable then sub.resume g sdk else (true, sub.pause g)
      let restarted :=
        if captureWasRunning then changed.2.2.startCapture else (true, changed.2.2)
      let success := changed.1 && restarted.1
      (success, { c with
        sub := some changed.2.1
        subStreamRunning := if success then enable else c.subStreamRunning }, restarted.2)
  | _, _ => (false, c, g)

/-- The encoders of the channel that run, in the order of `g_vencs`. -/
def runningVencs (c : Chn) : List VencPtr :=
  ((c.main.toList ++ c.sub.toList).filter (·.running)).map (·.this)

/-- Whether the sub encoder runs. -/
def subRuns (c : Chn) : Bool := c.sub.any (·.running)

/-- **The channel and `g_vencs` agree**: the list holds the running encoders,
the flag of the sub stream is that of its encoder, and no encoder can be taken
for the other one. -/
structure Tidy (c : Chn) (g : Capture) : Prop where
  vencs : g.vencs = c.runningVencs
  flag : c.subStreamRunning = c.subRuns
  apart : ∀ main ∈ c.main, ∀ sub ∈ c.sub,
    main.this.addr ≠ sub.this.addr ∧ main.this.vencChn ≠ sub.this.vencChn
  stopped : c.isStart = false → c.main = none ∧ c.sub = none

variable {c : Chn} {g : Capture} {main sub : Venc}

/-- The list of a channel whose sub encoder is `sub`. -/
theorem runningVencs_of_sub (hsub : c.sub = some sub) :
    c.runningVencs = (c.main.toList.filter (·.running)).map (·.this) ++
      if sub.running then [sub.this] else [] := by
  rw [runningVencs, hsub, List.filter_append, List.map_append]
  congr 1
  cases hrun : sub.running <;> simp [hrun]

theorem subRuns_of_sub (hsub : c.sub = some sub) : c.subRuns = sub.running := by
  simp [subRuns, hsub]

theorem tidy_make (h : g.vencs = []) : Tidy make g where
  vencs := h
  flag := rfl
  apart := nofun
  stopped := fun _ => ⟨rfl, rfl⟩

/-- The main encoder is never taken for the sub one. -/
theorem eraseP_main {l : List Venc} {vencChn : ℤ} (h : ∀ v ∈ l, v.this.vencChn ≠ vencChn)
    (rest : List VencPtr) :
    ((l.map (·.this)) ++ rest).eraseP (·.vencChn == vencChn) =
      (l.map (·.this)) ++ rest.eraseP (·.vencChn == vencChn) := by
  refine List.eraseP_append_right _ fun ptr hptr => ?_
  obtain ⟨v, hv, rfl⟩ := List.mem_map.mp hptr
  simpa using h v hv

@[simp] theorem stopVenc_none (g : Capture) : stopVenc none g = g := rfl

theorem stopVenc_off (h : main.running = false) (g : Capture) :
    stopVenc (some main) g = g := by
  rw [stopVenc, Venc.stopCapture_eq, Venc.pause_of_not_running h]

theorem stopVenc_on (h : main.running = true) (g : Capture) :
    stopVenc (some main) g = g.erase main.this.vencChn := by
  rw [stopVenc, Venc.stopCapture_eq, Venc.pause_of_running h]

theorem guarded_stopVenc (h : g.Guarded) (hthread : g.captureThread = false)
    (v : Option Venc) :
    (stopVenc v g).Guarded ∧ (stopVenc v g).captureThread = false ∧
      (stopVenc v g).isCapturing = g.isCapturing := by
  cases v with
  | none => exact ⟨h, hthread, rfl⟩
  | some v =>
    cases hrun : v.running with
    | false =>
      rw [stopVenc_off hrun]
      exact ⟨h, hthread, rfl⟩
    | true =>
      rw [stopVenc_on hrun]
      exact ⟨Capture.guarded_erase h hthread _, by simp [hthread], by simp⟩

/-- Stopping the encoders of a channel empties the list. -/
theorem stop_vencs_nil (h : c.Tidy g) : (stopVenc c.sub (stopVenc c.main g)).vencs = [] := by
  have hlist := h.vencs
  rw [runningVencs] at hlist
  rcases hmain : c.main with _ | main <;> rcases hsub : c.sub with _ | sub <;>
    rw [hmain, hsub] at hlist
  · exact hlist
  · cases hrun : sub.running with
    | false => simpa [stopVenc_off hrun, hrun] using hlist
    | true => simp [stopVenc_on hrun, Capture.erase_vencs, hlist, hrun]
  · cases hrun : main.running with
    | false => simpa [stopVenc_off hrun, hrun] using hlist
    | true => simp [stopVenc_on hrun, Capture.erase_vencs, hlist, hrun]
  · cases hrun : main.running <;> cases hrun' : sub.running
    · simpa [stopVenc_off hrun, stopVenc_off hrun', hrun, hrun'] using hlist
    · simp [stopVenc_off hrun, stopVenc_on hrun', Capture.erase_vencs, hlist, hrun, hrun']
    · simp [stopVenc_on hrun, stopVenc_off hrun', Capture.erase_vencs, hlist, hrun, hrun']
    · simp [stopVenc_on hrun, stopVenc_on hrun', Capture.erase_vencs, hlist, hrun, hrun']

/-- The numbers that the table gives out for the two encoders differ, unless it
has none left. -/
theorem subChn_ne {a : ChnAnswers} (h : 0 ≤ a.mainChn) : a.mainChn ≠ a.subChn := by
  intro heq
  rw [ChnAnswers.subChn, allocVencChn] at heq
  split at heq
  next i hfind =>
    have hfree := List.find?_some hfind
    simp [heq] at hfree
  next => omega

/-- A channel whose encoders are gone agrees with the list they left. -/
theorem tidy_cleared (vi : Bool) (h : g.vencs = []) : Tidy ⟨false, vi, none, none, false⟩ g where
  vencs := h
  flag := rfl
  apart := nofun
  stopped := fun _ => ⟨rfl, rfl⟩

theorem stopVenc_idle {v : Option Venc} (h : ∀ w ∈ v, w.running = false) (g : Capture) :
    stopVenc v g = g := by
  rcases v with _ | w
  · rfl
  · exact stopVenc_off (h w rfl) g

theorem mem_prepareSub {sub : Option Venc} {sdk : VencAnswers} {w : Venc}
    (h : w ∈ (prepareSub sub sdk).2) :
    ∃ v ∈ sub, w.this = v.this ∧ w.running = v.running := by
  rcases sub with _ | v
  · simp [prepareSub] at h
  · obtain rfl : (v.prepare sdk).2 = w := by simpa [prepareSub] using h
    exact ⟨v, rfl, Venc.prepare_this v sdk, Venc.prepare_running v sdk⟩

/-- **`chn::start` of a new channel** with an empty list and no capture. -/
theorem tidy_start (hg : g.Guarded) (hcapture : g.isCapturing = false) (hnil : g.vencs = [])
    {a : ChnAnswers} {addr : ℕ} {svcEnable subEnable ok : Bool} {c' : Chn} {g' : Capture}
    (h : make.start g a addr svcEnable subEnable = (ok, c', g')) :
    c'.Tidy g' ∧ g'.Guarded ∧ g'.isCapturing = false := by
  have hthread := Capture.no_thread hg hcapture
  rw [start] at h
  split at h
  · obtain ⟨-, rfl, rfl⟩ := by simpa using h
    exact ⟨tidy_make hnil, hg, hcapture⟩
  split at h
  · obtain ⟨-, rfl, rfl⟩ := by simpa using h
    exact ⟨tidy_cleared true hnil, hg, hcapture⟩
  split at h
  · obtain ⟨-, rfl, rfl⟩ := by simpa using h
    exact ⟨tidy_cleared false hnil, hg, hcapture⟩
  split at h
  · obtain ⟨-, rfl, rfl⟩ := by simpa using h
    exact ⟨tidy_cleared false hnil, hg, hcapture⟩
  -- the sub encoder is new, so it neither runs nor stands in the list
  set sub := if subEnable then some (Venc.make ⟨addr + 1, a.subChn⟩ false) else make.sub with hsub
  have hnew : ∀ v ∈ sub, v.this = ⟨addr + 1, a.subChn⟩ ∧ v.running = false := by
    intro v hv
    rw [hsub] at hv
    cases subEnable with
    | false => simp [make] at hv
    | true =>
      obtain rfl := Option.some_inj.mp hv
      exact ⟨rfl, rfl⟩
  have hprepared : ∀ v ∈ (prepareSub sub a.sub).2,
      v.this = ⟨addr + 1, a.subChn⟩ ∧ v.running = false := by
    intro v hv
    obtain ⟨w, hw, hthis, hrun⟩ := mem_prepareSub hv
    exact ⟨hthis.trans (hnew w hw).1, hrun.trans (hnew w hw).2⟩
  have hidle : (Venc.make ⟨addr, a.mainChn⟩ svcEnable).running = false := rfl
  rcases Venc.resume_cases hidle g a.main with
    ⟨main, hres, hthis, hrun, hprep⟩ | ⟨main, hres, -, hrun⟩
  · rw [hres] at h
    have hchn : a.mainChn ≠ a.subChn := subChn_ne (a.numbered (Venc.create_of_prepare rfl hprep))
    have hmain : main.this = ⟨addr, a.mainChn⟩ := hthis
    have hpush := Capture.guarded_pushBack hg hthread ⟨addr, a.mainChn⟩
    have hlist : (g.pushBack ⟨addr, a.mainChn⟩).vencs = [⟨addr, a.mainChn⟩] := by
      rw [Capture.pushBack, hnil, List.nil_append]
    dsimp only at h
    split at h
    · -- the main encoder, which runs, is taken off the list again
      obtain ⟨-, rfl, rfl⟩ := by simpa using h
      rw [stopVenc_idle fun v hv => (hprepared v hv).2, Venc.stopCapture_eq,
        Venc.pause_of_running hrun, hmain]
      refine ⟨tidy_cleared false ?_, Capture.guarded_erase hpush hthread _, ?_⟩
      · show ((g.pushBack ⟨addr, a.mainChn⟩).erase a.mainChn).vencs = []
        simp [Capture.erase_vencs, hlist]
      · rw [Capture.erase_isCapturing]
        exact hcapture
    · obtain ⟨-, rfl, rfl⟩ := by simpa using h
      refine ⟨⟨?_, ?_, ?_, nofun⟩, hpush, hcapture⟩
      · show (g.pushBack ⟨addr, a.mainChn⟩).vencs = _
        have hsub_off : (prepareSub sub a.sub).2.toList.filter (·.running) = [] := by
          refine List.filter_eq_nil_iff.mpr fun v hv => ?_
          simp [(hprepared v (by simpa using hv)).2]
        rw [hlist, runningVencs, List.filter_append, hsub_off]
        simp [hrun, hmain]
      · show false = Option.any (·.running) (prepareSub sub a.sub).2
        rcases hs : (prepareSub sub a.sub).2 with _ | v
        · rfl
        · exact (hprepared v hs).2.symm
      · intro m hm v hv
        obtain rfl : main = m := by simpa using hm
        rw [hmain, (hprepared v hv).1]
        exact ⟨by simp, hchn⟩
  · rw [hres] at h
    obtain ⟨-, rfl, rfl⟩ := by simpa using h
    rw [stopVenc_idle fun v hv => (hnew v hv).2, Venc.stopCapture_eq,
      Venc.pause_of_not_running hrun]
    exact ⟨tidy_cleared false hnil, hg, hcapture⟩

/-- A sub encoder is made only where the configuration asks for one. -/
theorem subEnable_of_start {a : ChnAnswers} {addr : ℕ} {svcEnable subEnable ok : Bool}
    {c' : Chn} {g' : Capture}
    (h : make.start g a addr svcEnable subEnable = (ok, c', g')) (hsub : c'.sub.isSome = true) :
    subEnable = true := by
  cases subEnable with
  | true => rfl
  | false =>
    have hnone : (make.start g a addr svcEnable false).2.1.sub = none := by
      rw [start]
      rcases (Venc.make ⟨addr, a.mainChn⟩ svcEnable).resume g a.main with ⟨_ | _, main, g₁⟩
      · split_ifs <;> rfl
      · have hsub : prepareSub make.sub a.sub = (true, none) := rfl
        dsimp only
        rw [if_neg Bool.false_ne_true, hsub]
        split_ifs <;> rfl
    rw [h] at hnone
    simp [show c'.sub = none from hnone] at hsub

/-- **`chn::stop`** leaves no encoder behind. -/
theorem tidy_stop (h : c.Tidy g) (hg : g.Guarded) (hcapture : g.isCapturing = false) :
    (c.stop g).2.vencs = [] ∧ (c.stop g).2.Guarded ∧ (c.stop g).2.isCapturing = false := by
  have hthread := Capture.no_thread hg hcapture
  rw [stop]
  split
  next hidle =>
    obtain ⟨hmain, hsub⟩ := h.stopped (by simpa using hidle)
    refine ⟨?_, hg, hcapture⟩
    rw [h.vencs, runningVencs, hmain, hsub]
    rfl
  next =>
    obtain ⟨hg₁, hthread₁, hcapture₁⟩ := guarded_stopVenc hg hthread c.main
    obtain ⟨hg₂, -, hcapture₂⟩ := guarded_stopVenc hg₁ hthread₁ c.sub
    exact ⟨stop_vencs_nil h, hg₂, hcapture₂.trans (hcapture₁.trans hcapture)⟩

/-- Replacing the sub encoder by a later state of itself keeps the channel tidy
if the list follows. -/
theorem tidy_set_sub (h : c.Tidy g) (hstart : c.isStart = true) (hsub : c.sub = some sub)
    {v : Venc} (hthis : v.this = sub.this) {g' : Capture}
    (hvencs : g'.vencs = (c.main.toList.filter (·.running)).map (·.this) ++
      if v.running then [v.this] else []) :
    Tidy { c with sub := some v, subStreamRunning := v.running } g' where
  vencs := by
    have hsome : Chn.sub { c with sub := some v, subStreamRunning := v.running } = some v := rfl
    rw [hvencs, runningVencs_of_sub hsome]
  flag := rfl
  apart := by
    intro main hmain w hw
    obtain rfl : v = w := by simpa using hw
    rw [hthis]
    exact h.apart main hmain sub hsub
  stopped := fun hoff => by simp [hstart] at hoff

/-- **What the change itself does** with no thread on the list: the encoder ends
up as asked and the list follows, or nothing has changed. -/
theorem switch_sub (h : c.Tidy g) (hg : g.Guarded) (hcapture : g.isCapturing = false)
    (hsub : c.sub = some sub) {enable : Bool} (hne : c.subStreamRunning ≠ enable)
    (sdk : VencAnswers) {s : Bool} {v : Venc} {g' : Capture}
    (heq : (if enable then sub.resume g sdk else (true, sub.pause g)) = (s, v, g')) :
    g'.Guarded ∧ g'.isCapturing = false ∧ v.this = sub.this ∧
      v.running = (if s then enable else c.subStreamRunning) ∧
      (s = false → g'.vencs = g.vencs) ∧
      g'.vencs = (c.main.toList.filter (·.running)).map (·.this) ++
        if v.running then [v.this] else [] := by
  have hthread := Capture.no_thread hg hcapture
  have hruns : c.subStreamRunning = sub.running := h.flag.trans (subRuns_of_sub hsub)
  have hlist := h.vencs.trans (runningVencs_of_sub hsub)
  cases enable with
  | true =>
    have hoff : sub.running = false := by simpa [hruns] using hne
    rw [if_pos rfl] at heq
    rcases Venc.resume_cases hoff g sdk with ⟨w, hres, hthis, hrun, -⟩ | ⟨w, hres, hthis, hrun⟩
    · obtain ⟨rfl, rfl, rfl⟩ := by simpa using hres.symm.trans heq
      refine ⟨Capture.guarded_pushBack hg hthread _, hcapture, hthis, by simpa using hrun,
        nofun, ?_⟩
      show g.vencs ++ [sub.this] = _
      rw [hlist, hoff, hrun, hthis]
      simp
    · -- `resume` failed and left the list alone
      obtain ⟨rfl, rfl, rfl⟩ := by simpa using hres.symm.trans heq
      refine ⟨hg, hcapture, hthis, by simp [hrun, hruns, hoff], fun _ => rfl, ?_⟩
      rw [hlist, hoff, hrun]
      simp
  | false =>
    have hon : sub.running = true := by simpa [hruns] using hne
    rw [if_neg Bool.false_ne_true, Venc.pause_of_running hon] at heq
    obtain ⟨rfl, rfl, rfl⟩ := by simpa using heq
    refine ⟨Capture.guarded_erase hg hthread _, by simpa using hcapture, rfl, rfl, nofun, ?_⟩
    rw [Capture.erase_vencs, hlist, hon, if_pos rfl, eraseP_main ?_]
    · simp
    · intro v hv
      have hmain : v ∈ c.main := by simpa using (List.mem_filter.mp hv).1
      exact (h.apart v hmain sub hsub).2

/-- The begin of the bracket: a capture that runs is stopped. -/
theorem quiesced (hg : g.Guarded) :
    (if g.isCapturing then g.stopCapture else g).Guarded ∧
    (if g.isCapturing then g.stopCapture else g).isCapturing = false ∧
    (if g.isCapturing then g.stopCapture else g).vencs = g.vencs := by
  cases hon : g.isCapturing with
  | false => exact ⟨hg, hon, rfl⟩
  | true =>
    exact ⟨Capture.guarded_stopCapture hg, Capture.stopCapture_isCapturing g,
      Capture.stopCapture_vencs g⟩

/-- Its end: the capture is off here, so it can be started again. -/
theorem restarted (hg : g.Guarded) (hcapture : g.isCapturing = false) (wasRunning : Bool) :
    (if wasRunning then g.startCapture else (true, g)).1 = true ∧
    (if wasRunning then g.startCapture else (true, g)).2.Guarded ∧
    (if wasRunning then g.startCapture else (true, g)).2.isCapturing = wasRunning ∧
    (if wasRunning then g.startCapture else (true, g)).2.vencs = g.vencs := by
  cases wasRunning with
  | false => exact ⟨rfl, hg, hcapture, rfl⟩
  | true =>
    refine ⟨?_, Capture.guarded_startCapture hg, Capture.startCapture_isCapturing g,
      Capture.startCapture_vencs g⟩
    rw [if_pos rfl, Capture.startCapture, if_neg (by simp [hcapture])]

/-- **`chn::set_sub_stream_enabled`** keeps the channel tidy, changes the list
only without a thread on it and leaves the capture as it was; a call that
returns false leaves the list and the flag as they were. -/
theorem tidy_setSubStreamEnabled (h : c.Tidy g) (hg : g.Guarded) {enable : Bool}
    {sdk : VencAnswers} {ok : Bool} {c' : Chn} {g' : Capture}
    (heq : c.setSubStreamEnabled g enable sdk = (ok, c', g')) :
    c'.Tidy g' ∧ g'.Guarded ∧ g'.isCapturing = g.isCapturing ∧
      c'.sub.isSome = c.sub.isSome ∧
      c'.subStreamRunning = (if ok then enable else c.subStreamRunning) ∧
      (ok = false → g'.vencs = g.vencs) := by
  rw [setSubStreamEnabled] at heq
  split at heq
  case h_2 =>
    obtain ⟨rfl, rfl, rfl⟩ := by simpa using heq
    exact ⟨h, hg, rfl, rfl, rfl, fun _ => rfl⟩
  case h_1 sub hstart hsub =>
  split at heq
  next hsame =>
    obtain ⟨rfl, rfl, rfl⟩ := by simpa using heq
    exact ⟨h, hg, rfl, rfl, by simpa using hsame, nofun⟩
  next hne =>
  dsimp only at heq
  -- the bracket: no thread while the encoder changes
  obtain ⟨hg₁, hcapture₁, hvencs₁⟩ := quiesced hg
  set g₁ := if g.isCapturing then g.stopCapture else g
  have h₁ : c.Tidy g₁ := ⟨hvencs₁.trans h.vencs, h.flag, h.apart, h.stopped⟩
  rcases hchanged : (if enable then sub.resume g₁ sdk else (true, sub.pause g₁)) with ⟨s, v, g₂⟩
  obtain ⟨hg₂, hcapture₂, hthis, hrun, hsame, hlist⟩ :=
    switch_sub h₁ hg₁ hcapture₁ hsub hne sdk hchanged
  rw [hchanged] at heq
  obtain ⟨hrestart, hg₃, hcapture₃, hvencs₃⟩ := restarted hg₂ hcapture₂ g.isCapturing
  simp only [hrestart, Bool.and_true, Prod.mk.injEq] at heq
  obtain ⟨rfl, rfl, rfl⟩ := heq
  rw [← hrun]
  refine ⟨tidy_set_sub h hstart hsub hthis (hvencs₃.trans hlist), hg₃, hcapture₃, ?_, rfl,
    fun hs => hvencs₃.trans ((hsame hs).trans hvencs₁)⟩
  rw [hsub]
  rfl

end Chn

end IpcMini
