/-
The overlay regions of the texts on the pictures (`devices/hisi_3516cv610/dev_osd.cpp`,
`dev_sys.cpp`).

Every `osd` object takes a handle of the pool when it is made, creates a region of the SDK
under it and attaches that to an encoder's channel.  The objects of the channels and those of
the detector are used by different threads, and the calls of the SDK, which may fail, come in
any order.

* `Osd`, `Osd.step` — one object, and the steps of its calls and of its thread;
* `State`, `step` — all objects, the pool of handles and the regions of the SDK;
* `Good`, **`step_good`** — what an object relies on, and that its steps keep it;
* `Lost` — a region was not destroyed when it should have been;
* **`regions_owned`** — in every run a handle is taken exactly while one object has it, a
  region exists exactly while its object shows it or if it was lost, and every call of the SDK
  meets the region that it needs.
-/
import IpcMini.Run
import IpcMini.Slots

namespace IpcMini

open Interleaving

namespace OsdRegions

/-! ### One object -/

/-- `osd_date` and `osd_name`. -/
inductive Kind
  | date
  | name
  deriving DecidableEq, Repr

/-- Where the call that an object is in stands. -/
inductive Call
  | idle
  /-- `osd::start`: its region is to be attached, or to be destroyed after that failed -/
  | attach
  | undo
  /-- `osd_name::start`: the canvas is to be had, and to be updated -/
  | canvas
  | update
  /-- `osd_date::stop`: the thread is to be joined -/
  | join
  /-- `osd::stop`: the region is to be detached and to be destroyed, the handle to be freed -/
  | detach
  | destroy
  | free
  deriving DecidableEq, Repr

/-- Where `m_thd` stands in `osd_date::on_refresh`; `none` when it is not joinable. -/
inductive Thread
  | none
  | loop
  | drawing
  | ended
  deriving DecidableEq, Repr

structure Osd where
  kind : Kind
  /-- `none` is `OT_INVALID_HANDLE` -/
  mRgnH : Option ℕ
  mIsStart : Bool
  call : Call
  mThd : Thread
  /-- its destructor has begun -/
  destroyed : Bool
  deriving DecidableEq, Repr

/-- What a thread does to an object, with the answers of the SDK. -/
inductive Action
  | start (created : Bool)
  | attach (attached : Bool)
  | canvas (found : Bool)
  | update (updated : Bool)
  | stop
  | join
  | detach (detached : Bool)
  | destroy (destroyed : Bool)
  | free
  | refresh (succeeded : Bool)
  | destruct
  deriving DecidableEq, Repr

/-- The object after a step, if it still exists, its region, and whether the handle was
freed or the process ended. -/
structure Outcome where
  osd : Option Osd
  region : Option Bool
  freed : Bool
  terminates : Bool

namespace Osd

/-- The object goes on as another, with its handle. -/
def goes (o : Osd) (region : Option Bool) : Outcome := ⟨some o, region, false, false⟩

/-- `osd::start` up to the creation of the region, which the SDK refuses where there is one.
A region is `some` of whether it is attached. -/
def start (o : Osd) (region : Option Bool) (created : Bool) : Option Outcome :=
  if o.call ≠ .idle then none
  else if o.mIsStart || o.mRgnH.isNone || !created then some (o.goes region)
  else if region.isSome then none
  else some ({ o with call := .attach }.goes (some false))

/-- `osd::start` from `ss_mpi_rgn_attach_to_chn` on; `osd_date::start` starts its thread
then. -/
def attach (o : Osd) (region : Option Bool) (attached : Bool) : Option Outcome :=
  if o.call ≠ .attach then none
  else if !attached then some ({ o with call := .undo }.goes region)
  else
    match o.kind with
    | .date => some ({ o with mIsStart := true, call := .idle, mThd := .loop }.goes (some true))
    | .name => some ({ o with mIsStart := true, call := .canvas }.goes (some true))

/-- `osd_name::start` from the canvas on. -/
def canvas (o : Osd) (region : Option Bool) (found : Bool) : Option Outcome :=
  if o.call ≠ .canvas then none
  else some ({ o with call := if found then .update else .detach }.goes region)

def update (o : Osd) (region : Option Bool) (updated : Bool) : Option Outcome :=
  if o.call ≠ .update then none
  else some ({ o with call := if updated then .idle else .detach }.goes region)

/-- `osd_date::stop`, and `osd_name::stop`, which is `osd::stop`. -/
def stop (o : Osd) (region : Option Bool) : Option Outcome :=
  if o.call ≠ .idle then none
  else
    match o.kind, o.mIsStart with
    | .date, false => some (o.goes region)
    | .date, true => some ({ o with mIsStart := false, call := .join }.goes region)
    | .name, true => some ({ o with call := .detach }.goes region)
    | .name, false => some ⟨some { o with mRgnH := none }, region, o.mRgnH.isSome, false⟩

def join (o : Osd) (region : Option Bool) : Option Outcome :=
  if o.call = .join ∧ o.mThd = .ended then
    some ({ o with mThd := .none, call := .detach }.goes region)
  else none

/-- `ss_mpi_rgn_detach_from_chn`, whose result is not looked at. -/
def detach (o : Osd) (region : Option Bool) (detached : Bool) : Option Outcome :=
  if o.call ≠ .detach then none
  else some ({ o with call := .destroy }.goes (if detached then some false else region))

/-- `ss_mpi_rgn_destroy`, whose result is not looked at. -/
def destroy (o : Osd) (region : Option Bool) (destroyed : Bool) : Option Outcome :=
  match o.call with
  | .undo => some ({ o with call := .idle }.goes (if destroyed then none else region))
  | .destroy => some ({ o with call := .free }.goes (if destroyed then none else region))
  | _ => none

/-- The end of `stop`, and of a destructor that called it. -/
def free (o : Osd) (region : Option Bool) : Option Outcome :=
  if o.call ≠ .free then none
  else if o.destroyed then some ⟨none, region, true, false⟩
  else
    some ⟨some { o with mRgnH := none, mIsStart := false, call := .idle }, region, true, false⟩

/-- `osd_date::on_refresh`: the loop asks for the canvas, and updates it after drawing. -/
def refresh (o : Osd) (region : Option Bool) (succeeded : Bool) : Option Outcome :=
  match o.mThd with
  | .loop =>
    some ({ o with mThd := if o.mIsStart && succeeded then .drawing else .ended }.goes region)
  | .drawing => some ({ o with mThd := if succeeded then .loop else .ended }.goes region)
  | _ => none

/-- The destructors: a joinable thread ends the process, and `~osd` stops what is started. -/
def destruct (o : Osd) (region : Option Bool) : Option Outcome :=
  if o.call ≠ .idle then none
  else if o.mThd ≠ .none then some ⟨some o, region, false, true⟩
  else if o.mIsStart then some ({ o with call := .detach, destroyed := true }.goes region)
  else some ⟨none, region, o.mRgnH.isSome, false⟩

def step (o : Osd) (region : Option Bool) : Action → Option Outcome
  | .start created => o.start region created
  | .attach attached => o.attach region attached
  | .canvas found => o.canvas region found
  | .update updated => o.update region updated
  | .stop => o.stop region
  | .join => o.join region
  | .detach detached => o.detach region detached
  | .destroy destroyed => o.destroy region destroyed
  | .free => o.free region
  | .refresh succeeded => o.refresh region succeeded
  | .destruct => o.destruct region

/-- The object has created its region and not destroyed it. -/
def hasRegion (o : Osd) : Bool :=
  match o.call with
  | .idle => o.mIsStart
  | .free => false
  | _ => true

/-- It has attached it and not detached it. -/
def isAttached (o : Osd) : Bool :=
  match o.call with
  | .idle => o.mIsStart
  | .canvas | .update | .join | .detach => true
  | .attach | .undo | .destroy | .free => false

end Osd

/-- The region that a call of the SDK needs. -/
def Action.Needs (region : Option Bool) : Action → Prop
  | .attach _ => region = some false
  | .canvas _ | .update _ | .detach _ | .refresh _ => region = some true
  | .destroy _ => region.isSome = true
  | _ => True

/-! ### What an object relies on -/

/-- What holds of an object and its region, where `lost` says that a region under its handle
was not destroyed. -/
structure Good (o : Osd) (region : Option Bool) (lost : Prop) : Prop where
  region_iff : region.isSome = true ↔ o.hasRegion = true ∨ lost
  not_lost : o.hasRegion = true → ¬ lost
  attached : o.isAttached = true → region = some true
  unattached : o.call = .attach → region = some false
  handle : o.hasRegion = true ∨ o.call = .free → o.mRgnH.isSome = true
  started : o.mIsStart = true → o.call ≠ .attach ∧ o.call ≠ .undo ∧ o.call ≠ .join
  thread_iff : o.mThd ≠ .none ↔
    o.kind = .date ∧ (o.call = .idle ∧ o.mIsStart = true ∨ o.call = .join)
  drawing : o.call = .canvas ∨ o.call = .update → o.kind = .name ∧ o.mIsStart = true

/-- The object keeps its handle. -/
def Keeps (o : Osd) (out : Outcome) (lost : Prop) : Prop :=
  out.freed = false ∧ ∃ p, out.osd = some p ∧ p.mRgnH = o.mRgnH ∧ Good p out.region lost

/-- The object gives its handle back, if it has one, or is gone with it. -/
def Gives (o : Osd) (region : Option Bool) (out : Outcome) : Prop :=
  out.freed = o.mRgnH.isSome ∧ out.region = region ∧ o.hasRegion = false ∧
    ∀ p, out.osd = some p → p.mRgnH = none ∧ Good p none False

section Steps

variable {o : Osd} {region : Option Bool} {lost : Prop} {a : Action} {out : Outcome}

theorem Good.congr {lost' : Prop} (h : Good o region lost) (hiff : lost ↔ lost') :
    Good o region lost' := propext hiff ▸ h

theorem keeps_goes {p : Osd} (hhandle : p.mRgnH = o.mRgnH) (h : Good p region lost) :
    Keeps o (p.goes region) lost := ⟨rfl, p, rfl, hhandle, h⟩

theorem good_start {created : Bool} (h : Good o region lost)
    (hstep : o.start region created = some out) : Keeps o out lost := by
  unfold Osd.start at hstep
  split_ifs at hstep with hidle hstays hregion
  · cases hstep
    exact keeps_goes rfl h
  · cases hstep
    simp only [Bool.or_eq_true, not_or, Bool.not_eq_true, Option.isNone_eq_false_iff] at hstays
    obtain ⟨⟨hstart, hhandle⟩, -⟩ := hstays
    have hlost : ¬ lost := fun hlost => hregion (h.region_iff.mpr (.inr hlost))
    have hthread := h.thread_iff
    refine keeps_goes rfl ?_
    constructor <;> simp_all [Osd.hasRegion, Osd.isAttached]

theorem good_attach {attached : Bool} (h : Good o region lost)
    (hstep : o.attach region attached = some out) : Keeps o out lost := by
  obtain ⟨hregion, hlost, -, -, hhandle, hstarted, hthread, -⟩ := h
  unfold Osd.attach at hstep
  split_ifs at hstep with hcall hno
  · cases hstep
    refine keeps_goes rfl ?_
    constructor <;> simp_all [Osd.hasRegion, Osd.isAttached]
  · split at hstep <;> cases hstep <;> refine keeps_goes rfl ?_ <;>
      constructor <;> simp_all [Osd.hasRegion, Osd.isAttached]

theorem good_canvas {found : Bool} (h : Good o region lost)
    (hstep : o.canvas region found = some out) : Keeps o out lost := by
  obtain ⟨hregion, hlost, hattached, -, hhandle, -, hthread, hdrawing⟩ := h
  unfold Osd.canvas at hstep
  split at hstep
  · cases hstep
  · cases hstep
    refine keeps_goes rfl ?_
    cases found <;> constructor <;> simp_all [Osd.hasRegion, Osd.isAttached]

theorem good_update {updated : Bool} (h : Good o region lost)
    (hstep : o.update region updated = some out) : Keeps o out lost := by
  obtain ⟨hregion, hlost, hattached, -, hhandle, hstarted, hthread, hdrawing⟩ := h
  unfold Osd.update at hstep
  split at hstep
  · cases hstep
  · cases hstep
    refine keeps_goes rfl ?_
    cases updated <;> constructor <;> simp_all [Osd.hasRegion, Osd.isAttached]

theorem good_join (h : Good o region lost) (hstep : o.join region = some out) :
    Keeps o out lost := by
  obtain ⟨hregion, hlost, hattached, -, hhandle, hstarted, hthread, -⟩ := h
  unfold Osd.join at hstep
  split_ifs at hstep with hcall
  cases hstep
  refine keeps_goes rfl ?_
  constructor <;> simp_all [Osd.hasRegion, Osd.isAttached]

theorem good_detach {detached : Bool} (h : Good o region lost)
    (hstep : o.detach region detached = some out) : Keeps o out lost := by
  obtain ⟨hregion, hlost, hattached, -, hhandle, -, hthread, -⟩ := h
  unfold Osd.detach at hstep
  split at hstep
  · cases hstep
  · cases hstep
    refine keeps_goes rfl ?_
    cases detached <;> constructor <;> simp_all [Osd.hasRegion, Osd.isAttached]

theorem good_destroy {destroyed : Bool} (h : Good o region lost)
    (hstep : o.destroy region destroyed = some out) :
    Keeps o out (lost ∨ destroyed = false) := by
  obtain ⟨hregion, hlost, -, -, hhandle, hstarted, hthread, -⟩ := h
  unfold Osd.destroy at hstep
  split at hstep <;> cases hstep <;> refine keeps_goes rfl ?_ <;>
    cases destroyed <;> constructor <;> simp_all [Osd.hasRegion, Osd.isAttached]

/-- Where the thread stands matters only in that there is one. -/
theorem Good.thread (h : Good o region lost) (hthread : o.mThd ≠ .none) {thread : Thread}
    (hne : thread ≠ .none) : Good { o with mThd := thread } region lost :=
  ⟨h.region_iff, h.not_lost, h.attached, h.unattached, h.handle, h.started,
    ⟨fun _ => h.thread_iff.mp hthread, fun _ => hne⟩, h.drawing⟩

theorem good_refresh {succeeded : Bool} (h : Good o region lost)
    (hstep : o.refresh region succeeded = some out) : Keeps o out lost := by
  unfold Osd.refresh at hstep
  split at hstep
  next hloop =>
    cases hstep
    exact keeps_goes rfl (h.thread (by rw [hloop]; decide) (by split <;> decide))
  next hdrawing =>
    cases hstep
    exact keeps_goes rfl (h.thread (by rw [hdrawing]; decide) (by split <;> decide))
  · cases hstep

theorem good_stop (h : Good o region lost) (hstep : o.stop region = some out) :
    Keeps o out lost ∨ Gives o region out := by
  have hself := h
  obtain ⟨hregion, hlost, hattached, -, hhandle, hstarted, hthread, -⟩ := h
  unfold Osd.stop at hstep
  split at hstep
  · cases hstep
  · split at hstep <;> cases hstep
    · exact .inl (keeps_goes rfl hself)
    · refine .inl (keeps_goes rfl ?_)
      constructor <;> simp_all [Osd.hasRegion, Osd.isAttached]
    · refine .inl (keeps_goes rfl ?_)
      constructor <;> simp_all [Osd.hasRegion, Osd.isAttached]
    · refine .inr ⟨rfl, rfl, by simp_all [Osd.hasRegion], ?_⟩
      rintro p ⟨⟩
      refine ⟨rfl, ?_⟩
      constructor <;> simp_all [Osd.hasRegion, Osd.isAttached]

theorem good_free (h : Good o region lost) (hstep : o.free region = some out) :
    Gives o region out := by
  obtain ⟨-, -, -, -, hhandle, -, hthread, -⟩ := h
  unfold Osd.free at hstep
  split_ifs at hstep with hcall hdestroyed
  · cases hstep
    have hcall : o.call = .free := not_not.mp hcall
    exact ⟨(hhandle (.inr hcall)).symm, rfl, by simp [Osd.hasRegion, hcall], fun _ h => by cases h⟩
  · cases hstep
    have hcall : o.call = .free := not_not.mp hcall
    refine ⟨(hhandle (.inr hcall)).symm, rfl, by simp [Osd.hasRegion, hcall], ?_⟩
    rintro p ⟨⟩
    refine ⟨rfl, ?_⟩
    constructor <;> simp_all [Osd.hasRegion, Osd.isAttached]

theorem good_destruct (h : Good o region lost) (hstep : o.destruct region = some out) :
    Keeps o out lost ∨ Gives o region out := by
  have hself := h
  obtain ⟨hregion, hlost, hattached, -, hhandle, hstarted, hthread, -⟩ := h
  unfold Osd.destruct at hstep
  split at hstep
  · cases hstep
  split at hstep
  · cases hstep
    exact .inl ⟨rfl, o, rfl, rfl, hself⟩
  split at hstep <;> cases hstep
  · refine .inl (keeps_goes rfl ?_)
    constructor <;> simp_all [Osd.hasRegion, Osd.isAttached]
  · exact .inr ⟨rfl, rfl, by simp_all [Osd.hasRegion], fun _ h => by cases h⟩

/-- **One step of an object** keeps what it relies on, or gives its handle back. -/
theorem step_good (h : Good o region lost) (hstep : o.step region a = some out) :
    Keeps o out (lost ∨ a = .destroy false) ∨ Gives o region out ∧ a ≠ .destroy false := by
  have hother : a ≠ .destroy false → (lost ↔ lost ∨ a = .destroy false) :=
    fun hne => ⟨.inl, fun h => h.resolve_right hne⟩
  have hkeeps : a ≠ .destroy false → Keeps o out lost →
      Keeps o out (lost ∨ a = .destroy false) := by
    rintro hne ⟨hfreed, p, hp, hhandle, hgood⟩
    exact ⟨hfreed, p, hp, hhandle, hgood.congr (hother hne)⟩
  cases a with
  | start created => exact .inl (hkeeps nofun (good_start h hstep))
  | attach attached => exact .inl (hkeeps nofun (good_attach h hstep))
  | canvas found => exact .inl (hkeeps nofun (good_canvas h hstep))
  | update updated => exact .inl (hkeeps nofun (good_update h hstep))
  | stop => exact (good_stop h hstep).imp (hkeeps nofun) fun hgives => ⟨hgives, nofun⟩
  | join => exact .inl (hkeeps nofun (good_join h hstep))
  | detach detached => exact .inl (hkeeps nofun (good_detach h hstep))
  | destroy destroyed =>
    obtain ⟨hfreed, p, hp, hhandle, hgood⟩ := good_destroy h hstep
    exact .inl ⟨hfreed, p, hp, hhandle, hgood.congr (by simp)⟩
  | free => exact .inr ⟨good_free h hstep, nofun⟩
  | refresh succeeded => exact .inl (hkeeps nofun (good_refresh h hstep))
  | destruct => exact (good_destruct h hstep).imp (hkeeps nofun) fun hgives => ⟨hgives, nofun⟩

/-- What an object relies on is there when it calls the SDK. -/
theorem needs_met (h : Good o region lost) (hstep : o.step region a = some out) :
    a.Needs region := by
  have hattached : (o.call = .canvas ∨ o.call = .update ∨ o.call = .detach) →
      region = some true := by
    intro hcall
    refine h.attached ?_
    rcases hcall with hcall | hcall | hcall <;> simp [Osd.isAttached, hcall]
  have hregion : (o.call = .undo ∨ o.call = .destroy) → region.isSome = true := by
    intro hcall
    refine h.region_iff.mpr (.inl ?_)
    rcases hcall with hcall | hcall <;> simp [Osd.hasRegion, hcall]
  cases a with
  | attach attached =>
    refine h.unattached (not_not.mp fun hcall => ?_)
    simp [Osd.step, Osd.attach, hcall] at hstep
  | canvas found =>
    refine hattached (.inl (not_not.mp fun hcall => ?_))
    simp [Osd.step, Osd.canvas, hcall] at hstep
  | update updated =>
    refine hattached (.inr (.inl (not_not.mp fun hcall => ?_)))
    simp [Osd.step, Osd.update, hcall] at hstep
  | detach detached =>
    refine hattached (.inr (.inr (not_not.mp fun hcall => ?_)))
    simp [Osd.step, Osd.detach, hcall] at hstep
  | destroy destroyed =>
    refine hregion ?_
    simp only [Osd.step, Osd.destroy] at hstep
    split at hstep
    next hcall => exact .inl hcall
    next hcall => exact .inr hcall
    · cases hstep
  | refresh succeeded =>
    refine h.attached ?_
    have hthread : o.mThd ≠ .none := by
      intro hnone
      simp [Osd.step, Osd.refresh, hnone] at hstep
    rcases (h.thread_iff.mp hthread).2 with ⟨hcall, hstart⟩ | hcall
    · simp [Osd.isAttached, hcall, hstart]
    · simp [Osd.isAttached, hcall]
  | _ => trivial

/-- No step but a destructor ends the process. -/
theorem terminates_of_ne (ha : a ≠ .destruct) (hstep : o.step region a = some out) :
    out.terminates = false := by
  cases a with
  | start _ => grind [Osd.step, Osd.start, Osd.goes]
  | attach _ => grind [Osd.step, Osd.attach, Osd.goes]
  | canvas _ => grind [Osd.step, Osd.canvas, Osd.goes]
  | update _ => grind [Osd.step, Osd.update, Osd.goes]
  | stop => grind [Osd.step, Osd.stop, Osd.goes]
  | join => grind [Osd.step, Osd.join, Osd.goes]
  | detach _ => grind [Osd.step, Osd.detach, Osd.goes]
  | destroy _ => grind [Osd.step, Osd.destroy, Osd.goes]
  | free => grind [Osd.step, Osd.free, Osd.goes]
  | refresh _ => grind [Osd.step, Osd.refresh, Osd.goes]
  | destruct => exact absurd rfl ha

/-- A destructor ends the process if the object is a date that is started. -/
theorem destruct_terminates_iff (h : Good o region lost) (hstep : o.destruct region = some out) :
    out.terminates = true ↔ o.kind = .date ∧ o.mIsStart = true := by
  unfold Osd.destruct at hstep
  split at hstep
  · cases hstep
  next hidle =>
    have hthread : o.mThd ≠ .none ↔ o.kind = .date ∧ o.mIsStart = true := by
      simpa [not_not.mp hidle] using h.thread_iff
    rw [← hthread]
    split at hstep
    next hjoinable =>
      cases hstep
      exact ⟨fun _ => hjoinable, fun _ => rfl⟩
    next hnone =>
      have hfalse : out.terminates = false := by
        split at hstep <;> cases hstep <;> rfl
      simp [hfalse, hnone]

end Steps

/-! ### All objects -/

structure State where
  objects : ℕ → Option Osd
  gRgnFlag : ℕ → Bool
  /-- the regions of the SDK by their handles, and whether each is attached -/
  regions : ℕ → Option Bool
  /-- a destructor ended the process -/
  terminated : Bool

inductive Label
  | construct (id : ℕ) (kind : Kind)
  | act (id : ℕ) (a : Action)
  deriving DecidableEq, Repr

def init : State := ⟨fun _ => none, fun _ => false, fun _ => none, false⟩

namespace State

/-- The handle that an object has. -/
def holds (s : State) (id : ℕ) : Option ℕ := (s.objects id).bind Osd.mRgnH

/-- The region under its handle. -/
def region (s : State) (o : Osd) : Option Bool := o.mRgnH.bind s.regions

/-- `osd::osd`, with `sys::alloc_rgn_handle`. -/
def construct (s : State) (handles id : ℕ) (kind : Kind) : State :=
  let mRgnH := Slots.firstFree handles s.gRgnFlag
  { s with
    objects := Function.update s.objects id (some ⟨kind, mRgnH, false, .idle, .none, false⟩)
    gRgnFlag := mRgnH.elim s.gRgnFlag fun h => Function.update s.gRgnFlag h true }

/-- The state after a step of an object, with `sys::free_rgn_handle`. -/
def after (s : State) (id : ℕ) (o : Osd) (out : Outcome) : State where
  objects := Function.update s.objects id out.osd
  gRgnFlag := o.mRgnH.elim s.gRgnFlag fun h =>
    if out.freed then Function.update s.gRgnFlag h false else s.gRgnFlag
  regions := o.mRgnH.elim s.regions fun h => Function.update s.regions h out.region
  terminated := out.terminates

end State

/-- `handles` is `OT_RGN_HANDLE_MAX`. -/
def step (handles : ℕ) (s : State) : Label → Option State
  | .construct id kind =>
    if s.terminated || (s.objects id).isSome then none else some (s.construct handles id kind)
  | .act id a =>
    if s.terminated then none
    else (s.objects id).bind fun o => (o.step (s.region o) a).map (s.after id o)

/-- A region under the handle was not destroyed when it should have been. -/
def Lost (past : List (State × Label)) (h : ℕ) : Prop :=
  ∃ e ∈ past, ∃ id, e.2 = .act id (.destroy false) ∧ e.1.holds id = some h

theorem lost_append {past : List (State × Label)} {s : State} {i : Label} {h : ℕ} :
    Lost (past ++ [(s, i)]) h ↔
      Lost past h ∨ ∃ id, i = .act id (.destroy false) ∧ s.holds id = some h := by
  simp only [Lost, List.mem_append, List.mem_singleton, or_and_right, exists_or, exists_eq_left]

/-- Of every object what it relies on is there, and regions under handles that no object
has were lost. -/
structure Inv (past : List (State × Label)) (s : State) : Prop where
  held : Slots.Held s.gRgnFlag s.holds
  good : ∀ id o, s.objects id = some o →
    Good o (s.region o) (∃ h, o.mRgnH = some h ∧ Lost past h)
  unheld : ∀ h, (∀ id, s.holds id ≠ some h) → ((s.regions h).isSome = true ↔ Lost past h)

theorem inv_init : Inv [] init where
  held := Slots.held_none
  good _ _ h := by cases h
  unheld h _ := ⟨fun h => (by cases h), fun ⟨_, h, _⟩ => (by cases h)⟩

variable {past : List (State × Label)} {s t : State} {id : ℕ} {o : Osd} {a : Action}
  {out : Outcome}

theorem holds_eq (hobj : s.objects id = some o) : s.holds id = o.mRgnH := by
  rw [State.holds, hobj, Option.bind_some]

theorem holds_construct (handles : ℕ) (kind : Kind) :
    (s.construct handles id kind).holds =
      Function.update s.holds id (Slots.firstFree handles s.gRgnFlag) := by
  funext k
  by_cases hk : k = id
  · rw [hk, Function.update_self, State.holds, State.construct]
    simp
  · rw [Function.update_of_ne hk, State.holds, State.construct, State.holds]
    simp [Function.update_of_ne hk]

theorem holds_after :
    (s.after id o out).holds = Function.update s.holds id (out.osd.bind Osd.mRgnH) := by
  funext k
  by_cases hk : k = id
  · rw [hk, Function.update_self, State.holds, State.after]
    simp
  · rw [Function.update_of_ne hk, State.holds, State.after, State.holds]
    simp [Function.update_of_ne hk]

/-- A new object has no region. -/
theorem good_new (kind : Kind) {mRgnH : Option ℕ} {region : Option Bool} {lost : Prop}
    (h : region.isSome = true ↔ lost) :
    Good ⟨kind, mRgnH, false, .idle, .none, false⟩ region lost := by
  constructor <;> simp_all [Osd.hasRegion, Osd.isAttached]

theorem inv_construct {handles : ℕ} {kind : Kind} (h : Inv past s)
    (hnone : s.objects id = none) :
    Inv (past ++ [(s, .construct id kind)]) (s.construct handles id kind) := by
  have hlost : ∀ n, Lost (past ++ [(s, .construct id kind)]) n ↔ Lost past n := by
    intro n
    simp [lost_append]
  have hholds : s.holds id = none := by rw [State.holds, hnone, Option.bind_none]
  have hothers : ∀ k o, k ≠ id → (s.construct handles id kind).objects k = some o →
      s.objects k = some o := by
    intro k o hk ho
    rwa [← Function.update_of_ne hk (some _) s.objects]
  refine ⟨?_, fun k o ho => ?_, fun n hn => ?_⟩
  · -- the handle is a free one
    rw [holds_construct]
    cases hfirst : Slots.firstFree handles s.gRgnFlag with
    | none =>
      rw [← hholds, Function.update_eq_self, State.construct, hfirst]
      exact h.held
    | some n =>
      rw [State.construct, hfirst]
      exact Slots.held_take h.held hholds (Slots.firstFree_some hfirst).2
  · simp only [hlost]
    rcases eq_or_ne k id with rfl | hk
    · -- nobody had the handle of the new object
      have hnew : (s.construct handles k kind).objects k = some ⟨kind,
          Slots.firstFree handles s.gRgnFlag, false, .idle, .none, false⟩ :=
        Function.update_self ..
      obtain rfl := Option.some.inj (hnew.symm.trans ho)
      refine good_new kind ?_
      cases hfirst : Slots.firstFree handles s.gRgnFlag with
      | none => simp [State.region]
      | some n =>
        simpa [State.region, State.construct] using
          h.unheld n (h.held.not_held (Slots.firstFree_some hfirst).2)
    · exact h.good k o (hothers k o hk ho)
  · rw [hlost]
    refine h.unheld n fun k hk => ?_
    have hne : k ≠ id := fun heq => by rw [heq, hholds] at hk; cases hk
    refine hn k ?_
    rwa [holds_construct, Function.update_of_ne hne]

/-- The other objects keep their regions. -/
theorem good_others (h : Inv past s) (hobj : s.objects id = some o) {k : ℕ} {p : Osd}
    (hk : k ≠ id) (hp : s.objects k = some p) :
    Good p ((s.after id o out).region p)
      (∃ n, p.mRgnH = some n ∧ Lost (past ++ [(s, .act id a)]) n) := by
  have hne : ∀ n, p.mRgnH = some n → o.mRgnH ≠ some n := by
    intro n hn hon
    exact hk (h.held.unique k id n ((holds_eq hp).trans hn) ((holds_eq hobj).trans hon))
  have hregion : (s.after id o out).region p = s.region p := by
    rw [State.region, State.region]
    cases hn : p.mRgnH with
    | none => rfl
    | some n =>
      rw [Option.bind_some, Option.bind_some, State.after]
      cases hm : o.mRgnH with
      | none => rfl
      | some m =>
        refine Function.update_of_ne ?_ _ _
        rintro rfl
        exact hne n hn hm
  rw [hregion]
  refine (h.good k p hp).congr (exists_congr fun n => and_congr_right fun hn => ?_)
  rw [lost_append]
  refine ⟨.inl, fun hlost => hlost.resolve_right ?_⟩
  rintro ⟨j, hact, hj⟩
  obtain ⟨rfl, -⟩ : id = j ∧ a = .destroy false := by simpa using hact
  exact hne n hn ((holds_eq hobj).symm.trans hj)

theorem lost_act (hobj : s.objects id = some o) {n : ℕ} :
    Lost (past ++ [(s, .act id a)]) n ↔
      Lost past n ∨ o.mRgnH = some n ∧ a = .destroy false := by
  rw [lost_append, ← holds_eq hobj]
  refine or_congr_right ⟨?_, ?_⟩
  · rintro ⟨j, hact, hj⟩
    obtain ⟨rfl, ha⟩ : id = j ∧ a = .destroy false := by simpa using hact
    exact ⟨hj, ha⟩
  · rintro ⟨hn, rfl⟩
    exact ⟨id, rfl, hn⟩

/-- A step in which the object keeps its handle. -/
theorem inv_keeps (h : Inv past s) (hobj : s.objects id = some o)
    (hneeds : a.Needs (s.region o))
    (hkeeps : Keeps o out ((∃ n, o.mRgnH = some n ∧ Lost past n) ∨ a = .destroy false)) :
    Inv (past ++ [(s, .act id a)]) (s.after id o out) := by
  obtain ⟨hfreed, p, hp, hhandle, hgood⟩ := hkeeps
  have hdestroy : a = .destroy false → o.mRgnH.isSome = true := by
    rintro rfl
    cases hn : o.mRgnH with
    | none =>
      rw [State.region, hn] at hneeds
      cases hneeds
    | some n => rfl
  have hholds : (s.after id o out).holds = s.holds := by
    rw [holds_after, hp, Option.bind_some, hhandle, ← holds_eq hobj, Function.update_eq_self]
  refine ⟨?_, fun k q hq => ?_, fun n hn => ?_⟩
  · have hflag : (s.after id o out).gRgnFlag = s.gRgnFlag := by
      rw [State.after, hfreed]
      cases o.mRgnH <;> rfl
    rw [hholds, hflag]
    exact h.held
  · rcases eq_or_ne k id with rfl | hk
    · have hself : (s.after k o out).objects k = out.osd := Function.update_self ..
      obtain rfl := Option.some.inj ((hself.trans hp).symm.trans hq)
      have hregion : (s.after k o out).region p = out.region := by
        rw [State.region, hhandle]
        cases hn : o.mRgnH with
        | none =>
          -- an object with no handle has no region, and calls nothing that could fail
          have hnot : a ≠ .destroy false := fun ha => by
            have hsome := hdestroy ha
            rw [hn] at hsome
            cases hsome
          have hnone : ¬ out.region.isSome = true := by
            rw [hgood.region_iff]
            rintro (hhas | ⟨n, hn', -⟩ | ha)
            · have hsome := hgood.handle (.inl hhas)
              rw [hhandle, hn] at hsome
              cases hsome
            · rw [hn] at hn'
              cases hn'
            · exact hnot ha
          rw [Option.not_isSome_iff_eq_none.mp hnone, Option.bind_none]
        | some n =>
          rw [Option.bind_some, State.after, hn]
          exact Function.update_self ..
      rw [hregion]
      refine hgood.congr ?_
      simp only [lost_act hobj, hhandle]
      constructor
      · rintro (⟨n, hn, hlost⟩ | ha)
        · exact ⟨n, hn, .inl hlost⟩
        · obtain ⟨n, hn⟩ := Option.isSome_iff_exists.mp (hdestroy ha)
          exact ⟨n, hn, .inr ⟨hn, ha⟩⟩
      · rintro ⟨n, hn, hlost | ⟨-, ha⟩⟩
        · exact .inl ⟨n, hn, hlost⟩
        · exact .inr ha
    · refine good_others h hobj hk ?_
      rwa [← Function.update_of_ne hk out.osd s.objects]
  · rw [hholds] at hn
    have hne : o.mRgnH ≠ some n := fun heq => hn id ((holds_eq hobj).trans heq)
    rw [lost_act hobj]
    have hregions : (s.after id o out).regions n = s.regions n := by
      rw [State.after]
      cases hm : o.mRgnH with
      | none => rfl
      | some m =>
        refine Function.update_of_ne ?_ _ _
        rintro rfl
        exact hne hm
    rw [hregions, h.unheld n hn]
    exact ⟨.inl, fun hlost => hlost.resolve_right fun ⟨heq, _⟩ => hne heq⟩

/-- A step in which the object gives its handle back. -/
theorem inv_gives (h : Inv past s) (hobj : s.objects id = some o)
    (hgives : Gives o (s.region o) out) (ha : a ≠ .destroy false) :
    Inv (past ++ [(s, .act id a)]) (s.after id o out) := by
  obtain ⟨hfreed, hsame, hhas, hleft⟩ := hgives
  have hlost : ∀ n, Lost (past ++ [(s, .act id a)]) n ↔ Lost past n := by
    intro n
    rw [lost_act hobj]
    exact ⟨fun hlost => hlost.resolve_right fun ⟨_, hdestroy⟩ => ha hdestroy, .inl⟩
  have hregions : (s.after id o out).regions = s.regions := by
    rw [State.after, hsame]
    cases hn : o.mRgnH with
    | none => rfl
    | some n =>
      have hregion : s.region o = s.regions n := by rw [State.region, hn, Option.bind_some]
      exact hregion ▸ Function.update_eq_self ..
  have hnone : out.osd.bind Osd.mRgnH = none := by
    cases hosd : out.osd with
    | none => rfl
    | some p => exact (hleft p hosd).1
  refine ⟨?_, fun k q hq => ?_, fun n hn => ?_⟩
  · rw [holds_after, hnone, State.after, hfreed]
    cases hn : o.mRgnH with
    | none =>
      rw [← hn, ← holds_eq hobj, Function.update_eq_self, holds_eq hobj, hn]
      exact h.held
    | some n => exact Slots.held_give h.held ((holds_eq hobj).trans hn)
  · rcases eq_or_ne k id with rfl | hk
    · have hself : (s.after k o out).objects k = out.osd := Function.update_self ..
      obtain ⟨hhandle, hgood⟩ := hleft q (hself.symm.trans hq)
      have hregion : (s.after k o out).region q = none := by rw [State.region, hhandle]; rfl
      rw [hregion]
      refine hgood.congr ⟨False.elim, ?_⟩
      rintro ⟨n, hn, -⟩
      rw [hhandle] at hn
      cases hn
    · refine good_others h hobj hk ?_
      rwa [← Function.update_of_ne hk out.osd s.objects]
  · rw [hregions, hlost]
    by_cases hown : o.mRgnH = some n
    · have hgood := (h.good id o hobj).region_iff
      rw [State.region, hown, Option.bind_some, hhas] at hgood
      simpa using hgood
    · refine h.unheld n fun k hk => ?_
      have hne : k ≠ id := fun heq => hown ((holds_eq hobj).symm.trans (heq ▸ hk))
      refine hn k ?_
      rwa [holds_after, Function.update_of_ne hne]

/-- **Every step keeps the invariant**, with the steps before it. -/
theorem inv_step (handles : ℕ) (past : List (State × Label)) (s : State) (i : Label) (t : State)
    (h : Inv past s) (hstep : step handles s i = some t) : Inv (past ++ [(s, i)]) t := by
  cases i with
  | construct id kind =>
    rw [step] at hstep
    split at hstep
    · cases hstep
    next hguard =>
      cases hstep
      simp only [Bool.or_eq_true, not_or, Option.not_isSome_iff_eq_none] at hguard
      exact inv_construct h hguard.2
  | act id a =>
    rw [step] at hstep
    split at hstep
    · cases hstep
    · obtain ⟨o, hobj, hstep⟩ := Option.bind_eq_some_iff.mp hstep
      obtain ⟨out, hout, rfl⟩ := Option.map_eq_some_iff.mp hstep
      have hgood := h.good id o hobj
      rcases step_good hgood hout with hkeeps | ⟨hgives, ha⟩
      · exact inv_keeps h hobj (needs_met hgood hout) hkeeps
      · exact inv_gives h hobj hgives ha

/-- **Regions are owned.**  After every run of the objects a flag of the pool is set exactly
while an object has its handle, and no two objects have one handle.  A region exists exactly
while an object has created it and not destroyed it, or if it was lost.  What a call of the
SDK needs is there, also for the threads that refresh, and only the destructor of a date that
is started ends the process. -/
theorem regions_owned (handles : ℕ) {labels : List Label} {s : State}
    (hrun : run (step handles) init labels = some s) :
    Slots.Held s.gRgnFlag s.holds ∧
      (∀ h, (s.regions h).isSome = true ↔
        (∃ id o, s.objects id = some o ∧ o.mRgnH = some h ∧ o.hasRegion = true) ∨
          Lost (trace (step handles) init labels) h) ∧
      ∀ id o a t, s.objects id = some o → step handles s (.act id a) = some t →
        a.Needs (s.region o) ∧
          (t.terminated = true ↔ a = .destruct ∧ o.kind = .date ∧ o.mIsStart = true) := by
  have h := run_trace_invariant (inv_step handles) inv_init hrun
  refine ⟨h.held, fun n => ⟨fun hsome => ?_, ?_⟩, fun id o a t hobj hstep => ?_⟩
  · by_cases hheld : ∃ id, s.holds id = some n
    · obtain ⟨id, hid⟩ := hheld
      obtain ⟨o, hobj, hn⟩ := Option.bind_eq_some_iff.mp hid
      have hgood := (h.good id o hobj).region_iff
      rw [State.region, hn, Option.bind_some] at hgood
      rcases hgood.mp hsome with hhas | ⟨m, hm, hlost⟩
      · exact .inl ⟨id, o, hobj, hn, hhas⟩
      · obtain rfl := Option.some.inj hm
        exact .inr hlost
    · exact .inr ((h.unheld n fun id hid => hheld ⟨id, hid⟩).mp hsome)
  · rintro (⟨id, o, hobj, hn, hhas⟩ | hlost)
    · have hgood := (h.good id o hobj).region_iff
      rw [State.region, hn, Option.bind_some] at hgood
      exact hgood.mpr (.inl hhas)
    · by_cases hheld : ∃ id, s.holds id = some n
      · obtain ⟨id, hid⟩ := hheld
        obtain ⟨o, hobj, hn⟩ := Option.bind_eq_some_iff.mp hid
        have hgood := (h.good id o hobj).region_iff
        rw [State.region, hn, Option.bind_some] at hgood
        exact hgood.mpr (.inr ⟨n, rfl, hlost⟩)
      · exact (h.unheld n fun id hid => hheld ⟨id, hid⟩).mpr hlost
  · rw [step] at hstep
    split at hstep
    · cases hstep
    · obtain ⟨p, hp, hstep⟩ := Option.bind_eq_some_iff.mp hstep
      obtain ⟨out, hout, rfl⟩ := Option.map_eq_some_iff.mp hstep
      obtain rfl := Option.some.inj (hobj.symm.trans hp)
      have hgood := h.good id o hobj
      refine ⟨needs_met hgood hout, ?_⟩
      rw [State.after]
      by_cases ha : a = .destruct
      · subst ha
        simpa using destruct_terminates_iff hgood hout
      · simp [terminates_of_ne ha hout, ha]

/-- A date whose region could not be destroyed leaves its handle to a name that then has no
region of its own. -/
theorem lost_region : ∃ s,
    run (step 4) init [.construct 0 .date, .act 0 (.start true), .act 0 (.attach true),
      .act 0 .stop, .act 0 (.refresh true), .act 0 .join, .act 0 (.detach true),
      .act 0 (.destroy false), .act 0 .free, .construct 1 .name] = some s ∧
    s.holds 1 = some 0 ∧ (s.regions 0).isSome = true ∧ Slots.Held s.gRgnFlag s.holds :=
  have hrun : run (step 4) init [.construct 0 .date, .act 0 (.start true), .act 0 (.attach true),
      .act 0 .stop, .act 0 (.refresh true), .act 0 .join, .act 0 (.detach true),
      .act 0 (.destroy false), .act 0 .free, .construct 1 .name] = some _ := rfl
  ⟨_, hrun, rfl, rfl, (regions_owned 4 hrun).1⟩

end OsdRegions

end IpcMini
