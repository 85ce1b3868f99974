/-
The encoders and the channels of the SDK (`src/devices/hisi_3516cv610/dev_venc.cpp`).

A `venc` keeps in three flags what it has asked of the SDK: that its channel was
created, is bound to its source and receives pictures.  `Encoders` has the flags
and the list `g_vencs`; here the functions also change what the SDK has.

* `Sdk` — the channels of the SDK, each call changing one thing of one channel;
* `prepare`, `bindSource`, `resume`, `pause`, `stop` — as in `dev_venc.cpp`;
* `resume_forget`, `stop_forget`, … — without the SDK they are those of `Encoders`;
* `Agrees` — the flags are what the SDK has;
* **`channels_agree`** — for all encoders, after every sequence of calls.
-/
import Mathlib.Logic.Function.Basic
import IpcMini.Encoders
import IpcMini.Run

namespace IpcMini

namespace EncoderChannels

open Interleaving

/-! ### The SDK -/

/-- A channel of the SDK. -/
structure SdkChn where
  created : Bool
  bound : Bool
  receiving : Bool
  deriving DecidableEq, Repr

/-- The channels by their numbers. -/
abbrev Sdk := ℤ → SdkChn

namespace Sdk

def createChn (d : Sdk) (n : ℤ) : Sdk := Function.update d n { d n with created := true }

def destroyChn (d : Sdk) (n : ℤ) : Sdk := Function.update d n { d n with created := false }

def sysBind (d : Sdk) (n : ℤ) : Sdk := Function.update d n { d n with bound := true }

def sysUnbind (d : Sdk) (n : ℤ) : Sdk := Function.update d n { d n with bound := false }

def startChn (d : Sdk) (n : ℤ) : Sdk := Function.update d n { d n with receiving := true }

def stopChn (d : Sdk) (n : ℤ) : Sdk := Function.update d n { d n with receiving := false }

end Sdk

/-! ### One encoder -/

/-- `venc::prepare`. -/
def prepare (v : Venc) (d : Sdk) (sdk : VencAnswers) : Bool × Venc × Sdk :=
  if v.created then (true, v, d)
  else if v.svcEnable && !(sdk.getChnConfig && sdk.setChnConfig) then (false, v, d)
  else if !sdk.createChn then (false, v, d)
  else
    let d := d.createChn v.this.vencChn
    if sdk.getFd < 0 then
      (false, { v with vencFd := sdk.getFd }, d.destroyChn v.this.vencChn)
    else (true, { v with created := true, vencFd := sdk.getFd }, d)

/-- `venc::bind_source`. -/
def bindSource (v : Venc) (d : Sdk) (sdk : VencAnswers) : Bool × Venc × Sdk :=
  if v.bound then (true, v, d)
  else if !sdk.bind then (false, v, d)
  else (true, { v with bound := true }, d.sysBind v.this.vencChn)

/-- `venc::unbind_source`. -/
def unbindSource (v : Venc) (d : Sdk) : Venc × Sdk :=
  if !v.bound then (v, d)
  else ({ v with bound := false }, d.sysUnbind v.this.vencChn)

/-- `venc::resume`, which `venc::start` is. -/
def resume (v : Venc) (g : Capture) (d : Sdk) (sdk : VencAnswers) :
    Bool × Venc × Capture × Sdk :=
  if v.running then (true, v, g, d)
  else
    match prepare v d sdk with
    | (false, v, d) => (false, v, g, d)
    | (true, v, d) =>
      match bindSource v d sdk with
      | (false, v, d) => (false, v, g, d)
      | (true, v, d) =>
        if !sdk.startChn then
          let (v, d) := unbindSource v d
          (false, v, g, d)
        else
          let d := d.startChn v.this.vencChn
          if v.svcEnable && !sdk.enableSvc then
            let d := d.stopChn v.this.vencChn
            let (v, d) := unbindSource v d
            (false, v, g, d)
          else (true, { v with running := true }, g.pushBack v.this, d)

/-- `venc::pause`. -/
def pause (v : Venc) (g : Capture) (d : Sdk) : Venc × Capture × Sdk :=
  if !v.running then (v, g, d)
  else
    let g := g.erase v.this.vencChn
    let (v, d) := unbindSource v d
    ({ v with running := false }, g, d.stopChn v.this.vencChn)

/-- `venc::stop`. -/
def stop (v : Venc) (g : Capture) (d : Sdk) : Venc × Capture × Sdk :=
  match pause v g d with
  | (v, g, d) =>
    if v.created then
      ({ v with created := false, vencFd := -1 }, g, d.destroyChn v.this.vencChn)
    else (v, g, d)

variable {v : Venc} {g : Capture} {d : Sdk} {sdk : VencAnswers}

/-! ### Without the SDK -/

theorem prepare_forget (v : Venc) (d : Sdk) (sdk : VencAnswers) :
    ((prepare v d sdk).1, (prepare v d sdk).2.1) = v.prepare sdk := by
  rw [prepare, Venc.prepare]
  split_ifs <;> rfl

theorem bindSource_forget (v : Venc) (d : Sdk) (sdk : VencAnswers) :
    ((bindSource v d sdk).1, (bindSource v d sdk).2.1) = v.bindSource sdk := by
  rw [bindSource, Venc.bindSource]
  split_ifs <;> rfl

theorem unbindSource_forget (v : Venc) (d : Sdk) : (unbindSource v d).1 = v.unbindSource := by
  rw [unbindSource, Venc.unbindSource]
  split
  next hbound =>
    have hoff : v.bound = false := by simpa using hbound
    show v = { v with bound := false }
    rw [← hoff]
  next => rfl

theorem resume_forget (v : Venc) (g : Capture) (d : Sdk) (sdk : VencAnswers) :
    ((resume v g d sdk).1, (resume v g d sdk).2.1, (resume v g d sdk).2.2.1) =
      v.resume g sdk := by
  rw [resume, Venc.resume]
  split
  next => rfl
  next =>
    rw [← prepare_forget v d sdk]
    rcases prepare v d sdk with ⟨_ | _, p, d⟩
    · rfl
    dsimp only
    rw [← bindSource_forget p d sdk]
    rcases bindSource p d sdk with ⟨_ | _, b, d⟩
    · rfl
    dsimp only
    split_ifs
    · rw [unbindSource_forget]
    · rw [unbindSource_forget]
    · rfl

theorem pause_forget (v : Venc) (g : Capture) (d : Sdk) :
    ((pause v g d).1, (pause v g d).2.1) = v.pause g := by
  rw [pause, Venc.pause, ← unbindSource_forget v d]
  split_ifs
  · rfl
  · rfl

theorem stop_forget (v : Venc) (g : Capture) (d : Sdk) :
    ((stop v g d).1, (stop v g d).2.1) = v.stop g := by
  rw [stop, Venc.stop, ← pause_forget v g d]
  rcases pause v g d with ⟨p, g, d⟩
  dsimp only
  split_ifs <;> rfl

/-! ### Flags and channels -/

/-- The flags of an encoder are what the SDK has of its channel. -/
structure Flags (v : Venc) (d : Sdk) : Prop where
  created : (d v.this.vencChn).created = v.created
  bound : (d v.this.vencChn).bound = v.bound
  receiving : (d v.this.vencChn).receiving = v.running

/-- Between two calls an encoder is bound exactly while it runs. -/
structure Agrees (v : Venc) (d : Sdk) : Prop extends Flags v d where
  running : v.running = true → v.created = true ∧ v.bound = true
  unbound : v.running = false → v.bound = false

/-- A function of an encoder leaves the channels of the other ones alone. -/
structure Local (v : Venc) (d : Sdk) (w : Venc) (e : Sdk) : Prop where
  this : w.this = v.this
  others : ∀ n, n ≠ v.this.vencChn → e n = d n

theorem Local.refl (v : Venc) (d : Sdk) : Local v d v d := ⟨rfl, fun _ _ => rfl⟩

theorem Local.trans {w x : Venc} {e f : Sdk} (h : Local v d w e) (h' : Local w e x f) :
    Local v d x f :=
  ⟨h'.this.trans h.this, fun n hn => (h'.others n (by rwa [h.this])).trans (h.others n hn)⟩

/-- The channel of the encoder is the one that is changed. -/
theorem Local.of_update {w : Venc} {e : Sdk} {c : SdkChn} (hthis : w.this = v.this)
    (he : e = Function.update d v.this.vencChn c) : Local v d w e :=
  ⟨hthis, fun n hn => by rw [he, Function.update_of_ne hn]⟩

theorem prepare_spec (h : Flags v d) (sdk : VencAnswers) :
    ∃ p e, (prepare v d sdk).2 = (p, e) ∧ Flags p e ∧ Local v d p e ∧ p.running = v.running ∧
      p.bound = v.bound ∧ ((prepare v d sdk).1 = true → p.created = true) := by
  rw [prepare]
  split
  next hcreated => exact ⟨v, d, rfl, h, .refl v d, rfl, rfl, fun _ => hcreated⟩
  next hcreated =>
  split
  · exact ⟨v, d, rfl, h, .refl v d, rfl, rfl, by simp⟩
  split
  · exact ⟨v, d, rfl, h, .refl v d, rfl, rfl, by simp⟩
  dsimp only
  split
  · -- the channel was created and is destroyed again
    refine ⟨_, _, rfl, ?_, ?_, rfl, rfl, by simp⟩
    · exact ⟨by simp [Sdk.destroyChn, hcreated],
        by simp [Sdk.destroyChn, Sdk.createChn, h.bound],
        by simp [Sdk.destroyChn, Sdk.createChn, h.receiving]⟩
    · exact (Local.of_update (w := v) rfl rfl).trans (.of_update rfl rfl)
  · refine ⟨_, _, rfl, ?_, .of_update rfl rfl, rfl, rfl, fun _ => rfl⟩
    exact ⟨by simp [Sdk.createChn], by simp [Sdk.createChn, h.bound],
      by simp [Sdk.createChn, h.receiving]⟩

theorem bindSource_spec (h : Flags v d) (sdk : VencAnswers) :
    ∃ b e, (bindSource v d sdk).2 = (b, e) ∧ Flags b e ∧ Local v d b e ∧
      b.running = v.running ∧ b.created = v.created ∧
      b.bound = (v.bound || (bindSource v d sdk).1) := by
  rw [bindSource]
  split
  next hbound => exact ⟨v, d, rfl, h, .refl v d, rfl, rfl, by simp [hbound]⟩
  split
  · exact ⟨v, d, rfl, h, .refl v d, rfl, rfl, by simp⟩
  · refine ⟨_, _, rfl, ?_, .of_update rfl rfl, rfl, rfl, by simp⟩
    exact ⟨by simp [Sdk.sysBind, h.created], by simp [Sdk.sysBind],
      by simp [Sdk.sysBind, h.receiving]⟩

theorem unbindSource_spec (h : Flags v d) :
    ∃ e, unbindSource v d = (v.unbindSource, e) ∧ Flags v.unbindSource e ∧
      Local v d v.unbindSource e := by
  have hforget := unbindSource_forget v d
  rw [unbindSource] at hforget ⊢
  split
  next hbound =>
    rw [if_pos hbound] at hforget
    have hsame : v = v.unbindSource := hforget
    exact ⟨d, by rw [← hsame], by rwa [← hsame], by rw [← hsame]; exact .refl v d⟩
  next =>
    refine ⟨_, rfl, ?_, .of_update rfl rfl⟩
    exact ⟨by simp [Sdk.sysUnbind, Venc.unbindSource, h.created],
      by simp [Sdk.sysUnbind, Venc.unbindSource],
      by simp [Sdk.sysUnbind, Venc.unbindSource, h.receiving]⟩

/-- **What `resume` leaves**: flags and channel agree, and where it fails nothing is bound
and nothing is received. -/
theorem resume_spec (h : Agrees v d) (g : Capture) (sdk : VencAnswers) :
    ∃ w e, (resume v g d sdk).2.1 = w ∧ (resume v g d sdk).2.2.2 = e ∧ Agrees w e ∧
      Local v d w e ∧ ((resume v g d sdk).1 = false → w.running = false) := by
  rw [resume]
  split
  next hrunning => exact ⟨v, d, rfl, rfl, h, .refl v d, by simp⟩
  next hrunning =>
  have hoff : v.running = false := by simpa using hrunning
  -- `prepare` leaves a channel that is neither bound nor receiving, whether it succeeds or not
  obtain ⟨p, e, heq, hp, hlocal, hrun, hbound, hcreated⟩ := prepare_spec h.toFlags sdk
  rcases hprepare : prepare v d sdk with ⟨ok, q⟩
  rw [hprepare] at heq hcreated
  obtain rfl : q = (p, e) := heq
  have hpoff : p.running = false := hrun.trans hoff
  have hpbound : p.bound = false := hbound.trans (h.unbound hoff)
  cases ok with
  | false => exact ⟨p, e, rfl, rfl, ⟨hp, by simp [hpoff], fun _ => hpbound⟩, hlocal, fun _ => hpoff⟩
  | true =>
  dsimp only
  obtain ⟨b, f, heq', hb, hlocal', hrun', hcreated', hbound'⟩ := bindSource_spec hp sdk
  rcases hbind : bindSource p e sdk with ⟨ok, q⟩
  rw [hbind] at heq' hbound'
  obtain rfl : q = (b, f) := heq'
  have hboff : b.running = false := hrun'.trans hpoff
  cases ok with
  | false =>
    have hfree : b.bound = false := by simpa [hpbound] using hbound'
    exact ⟨b, f, rfl, rfl, ⟨hb, by simp [hboff], fun _ => hfree⟩, hlocal.trans hlocal',
      fun _ => hboff⟩
  | true =>
  dsimp only
  split
  · -- `startChn` fails: the channel is unbound again
    obtain ⟨k, heq, hk, hlocal''⟩ := unbindSource_spec hb
    rw [heq]
    exact ⟨_, k, rfl, rfl, ⟨hk, by simp [Venc.unbindSource, hboff], fun _ => rfl⟩,
      (hlocal.trans hlocal').trans hlocal'', fun _ => hboff⟩
  have hbbound : b.bound = true := by simpa using hbound'
  have hstarted : Local b f b (f.startChn b.this.vencChn) := .of_update rfl rfl
  split
  · -- `enableSvc` fails: the channel is stopped before it is unbound
    have hstopped : Flags b ((f.startChn b.this.vencChn).stopChn b.this.vencChn) :=
      ⟨by simp [Sdk.stopChn, Sdk.startChn, hb.created],
        by simp [Sdk.stopChn, Sdk.startChn, hb.bound], by simp [Sdk.stopChn, hboff]⟩
    obtain ⟨k, heq, hk, hlocal''⟩ := unbindSource_spec hstopped
    rw [heq]
    exact ⟨_, k, rfl, rfl, ⟨hk, by simp [Venc.unbindSource, hboff], fun _ => rfl⟩,
      ((hlocal.trans hlocal').trans (hstarted.trans (.of_update rfl rfl))).trans hlocal'',
      fun _ => hboff⟩
  · refine ⟨_, _, rfl, rfl, ⟨⟨?_, ?_, ?_⟩, fun _ => ⟨?_, hbbound⟩, by simp⟩,
      (hlocal.trans hlocal').trans ⟨rfl, hstarted.others⟩, by simp⟩
    · simp [Sdk.startChn, hb.created]
    · simp [Sdk.startChn, hb.bound]
    · simp [Sdk.startChn]
    · exact hcreated'.trans (hcreated rfl)

theorem pause_spec (h : Agrees v d) (g : Capture) :
    ∃ w e, (pause v g d).1 = w ∧ (pause v g d).2.2 = e ∧ Agrees w e ∧ Local v d w e ∧
      w.running = false := by
  rw [pause]
  split
  next hrunning => exact ⟨v, d, rfl, rfl, h, .refl v d, by simpa using hrunning⟩
  next hrunning =>
    obtain ⟨e, heq, hflags, hlocal⟩ := unbindSource_spec h.toFlags
    dsimp only
    rw [heq]
    refine ⟨_, _, rfl, rfl, ⟨⟨?_, ?_, ?_⟩, by simp, fun _ => rfl⟩,
      hlocal.trans (.of_update rfl rfl), rfl⟩
    · simp [Sdk.stopChn, hflags.created]
    · simp [Sdk.stopChn, hflags.bound]
    · simp [Sdk.stopChn]

theorem stop_spec (h : Agrees v d) (g : Capture) :
    ∃ w e, (stop v g d).1 = w ∧ (stop v g d).2.2 = e ∧ Agrees w e ∧ Local v d w e ∧
      w.running = false := by
  obtain ⟨w, e, hw, he, hagrees, hlocal, hoff⟩ := pause_spec h g
  rw [stop]
  rcases hpause : pause v g d with ⟨p, g', f⟩
  rw [hpause] at hw he
  obtain rfl : p = w := hw
  obtain rfl : f = e := he
  dsimp only
  split
  · refine ⟨_, _, rfl, rfl, ⟨⟨?_, ?_, ?_⟩, by simp [hoff], hagrees.unbound⟩,
      hlocal.trans (.of_update rfl rfl), hoff⟩
    · simp [Sdk.destroyChn]
    · simp [Sdk.destroyChn, hagrees.bound]
    · simp [Sdk.destroyChn, hagrees.receiving]
  · exact ⟨p, f, rfl, rfl, hagrees, hlocal, hoff⟩

/-! ### All encoders -/

/-- The encoders, the statics of `venc` and the channels of the SDK. -/
structure State (ι : Type*) where
  vencs : ι → Venc
  capture : Capture
  sdk : Sdk

inductive Label (ι : Type*)
  | prepare (i : ι) (sdk : VencAnswers)
  | resume (i : ι) (sdk : VencAnswers)
  | start (i : ι) (sdk : VencAnswers)
  | pause (i : ι)
  | stop (i : ι)

variable {ι : Type*} [DecidableEq ι]

/-- The encoders are constructed, and the SDK has none of their channels. -/
def init (ptr : ι → VencPtr) (svcEnable : ι → Bool) : State ι :=
  ⟨fun i => .make (ptr i) (svcEnable i), .init, fun _ => ⟨false, false, false⟩⟩

def State.set (s : State ι) (i : ι) (v : Venc) (g : Capture) (d : Sdk) : State ι :=
  ⟨Function.update s.vencs i v, g, d⟩

/-- A call of one of the encoders. -/
def step (s : State ι) : Label ι → Option (State ι)
  | .prepare i sdk =>
    let (_, v, d) := prepare (s.vencs i) s.sdk sdk
    some (s.set i v s.capture d)
  | .resume i sdk | .start i sdk =>
    let (_, v, g, d) := resume (s.vencs i) s.capture s.sdk sdk
    some (s.set i v g d)
  | .pause i =>
    let (v, g, d) := pause (s.vencs i) s.capture s.sdk
    some (s.set i v g d)
  | .stop i =>
    let (v, g, d) := stop (s.vencs i) s.capture s.sdk
    some (s.set i v g d)

/-- How a call changes the list: not at all, or an encoder that now runs is at its end, or
one that ran is searched by its number and taken out. -/
def Relists (v : Venc) (g : Capture) (w : Venc) (g' : Capture) : Prop :=
  (w.running = v.running ∧ g'.vencs = g.vencs) ∨
  (v.running = false ∧ w.running = true ∧ g'.vencs = g.vencs ++ [v.this]) ∨
  (v.running = true ∧ w.running = false ∧
    g'.vencs = g.vencs.eraseP (·.vencChn == v.this.vencChn))

theorem relists_resume (v : Venc) (g : Capture) (d : Sdk) (sdk : VencAnswers) :
    Relists v g (resume v g d sdk).2.1 (resume v g d sdk).2.2.1 := by
  have hforget := resume_forget v g d sdk
  cases hrunning : v.running with
  | true =>
    rw [resume, if_pos hrunning]
    exact .inl ⟨rfl, rfl⟩
  | false =>
    rcases Venc.resume_cases hrunning g sdk with ⟨w, heq, -, hon, -⟩ | ⟨w, heq, -, hoff⟩
    · rw [heq] at hforget
      simp only [Prod.mk.injEq] at hforget
      obtain ⟨-, hw, hg⟩ := hforget
      rw [hw, hg]
      exact .inr (.inl ⟨hrunning, hon, rfl⟩)
    · rw [heq] at hforget
      simp only [Prod.mk.injEq] at hforget
      obtain ⟨-, hw, hg⟩ := hforget
      rw [hw, hg]
      exact .inl ⟨hoff.trans hrunning.symm, rfl⟩

theorem relists_pause (v : Venc) (g : Capture) (d : Sdk) :
    Relists v g (pause v g d).1 (pause v g d).2.1 := by
  have hforget := pause_forget v g d
  cases hrunning : v.running with
  | false =>
    rw [Venc.pause_of_not_running hrunning] at hforget
    simp only [Prod.mk.injEq] at hforget
    rw [hforget.1, hforget.2]
    exact .inl ⟨rfl, rfl⟩
  | true =>
    rw [Venc.pause_of_running hrunning] at hforget
    simp only [Prod.mk.injEq] at hforget
    rw [hforget.1, hforget.2]
    exact .inr (.inr ⟨hrunning, rfl, Capture.erase_vencs _ _⟩)

theorem relists_stop (v : Venc) (g : Capture) (d : Sdk) :
    Relists v g (stop v g d).1 (stop v g d).2.1 := by
  have hpause := relists_pause v g d
  rw [stop]
  generalize pause v g d = r at hpause ⊢
  obtain ⟨p, g', e⟩ := r
  dsimp only at hpause ⊢
  split
  · exact hpause
  · exact hpause

/-- What holds between two calls of encoders that are at the addresses `ptr`. -/
structure Inv (ptr : ι → VencPtr) (s : State ι) : Prop where
  this : ∀ i, (s.vencs i).this = ptr i
  agrees : ∀ i, Agrees (s.vencs i) s.sdk
  listed : ∀ i, s.capture.vencs.count (ptr i) = if (s.vencs i).running then 1 else 0
  known : ∀ p ∈ s.capture.vencs, ∃ i, p = ptr i

variable {ptr : ι → VencPtr} {svcEnable : ι → Bool} {s t : State ι}

omit [DecidableEq ι] in
theorem inv_init (ptr : ι → VencPtr) (svcEnable : ι → Bool) : Inv ptr (init ptr svcEnable) where
  this _ := rfl
  agrees _ := ⟨⟨rfl, rfl, rfl⟩, nofun, fun _ => rfl⟩
  listed _ := rfl
  known := nofun

/-- Where only one encoder has the number, the first one of the number is that one. -/
theorem eraseP_eq_erase {l : List VencPtr} {a : VencPtr}
    (h : ∀ p ∈ l, p.vencChn = a.vencChn → p = a) :
    l.eraseP (·.vencChn == a.vencChn) = l.erase a := by
  induction l with
  | nil => rfl
  | cons p l ih =>
    have hrest := ih fun q hq => h q (List.mem_cons_of_mem _ hq)
    by_cases hchn : p.vencChn = a.vencChn
    · obtain rfl := h p List.mem_cons_self hchn
      simp
    · have hne : p ≠ a := fun heq => hchn (heq ▸ rfl)
      rw [List.eraseP_cons_of_neg (by simpa using hchn), List.erase_cons_tail (by simpa using hne),
        hrest]

/-- **One call keeps the invariant**, whatever function it is of. -/
theorem inv_set (hinj : ∀ i j, (ptr i).vencChn = (ptr j).vencChn → i = j) (h : Inv ptr s)
    {i : ι} {w : Venc} {g : Capture} {e : Sdk} (hagrees : Agrees w e)
    (hlocal : Local (s.vencs i) s.sdk w e) (hlist : Relists (s.vencs i) s.capture w g) :
    Inv ptr (s.set i w g e) := by
  have hthis : w.this = ptr i := hlocal.this.trans (h.this i)
  have hself : (s.set i w g e).vencs i = w := Function.update_self _ _ _
  have hother : ∀ {j}, j ≠ i → (s.set i w g e).vencs j = s.vencs j := fun hj =>
    Function.update_of_ne hj _ _
  have hne : ∀ {j}, j ≠ i → ptr j ≠ ptr i := fun hj heq => hj (hinj _ _ (heq ▸ rfl))
  have hfirst : s.capture.vencs.eraseP (·.vencChn == (s.vencs i).this.vencChn) =
      s.capture.vencs.erase (ptr i) := by
    rw [h.this]
    refine eraseP_eq_erase fun p hp hchn => ?_
    obtain ⟨j, rfl⟩ := h.known p hp
    rw [hinj j i hchn]
  refine ⟨fun j => ?_, fun j => ?_, fun j => ?_, fun p hp => ?_⟩
  · by_cases hj : j = i
    · rw [hj, hself, hthis]
    · rw [hother hj, h.this]
  · by_cases hj : j = i
    · rw [hj, hself]
      exact hagrees
    · -- the channel of another encoder has another number
      have hchn : (s.vencs j).this.vencChn ≠ (s.vencs i).this.vencChn := by
        rw [h.this, h.this]
        exact fun heq => hj (hinj j i heq)
      have hsame : e (s.vencs j).this.vencChn = s.sdk (s.vencs j).this.vencChn :=
        hlocal.others _ hchn
      obtain ⟨⟨hcreated, hbound, hreceiving⟩, hrunning, hunbound⟩ := h.agrees j
      rw [hother hj]
      show Agrees (s.vencs j) e
      exact ⟨⟨hsame ▸ hcreated, hsame ▸ hbound, hsame ▸ hreceiving⟩, hrunning, hunbound⟩
  · have hlisted := h.listed j
    show g.vencs.count (ptr j) = _
    rcases hlist with ⟨hsame, hg⟩ | ⟨hoff, hon, hg⟩ | ⟨hon, hoff, hg⟩
    · rw [hg, hlisted]
      by_cases hj : j = i
      · rw [hj, hself, hsame]
      · rw [hother hj]
    · rw [hg, h.this, List.count_append]
      by_cases hj : j = i
      · rw [hj] at hlisted ⊢
        rw [hself, hlisted, hoff, hon]
        simp
      · have hnone : [ptr i].count (ptr j) = 0 := List.count_eq_zero.mpr (by simpa using hne hj)
        rw [hother hj, hlisted, hnone, Nat.add_zero]
    · rw [hg, hfirst]
      by_cases hj : j = i
      · rw [hj] at hlisted ⊢
        rw [hself, List.count_erase_self, hlisted, hoff, hon]
        rfl
      · rw [hother hj, List.count_erase_of_ne (hne hj), hlisted]
  · rcases hlist with ⟨-, hg⟩ | ⟨-, -, hg⟩ | ⟨-, -, hg⟩
    · exact h.known p (hg ▸ hp)
    · have hp : p ∈ s.capture.vencs ++ [(s.vencs i).this] := hg ▸ hp
      rcases List.mem_append.mp hp with hp | hp
      · exact h.known p hp
      · exact ⟨i, by rw [List.mem_singleton.mp hp, h.this]⟩
    · have hp : p ∈ s.capture.vencs.eraseP _ := hg ▸ hp
      exact h.known p (List.mem_of_mem_eraseP hp)

theorem inv_step (hinj : ∀ i j, (ptr i).vencChn = (ptr j).vencChn → i = j) (h : Inv ptr s)
    {label : Label ι} (hstep : step s label = some t) : Inv ptr t := by
  have hresume : ∀ i sdk, Inv ptr (s.set i (resume (s.vencs i) s.capture s.sdk sdk).2.1
      (resume (s.vencs i) s.capture s.sdk sdk).2.2.1
      (resume (s.vencs i) s.capture s.sdk sdk).2.2.2) := by
    intro i sdk
    obtain ⟨w, e, hw, he, hagrees, hlocal, -⟩ := resume_spec (h.agrees i) s.capture sdk
    have hlist := relists_resume (s.vencs i) s.capture s.sdk sdk
    rw [hw] at hlist ⊢
    rw [he]
    exact inv_set hinj h hagrees hlocal hlist
  cases label with
  | prepare i sdk =>
    have ht : s.set i (prepare (s.vencs i) s.sdk sdk).2.1 s.capture
        (prepare (s.vencs i) s.sdk sdk).2.2 = t := Option.some_inj.mp hstep
    obtain ⟨w, e, heq, hflags, hlocal, hrunning, hbound, hcreated⟩ :=
      prepare_spec (h.agrees i).toFlags sdk
    rw [← ht, heq]
    refine inv_set hinj h ⟨hflags, fun hon => ?_, fun hoff => ?_⟩ hlocal (.inl ⟨hrunning, rfl⟩)
    · -- a running encoder is prepared already
      have hboth := (h.agrees i).running (hrunning ▸ hon)
      exact ⟨hcreated (by rw [prepare, if_pos hboth.1]), hbound.trans hboth.2⟩
    · exact hbound.trans ((h.agrees i).unbound (hrunning ▸ hoff))
  | resume i sdk =>
    obtain rfl := Option.some_inj.mp hstep
    exact hresume i sdk
  | start i sdk =>
    obtain rfl := Option.some_inj.mp hstep
    exact hresume i sdk
  | pause i =>
    have ht : s.set i (pause (s.vencs i) s.capture s.sdk).1 (pause (s.vencs i) s.capture s.sdk).2.1
        (pause (s.vencs i) s.capture s.sdk).2.2 = t := Option.some_inj.mp hstep
    obtain ⟨w, e, hw, he, hagrees, hlocal, -⟩ := pause_spec (h.agrees i) s.capture
    have hlist := relists_pause (s.vencs i) s.capture s.sdk
    rw [hw] at hlist
    rw [← ht, hw, he]
    exact inv_set hinj h hagrees hlocal hlist
  | stop i =>
    have ht : s.set i (stop (s.vencs i) s.capture s.sdk).1 (stop (s.vencs i) s.capture s.sdk).2.1
        (stop (s.vencs i) s.capture s.sdk).2.2 = t := Option.some_inj.mp hstep
    obtain ⟨w, e, hw, he, hagrees, hlocal, -⟩ := stop_spec (h.agrees i) s.capture
    have hlist := relists_stop (s.vencs i) s.capture s.sdk
    rw [hw] at hlist
    rw [← ht, hw, he]
    exact inv_set hinj h hagrees hlocal hlist

/-- An encoder, its channel and its place in the list. -/
structure InStep (s : State ι) (i : ι) : Prop where
  created : (s.sdk (s.vencs i).this.vencChn).created = true ↔ (s.vencs i).created = true
  bound : (s.sdk (s.vencs i).this.vencChn).bound = true ↔ (s.vencs i).bound = true
  receiving : (s.sdk (s.vencs i).this.vencChn).receiving = true ↔ (s.vencs i).running = true
  running : (s.vencs i).running = true → (s.vencs i).created = true ∧ (s.vencs i).bound = true
  unbound : ¬ (s.vencs i).running = true → ¬ (s.vencs i).bound = true
  listed : s.capture.vencs.count (s.vencs i).this = if (s.vencs i).running then 1 else 0
  failing : ∀ sdk, (resume (s.vencs i) s.capture s.sdk sdk).1 = false →
    ((resume (s.vencs i) s.capture s.sdk sdk).2.2.2 (s.vencs i).this.vencChn).bound = false ∧
    ((resume (s.vencs i) s.capture s.sdk sdk).2.2.2 (s.vencs i).this.vencChn).receiving = false

omit [DecidableEq ι] in
theorem inStep_of_inv (h : Inv ptr s) (i : ι) : InStep s i := by
  have hagrees := h.agrees i
  refine ⟨by rw [hagrees.created], by rw [hagrees.bound], by rw [hagrees.receiving],
    hagrees.running, fun hoff => ?_, ?_, fun sdk hfail => ?_⟩
  · rw [hagrees.unbound (by simpa using hoff)]
    simp
  · rw [h.this]
    exact h.listed i
  · obtain ⟨w, e, -, he, hw, hlocal, hoff⟩ := resume_spec hagrees s.capture sdk
    rw [he, ← hlocal.this, hw.bound, hw.receiving]
    exact ⟨hw.unbound (hoff hfail), hoff hfail⟩

/-- **After every sequence of calls** of encoders with different channel numbers, whatever
the SDK answers, each encoder is in step with its channel and with the list. -/
theorem channels_agree (hinj : ∀ i j, (ptr i).vencChn = (ptr j).vencChn → i = j)
    {labels : List (Label ι)} (hrun : run step (init ptr svcEnable) labels = some s) (i : ι) :
    InStep s i :=
  inStep_of_inv (run_preserves (fun _ _ _ h hstep => inv_step hinj h hstep)
    (inv_init ptr svcEnable) hrun) i

/-- Two encoders: the first one starts, the second one fails to enable SVC, and the first
one stops. -/
def schedule : List (Label Bool) :=
  let fine : VencAnswers := ⟨true, true, true, 5, true, true, true⟩
  [.start true fine, .resume false { fine with enableSvc := false }, .stop true]

theorem schedule_agrees :
    ∃ s, run step (init (fun i => cond i ⟨1, 0⟩ ⟨2, 1⟩) not) schedule = some s ∧
      ∀ i, InStep s i :=
  ⟨_, rfl, @channels_agree Bool _ (fun i => cond i ⟨1, 0⟩ ⟨2, 1⟩) not _ (by decide) schedule rfl⟩

end EncoderChannels

end IpcMini
