/-
Start and shutdown of the application (`src/core/application.cpp`).

`start` starts the device and then the plugins one by one.  The shutdown has two
halves: `stop_media` stops the plugins that must go before the device, and the
device; `stop_network` stops the plugins with `stop_after_device`.  A plugin that
does not start makes `start` roll back what it has done.

* `start`, `stopMedia`, `stopNetwork`, `stop` — with the calls that they make;
* `World` — what runs, to the device and the plugins;
* `Orderly` — the calls of an operation come in the right order, and a `start`
  that fails leaves nothing behind;
* `Clean` — no `stop_after_device` plugin is rolled back, and `stop_network`
  comes after `stop_media`;
* **`orderly_iff_clean`** — a run is orderly, wherever it is cut off by the
  destructor, exactly when its operations are clean.
-/
import Mathlib.Data.List.Infix
import Mathlib.Data.List.Nodup
import Mathlib.Tactic.Common
import IpcMini.Run

namespace IpcMini

open Interleaving

/-- `core::IProtocolPlugin`, as far as its answers are constant. -/
structure ProtocolPlugin where
  stopAfterDevice : Bool
  deriving DecidableEq, Repr

/-- `core::Application`; `device` and `media` say whether the pointers are set. -/
structure Application where
  device : Bool
  protocols : List ProtocolPlugin
  media : Bool
  startedProtocolCount : ℕ
  deviceStarted : Bool
  running : Bool
  deriving DecidableEq, Repr

namespace Application

/-! ### Operations -/

/-- A call of the device or of the plugin with an index. -/
inductive Call
  | deviceStart (ok : Bool)
  | deviceStop
  | protocolStart (i : ℕ) (ok : Bool)
  | protocolStop (i : ℕ)
  deriving DecidableEq, Repr

/-- `protocols_[i]->stop_after_device()`. -/
def stopAfterDevice (a : Application) (i : ℕ) : Bool :=
  (a.protocols[i]?.map ProtocolPlugin.stopAfterDevice).getD false

/-- The loop that stops plugins, last first. -/
def stopCalls (count : ℕ) (stops : ℕ → Bool) : List Call :=
  ((List.range count).reverse.filter stops).map .protocolStop

/-- What `start` does when a plugin has not started and was stopped. -/
def rollBack (a : Application) : Application × List Call :=
  ({ a with startedProtocolCount := 0, deviceStarted := false, media := false },
    stopCalls a.startedProtocolCount (fun _ => true) ++
      if a.deviceStarted then [.deviceStop] else [])

/-- The loop of `start` from the plugin with index `i` on; `answers` are the
results of the plugins. -/
def startProtocols (answers : ℕ → Bool) (a : Application) (i : ℕ) :
    List ProtocolPlugin → Application × List Call × Bool
  | [] => ({ a with running := true }, [], true)
  | _ :: rest =>
    if answers i then
      let r := startProtocols answers
        { a with startedProtocolCount := a.startedProtocolCount + 1 } (i + 1) rest
      (r.1, .protocolStart i true :: r.2.1, r.2.2)
    else
      let r := a.rollBack
      (r.1, .protocolStart i false :: .protocolStop i :: r.2, false)

/-- `start`, the calls it makes and what it returns. -/
def start (a : Application) (deviceOk : Bool) (answers : ℕ → Bool) :
    Application × List Call × Bool :=
  if a.running then (a, [], true)
  else if !a.device then (a, [], false)
  else if !deviceOk then ({ a with media := false }, [.deviceStart false], false)
  else
    let r := startProtocols answers { a with media := true, deviceStarted := true } 0 a.protocols
    (r.1, .deviceStart true :: r.2.1, r.2.2)

/-- `stop_media`. -/
def stopMedia (a : Application) : Application × List Call :=
  ({ a with deviceStarted := a.deviceStarted && !a.device },
    stopCalls a.startedProtocolCount (fun i => !a.stopAfterDevice i) ++
      if a.deviceStarted && a.device then [.deviceStop] else [])

/-- `stop_network`. -/
def stopNetwork (a : Application) : Application × List Call :=
  ({ a with startedProtocolCount := 0, media := false, running := false },
    stopCalls a.startedProtocolCount a.stopAfterDevice)

/-- `stop`, which is also the destructor. -/
def stop (a : Application) : Application × List Call :=
  (a.stopMedia.1.stopNetwork.1, a.stopMedia.2 ++ a.stopMedia.1.stopNetwork.2)

/-- An operation of the caller, with the answers of the device and the plugins. -/
inductive Operation
  | start (deviceOk : Bool) (answers : ℕ → Bool)
  | stopMedia
  | stopNetwork
  | stop

/-- The operation, its calls, and whether it was a `start` that returned false. -/
def perform (a : Application) : Operation → Application × List Call × Bool
  | .start deviceOk answers =>
    let r := a.start deviceOk answers
    (r.1, r.2.1, !r.2.2)
  | .stopMedia => (a.stopMedia.1, a.stopMedia.2, false)
  | .stopNetwork => (a.stopNetwork.1, a.stopNetwork.2, false)
  | .stop => (a.stop.1, a.stop.2, false)

end Application

/-! ### The world -/

/-- Whether the device runs, and the plugins that were not stopped since they
last started, in the order of these starts. -/
structure World where
  deviceRuns : Bool
  up : List ℕ
  deriving DecidableEq, Repr

namespace World

open Application

def call (w : World) : Call → World
  | .deviceStart ok => { w with deviceRuns := w.deviceRuns || ok }
  | .deviceStop => { w with deviceRuns := false }
  | .protocolStart i ok => if ok then { w with up := w.up.filter (· ≠ i) ++ [i] } else w
  | .protocolStop i => { w with up := w.up.filter (· ≠ i) }

def calls (w : World) (cs : List Call) : World := cs.foldl call w

/-- The call comes in order: the device is stopped when only plugins that are to
be stopped after it are up; such a plugin is stopped when the device does not
run; and of its kind it is the one that was started last.  It is a plugin's first
stop after a start that counts. -/
def Allows (after : ℕ → Bool) (w : World) : Call → Prop
  | .deviceStop => ∀ i ∈ w.up, after i = true
  | .protocolStop i => i ∈ w.up → (after i = true → w.deviceRuns = false) ∧
      (w.up.filter fun j => after j = after i).getLast? = some i
  | .deviceStart _ | .protocolStart _ _ => True

/-- All calls come in order. -/
def InOrder (after : ℕ → Bool) : World → List Call → Prop
  | _, [] => True
  | w, c :: cs => w.Allows after c ∧ InOrder after (w.call c) cs

end World

/-- The application and the world. -/
structure Running where
  app : Application
  world : World
  deriving DecidableEq, Repr

namespace Running

open Application

/-- An application that was just made. -/
def init (device : Bool) (protocols : List ProtocolPlugin) : Running :=
  ⟨⟨device, protocols, false, 0, false, false⟩, ⟨false, []⟩⟩

def next (s : Running) (op : Operation) : Running :=
  ⟨(s.app.perform op).1, s.world.calls (s.app.perform op).2.1⟩

def step (s : Running) (op : Operation) : Option Running := some (s.next op)

/-- Nothing runs, and the application can be started. -/
structure Ready (s : Running) : Prop where
  deviceRuns : s.world.deviceRuns = false
  up : s.world.up = []
  media : s.app.media = false
  count : s.app.startedProtocolCount = 0
  deviceStarted : s.app.deviceStarted = false
  running : s.app.running = false

/-- The calls of the operation come in order, and a `start` that returns false
leaves nothing behind. -/
def Orderly (s : Running) (op : Operation) : Prop :=
  s.world.InOrder s.app.stopAfterDevice (s.app.perform op).2.1 ∧
    ((s.app.perform op).2.2 = true → (s.next op).Ready)

/-- What an operation has to meet.  Of a `start`: where the plugin with index `k`
is the first that does not start, no plugin before it is to be stopped after the
device; and the device does start if it was left running.  Of `stop_network`: the
device was stopped before, or no plugin is started. -/
def Clean (s : Running) : Operation → Prop
  | .start deviceOk answers => s.app.running = false → s.app.device = true →
      (deviceOk = false → s.app.deviceStarted = false) ∧
      (deviceOk = true → ∀ k < s.app.protocols.length, answers k = false →
        (∀ j < k, answers j = true) → ∀ j < k, s.app.stopAfterDevice j = false)
  | .stopNetwork => s.app.deviceStarted = true → s.app.startedProtocolCount = 0
  | .stopMedia | .stop => True

end Running

/-! ### Lists of stops -/

namespace World

open Application

variable {after : ℕ → Bool} {w : World}

theorem inOrder_append {cs ds : List Call} :
    w.InOrder after (cs ++ ds) ↔ w.InOrder after cs ∧ (w.calls cs).InOrder after ds := by
  induction cs generalizing w with
  | nil => exact ⟨fun h => ⟨trivial, h⟩, fun h => h.2⟩
  | cons c cs ih =>
    rw [List.cons_append, InOrder, InOrder, ih, and_assoc]
    rfl

theorem calls_append (w : World) (cs ds : List Call) :
    w.calls (cs ++ ds) = (w.calls cs).calls ds := List.foldl_append

theorem stopCalls_succ (count : ℕ) (stops : ℕ → Bool) :
    stopCalls (count + 1) stops =
      (if stops count then [.protocolStop count] else []) ++ stopCalls count stops := by
  rw [stopCalls, List.range_succ, List.reverse_append, List.reverse_singleton,
    List.singleton_append, List.filter_cons]
  split <;> rfl

/-- The plugins of one kind are stopped, last first, while others are up behind
them: the calls come in order, unless the plugins are to be stopped after a
device that still runs. -/
theorem inOrder_stops (after : ℕ → Bool) (kind : Bool) (hkind : kind = true → w.deviceRuns = false)
    (p : ℕ → Bool) {count : ℕ} {behind : List ℕ}
    (hup : w.up = (List.range count).filter p ++ behind)
    (hbehind : ∀ j ∈ behind, after j = !kind) :
    w.InOrder after (stopCalls count fun i => after i == kind) ∧
      w.calls (stopCalls count fun i => after i == kind) =
        ⟨w.deviceRuns, ((List.range count).filter fun i => p i && after i != kind) ++ behind⟩ := by
  induction count generalizing w behind with
  | zero =>
    rw [List.range_zero, List.filter_nil, List.nil_append] at hup ⊢
    exact ⟨trivial, by rw [← hup]; rfl⟩
  | succ count ih =>
    rw [List.range_succ, List.filter_append, List.append_assoc] at hup ⊢
    rw [stopCalls_succ]
    have hfresh : ∀ q : ℕ → Bool, count ∉ (List.range count).filter q := fun q hmem => by
      have hlt := List.mem_range.mp (List.mem_of_mem_filter hmem)
      omega
    by_cases hcount : after count = kind
    · -- this plugin is stopped
      have hnot : count ∉ behind := fun hmem => by
        have hother := hbehind count hmem
        rw [hcount] at hother
        cases kind <;> simp at hother
      have hlater : (behind.filter fun j => after j = after count) = [] := by
        rw [List.filter_eq_nil_iff]
        intro j hj
        rw [hbehind j hj, hcount]
        cases kind <;> simp
      have hstopped : w.call (.protocolStop count) =
          ⟨w.deviceRuns, (List.range count).filter p ++ behind⟩ := by
        have hfront : ((List.range count).filter p).filter (· ≠ count) =
            (List.range count).filter p :=
          List.filter_eq_self.mpr fun j hj =>
            decide_eq_true fun heq : j = count => hfresh p (heq ▸ hj)
        have hback : behind.filter (· ≠ count) = behind :=
          List.filter_eq_self.mpr fun j hj =>
            decide_eq_true fun heq : j = count => hnot (heq ▸ hj)
        rw [call, hup, List.filter_append, List.filter_append, hfront, hback]
        cases p count <;> simp
      obtain ⟨hrest, hcalls⟩ := ih (w := w.call (.protocolStop count)) hkind
        (by rw [hstopped]) hbehind
      rw [if_pos (by simpa using hcount)]
      refine ⟨⟨fun hmem => ⟨fun hafter => hkind (hcount ▸ hafter), ?_⟩, hrest⟩, ?_⟩
      · have hp : p count = true := by
          by_contra hp
          rw [hup] at hmem
          simp only [List.filter_cons, List.filter_nil] at hmem
          rw [if_neg hp] at hmem
          rcases List.mem_append.mp hmem with hmem | hmem
          · exact hfresh p hmem
          · exact hnot (by simpa using hmem)
        rw [hup, List.filter_append, List.filter_append, hlater, List.append_nil]
        simp [hp]
      · show (w.call (.protocolStop count)).calls (stopCalls count _) = _
        rw [hcalls, hstopped]
        simp [hcount]
    · -- this plugin stays up, behind the others
      have hother : after count = !kind := by
        cases hac : after count <;> cases kind <;> simp_all
      obtain ⟨hrest, hcalls⟩ := ih (w := w) hkind hup fun j hj => by
        rcases List.mem_append.mp hj with hj | hj
        · rw [List.mem_singleton.mp (List.mem_of_mem_filter hj)]
          exact hother
        · exact hbehind j hj
      rw [if_neg (by simpa using hcount)]
      refine ⟨hrest, ?_⟩
      rw [List.nil_append, hcalls]
      simp [hcount, List.filter_cons]

end World

/-! ### Clean operations -/

namespace Running

open Application World

variable {s t : Running}

/-- While nobody has skipped `stop_media`: the plugins that are up are those that
`started_protocol_count_` counts, without those that went with the device. -/
structure Inv (s : Running) : Prop where
  idle : s.app.running = false → s.app.startedProtocolCount = 0 ∧ s.app.media = false
  device : s.app.deviceStarted = true → s.app.device = true
  deviceRuns : s.world.deviceRuns = s.app.deviceStarted
  up : s.world.up = (List.range s.app.startedProtocolCount).filter fun i =>
    s.app.deviceStarted || s.app.stopAfterDevice i

theorem inv_init (device : Bool) (protocols : List ProtocolPlugin) :
    Inv (init device protocols) := by
  refine ⟨fun _ => ⟨rfl, rfl⟩, fun h => absurd h (by simp [init]), rfl, rfl⟩

theorem Ready.inv (h : s.Ready) : Inv s := by
  refine ⟨fun _ => ⟨h.count, h.media⟩, fun hd => ?_, ?_, ?_⟩
  · exact absurd (hd.symm.trans h.deviceStarted) (by simp)
  · rw [h.deviceRuns, h.deviceStarted]
  · rw [h.up, h.count]
    rfl

/-- The state after some calls. -/
def after (s : Running) (r : Application × List Call) : Running := ⟨r.1, s.world.calls r.2⟩

theorem stopMedia_spec (h : Inv s) :
    s.world.InOrder s.app.stopAfterDevice s.app.stopMedia.2 ∧ Inv (s.after s.app.stopMedia) ∧
      s.app.stopMedia.1.deviceStarted = false := by
  -- the device runs only if there is one
  have hflag : (s.app.deviceStarted && s.app.device) = s.app.deviceStarted := by
    cases hd : s.app.deviceStarted with
    | false => rfl
    | true => rw [h.device hd]; rfl
  have hstopped : (s.app.deviceStarted && !s.app.device) = false := by
    cases hd : s.app.deviceStarted with
    | false => rfl
    | true => rw [h.device hd]; rfl
  have hstops : (fun i => !s.app.stopAfterDevice i) =
      fun i => s.app.stopAfterDevice i == false := by
    funext i
    cases s.app.stopAfterDevice i <;> rfl
  obtain ⟨horder, hcalls⟩ := inOrder_stops (w := s.world) s.app.stopAfterDevice false
    (fun hf => absurd hf (by simp)) _ (h.up.trans (List.append_nil _).symm)
    fun j hj => absurd hj (by simp)
  -- the plugins that are stopped first are those not wanted after the device
  have hleft : ((List.range s.app.startedProtocolCount).filter fun i =>
      (s.app.deviceStarted || s.app.stopAfterDevice i) &&
        s.app.stopAfterDevice i != false) ++ [] =
      (List.range s.app.startedProtocolCount).filter s.app.stopAfterDevice := by
    rw [List.append_nil]
    refine List.filter_congr fun i _ => ?_
    cases s.app.stopAfterDevice i <;> simp
  rw [hleft] at hcalls
  have hworld : s.world.calls s.app.stopMedia.2 =
      ⟨false, (List.range s.app.startedProtocolCount).filter s.app.stopAfterDevice⟩ := by
    rw [stopMedia]
    dsimp only
    rw [calls_append, hstops, hcalls, hflag, h.deviceRuns]
    cases s.app.deviceStarted <;> rfl
  refine ⟨?_, ⟨h.idle, ?_, ?_, ?_⟩, hstopped⟩
  · rw [stopMedia]
    dsimp only
    rw [inOrder_append, hstops, hflag]
    refine ⟨horder, ?_⟩
    rw [hcalls]
    split
    · exact ⟨fun i hi => (List.mem_filter.mp hi).2, trivial⟩
    · exact trivial
  · intro hd
    exact absurd (hd.symm.trans hstopped) (by simp)
  · show (s.world.calls s.app.stopMedia.2).deviceRuns = s.app.stopMedia.1.deviceStarted
    rw [hworld]
    exact hstopped.symm
  · show (s.world.calls s.app.stopMedia.2).up = _
    rw [hworld]
    refine List.filter_congr fun i _ => ?_
    show s.app.stopAfterDevice i =
      ((s.app.deviceStarted && !s.app.device) || s.app.stopAfterDevice i)
    rw [hstopped, Bool.false_or]

theorem stopNetwork_spec (h : Inv s)
    (hclean : s.app.deviceStarted = true → s.app.startedProtocolCount = 0) :
    s.world.InOrder s.app.stopAfterDevice s.app.stopNetwork.2 ∧
      Inv (s.after s.app.stopNetwork) := by
  have hcalls : s.world.InOrder s.app.stopAfterDevice s.app.stopNetwork.2 ∧
      s.world.calls s.app.stopNetwork.2 = ⟨s.app.deviceStarted, []⟩ := by
    have hstops : s.app.stopAfterDevice = fun i => s.app.stopAfterDevice i == true := by
      funext i
      cases s.app.stopAfterDevice i <;> rfl
    cases hd : s.app.deviceStarted with
    | true =>
      -- no plugin is started, so none is stopped
      have hcount := hclean hd
      have hup := h.up
      rw [hcount] at hup
      rw [stopNetwork, hcount]
      refine ⟨trivial, ?_⟩
      show s.world = _
      rw [← hd, ← h.deviceRuns]
      exact congrArg (World.mk _) hup
    | false =>
      obtain ⟨horder, hcalls⟩ := inOrder_stops (w := s.world) s.app.stopAfterDevice true
        (fun _ => h.deviceRuns.trans hd) _
        (h.up.trans (List.append_nil _).symm) fun j hj => absurd hj (by simp)
      rw [← hstops] at horder hcalls
      refine ⟨horder, ?_⟩
      rw [stopNetwork]
      dsimp only
      rw [hcalls, h.deviceRuns, hd, List.append_nil]
      refine congrArg (World.mk _) (List.filter_eq_nil_iff.mpr fun i _ => ?_)
      cases s.app.stopAfterDevice i <;> simp
  refine ⟨hcalls.1, fun _ => ⟨rfl, rfl⟩, h.device, ?_, ?_⟩
  · show (s.world.calls s.app.stopNetwork.2).deviceRuns = s.app.deviceStarted
    rw [hcalls.2]
  · show (s.world.calls s.app.stopNetwork.2).up = _
    rw [hcalls.2]
    rfl

theorem stop_spec (h : Inv s) :
    s.world.InOrder s.app.stopAfterDevice s.app.stop.2 ∧ Inv (s.after s.app.stop) := by
  obtain ⟨hmedia, hinv, hstopped⟩ := stopMedia_spec h
  obtain ⟨hnetwork, hend⟩ := stopNetwork_spec hinv fun hd =>
    absurd (hd.symm.trans hstopped) (by simp)
  rw [stop]
  refine ⟨inOrder_append.mpr ⟨hmedia, hnetwork⟩, ?_⟩
  rw [after, calls_append]
  exact hend

/-- The plugins before the one that has not started are stopped, then the device. -/
theorem rollBack_spec {a : Application} {w : World} (hstarted : a.deviceStarted = true)
    (hrunning : a.running = false) (hup : w.up = List.range a.startedProtocolCount)
    (hclean : ∀ j < a.startedProtocolCount, a.stopAfterDevice j = false) :
    w.InOrder a.stopAfterDevice a.rollBack.2 ∧ Ready ⟨a.rollBack.1, w.calls a.rollBack.2⟩ := by
  have hstops : stopCalls a.startedProtocolCount (fun _ => true) =
      stopCalls a.startedProtocolCount fun i => a.stopAfterDevice i == false := by
    refine congrArg (List.map Call.protocolStop) (List.filter_congr fun i hi => ?_)
    rw [hclean i (List.mem_range.mp (List.mem_reverse.mp hi))]
    rfl
  have hall : (List.range a.startedProtocolCount).filter (fun _ => true) =
      List.range a.startedProtocolCount := List.filter_eq_self.mpr fun _ _ => rfl
  obtain ⟨horder, hcalls⟩ := inOrder_stops (w := w) a.stopAfterDevice false
    (fun hf => absurd hf (by simp)) (fun _ => true)
    (hup.trans (by rw [hall, List.append_nil])) fun j hj => absurd hj (by simp)
  have hnone : ((List.range a.startedProtocolCount).filter fun i =>
      true && a.stopAfterDevice i != false) ++ [] = [] := by
    rw [List.append_nil, List.filter_eq_nil_iff]
    intro i hi
    rw [hclean i (List.mem_range.mp hi)]
    simp
  rw [hnone] at hcalls
  rw [rollBack]
  dsimp only
  rw [hstarted, if_pos rfl, hstops]
  refine ⟨inOrder_append.mpr ⟨horder, ?_⟩, ?_⟩
  · rw [hcalls]
    exact ⟨fun i hi => absurd hi (by simp), trivial⟩
  · rw [calls_append, hcalls]
    exact ⟨rfl, rfl, rfl, rfl, rfl, hrunning⟩

/-- The loop of `start` over the plugins that are left. -/
theorem startProtocols_spec (answers : ℕ → Bool) {rest : List ProtocolPlugin} :
    ∀ {a : Application} {w : World} {i : ℕ}, a.device = true → a.deviceStarted = true →
      a.running = false → a.startedProtocolCount = i → w.deviceRuns = true →
      w.up = List.range i → i + rest.length = a.protocols.length →
      (∀ k < a.protocols.length, i ≤ k → answers k = false →
        (∀ j, i ≤ j → j < k → answers j = true) → ∀ j < k, a.stopAfterDevice j = false) →
      w.InOrder a.stopAfterDevice (a.startProtocols answers i rest).2.1 ∧
      Inv ⟨(a.startProtocols answers i rest).1,
        w.calls (a.startProtocols answers i rest).2.1⟩ ∧
      ((a.startProtocols answers i rest).2.2 = false →
        Ready ⟨(a.startProtocols answers i rest).1,
          w.calls (a.startProtocols answers i rest).2.1⟩) := by
  induction rest with
  | nil =>
    -- all are started, and nothing is to be rolled back
    intro a w i hdevice hstarted hrunning hcount hruns hup hlen hclean
    rw [startProtocols]
    refine ⟨trivial, ⟨fun hf => absurd hf (by simp), fun _ => hdevice, ?_, ?_⟩,
      fun hf => absurd hf (by simp)⟩
    · exact hruns.trans hstarted.symm
    · show w.up = _
      rw [hup, ← hcount]
      refine (List.filter_eq_self.mpr fun j _ => ?_).symm
      show (a.deviceStarted || _) = true
      rw [hstarted, Bool.true_or]
  | cons protocol rest ih =>
    intro a w i hdevice hstarted hrunning hcount hruns hup hlen hclean
    have hfresh : (List.range i).filter (· ≠ i) = List.range i :=
      List.filter_eq_self.mpr fun j hj => decide_eq_true (List.mem_range.mp hj).ne
    have hlt : i < a.protocols.length := by
      rw [List.length_cons] at hlen
      omega
    rw [startProtocols]
    split
    next hanswer =>
      have hup' : (w.call (.protocolStart i true)).up = List.range (i + 1) := by
        rw [call, if_pos rfl, hup, hfresh, List.range_succ]
      obtain ⟨horder, hinv, hready⟩ := ih
        (a := { a with startedProtocolCount := a.startedProtocolCount + 1 })
        (w := w.call (.protocolStart i true)) (i := i + 1) hdevice hstarted hrunning
        (congrArg Nat.succ hcount) hruns hup'
        (by show i + 1 + rest.length = a.protocols.length; rw [List.length_cons] at hlen; omega)
        fun k hk hle hfail hok => hclean k hk (by omega) hfail fun j hj hjk => by
          rcases Nat.eq_or_lt_of_le hj with rfl | hj
          · exact hanswer
          · exact hok j hj hjk
      exact ⟨⟨trivial, horder⟩, hinv, hready⟩
    next hanswer =>
      have hbefore := hclean i hlt (Nat.le_refl i) (by simpa using hanswer)
        fun j hj hjk => absurd hjk (Nat.not_lt.mpr hj)
      -- the plugin that failed is stopped too, as if it had not been called
      have hsame : (w.call (.protocolStart i false)).call (.protocolStop i) = w := by
        rw [call, call, if_neg (by simp)]
        rw [hup, hfresh, ← hup]
      obtain ⟨horder, hready⟩ := rollBack_spec (w := w) hstarted hrunning
        (hup.trans (by rw [hcount])) (by rw [hcount]; exact hbefore)
      have hcalls : w.calls (.protocolStart i false :: .protocolStop i :: a.rollBack.2) =
          w.calls a.rollBack.2 := by
        show ((w.call (.protocolStart i false)).call (.protocolStop i)).calls _ = _
        rw [hsame]
      have hnot : i ∉ (w.call (.protocolStart i false)).up := by
        rw [call, if_neg (by simp), hup]
        exact List.not_mem_range_self
      dsimp only
      rw [hcalls]
      refine ⟨⟨trivial, fun hmem => absurd hmem hnot, ?_⟩, hready.inv, fun _ => hready⟩
      rw [hsame]
      exact horder

theorem start_spec (h : Inv s) {deviceOk : Bool} {answers : ℕ → Bool}
    (hclean : s.Clean (.start deviceOk answers)) :
    s.Orderly (.start deviceOk answers) ∧ Inv (s.next (.start deviceOk answers)) := by
  simp only [Orderly, next, perform]
  rw [start]
  split
  next hrunning => exact ⟨⟨trivial, fun hf => absurd hf (by simp)⟩, h⟩
  next hrunning =>
  have hrunning : s.app.running = false := by simpa using hrunning
  obtain ⟨hcount, hmedia⟩ := h.idle hrunning
  have hup := h.up
  rw [hcount] at hup
  -- before the device has been started nothing is up
  have hready : s.app.deviceStarted = false → s.Ready := fun hd =>
    ⟨h.deviceRuns.trans hd, hup, hmedia, hcount, hd, hrunning⟩
  split
  next hdevice =>
    have hdown : s.app.deviceStarted = false := by
      by_contra hd
      simp [h.device (by simpa using hd)] at hdevice
    exact ⟨⟨trivial, fun _ => hready hdown⟩, h⟩
  next hdevice =>
  have hdevice : s.app.device = true := by simpa using hdevice
  split
  next hok =>
    have hok : deviceOk = false := by simpa using hok
    have hdown := (hclean hrunning hdevice).1 hok
    have hend : Ready ⟨{ s.app with media := false }, s.world.call (.deviceStart false)⟩ := by
      have hs := hready hdown
      refine ⟨?_, hs.up, rfl, hs.count, hs.deviceStarted, hs.running⟩
      show (s.world.deviceRuns || false) = false
      rw [hs.deviceRuns]
      rfl
    exact ⟨⟨⟨trivial, trivial⟩, fun _ => hend⟩, hend.inv⟩
  next hok =>
    have hok : deviceOk = true := by simpa using hok
    have hworld : (s.world.call (.deviceStart true)).deviceRuns = true := by
      show (s.world.deviceRuns || true) = true
      rw [Bool.or_true]
    obtain ⟨horder, hinv, hfailed⟩ := @startProtocols_spec answers s.app.protocols
      { s.app with media := true, deviceStarted := true }
      (s.world.call (.deviceStart true)) 0 hdevice rfl hrunning hcount hworld hup
      (Nat.zero_add _) fun k hk _ hfail hbefore =>
        (hclean hrunning hdevice).2 hok k hk hfail fun j hj => hbefore j (Nat.zero_le j) hj
    exact ⟨⟨⟨trivial, horder⟩, fun hf => hfailed (by simpa using hf)⟩, hinv⟩

/-- A clean operation is orderly, and the next one finds the invariant again. -/
theorem clean_spec (h : Inv s) {op : Operation} (hclean : s.Clean op) :
    s.Orderly op ∧ Inv (s.next op) := by
  have hnot : ∀ P : Prop, false = true → P := fun P hf => absurd hf (by simp)
  cases op with
  | start deviceOk answers => exact start_spec h hclean
  | stopMedia => exact ⟨⟨(stopMedia_spec h).1, hnot _⟩, (stopMedia_spec h).2.1⟩
  | stopNetwork =>
    exact ⟨⟨(stopNetwork_spec h hclean).1, hnot _⟩, (stopNetwork_spec h hclean).2⟩
  | stop => exact ⟨⟨(stop_spec h).1, hnot _⟩, (stop_spec h).2⟩

/-! ### Operations that are not clean -/

/-- The plugins that are stopped while the device runs are of the other kind. -/
theorem not_after_of_inOrder {after : ℕ → Bool} {w : World} (hruns : w.deviceRuns = true)
    {stops : ℕ → Bool} {count : ℕ} (hup : w.up = List.range count)
    (horder : w.InOrder after (stopCalls count stops)) :
    ∀ j < count, stops j = true → after j = false := by
  -- a plugin that is up and to be stopped later is not stopped now
  have hstop : ∀ (is : List ℕ) (w : World), w.deviceRuns = true → is.Nodup →
      (∀ j ∈ is, j ∈ w.up) → w.InOrder after (is.map .protocolStop) →
      ∀ j ∈ is, after j = false := by
    intro is
    induction is with
    | nil => exact fun _ _ _ _ _ j hj => absurd hj (by simp)
    | cons i is ih =>
      intro w hruns hnodup hmem horder j hj
      obtain ⟨hi, hnodup⟩ := List.nodup_cons.mp hnodup
      rcases List.mem_cons.mp hj with rfl | hj
      · by_contra hafter
        have hstopped := (horder.1 (hmem j List.mem_cons_self)).1 (by simpa using hafter)
        exact absurd (hruns.symm.trans hstopped) (by simp)
      · refine ih (w.call (.protocolStop i)) hruns hnodup (fun k hk => ?_) horder.2 j hj
        have hne : k ≠ i := fun heq => hi (heq ▸ hk)
        exact List.mem_filter.mpr ⟨hmem k (List.mem_cons_of_mem _ hk), decide_eq_true hne⟩
  intro j hj hstops
  refine hstop _ w hruns ?_ (fun j hj => ?_) horder j ?_
  · exact (List.nodup_reverse.mpr List.nodup_range).filter _
  · rw [hup]
    exact List.mem_reverse.mp (List.mem_of_mem_filter hj)
  · exact List.mem_filter.mpr ⟨List.mem_reverse.mpr (List.mem_range.mpr hj), hstops⟩

/-- Where the rollback of the loop is in order, no plugin before the one that has
not started is to be stopped after the device. -/
theorem not_after_of_startProtocols {answers : ℕ → Bool} {rest : List ProtocolPlugin} :
    ∀ {a : Application} {w : World} {i : ℕ}, a.startedProtocolCount = i →
      w.deviceRuns = true → w.up = List.range i →
      w.InOrder a.stopAfterDevice (a.startProtocols answers i rest).2.1 →
      ∀ k, i ≤ k → k < i + rest.length → answers k = false →
        (∀ j, i ≤ j → j < k → answers j = true) → ∀ j < k, a.stopAfterDevice j = false := by
  induction rest with
  | nil =>
    intro a w i _ _ _ _ k hle hlt
    exact absurd hlt (by simpa using hle)
  | cons protocol rest ih =>
    intro a w i hcount hruns hup horder k hle hlt hfail hbefore
    have hfresh : (List.range i).filter (· ≠ i) = List.range i :=
      List.filter_eq_self.mpr fun j hj => decide_eq_true (List.mem_range.mp hj).ne
    rw [startProtocols] at horder
    split at horder
    next hanswer =>
      have hup' : (w.call (.protocolStart i true)).up = List.range (i + 1) := by
        rw [call, if_pos rfl, hup, hfresh, List.range_succ]
      have hne : i ≠ k := by
        rintro rfl
        exact absurd (hanswer.symm.trans hfail) (by simp)
      rw [List.length_cons] at hlt
      exact ih (a := { a with startedProtocolCount := a.startedProtocolCount + 1 })
        (w := w.call (.protocolStart i true)) (congrArg Nat.succ hcount) hruns hup' horder.2 k
        (by omega) (by omega) hfail fun j hj => hbefore j (by omega)
    next hanswer =>
      -- the first plugin that fails is the one at hand
      have hk : k = i := by
        by_contra hne
        exact hanswer (hbefore i (Nat.le_refl i) (by omega))
      have hsame : (w.call (.protocolStart i false)).call (.protocolStop i) = w := by
        rw [call, call, if_neg (by simp)]
        rw [hup, hfresh, ← hup]
      have hstops := horder.2.2
      rw [hsame, rollBack] at hstops
      intro j hj
      exact not_after_of_inOrder hruns (hup.trans (by rw [hcount])) (inOrder_append.mp hstops).1 j
        (by rw [hcount, ← hk]; exact hj) rfl

/-- **An operation that is not clean** is not orderly, or the destructor after it
is not. -/
theorem clean_of_orderly (h : Inv s) {op : Operation} (horderly : s.Orderly op)
    (hdestroyed : (s.next op).Orderly .stop) : s.Clean op := by
  cases op with
  | start deviceOk answers =>
    intro hrunning hdevice
    obtain ⟨hcount, -⟩ := h.idle hrunning
    have hup := h.up
    rw [hcount] at hup
    have hnrun : ¬ s.app.running = true := by simp [hrunning]
    have hndev : ¬ (!s.app.device) = true := by simp [hdevice]
    refine ⟨fun hok => ?_, fun hok k hk hfail hbefore => ?_⟩
    · have hready := horderly.2
      simp only [perform, next, start, if_neg hnrun, if_neg hndev, hok] at hready
      exact (hready rfl).deviceStarted
    · have horder := horderly.1
      simp only [perform, start, if_neg hnrun, if_neg hndev, hok] at horder
      have hruns : (s.world.call (.deviceStart true)).deviceRuns = true := by
        show (s.world.deviceRuns || true) = true
        rw [Bool.or_true]
      exact not_after_of_startProtocols
        (a := { s.app with media := true, deviceStarted := true })
        (w := s.world.call (.deviceStart true)) (i := 0) hcount hruns hup horder.2 k
        (Nat.zero_le k) (by rw [Nat.zero_add]; exact hk) hfail fun j _ => hbefore j
  | stopMedia => trivial
  | stopNetwork =>
    intro hd
    by_contra hne
    have hruns : s.world.deviceRuns = true := h.deviceRuns.trans hd
    have hup : s.world.up = List.range s.app.startedProtocolCount := by
      rw [h.up, hd]
      exact List.filter_eq_self.mpr fun _ _ => rfl
    -- no plugin that is up is to be stopped after the device
    have hnone : ∀ j < s.app.startedProtocolCount, s.app.stopAfterDevice j = false := by
      intro j hj
      by_contra hafter
      exact hafter (not_after_of_inOrder hruns hup horderly.1 j hj (by simpa using hafter))
    have hcalls : s.app.stopNetwork.2 = [] := by
      rw [stopNetwork]
      dsimp only
      rw [stopCalls, List.map_eq_nil_iff, List.filter_eq_nil_iff]
      intro j hj
      simp [hnone j (List.mem_range.mp (List.mem_reverse.mp hj))]
    -- so the plugins are still up when the destructor stops the device
    have hstop : (s.world.calls s.app.stopNetwork.2).InOrder s.app.stopAfterDevice
        (if s.app.deviceStarted && s.app.device then [.deviceStop] else []) :=
      (inOrder_append.mp (inOrder_append.mp hdestroyed.1).1).2
    rw [hcalls, hd, h.device hd] at hstop
    have hzero : 0 < s.app.startedProtocolCount := Nat.pos_of_ne_zero hne
    have hmem : 0 ∈ (s.world.calls []).up := by
      rw [World.calls, List.foldl_nil, hup]
      exact List.mem_range.mpr hzero
    have hafter := hstop.1 0 hmem
    exact absurd ((hnone 0 hzero).symm.trans hafter) (by simp)
  | stop => trivial

/-- **When the shutdown is in order.**  For every list of plugins and every
sequence of operations, with any answers of the device and the plugins: the run
is orderly up to the destructor, wherever the destructor ends it, exactly when
all operations are clean. -/
theorem orderly_iff_clean (device : Bool) (protocols : List ProtocolPlugin)
    (ops : List Operation) :
    (∀ front, front <+: ops → Along step Orderly (init device protocols) (front ++ [.stop])) ↔
      Along step Clean (init device protocols) ops := by
  have hstep : ∀ s op t, Inv s → Clean s op → step s op = some t → Inv t :=
    fun s op t h hclean hs => Option.some_inj.mp hs ▸ (clean_spec h hclean).2
  constructor
  · suffices h : ∀ (ops : List Operation) (s : Running), Inv s →
        (∀ front, front <+: ops → Along step Orderly s (front ++ [.stop])) →
        Along step Clean s ops from h ops _ (inv_init device protocols)
    intro ops
    induction ops with
    | nil => exact fun _ _ _ => trivial
    | cons op ops ih =>
      intro s hs hall
      have hone := hall [op] ⟨ops, rfl⟩
      have hclean := clean_of_orderly hs hone.1 (hone.2 _ rfl).1
      refine ⟨hclean, fun t ht => ih t (hstep s op t hs hclean ht) fun front hfront => ?_⟩
      exact (hall (op :: front) ((List.prefix_cons_inj op).mpr hfront)).2 t ht
  · rintro hclean front ⟨rest, rfl⟩
    have hfront := (along_append.mp hclean).1
    have hwhole : Along step Clean (init device protocols) (front ++ [.stop]) :=
      along_append.mpr ⟨hfront, fun _ _ => ⟨trivial, fun _ _ => trivial⟩⟩
    exact along_imp hstep (fun s op h hc => (clean_spec h hc).1) (inv_init device protocols) hwhole

/-- **A rollback out of order**: the second plugin does not start, and the first,
which is to be stopped after the device, is stopped while the device runs. -/
theorem rolled_back_early :
    ¬ ∀ (protocols : List ProtocolPlugin) (ops : List Operation),
      Along step Orderly (init true protocols) ops := by
  intro h
  have horder := (h [⟨true⟩, ⟨false⟩] [.start true (· = 0)]).1.1
  have hstop : (true = true → true = false) ∧ _ :=
    horder.2.2.2.2.1 (List.mem_singleton.mpr rfl)
  exact absurd (hstop.1 rfl) (by simp)

end Running

end IpcMini
