/-
The lookups of the configuration loader on JSON of any shape
(`src/config/runtime_config.cpp`).

JsonCpp aborts where `operator[]` with a string key meets a value that is
neither null nor an object.  The unified file is safe whatever it holds.  The
older files are not: each looks up its section before the root is known to be
an object, and `net_service.json` looks up `webrtc` before `net_service` is.

* `Described` — one of the older files with the roots it misuses, the roots it
  accepts and what it makes of the configuration;
* `Outside` — some file misuses its root, and the ones before it are complete;
* **`lookups_guarded_iff`** — nothing is misused if and only if the unified
  file is there or the older ones are not `Outside`;
* `listRoot` — a `vi.json` that holds a list.
-/
import IpcMini.ConfigSections

namespace IpcMini

namespace Config

open Jsoncpp

/-! ### Reading a file -/

/-- A file is read to a value, or there is an error text. -/
theorem readJson_cases (files : Files) (path : String) :
    (∃ root, readJson files path = .ok root) ∨ ∃ text, readJson files path = refuse text := by
  rw [readJson]
  split
  · exact .inr ⟨_, rfl⟩
  · split
    · exact .inr ⟨_, rfl⟩
    · split
      · exact .inr ⟨_, rfl⟩
      · split
        · exact .inr ⟨_, rfl⟩
        · split
          · exact .inr ⟨_, rfl⟩
          · exact .inl ⟨_, rfl⟩

theorem readJson_no_misuse (files : Files) (path : String) (call : Misuse) :
    readJson files path ≠ .error (.misuse call) := by
  rcases readJson_cases files path with ⟨root, hr⟩ | ⟨text, hr⟩
  · rw [hr]
    intro h
    cases h
  · rw [hr]
    intro h
    cases h

/-! ### The older files one by one -/

/-- One of the older files: the roots it misuses, the roots it accepts, and what
it makes of the configuration. -/
structure Described where
  file : LegacyFile
  outside : Value → Prop
  complete : Value → Prop
  result : Value → RuntimeConfig → RuntimeConfig
  misuses : ∀ {root : Value}, outside root → ∀ config : RuntimeConfig,
    file.apply root config = .error (.misuse .index)
  computes : ∀ {root : Value}, ¬ outside root → ∀ config : RuntimeConfig,
    Computes (file.apply root config) (complete root) (result root config)

/-- A root that no section can be looked up in. -/
def NoObject (root : Value) : Prop := root.isObject = false

theorem isObject_of_not_noObject {root : Value} (h : ¬ NoObject root) : root.isObject = true :=
  Bool.not_eq_false _ ▸ h

/-- A lookup that misuses its value ends the loader. -/
theorem misuse_first {root : Value} (h : NoObject root) {key : String} {α : Type}
    (next : Value → Loader α) : (root.index key >>= next) = .error (.misuse .index) := by
  rw [Value.index_misuse h]
  rfl

namespace Described

def vi : Described where
  file := ⟨"vi.json", viJson⟩
  outside := NoObject
  complete root := ViSection (root.part "sensor1")
  result root config := { config with sensor := viOf (root.part "sensor1") }
  misuses h _ := misuse_first h _
  computes h config := viJson_computes (isObject_of_not_noObject h) config

def venc : Described where
  file := ⟨"venc.json", vencJson⟩
  outside := NoObject
  complete root := VencSection (root.part "venc1")
  result root config :=
    { config with streams := vencOf (root.part "venc1") config.streams }
  misuses h _ := misuse_first h _
  computes h config := vencJson_computes (isObject_of_not_noObject h) config

def aenc : Described where
  file := ⟨"aenc.json", aencJson⟩
  outside := NoObject
  complete root := AencSection (root.part "aenc1")
  result root config := { config with audio := aencOf (root.part "aenc1") }
  misuses h _ := misuse_first h _
  computes h config := aencJson_computes (isObject_of_not_noObject h) config

/-- The services are looked into before they are known to be an object. -/
def netService : Described where
  file := ⟨"net_service.json", netServiceJson⟩
  outside root := NoObject root ∨ NoObject (root.part "net_service")
  complete root := WebRtcSection (servicesOf root)
  result root config := { config with webrtc := webrtcOf (servicesOf root) }
  misuses {root} h config := by
    rcases Bool.eq_false_or_eq_true root.isObject with ho | ho
    · show (root.index "net_service" >>= _) = _
      rw [Value.index_eq ho]
      exact misuse_first (h.resolve_left fun hn => Bool.false_ne_true (hn.symm.trans ho)) _
    · exact misuse_first ho _
  computes h config :=
    netServiceJson_computes (isObject_of_not_noObject fun hn => h (.inl hn))
      (isObject_of_not_noObject fun hn => h (.inr hn)) config

def osd : Described where
  file := ⟨"osd.json", osdJson⟩
  outside := NoObject
  complete root := OsdSection (root.part "time_osd")
  result root config :=
    { config with streams := { config.streams with
      sub := { config.streams.sub with osd := osdOf (root.part "time_osd") } } }
  misuses h _ := misuse_first h _
  computes h config := osdJson_computes (isObject_of_not_noObject h) config

def yolov8 : Described where
  file := ⟨"../yolov8/yolov8.json", yolov8Json⟩
  outside := NoObject
  complete root := YoloSection (root.part "yolov8")
  result root config :=
    { config with streams := { config.streams with
      ai := yoloOf (root.part "yolov8") config.streams.ai } }
  misuses h _ := misuse_first h _
  computes h config := yolov8Json_computes (isObject_of_not_noObject h) config

def mp4Save : Described where
  file := mp4SaveInfo
  outside := NoObject
  complete root := SaveSection (root.part "mp4_save")
  result root config := { config with record := saveOf (root.part "mp4_save") config.record }
  misuses h _ := misuse_first h _
  computes h config := mp4SaveJson_computes (isObject_of_not_noObject h) config

end Described

open Described

/-- The older files in the order they are read. -/
def describedFiles (files : Files) (directory : String) : List Described :=
  if files.fileIsRegular (pathJoin directory mp4SaveInfo.name) then
    [vi, venc, aenc, netService, osd, yolov8, mp4Save]
  else [vi, venc, aenc, netService, osd, yolov8]

theorem map_describedFiles (files : Files) (directory : String) :
    (describedFiles files directory).map Described.file = legacyFiles files directory := by
  rw [describedFiles, legacyFiles]
  split <;> rfl

/-! ### All of them in order -/

section Order

variable (files : Files) (directory : String)

/-- Some file misuses its root, and the files before it are complete. -/
def Outside : List Described → Prop
  | [] => False
  | d :: rest => ∃ root, readJson files (pathJoin directory d.file.name) = .ok root ∧
      (d.outside root ∨ d.complete root ∧ Outside rest)

/-- All files are complete, and `loaded` is what they make of `config`. -/
def Complete : List Described → RuntimeConfig → RuntimeConfig → Prop
  | [], config, loaded => loaded = config
  | d :: rest, config, loaded =>
    ∃ root, readJson files (pathJoin directory d.file.name) = .ok root ∧
      ¬ d.outside root ∧ d.complete root ∧ Complete rest (d.result root config) loaded

theorem bind_ok_iff {α β : Type} {load : Loader α} {next : α → Loader β} {b : β} :
    (load >>= next) = .ok b ↔ ∃ a, load = .ok a ∧ next a = .ok b := by
  cases load with
  | ok a =>
    constructor
    · intro h
      exact ⟨a, rfl, h⟩
    · rintro ⟨c, hc, h⟩
      injection hc with hc
      rwa [hc]
  | error stop =>
    constructor
    · intro h
      cases h
    · rintro ⟨_, h, -⟩
      cases h

/-- What one file adds to a run over the rest. -/
theorem readLegacy_cons {d : Described} {root : Value} {rest : List LegacyFile}
    {config : RuntimeConfig}
    (hroot : readJson files (pathJoin directory d.file.name) = .ok root) :
    readLegacy files directory (d.file :: rest) config =
      (d.file.apply root config >>= readLegacy files directory rest) := by
  rw [readLegacy, hroot]
  rfl

theorem readLegacy_refused {d : Described} {stop : Stop} {rest : List LegacyFile}
    {config : RuntimeConfig}
    (hroot : readJson files (pathJoin directory d.file.name) = .error stop) :
    readLegacy files directory (d.file :: rest) config = .error stop := by
  rw [readLegacy, hroot]
  rfl

theorem readLegacy_misuse_iff (described : List Described) (config : RuntimeConfig) :
    (∃ call, readLegacy files directory (described.map Described.file) config =
      .error (.misuse call)) ↔ Outside files directory described := by
  -- over the files in their order; a refused one ends the reading
  induction described generalizing config with
  | nil =>
    rw [List.map_nil, Outside]
    constructor
    · rintro ⟨call, h⟩
      cases h
    · exact False.elim
  | cons d rest ih =>
    rw [List.map_cons, Outside]
    cases hroot : readJson files (pathJoin directory d.file.name) with
    | error stop =>
      rw [readLegacy_refused files directory hroot]
      constructor
      · rintro ⟨call, h⟩
        cases h
        exact absurd hroot (readJson_no_misuse files _ call)
      · rintro ⟨root, h, -⟩
        cases h
    | ok root =>
      rw [readLegacy_cons files directory hroot]
      -- a misuse is in this file, or in a later one if this one is sound
      by_cases hout : d.outside root
      · rw [d.misuses hout]
        exact ⟨fun _ => ⟨root, rfl, .inl hout⟩, fun _ => ⟨.index, rfl⟩⟩
      · rcases d.computes hout config with ⟨hc, hl⟩ | ⟨hc, text, hl⟩
        · rw [hl]
          constructor
          · intro h
            exact ⟨root, rfl, .inr ⟨hc, (ih _).mp h⟩⟩
          · rintro ⟨r, hr, h⟩
            injection hr with hr
            rw [← hr] at h
            exact (ih _).mpr (h.resolve_left hout).2
        · rw [hl]
          constructor
          · rintro ⟨call, h⟩
            cases h
          · rintro ⟨r, hr, h⟩
            injection hr with hr
            rw [← hr] at h
            exact absurd (h.resolve_left hout).1 hc

theorem readLegacy_ok_iff (described : List Described) (config loaded : RuntimeConfig) :
    readLegacy files directory (described.map Described.file) config = .ok loaded ↔
      Complete files directory described config loaded := by
  induction described generalizing config with
  | nil =>
    rw [List.map_nil, Complete]
    constructor
    · intro h
      injection h with h
      exact h.symm
    · rintro rfl
      rfl
  | cons d rest ih =>
    rw [List.map_cons, Complete]
    cases hroot : readJson files (pathJoin directory d.file.name) with
    -- a file that cannot be read ends the reading
    | error stop =>
      rw [readLegacy_refused files directory hroot]
      constructor
      · intro h
        cases h
      · rintro ⟨root, h, -⟩
        cases h
    | ok root =>
      rw [readLegacy_cons files directory hroot, bind_ok_iff]
      constructor
      · rintro ⟨next, hn, h⟩
        by_cases hout : d.outside root
        · rw [d.misuses hout] at hn
          cases hn
        · obtain ⟨hc, rfl⟩ := (d.computes hout config).ok_iff.mp hn
          exact ⟨root, rfl, hout, hc, (ih _).mp h⟩
      · rintro ⟨r, hr, hout, hc, h⟩
        injection hr with hr
        rw [← hr] at hout hc h
        exact ⟨_, (d.computes hout config).ok_iff.mpr ⟨hc, rfl⟩, (ih _).mpr h⟩

end Order

/-- **No value is misused if and only if the unified file is there, or none of
the older files that are read misuses its root.** -/
theorem lookups_guarded_iff (files : Files) (directory : String) (config : RuntimeConfig) :
    (∀ call, loadRuntimeConfig files directory config ≠ .error (.misuse call)) ↔
      files.fileIsRegular (pathJoin directory "ipc_mini.json") = true ∨
        ¬ Outside files directory (describedFiles files directory) := by
  rw [loadRuntimeConfig]
  by_cases hu : files.fileIsRegular (pathJoin directory "ipc_mini.json") = true
  · rw [if_pos hu]
    refine ⟨fun _ => .inl hu, fun _ call h => ?_⟩
    rw [loadIpcMiniJson] at h
    cases hroot : readJson files (pathJoin directory "ipc_mini.json") with
    | error stop =>
      rw [hroot] at h
      cases h
      exact readJson_no_misuse files _ call hroot
    | ok root =>
      rw [hroot] at h
      exact (ipcMiniJson_computes root config).no_misuse call h
  · rw [if_neg hu, or_iff_right hu, ← readLegacy_misuse_iff files directory _ config,
      map_describedFiles, loadLegacyFiles, not_exists]
    cases readLegacy files directory (legacyFiles files directory) config with
    | error stop => rfl
    | ok loaded =>
      refine ⟨fun _ call h => ?_, fun _ => (validateConfig_computes loaded).no_misuse⟩
      cases h

/-- A directory with a `vi.json` that holds a list. -/
def listRoot : Files where
  fileIsRegular _ := false
  fopen path := if path = "etc/vi.json" then some ⟨true, 2, true, "[]"⟩ else none
  parse text := if text = "[]" then .ok (.array []) else .error ""

/-- The loader aborts on it. -/
theorem sensor_looked_up_in_list :
    loadRuntimeConfig listRoot "etc" {} = .error (.misuse .index) := by
  decide +kernel

end Config

end IpcMini
