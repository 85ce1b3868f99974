/-
The order of uploads (`src/record/segment_recorder.cpp`,
`src/record/http_segment_uploader.cpp`, `cloud/signaling/record_http.js`).

When a segment is closed the recorder queues the segment and after it the
playlist that lists it.  The uploader sends one file after another, each as it
is when its turn comes.  A playlist that waited may by then list a segment that
is still behind it, and a segment may be dropped by a full queue or given up
after some attempts while its playlist is not.

* `step` — one step of the recorder, the uploader or the server;
* `ListsUploaded` — every segment that a stored playlist lists was uploaded;
* `outstanding` — the uploads that wait, were dropped or were given up;
* `ReadsNoOutstanding` — the uploader opens no playlist that lists one of them;
* **`listsUploaded_of_readsNoOutstanding`** — then the stored playlists list
  uploaded segments only;
* `late_read` — a run in which a playlist lists a segment too early.
-/
import IpcMini.SegmentSources
import IpcMini.UploadPrune

namespace IpcMini

open Archive Interleaving RecordHttp
open UploadPrune (Item)

namespace UploadOrder

/-! ### State -/

/-- Where `worker_loop` is; `left` counts the attempts that are left, with the
present one. -/
inductive Worker
  | idle
  | working (item : Item) (left : ℕ)
  /-- the request is under way, with the body that was read -/
  | sent (item : Item) (left : ℕ) (body : List Char)
  /-- the server has done it, and the answer is under way -/
  | served (item : Item) (left : ℕ)
  deriving DecidableEq, Repr

structure System where
  recorder : Recorder
  /-- what the recorder still has to do in the present call -/
  pending : List Effect
  disk : Disk
  stopping : Bool
  queue : List Item
  worker : Worker
  /-- the requests that the uploader has given up, but the server may still have -/
  late : List (Item × List Char)
  /-- the uploads that were dropped or given up, and that the server has not got -/
  lost : List File
  /-- the files of which a PUT has completed -/
  completed : List File
  /-- the playlists on the server -/
  stored : String → Option (List Char)

/-- The file that an item uploads. -/
def upload (item : Item) : Option File := if item.remove then none else some item.file

/-- The file whose upload an effect queues. -/
def queues : Effect → Option File
  | .enqueue file => some file
  | _ => none

namespace Worker

/-- The file whose upload is not done yet. -/
def upload : Worker → Option File
  | .working item _ | .sent item _ _ => UploadOrder.upload item
  | .idle | .served _ _ => none

/-- The item whose local file is about to be opened. -/
def item : Worker → Option Item
  | .working item _ => some item
  | .idle | .sent _ _ _ | .served _ _ => none

/-- The request under way. -/
def request : Worker → Option (Item × List Char)
  | .sent item _ body => some (item, body)
  | _ => none

end Worker

namespace System

/-- The recorder has come back from a call; its effects are still to happen. -/
def commit (s : System) (r : Recorder) : System :=
  { s with
    recorder := { r with archive := { r.archive with effects := [] } }
    pending := r.archive.effects }

/-- The item will not be handled any more. -/
def lose (s : System) (item : Item) : System :=
  if item.remove ∨ item.file ∈ s.completed then s else { s with lost := item.file :: s.lost }

/-- `enqueue` and `enqueue_delete`. -/
def enqueue (s : System) (item : Item) : System :=
  if s.stopping ∨ HttpSegmentUploader.kMaxQueued ≤ s.queue.length then s.lose item
  else { s with queue := s.queue ++ [item] }

/-- One effect of the recorder. -/
def exec (s : System) : Effect → System
  | .enqueue file => s.enqueue ⟨file, false⟩
  | .enqueueDelete file => s.enqueue ⟨file, true⟩
  | e => { s with disk := s.disk.exec e }

/-- The body of a request, if the local file can be opened. -/
def body (s : System) (item : Item) : Option (List Char) :=
  if item.isIndex then s.disk.index item.file.day else some []

/-- The server does what a request says. -/
def serve (s : System) (item : Item) (body : List Char) : System :=
  if item.remove then
    { s with
      stored :=
        if item.file = .index item.file.day then Function.update s.stored item.file.day none
        else s.stored }
  else
    { s with
      completed := item.file :: s.completed
      lost := s.lost.filter (· ≠ item.file)
      stored :=
        if item.isIndex then Function.update s.stored item.file.day (some body)
        else s.stored }

/-- The attempt at the item has failed. -/
def fail (s : System) (item : Item) (left : ℕ) : System :=
  if s.stopping ∨ left ≤ 1 then { s.lose item with worker := .idle }
  else { s with worker := .working item (left - 1) }

end System

/-! ### Steps -/

inductive Label
  /-- `process_frame` -/
  | call (frame : MediaFrame) (env : Env)
  /-- the writer leaves its loop -/
  | finish (env : Env)
  /-- the next effect of the recorder's call -/
  | effect
  /-- the next effect, which fails: a file cannot be written or unlinked -/
  | effectFails
  /-- `stop` of the uploader -/
  | stop
  | pop
  | send
  /-- the server handles the request under way -/
  | serve
  /-- the uploader receives the answer -/
  | answer
  /-- the attempt fails: no file, no connection or no answer -/
  | fail
  /-- the server handles a request after all -/
  | serveLate (i : ℕ)
  deriving DecidableEq, Repr

/-- The recorder comes back from a call. -/
def called (s : System) (r : Recorder) : Option System :=
  if s.pending = [] then some (s.commit r) else none

def step (s : System) : Label → Option System
  | .call frame env => called s (s.recorder.processFrame env frame)
  | .finish env => called s (s.recorder.endWriter env)
  | .effect =>
    match s.pending with
    | [] => none
    | e :: es => some ({ s with pending := es }.exec e)
  | .effectFails =>
    match s.pending with
    | .rewrite _ :: es | .unlink _ :: es => some { s with pending := es }
    | _ => none
  | .stop => some { s with stopping := true }
  | .pop =>
    match s.worker, s.queue with
    | .idle, item :: rest =>
      some { s with
        worker := .working item (if s.stopping then 1 else HttpSegmentUploader.kMaxRetries)
        queue := rest }
    | _, _ => none
  | .send =>
    match s.worker with
    | .working item left => (s.body item).map fun body => { s with worker := .sent item left body }
    | _ => none
  | .serve =>
    match s.worker with
    | .sent item left body => some { s.serve item body with worker := .served item left }
    | _ => none
  | .answer =>
    match s.worker with
    | .served _ _ => some { s with worker := .idle }
    | _ => none
  | .fail =>
    match s.worker with
    | .idle => none
    | .working item left | .served item left => some (s.fail item left)
    | .sent item left body => some ({ s with late := s.late ++ [(item, body)] }.fail item left)
  | .serveLate i =>
    match s.late[i]? with
    | some (item, body) => some ({ s with late := s.late.eraseIdx i }.serve item body)
    | none => none

/-- A recorder that was just started on an empty directory, an uploader without
work and an empty server. -/
def start (config : RecordConfig) : System where
  recorder := .new ⟨config, [], .empty, "", [], []⟩
  pending := []
  disk := ⟨[], fun _ => none, [], none⟩
  stopping := false
  queue := []
  worker := .idle
  late := []
  lost := []
  completed := []
  stored := fun _ => none

/-! ### Uploaded and outstanding segments -/

/-- A PUT of every segment that the playlist text of the day lists has
completed. -/
def Uploaded (s : System) (day : String) (text : List Char) : Prop :=
  ∀ name ∈ listedMediaFromPlaylist text, ⟨day, String.ofList name⟩ ∈ s.completed

/-- So it has for every stored playlist. -/
def ListsUploaded (s : System) : Prop := ∀ day, ∀ text ∈ s.stored day, Uploaded s day text

/-- The uploads that are still to be queued, that wait in the queue or are under
way, and those that were dropped or given up. -/
def outstanding (s : System) : List File :=
  s.pending.filterMap queues ++ s.queue.filterMap upload ++ s.worker.upload.toList ++ s.lost

/-- The playlist text of the day lists an outstanding segment. -/
def NamesOutstanding (s : System) (day : String) (text : List Char) : Prop :=
  ∃ file ∈ outstanding s, file.day = day ∧ file.name.toList ∈ listedMediaFromPlaylist text

/-- `put_once` opens no local playlist that lists an outstanding segment. -/
def ReadsNoOutstanding (s : System) : Label → Prop
  | .send => ∀ item ∈ s.worker.item, item.isIndex = true →
      ∀ text ∈ s.disk.index item.file.day, ¬ NamesOutstanding s item.file.day text
  | _ => True

instance (s : System) (day : String) (text : List Char) : Decidable (NamesOutstanding s day text) :=
  inferInstanceAs (Decidable (∃ file ∈ outstanding s, _))

instance (s : System) : ∀ l, Decidable (ReadsNoOutstanding s l)
  | .send => inferInstanceAs (Decidable (∀ item ∈ s.worker.item, item.isIndex = true →
      ∀ text ∈ s.disk.index item.file.day, ¬ NamesOutstanding s item.file.day text))
  | .call _ _ | .finish _ | .effect | .effectFails | .stop | .pop | .serve | .answer | .fail
  | .serveLate _ => .isTrue trivial

/-! ### What becomes of an upload -/

/-- The upload is outstanding or has completed. -/
def Known (s : System) (file : File) : Prop := file ∈ outstanding s ∨ file ∈ s.completed

theorem known_iff {s : System} {file : File} : Known s file ↔
    (∃ e ∈ s.pending, queues e = some file) ∨ (∃ item ∈ s.queue, upload item = some file) ∨
      s.worker.upload = some file ∨ file ∈ s.lost ∨ file ∈ s.completed := by
  simp [Known, outstanding, or_assoc]

/-- The recorder made the file and, unless nothing is uploaded, queued it. -/
def Fated (uploadUrl : String) (s : System) (file : File) : Prop :=
  Generated file ∧ (uploadUrl = "" ∨ Known s file)

/-- The text lists segments that the recorder has queued. -/
def Sound (uploadUrl : String) (s : System) (day : String) (text : List Char) : Prop :=
  ∀ name ∈ listedMediaFromPlaylist text, Fated uploadUrl s ⟨day, String.ofList name⟩

theorem mem_update {index : String → Option (List Char)} {fileDay day : String}
    {new : Option (List Char)} {text : List Char}
    (h : text ∈ Function.update index fileDay new day) :
    (day = fileDay ∧ new = some text) ∨ text ∈ index day := by
  rw [Function.update_apply] at h
  split at h
  next hday => exact .inl ⟨hday, h⟩
  · exact .inr h

/-- The uploader has something to do. -/
def Busy (s : System) : Prop := s.queue ≠ [] ∨ s.worker ≠ .idle ∨ s.late ≠ []

variable {uploadUrl : String} {s t : System}

theorem Fated.mono (hk : ∀ file, Known s file → Known t file) (file : File)
    (h : Fated uploadUrl s file) : Fated uploadUrl t file :=
  ⟨h.1, h.2.imp_right (hk file)⟩

theorem Sound.mono (hk : ∀ file, Known s file → Known t file) {day : String} {text : List Char}
    (h : Sound uploadUrl s day text) : Sound uploadUrl t day text :=
  fun name hname => (h name hname).mono hk

theorem Uploaded.mono (hdone : ∀ file ∈ s.completed, file ∈ t.completed) {day : String}
    {text : List Char} (h : Uploaded s day text) : Uploaded t day text :=
  fun name hname => hdone _ (h name hname)

/-- The uploads of a text without outstanding segments have completed. -/
theorem Sound.uploaded {day : String} {text : List Char} (h : Sound uploadUrl s day text)
    (hurl : uploadUrl ≠ "") (hout : ¬ NamesOutstanding s day text) : Uploaded s day text := by
  intro name hname
  rcases (h name hname).2.resolve_left hurl with hmem | hdone
  · refine absurd ⟨_, hmem, rfl, ?_⟩ hout
    rw [String.toList_ofList]
    exact hname
  · exact hdone

/-- A playlist of queued segments is read as such. -/
theorem sound_of_within {p : HlsPlaylist} {file : File} (h : p.Within (Fated uploadUrl s))
    (hp : p.path = some file) : Sound uploadUrl s file.day p.text := by
  intro name hname
  refine h file (by rw [hp]; rfl) _ (mem_names_of_listed (fun n hn => ?_) hname)
  exact (h file (by rw [hp]; rfl) n hn).1.plain

theorem upload_eq_some {item : Item} {file : File} (h : upload item = some file) :
    item.remove = false ∧ item.file = file := by
  rw [upload] at h
  split at h
  · cases h
  next hput => exact ⟨by simpa using hput, Option.some.inj h⟩

/-- An upload that is lost is known as such, unless it has completed before. -/
theorem lose_spec (s : System) (item : Item) : ∃ lost, s.lose item = { s with lost := lost } ∧
    (∀ file ∈ s.lost, file ∈ lost) ∧
    ∀ file, upload item = some file → file ∈ lost ∨ file ∈ s.completed := by
  rw [System.lose]
  split
  next hdone =>
    refine ⟨s.lost, rfl, fun _ hl => hl, fun file hup => .inr ?_⟩
    obtain ⟨hput, rfl⟩ := upload_eq_some hup
    exact hdone.resolve_left (by simp [hput])
  · refine ⟨item.file :: s.lost, rfl, fun _ hl => List.mem_cons_of_mem _ hl, fun file hup => ?_⟩
    obtain ⟨-, rfl⟩ := upload_eq_some hup
    exact .inl List.mem_cons_self

/-- Nothing is forgotten when an item is queued or dropped. -/
theorem known_enqueue {item : Item} {file : File} (h : Known s file ∨ upload item = some file) :
    Known (s.enqueue item) file := by
  rw [System.enqueue, known_iff]
  split
  · obtain ⟨lost, heq, hl, hup⟩ := lose_spec s item
    rw [heq]
    rcases h with h | h
    · rcases known_iff.mp h with h | h | h | h | h
      · exact .inl h
      · exact .inr (.inl h)
      · exact .inr (.inr (.inl h))
      · exact .inr (.inr (.inr (.inl (hl file h))))
      · exact .inr (.inr (.inr (.inr h)))
    · exact .inr (.inr (.inr (hup file h)))
  · rcases h with h | h
    · rcases known_iff.mp h with h | ⟨i, hi, hup⟩ | h
      · exact .inl h
      · exact .inr (.inl ⟨i, List.mem_append_left _ hi, hup⟩)
      · exact .inr (.inr h)
    · exact .inr (.inl ⟨item, List.mem_append_right _ List.mem_cons_self, h⟩)

/-- A request that the server handles completes the upload. -/
theorem completed_serve (s : System) {item : Item} (body : List Char) {file : File}
    (hup : upload item = some file) : file ∈ (s.serve item body).completed := by
  obtain ⟨hput, rfl⟩ := upload_eq_some hup
  rw [System.serve, if_neg (by simp [hput])]
  exact List.mem_cons_self

theorem known_serve (item : Item) (body : List Char) {file : File} (h : Known s file) :
    Known (s.serve item body) file := by
  rw [System.serve, known_iff]
  split
  · exact known_iff.mp h
  · rcases known_iff.mp h with h | h | h | h | h
    · exact .inl h
    · exact .inr (.inl h)
    · exact .inr (.inr (.inl h))
    · by_cases heq : file = item.file
      · exact .inr (.inr (.inr (.inr (heq ▸ List.mem_cons_self))))
      · exact .inr (.inr (.inr (.inl (List.mem_filter.mpr ⟨h, by simpa using heq⟩))))
    · exact .inr (.inr (.inr (.inr (List.mem_cons_of_mem _ h))))

/-- An attempt that fails leaves the item to be sent again, or loses it. -/
theorem known_fail {item : Item} {left : ℕ} (hw : ∀ file, s.worker.upload = some file →
    upload item = some file) {file : File} (h : Known s file) : Known (s.fail item left) file := by
  rw [System.fail, known_iff]
  split
  · obtain ⟨lost, heq, hl, hup⟩ := lose_spec s item
    rw [heq]
    rcases known_iff.mp h with h | h | h | h | h
    · exact .inl h
    · exact .inr (.inl h)
    · exact .inr (.inr (.inr (hup file (hw file h))))
    · exact .inr (.inr (.inr (.inl (hl file h))))
    · exact .inr (.inr (.inr (.inr h)))
  · rcases known_iff.mp h with h | h | h | h
    · exact .inl h
    · exact .inr (.inl h)
    · exact .inr (.inr (.inl (hw file h)))
    · exact .inr (.inr (.inr h))

/-! ### The invariant -/

/-- The recorder lists only segments that it has queued, in its playlists and in
their files; the requests and the stored playlists list uploaded ones. -/
structure Inv (uploadUrl : String) (s : System) : Prop where
  effects : s.recorder.archive.effects = []
  recorder : s.recorder.RecSourced (Fated uploadUrl s) uploadUrl
  pending : ∀ e ∈ s.pending, e.Fits (Fated uploadUrl s) uploadUrl
  index : ∀ day, ∀ text ∈ s.disk.index day, Sound uploadUrl s day text
  requests : ∀ r, s.worker.request = some r ∨ r ∈ s.late → r.1.isIndex = true →
    Uploaded s r.1.file.day r.2
  busy : Busy s → uploadUrl ≠ ""
  stored : ListsUploaded s

theorem Inv.sourced (h : Inv uploadUrl s) :
    Sourced (Fated uploadUrl s) s.recorder.archive := by
  refine h.recorder.sourced fun file hfile hqueued => ⟨hfile, ?_⟩
  rw [h.recorder.uploadUrl, h.effects] at hqueued
  exact .inl (hqueued.resolve_right (by simp))

/-- Steps that leave the recorder alone. -/
theorem Inv.carry (h : Inv uploadUrl s) (hk : ∀ file, Known s file → Known t file)
    (hdone : ∀ file ∈ s.completed, file ∈ t.completed)
    (hrecorder : t.recorder = s.recorder) (hpending : ∀ e ∈ t.pending, e ∈ s.pending)
    (hindex : ∀ day, ∀ text ∈ t.disk.index day,
      text ∈ s.disk.index day ∨ Sound uploadUrl t day text)
    (hrequests : ∀ r, t.worker.request = some r ∨ r ∈ t.late →
      (s.worker.request = some r ∨ r ∈ s.late) ∨
        (r.1.isIndex = true → Uploaded t r.1.file.day r.2))
    (hbusy : Busy t → Busy s ∨ uploadUrl ≠ "") (hstored : ListsUploaded t) :
    Inv uploadUrl t := by
  have hsourced := h.sourced.mono (Fated.mono hk)
  refine ⟨hrecorder ▸ h.effects, ?_, fun e he => (h.pending e (hpending e he)).mono (Fated.mono hk),
    fun day text htext => ?_, fun r hr hi => ?_, fun hb => (hbusy hb).elim h.busy id, hstored⟩
  · rw [hrecorder]
    exact ⟨h.recorder.uploadUrl, h.recorder.session, h.recorder.media, fun _ => hsourced⟩
  · rcases hindex day text htext with hold | hnew
    · exact (h.index day text hold).mono hk
    · exact hnew
  · rcases hrequests r hr with hold | hnew
    · exact (h.requests r hold hi).mono hdone
    · exact hnew hi

/-! ### The recorder -/

theorem inv_called {r : Recorder} (h : Inv uploadUrl s)
    (hr : ∀ A : File → Prop, s.recorder.RecSourced A uploadUrl → r.RecSourced A uploadUrl)
    (hcall : called s r = some t) : Inv uploadUrl t := by
  rw [called] at hcall
  split at hcall
  case isTrue hp =>
    obtain rfl := Option.some_inj.mp hcall
    have hk : ∀ file, Known s file → Known (s.commit r) file := by
      intro file hfile
      rcases known_iff.mp hfile with ⟨e, he, -⟩ | hrest
      · exact absurd he (by simp [hp])
      · exact known_iff.mpr (.inr hrest)
    -- the call lists what was known before, and what it queues
    have hrec := hr (Fated uploadUrl (s.commit r))
      ⟨h.recorder.uploadUrl, h.recorder.session, h.recorder.media,
        fun _ => h.sourced.mono (Fated.mono hk)⟩
    have hsourced : Sourced (Fated uploadUrl (s.commit r)) r.archive := by
      refine hrec.sourced fun file hfile hqueued => ⟨hfile, ?_⟩
      rw [hrec.uploadUrl] at hqueued
      exact hqueued.imp_right fun he => known_iff.mpr (.inl ⟨_, he, rfl⟩)
    refine ⟨rfl, ⟨hrec.uploadUrl, hrec.session, hrec.media, fun _ =>
      ⟨hsourced.kept, hsourced.playlist, fun e he => absurd he List.not_mem_nil⟩⟩, fun e he => ?_,
      fun day text htext => (h.index day text htext).mono hk,
      h.requests, h.busy, h.stored⟩
    have := hsourced.effects e he
    rwa [hrec.uploadUrl] at this
  case isFalse => cases hcall

/-- Only a rewrite changes what a playlist file says. -/
theorem index_exec {v : Disk} {e : Effect} {day : String} {text : List Char}
    (h : text ∈ (v.exec e).index day) : text ∈ v.index day ∨
      ∃ p file, e = .rewrite p ∧ p.path = some file ∧ file.day = day ∧ text = p.text := by
  cases e with
  | rewrite p =>
    rw [Disk.exec] at h
    split at h
    next file hp =>
      rcases mem_update h with ⟨hday, htext⟩ | hold
      · exact .inr ⟨p, file, rfl, hp, hday.symm, (Option.some.inj htext).symm⟩
      · exact .inl hold
    · exact .inl h
  | unlink file =>
    rw [Disk.exec] at h
    split at h
    · exact .inl ((mem_update h).resolve_left fun hnone => by cases hnone.2)
    · exact .inl h
  | _ => exact .inl h

/-- Queueing touches only the queue and the list of what is lost. -/
theorem enqueue_frame (s : System) (item : Item) :
    ∃ queue lost, s.enqueue item = { s with queue := queue, lost := lost } := by
  rw [System.enqueue]
  split
  · obtain ⟨lost, heq, -⟩ := lose_spec s item
    exact ⟨s.queue, lost, heq⟩
  · exact ⟨_, s.lost, rfl⟩

theorem inv_enqueue {item : Item} {e : Effect} {es : List Effect} (h : Inv uploadUrl s)
    (hp : s.pending = e :: es) (hurl : uploadUrl ≠ "")
    (he : ∀ file, queues e = some file → upload item = some file) :
    Inv uploadUrl (({ s with pending := es } : System).enqueue item) := by
  have hk : ∀ file, Known s file →
      Known (({ s with pending := es } : System).enqueue item) file := by
    intro file hfile
    refine known_enqueue ?_
    rcases known_iff.mp hfile with ⟨e', he', hq⟩ | hrest
    · rw [hp] at he'
      rcases List.mem_cons.mp he' with rfl | he'
      · exact .inr (he file hq)
      · exact .inl (known_iff.mpr (.inl ⟨e', he', hq⟩))
    · exact .inl (known_iff.mpr (.inr hrest))
  obtain ⟨queue, lost, heq⟩ := enqueue_frame ({ s with pending := es } : System) item
  rw [heq] at hk ⊢
  refine h.carry hk (fun _ => id) rfl (fun e' he' => ?_) (fun _ _ htext => .inl htext)
    (fun _ hr => .inl hr) (fun _ => .inr hurl) h.stored
  exact hp ▸ List.mem_cons_of_mem _ he'

/-- An effect that queues nothing may change a playlist file. -/
theorem inv_disk {e : Effect} {es : List Effect} {v : Disk} (h : Inv uploadUrl s)
    (hp : s.pending = e :: es) (he : queues e = none)
    (hv : ∀ day, ∀ text ∈ v.index day, text ∈ s.disk.index day ∨
      ∃ p file, e = .rewrite p ∧ p.path = some file ∧ file.day = day ∧ text = p.text) :
    Inv uploadUrl { s with pending := es, disk := v } := by
  have hk : ∀ file, Known s file → Known { s with pending := es, disk := v } file := by
    intro file hfile
    rcases known_iff.mp hfile with ⟨e', he', hq⟩ | hrest
    · rw [hp] at he'
      rcases List.mem_cons.mp he' with rfl | he'
      · rw [he] at hq
        cases hq
      · exact known_iff.mpr (.inl ⟨e', he', hq⟩)
    · exact known_iff.mpr (.inr hrest)
  refine h.carry hk (fun _ => id) rfl (fun e' he' => hp ▸ List.mem_cons_of_mem _ he')
    (fun day text htext => (hv day text htext).imp_right ?_) (fun _ hr => .inl hr) .inl h.stored
  rintro ⟨p, file, rfl, hpath, rfl, rfl⟩
  have hfits : p.Within (Fated uploadUrl s) := h.pending (.rewrite p) (hp ▸ List.mem_cons_self)
  exact sound_of_within (hfits.mono (Fated.mono hk)) hpath

theorem inv_effect {e : Effect} {es : List Effect} (h : Inv uploadUrl s)
    (hp : s.pending = e :: es) :
    Inv uploadUrl (({ s with pending := es } : System).exec e) := by
  have hfits := h.pending e (hp ▸ List.mem_cons_self)
  cases e with
  | enqueue file => exact inv_enqueue h hp hfits fun _ hq => hq
  | enqueueDelete file => exact inv_enqueue h hp hfits fun _ hq => by cases hq
  | _ => exact inv_disk (s := s) h hp rfl fun _ _ => index_exec

/-! ### The uploader and the server -/

/-- What the uploader does when nothing is forgotten. -/
theorem inv_worker {queue : List Item} {worker : Worker} (h : Inv uploadUrl s)
    (hk : ∀ file, Known s file → Known { s with queue := queue, worker := worker } file)
    (hrequest : ∀ r, worker.request = some r → s.worker.request = some r ∨
      (r.1.isIndex = true → Uploaded s r.1.file.day r.2))
    (hbusy : Busy { s with queue := queue, worker := worker } → Busy s) :
    Inv uploadUrl { s with queue := queue, worker := worker } := by
  refine h.carry hk (fun _ => id) rfl (fun _ he => he) (fun _ _ htext => .inl htext)
    (fun r hr => ?_) (fun hb => .inl (hbusy hb)) h.stored
  rcases hr with hr | hr
  · exact (hrequest r hr).imp_left .inl
  · exact .inl (.inr hr)

theorem inv_pop {item : Item} {rest : List Item} {left : ℕ} (h : Inv uploadUrl s)
    (hw : s.worker = .idle) (hq : s.queue = item :: rest) :
    Inv uploadUrl { s with worker := .working item left, queue := rest } := by
  refine inv_worker h (fun file hfile => ?_) (fun r hr => by cases hr) fun _ => .inl (by simp [hq])
  rcases known_iff.mp hfile with hp | ⟨i, hi, hup⟩ | hw' | hrest
  · exact known_iff.mpr (.inl hp)
  · rw [hq] at hi
    rcases List.mem_cons.mp hi with rfl | hi
    · exact known_iff.mpr (.inr (.inr (.inl hup)))
    · exact known_iff.mpr (.inr (.inl ⟨i, hi, hup⟩))
  · rw [hw] at hw'
    cases hw'
  · exact known_iff.mpr (.inr (.inr (.inr hrest)))

/-- A playlist is sent as it is on the disk, without outstanding segments. -/
theorem inv_send {item : Item} {left : ℕ} {body : List Char} (h : Inv uploadUrl s)
    (hw : s.worker = .working item left) (hbody : s.body item = some body)
    (hreads : ReadsNoOutstanding s .send) :
    Inv uploadUrl { s with worker := .sent item left body } := by
  refine inv_worker h (fun file hfile => ?_) (fun r hr => .inr fun hi => ?_)
    fun _ => .inr (.inl (by simp [hw]))
  · rcases known_iff.mp hfile with hp | hq | hw' | hrest
    · exact known_iff.mpr (.inl hp)
    · exact known_iff.mpr (.inr (.inl hq))
    · rw [hw] at hw'
      exact known_iff.mpr (.inr (.inr (.inl hw')))
    · exact known_iff.mpr (.inr (.inr (.inr hrest)))
  · obtain rfl : (item, body) = r := Option.some.inj hr
    rw [System.body, if_pos hi] at hbody
    have hurl : uploadUrl ≠ "" := h.busy (.inr (.inl (by simp [hw])))
    exact (h.index item.file.day body hbody).uploaded hurl
      (hreads item (by rw [hw]; rfl) hi body hbody)

/-- What was uploaded stays so. -/
theorem completed_mono (s : System) (item : Item) (body : List Char) :
    ∀ file ∈ s.completed, file ∈ (s.serve item body).completed := by
  intro file hfile
  rw [System.serve]
  split
  · exact hfile
  · exact List.mem_cons_of_mem _ hfile

/-- The server stores the playlist of the request, or none. -/
theorem listsUploaded_serve {item : Item} {body : List Char} (h : ListsUploaded s)
    (hbody : item.isIndex = true → Uploaded s item.file.day body) :
    ListsUploaded (s.serve item body) := by
  intro day text htext
  refine Uploaded.mono (completed_mono s item body) ?_
  rw [System.serve] at htext
  split at htext
  · -- a removed playlist lists nothing
    dsimp only at htext
    split at htext
    · exact h day text ((mem_update htext).resolve_left fun hnone => by cases hnone.2)
    · exact h day text htext
  · dsimp only at htext
    split at htext
    next hi =>
      rcases mem_update htext with ⟨rfl, hnew⟩ | hold
      · obtain rfl := Option.some.inj hnew
        exact hbody hi
      · exact h day text hold
    · exact h day text htext

/-- The server touches only what it has. -/
theorem serve_frame (s : System) (item : Item) (body : List Char) :
    ∃ completed lost stored, s.serve item body =
      { s with completed := completed, lost := lost, stored := stored } := by
  rw [System.serve]
  split
  · exact ⟨_, _, _, rfl⟩
  · exact ⟨_, _, _, rfl⟩

theorem inv_serve {item : Item} {body : List Char} (h : Inv uploadUrl s)
    (hbody : item.isIndex = true → Uploaded s item.file.day body) :
    Inv uploadUrl (s.serve item body) := by
  have hk : ∀ file, Known s file → Known (s.serve item body) file :=
    fun _ => known_serve item body
  have hdone := completed_mono s item body
  have hstored := listsUploaded_serve h.stored hbody
  obtain ⟨completed, lost, stored, heq⟩ := serve_frame s item body
  rw [heq] at hk hdone hstored ⊢
  exact h.carry hk hdone rfl (fun _ he => he) (fun _ _ htext => .inl htext)
    (fun _ hr => .inl hr) .inl hstored

theorem inv_served {item : Item} {left : ℕ} {body : List Char} (h : Inv uploadUrl s)
    (hw : s.worker = .sent item left body) :
    Inv uploadUrl { s.serve item body with worker := .served item left } := by
  have hserve := inv_serve h (h.requests (item, body) (.inl (by rw [hw]; rfl)))
  have hworker : (s.serve item body).worker = .sent item left body := by
    obtain ⟨completed, lost, stored, heq⟩ := serve_frame s item body
    rw [heq]
    exact hw
  refine inv_worker hserve (fun file hfile => ?_) (fun r hr => by cases hr)
    fun _ => .inr (.inl (by simp [hworker]))
  rcases known_iff.mp hfile with hp | hq | hup | hrest
  · exact known_iff.mpr (.inl hp)
  · exact known_iff.mpr (.inr (.inl hq))
  · -- the upload has just completed
    rw [hworker] at hup
    exact .inr (completed_serve s body hup)
  · exact known_iff.mpr (.inr (.inr (.inr hrest)))

/-- An answer ends the work at an item that is done. -/
theorem inv_answer {item : Item} {left : ℕ} (h : Inv uploadUrl s)
    (hw : s.worker = .served item left) : Inv uploadUrl { s with worker := .idle } := by
  refine inv_worker h (fun file hfile => ?_) (fun r hr => by cases hr)
    fun _ => .inr (.inl (by simp [hw]))
  rcases known_iff.mp hfile with hp | hq | hup | hrest
  · exact known_iff.mpr (.inl hp)
  · exact known_iff.mpr (.inr (.inl hq))
  · rw [hw] at hup
    cases hup
  · exact known_iff.mpr (.inr (.inr (.inr hrest)))

/-- A failed attempt touches the worker and the list of what is lost. -/
theorem fail_frame (s : System) (item : Item) (left : ℕ) : ∃ worker lost,
    s.fail item left = { s with worker := worker, lost := lost } ∧ worker.request = none := by
  rw [System.fail]
  split
  · obtain ⟨lost, heq, -⟩ := lose_spec s item
    rw [heq]
    exact ⟨.idle, lost, rfl, rfl⟩
  · exact ⟨_, s.lost, rfl, rfl⟩

theorem inv_fail {item : Item} {left : ℕ} (h : Inv uploadUrl s) (hbusy : Busy s)
    (hw : ∀ file, s.worker.upload = some file → upload item = some file) :
    Inv uploadUrl (s.fail item left) := by
  have hk : ∀ file, Known s file → Known (s.fail item left) file := fun _ => known_fail hw
  obtain ⟨worker, lost, heq, hnone⟩ := fail_frame s item left
  rw [heq] at hk ⊢
  refine h.carry hk (fun _ => id) rfl (fun _ he => he) (fun _ _ htext => .inl htext)
    (fun r hr => .inl ?_) (fun _ => .inl hbusy) h.stored
  rcases hr with hr | hr
  · rw [hnone] at hr
    cases hr
  · exact .inr hr

/-- The request that was given up may still be handled. -/
theorem inv_late {item : Item} {left : ℕ} {body : List Char} (h : Inv uploadUrl s)
    (hw : s.worker = .sent item left body) :
    Inv uploadUrl { s with late := s.late ++ [(item, body)] } := by
  refine h.carry (fun _ => id) (fun _ => id) rfl (fun _ he => he) (fun _ _ htext => .inl htext)
    (fun r hr => .inl ?_) (fun _ => .inl (.inr (.inl (by simp [hw])))) h.stored
  rcases hr with hr | hr
  · exact .inl hr
  · rcases List.mem_append.mp hr with hr | hr
    · exact .inr hr
    · obtain rfl := List.mem_singleton.mp hr
      exact .inl (by rw [hw]; rfl)

theorem inv_serveLate {i : ℕ} {item : Item} {body : List Char} (h : Inv uploadUrl s)
    (hr : s.late[i]? = some (item, body)) :
    Inv uploadUrl (({ s with late := s.late.eraseIdx i } : System).serve item body) := by
  have hmem : (item, body) ∈ s.late := List.mem_of_getElem? hr
  have hlate : Inv uploadUrl { s with late := s.late.eraseIdx i } :=
    h.carry (fun _ => id) (fun _ => id) rfl (fun _ he => he) (fun _ _ htext => .inl htext)
      (fun r hr => .inl (hr.imp_right List.mem_of_mem_eraseIdx))
      (fun _ => .inl (.inr (.inr (List.ne_nil_of_mem hmem)))) h.stored
  exact inv_serve hlate (h.requests _ (.inr hmem))

/-! ### Runs -/

theorem inv_step {l : Label} (h : Inv uploadUrl s) (hl : ReadsNoOutstanding s l)
    (hstep : step s l = some t) : Inv uploadUrl t := by
  cases l with
  | call frame env =>
    exact inv_called h (fun A hr => (Recorder.preserved_sourced A uploadUrl env).processFrame hr
      frame trivial) hstep
  | finish env => exact inv_called h (fun _ hr => Recorder.sourced_endWriter hr) hstep
  | effect =>
    rw [step] at hstep
    split at hstep
    · cases hstep
    next e es hp => exact Option.some_inj.mp hstep ▸ inv_effect h hp
  | effectFails =>
    rw [step] at hstep
    split at hstep
    · next p es hp =>
      exact Option.some_inj.mp hstep ▸ inv_disk (v := s.disk) h hp rfl fun _ _ => .inl
    · next file es hp =>
      exact Option.some_inj.mp hstep ▸ inv_disk (v := s.disk) h hp rfl fun _ _ => .inl
    · cases hstep
  | stop =>
    obtain rfl := Option.some_inj.mp hstep
    exact h.carry (fun _ => id) (fun _ => id) rfl (fun _ he => he) (fun _ _ htext => .inl htext)
      (fun _ hr => .inl hr) .inl h.stored
  | pop =>
    rw [step] at hstep
    split at hstep
    next item rest hw hq => exact Option.some_inj.mp hstep ▸ inv_pop h hw hq
    · cases hstep
  | send =>
    rw [step] at hstep
    split at hstep
    next item left hw =>
      obtain ⟨body, hbody, rfl⟩ := Option.map_eq_some_iff.mp hstep
      exact inv_send h hw hbody hl
    · cases hstep
  | serve =>
    rw [step] at hstep
    split at hstep
    next item left body hw => exact Option.some_inj.mp hstep ▸ inv_served h hw
    · cases hstep
  | answer =>
    rw [step] at hstep
    split at hstep
    next item left hw => exact Option.some_inj.mp hstep ▸ inv_answer h hw
    · cases hstep
  | fail =>
    have hbusy : s.worker ≠ .idle → Busy s := fun hw => .inr (.inl hw)
    rw [step] at hstep
    split at hstep
    · cases hstep
    next item left hw =>
      -- an idle worker has nothing that could fail
      refine Option.some_inj.mp hstep ▸ inv_fail h (hbusy (by simp [hw])) fun file hup => ?_
      rw [hw] at hup
      exact hup
    next item left hw =>
      refine Option.some_inj.mp hstep ▸ inv_fail h (hbusy (by simp [hw])) fun file hup => ?_
      rw [hw] at hup
      cases hup
    -- a request whose answer does not come may still be served late
    next item left body hw =>
      refine Option.some_inj.mp hstep ▸ inv_fail (inv_late h hw) (.inr (.inr (by simp)))
        fun file hup => ?_
      dsimp only at hup
      rw [hw] at hup
      exact hup
  | serveLate i =>
    rw [step] at hstep
    split at hstep
    next item body hr => exact Option.some_inj.mp hstep ▸ inv_serveLate h hr
    · cases hstep

theorem inv_start (config : RecordConfig) : Inv config.uploadUrl (start config) := by
  refine ⟨rfl, ⟨rfl, ?_, ?_, fun _ => ⟨?_, ?_, ?_⟩⟩, ?_, ?_, ?_, ?_, ?_⟩
  · intro hs
    cases hs
  · intro _ path hp
    cases hp
  · exact fun item hitem => absurd hitem List.not_mem_nil
  · exact fun file hfile => by cases hfile
  · exact fun e he => absurd he List.not_mem_nil
  · exact fun e he => absurd he List.not_mem_nil
  · exact fun day text htext => by cases htext
  · intro r hr
    rcases hr with hr | hr
    · cases hr
    · exact absurd hr List.not_mem_nil
  · intro hb
    rcases hb with hb | hb | hb
    · exact absurd rfl hb
    · exact absurd rfl hb
    · exact absurd rfl hb
  · exact fun day text htext => by cases htext

/-- **While the uploader opens no playlist that lists an outstanding segment,
every segment that a stored playlist lists has been uploaded.** -/
theorem listsUploaded_of_readsNoOutstanding {config : RecordConfig} {ls : List Label}
    (h : Along step ReadsNoOutstanding (start config) ls)
    (hrun : run step (start config) ls = some s) : ListsUploaded s :=
  (run_invariant (fun _ _ _ hs hl hstep => inv_step hs hl hstep) (inv_start config) h hrun).stored

/-! ### Two runs -/

/-- The first keyframe opens a session, whose files are queued. -/
def session : List Label :=
  .call (.video 0 .Key 0 1) Env.sample :: List.replicate 5 .effect

/-- The uploader has sent the session's files when the writer ends, and then
sends the segment, at the second attempt, and its playlist. -/
def inTime : List Label :=
  session ++ [.pop, .send, .serve, .answer, .pop, .send, .serve, .answer, .finish Env.sample] ++
    List.replicate 6 .effect ++ [.pop, .send, .fail, .send, .serve, .answer, .pop, .send, .serve]

/-- The session's playlist is sent when the segment was closed, but not queued. -/
def tooLate : List Label :=
  session ++ [.pop, .send, .serve, .answer, .pop, .finish Env.sample, .effect, .send, .serve]

theorem inTime_listsUploaded : ∃ s, run step (start { uploadUrl := "http://host/record" })
    inTime = some s ∧ s.stored "2024-01-01" ≠ none ∧ ListsUploaded s := by
  have hstored : (run step (start { uploadUrl := "http://host/record" }) inTime).map
      (fun s => (s.stored "2024-01-01").isSome) = some true := by
    decide +kernel
  obtain ⟨s, hs, hsome⟩ := Option.map_eq_some_iff.mp hstored
  exact ⟨s, hs, Option.isSome_iff_ne_none.mp hsome,
    listsUploaded_of_readsNoOutstanding (by decide +kernel) hs⟩

/-- The server then has a playlist that lists a segment which was not sent. -/
theorem late_read : ∃ s, run step (start { uploadUrl := "http://host/record" }) tooLate = some s ∧
    ¬ ListsUploaded s := by
  have hlisted : (run step (start { uploadUrl := "http://host/record" }) tooLate).map
      (fun s => ((s.stored "2024-01-01").any fun text =>
        (listedMediaFromPlaylist text).contains "2024-01-01_12-00-00.m4s".toList,
        s.completed.contains ⟨"2024-01-01", "2024-01-01_12-00-00.m4s"⟩)) =
      some (true, false) := by
    decide +kernel
  obtain ⟨s, hs, hpair⟩ := Option.map_eq_some_iff.mp hlisted
  obtain ⟨htext, hdone⟩ := Prod.mk.inj hpair
  obtain ⟨text, hstored, hname⟩ := (Option.any_eq_true _ _).mp htext
  refine ⟨s, hs, fun h => ?_⟩
  have := h "2024-01-01" text hstored _ (List.contains_iff_mem.mp hname)
  rw [String.ofList_toList] at this
  exact Bool.false_ne_true (hdone.symm.trans (List.contains_iff_mem.mpr this))

end UploadOrder

end IpcMini
