/-
Uploads of the recorder and the pruning of the server
(`src/record/segment_recorder.cpp`, `src/record/http_segment_uploader.cpp`,
`cloud/signaling/record_http.js`).

The recorder changes its playlists and queues uploads, the uploader sends the
queued files as they are when it comes to them, and the server removes every
segment that a stored playlist does not list.  A playlist that is sent while the
recorder writes it anew lists too little.

* `step` — one step of the recorder, the uploader or the server;
* `PrunesNothingKept` — the server prunes no uploaded segment that the recorder
  still keeps;
* `SendsNoRebuild` — no playlist is sent while the recorder writes it anew;
* **`prunesNothingKept_of_sendsNoRebuild`** — then nothing kept is pruned;
* `rebuild_sent` — a run in which the server prunes a kept segment.
-/
import IpcMini.RecorderPlaylists
import IpcMini.Run
import IpcMini.StopSignals

namespace IpcMini

open Interleaving RecordHttp

namespace UploadPrune

/-! ### State -/

/-- `HttpSegmentUploader::Item`: a file of the recording directory, which is
also its object key. -/
structure Item where
  file : File
  remove : Bool
  deriving DecidableEq, Repr

/-- Where `worker_loop` is. -/
inductive Worker
  | idle
  | working (item : Item)
  /-- the request is under way, with the body that was read -/
  | sent (item : Item) (body : List Char)
  deriving DecidableEq, Repr

namespace Worker

/-- The item whose request is about to be sent. -/
def item : Worker → Option Item
  | .working item => some item
  | _ => none

/-- The request under way. -/
def request : Worker → Option (Item × List Char)
  | .sent item body => some (item, body)
  | _ => none

end Worker

structure System where
  recorder : Recorder
  /-- what the recorder still has to do in the present call -/
  pending : List Effect
  disk : Disk
  queue : List Item
  worker : Worker
  /-- the objects on the server -/
  objects : List File
  /-- the objects that were uploaded since the recorder remembered the file -/
  uploaded : List File

/-- The item is the upload of a playlist. -/
def Item.isIndex (item : Item) : Bool :=
  !item.remove && decide (item.file = .index item.file.day)

/-- `pruneUnlistedSegments` of the playlist's directory unlinks the object. -/
def prunes (text : List Char) (day : String) (object : File) : Bool :=
  decide (object.day = day) && isUnlisted text object.name.toList

namespace System

/-- The recorder has come back from a call; its effects are still to happen. -/
def commit (s : System) (r : Recorder) : System :=
  { s with
    recorder := { r with archive := { r.archive with effects := [] } }
    pending := r.archive.effects }

def enqueue (s : System) (item : Item) : Option System :=
  if s.queue.length < HttpSegmentUploader.kMaxQueued then
    some { s with queue := s.queue ++ [item] }
  else none

/-- One effect of the recorder.  The queue is never full. -/
def exec (s : System) : Effect → Option System
  | .enqueue file => s.enqueue ⟨file, false⟩
  | .enqueueDelete file => s.enqueue ⟨file, true⟩
  | .pushKept item =>
    some { s with
      disk := s.disk.exec (.pushKept item)
      uploaded := s.uploaded.filter (· ≠ item.path) }
  | e => some { s with disk := s.disk.exec e }

/-- The body of a request, if the local file can be opened. -/
def body (s : System) (item : Item) : Option (List Char) :=
  if item.isIndex then s.disk.index item.file.day else some []

/-- The server handles a request. -/
def serve (s : System) (item : Item) (body : List Char) : System :=
  if item.remove then
    { s with
      objects := s.objects.filter (· ≠ item.file)
      uploaded := s.uploaded.filter (· ≠ item.file) }
  else
    let objects := s.objects.filter (· ≠ item.file) ++ [item.file]
    let uploaded := item.file :: s.uploaded
    if item.isIndex then
      { s with
        objects := objects.filter fun object => !prunes body item.file.day object
        uploaded := uploaded.filter fun object => !prunes body item.file.day object }
    else { s with objects := objects, uploaded := uploaded }

end System

/-! ### Steps -/

inductive Label
  /-- `process_frame` -/
  | call (frame : MediaFrame) (env : Env)
  /-- the writer leaves its loop -/
  | finish (env : Env)
  /-- the next effect of the recorder's call -/
  | effect
  | pop
  | send
  /-- the local file cannot be opened, whatever the number of attempts -/
  | skip
  | serve
  deriving DecidableEq, Repr

/-- The recorder comes back from a call in which its playlists were written. -/
def called (s : System) (env : Env) (r : Recorder) : Option System :=
  if s.pending = [] ∧ env.playlistBegun = true ∧ env.playlistRebegun = true then
    some (s.commit r)
  else none

def step (s : System) : Label → Option System
  | .call frame env => called s env (s.recorder.processFrame env frame)
  | .finish env => called s env (s.recorder.endWriter env)
  | .effect =>
    match s.pending with
    | [] => none
    | e :: es => { s with pending := es }.exec e
  | .pop =>
    match s.worker, s.queue with
    | .idle, item :: rest => some { s with worker := .working item, queue := rest }
    | _, _ => none
  | .send =>
    match s.worker with
    | .working item => (s.body item).map fun body => { s with worker := .sent item body }
    | _ => none
  | .skip =>
    match s.worker with
    | .working item =>
      if item.isIndex && (s.disk.index item.file.day).isSome then none
      else some { s with worker := .idle }
    | _ => none
  | .serve =>
    match s.worker with
    | .sent item body => some { s.serve item body with worker := .idle }
    | _ => none

/-- A recorder that was just started over the segments it found, an uploader
without work and a server with any objects. -/
def start (config : RecordConfig) (kept : List KeptSegment) (mediaFiles : List File)
    (index : String → Option (List Char)) (objects uploaded : List File) : System :=
  let archive : Archive := ⟨config, kept, .empty, "", mediaFiles, []⟩
  System.commit
    { recorder := .new archive
      pending := []
      disk := ⟨kept, index, [], none⟩
      queue := []
      worker := .idle
      objects := objects
      uploaded := uploaded }
    (.new archive.pruneRetained)

/-! ### Pruning of kept segments -/

/-- The server does not prune an uploaded segment that the recorder keeps. -/
def PrunesNothingKept (s : System) : Label → Prop
  | .serve => ∀ r ∈ s.worker.request, r.1.isIndex = true →
      ∀ object ∈ s.objects, prunes r.2 r.1.file.day object = true → object ∈ s.uploaded →
        ∀ segment ∈ s.disk.kept, segment.path ≠ object
  | _ => True

/-- No playlist is sent while the recorder writes it anew. -/
def SendsNoRebuild (s : System) : Label → Prop
  | .send => ∀ item ∈ s.worker.item, item.isIndex = true → s.disk.listing ≠ some item.file.day
  | _ => True

instance (s : System) : ∀ l, Decidable (PrunesNothingKept s l)
  | .serve => inferInstanceAs (Decidable (∀ r ∈ s.worker.request, r.1.isIndex = true →
      ∀ object ∈ s.objects, prunes r.2 r.1.file.day object = true → object ∈ s.uploaded →
        ∀ segment ∈ s.disk.kept, segment.path ≠ object))
  | .call _ _ | .finish _ | .effect | .pop | .send | .skip => .isTrue trivial

instance (s : System) : ∀ l, Decidable (SendsNoRebuild s l)
  | .send => inferInstanceAs (Decidable (∀ item ∈ s.worker.item, item.isIndex = true →
      s.disk.listing ≠ some item.file.day))
  | .call _ _ | .finish _ | .effect | .pop | .skip | .serve => .isTrue trivial

/-! ### The invariant -/

/-- The body of a playlist lists every kept segment that was uploaded. -/
def ListsUploaded (s : System) (item : Item) (body : List Char) : Prop :=
  item.isIndex = true → ∀ segment ∈ s.disk.kept, segment.day = item.file.day →
    segment.path ∈ s.uploaded → segment.filename.toList ∈ listedMediaFromPlaylist body

/-- A playlist that is to be sent was written. -/
def Written (s : System) (item : Item) : Prop :=
  item.isIndex = true → item.file.day ∈ s.disk.written

structure Inv (s : System) : Prop where
  effects : s.recorder.archive.effects = []
  recorder : s.recorder.RecInv (s.disk.execs s.pending)
  keeps : s.disk.Keeps s.pending
  queue : ∀ item ∈ s.queue, Written s item
  working : ∀ item, s.worker = .working item → Written s item
  sent : ∀ item body, s.worker = .sent item body → ListsUploaded s item body

theorem Item.isIndex_iff {item : Item} :
    item.isIndex = true ↔ item.remove = false ∧ item.file = .index item.file.day := by
  simp [Item.isIndex]

/-- The effects of a call become the pending ones. -/
theorem inv_commit {s : System} (h : Inv s) {r : Recorder} (hr : r.RecInv s.disk) :
    Inv (s.commit r) where
  effects := rfl
  recorder :=
    ⟨⟨⟨hr.archive.good, hr.archive.kept, hr.archive.listing, hr.archive.named⟩,
      hr.archive.inactive, hr.archive.active⟩, hr.session, hr.media⟩
  keeps := hr.archive.keeps
  queue := h.queue
  working := h.working
  sent := h.sent

theorem inv_called {s t : System} {env : Env} {r : Recorder} (h : Inv s)
    (hr : env.Rewrites → s.recorder.RecInv s.disk → r.RecInv s.disk)
    (hcall : called s env r = some t) : Inv t := by
  rw [called] at hcall
  split at hcall
  case isTrue hready =>
    obtain ⟨hp, hb, hrb⟩ := hready
    obtain rfl := Option.some_inj.mp hcall
    have hrec := h.recorder
    rw [hp, Disk.execs_nil] at hrec
    exact inv_commit h (hr ⟨hb, hrb⟩ hrec)
  case isFalse => exact absurd hcall (by simp)

/-! ### Effects -/

theorem written_exec {v : Disk} {day : String} (h : day ∈ v.written) (e : Effect) :
    day ∈ (v.exec e).written := by
  cases e with
  | rewrite p =>
    rw [Disk.exec]
    split
    · exact List.mem_cons_of_mem _ h
    · exact h
  | unlink file =>
    rw [Disk.exec]
    split <;> exact h
  | _ => exact h

/-- Only `pushKept` adds to the kept list. -/
theorem mem_kept_exec {v : Disk} {e : Effect} {segment : KeptSegment}
    (h : segment ∈ (v.exec e).kept) : segment ∈ v.kept ∨ e = .pushKept segment := by
  cases e with
  | pushKept item =>
    rcases List.mem_append.mp h with h | h
    · exact .inl h
    · obtain rfl : segment = item := by simpa using h
      exact .inr rfl
  | popKept => exact .inl (List.mem_of_mem_tail h)
  | rewrite p =>
    rw [Disk.exec] at h
    split at h <;> exact .inl h
  | unlink file =>
    rw [Disk.exec] at h
    split at h <;> exact .inl h
  | _ => exact .inl h

/-- What one effect does to the system besides the queue. -/
structure Effected (s t : System) (e : Effect) : Prop where
  recorder : t.recorder = s.recorder
  pending : t.pending = s.pending
  disk : t.disk = s.disk.exec e
  worker : t.worker = s.worker
  uploaded : ∀ object ∈ t.uploaded, object ∈ s.uploaded ∧
    ∀ segment, e = .pushKept segment → segment.path ≠ object
  queue : ∀ item ∈ t.queue, item ∈ s.queue ∨ item.remove = true ∨ e = .enqueue item.file

theorem effected_enqueue {s t : System} {item : Item} {e : Effect}
    (h : s.enqueue item = some t) (hdisk : s.disk.exec e = s.disk)
    (hitem : item.remove = true ∨ e = .enqueue item.file)
    (hpush : ∀ segment, e ≠ .pushKept segment) : Effected s t e := by
  rw [System.enqueue] at h
  split at h
  case isTrue =>
    obtain rfl := Option.some_inj.mp h
    refine ⟨rfl, rfl, hdisk.symm, rfl, fun object ho => ⟨ho, fun segment he =>
      absurd he (hpush segment)⟩, fun i hi => ?_⟩
    rcases List.mem_append.mp hi with hi | hi
    · exact .inl hi
    · obtain rfl : i = item := by simpa using hi
      exact .inr hitem
  case isFalse => exact absurd h (by simp)

theorem effected_of_exec {s t : System} {e : Effect} (h : s.exec e = some t) : Effected s t e := by
  cases e with
  | enqueue file => exact effected_enqueue h rfl (.inr rfl) (by simp)
  | enqueueDelete file => exact effected_enqueue h rfl (.inl rfl) (by simp)
  | pushKept item =>
    obtain rfl := Option.some_inj.mp h
    refine ⟨rfl, rfl, rfl, rfl, fun object ho => ?_, fun i hi => .inl hi⟩
    obtain ⟨hmem, hne⟩ := List.mem_filter.mp ho
    refine ⟨hmem, ?_⟩
    rintro segment ⟨⟩
    exact fun heq => absurd heq.symm (by simpa using hne)
  | _ =>
    obtain rfl := Option.some_inj.mp h
    exact ⟨rfl, rfl, rfl, rfl, fun object ho => ⟨ho, by simp⟩, fun i hi => .inl hi⟩

theorem inv_effect {s t : System} {e : Effect} {es : List Effect} (h : Inv s)
    (hp : s.pending = e :: es) (hexec : ({ s with pending := es } : System).exec e = some t) :
    Inv t := by
  obtain ⟨hrec, hpend, hdisk, hworker, huploaded, hqueue⟩ := effected_of_exec hexec
  dsimp only at hrec hpend hdisk hworker huploaded hqueue
  have hkeeps := h.keeps
  rw [hp] at hkeeps
  obtain ⟨-, hokay, hkeeps⟩ := hkeeps
  have hinv := h.recorder
  rw [hp, Disk.execs_cons] at hinv
  have hwritten : ∀ {item : Item}, Written s item → Written t item := by
    intro item hw hi
    rw [hdisk]
    exact written_exec (hw hi) e
  refine ⟨hrec ▸ h.effects, ?_, ?_, fun item hitem => ?_, fun item hw => ?_, fun item body hs => ?_⟩
  · rw [hrec, hdisk, hpend]
    exact hinv
  · rw [hdisk, hpend]
    exact hkeeps
  · rcases hqueue item hitem with hq | hr | rfl
    · exact hwritten (h.queue item hq)
    · exact fun hi => absurd (Item.isIndex_iff.mp hi).1 (by simp [hr])
    · intro hi
      rw [hdisk]
      exact written_exec (hokay item.file.day (Item.isIndex_iff.mp hi).2) _
  · exact hwritten (h.working item (hworker ▸ hw))
  · -- the list has at most gained a segment that is not uploaded yet
    intro hi segment hseg hday hup
    obtain ⟨hup', hnew⟩ := huploaded _ hup
    rw [hdisk] at hseg
    rcases mem_kept_exec hseg with hseg | rfl
    · exact h.sent item body (hworker ▸ hs) hi segment hseg hday hup'
    · exact absurd rfl (hnew segment rfl)

/-! ### The uploader and the server -/

/-- A playlist that is not being written anew lists all kept segments. -/
theorem listsUploaded_of_good {s : System} (h : Inv s) {item : Item} {body : List Char}
    (hw : s.worker = .working item) (hl : SendsNoRebuild s .send)
    (hbody : s.body item = some body) : ListsUploaded s item body := by
  intro hi segment hseg hday _
  have hnot : s.disk.listing ≠ some item.file.day := hl item (by rw [hw]; rfl) hi
  rw [System.body, if_pos hi] at hbody
  exact h.keeps.good item.file.day (h.working item hw hi) hnot body hbody segment hseg hday

theorem inv_pop {s : System} (h : Inv s) {item : Item} {rest : List Item}
    (hq : s.queue = item :: rest) : Inv { s with worker := .working item, queue := rest } := by
  refine ⟨h.effects, h.recorder, h.keeps, fun i hi => ?_, ?_, by simp⟩
  · exact h.queue i (hq ▸ List.mem_cons_of_mem _ hi)
  · rintro i ⟨⟩
    exact h.queue item (hq ▸ List.mem_cons_self)

theorem inv_send {s : System} (h : Inv s) {item : Item} {body : List Char}
    (hw : s.worker = .working item) (hl : SendsNoRebuild s .send)
    (hbody : s.body item = some body) : Inv { s with worker := .sent item body } := by
  refine ⟨h.effects, h.recorder, h.keeps, h.queue, by simp, ?_⟩
  rintro i b ⟨⟩
  exact listsUploaded_of_good h hw hl hbody

theorem inv_skip {s : System} (h : Inv s) : Inv { s with worker := .idle } :=
  ⟨h.effects, h.recorder, h.keeps, h.queue, by simp, by simp⟩

/-- The server touches only its objects. -/
theorem serve_frame (s : System) (item : Item) (body : List Char) :
    ∃ objects uploaded, s.serve item body =
      { s with objects := objects, uploaded := uploaded } := by
  rw [System.serve]
  split
  · exact ⟨_, _, rfl⟩
  · dsimp only
    split
    · exact ⟨_, _, rfl⟩
    · exact ⟨_, _, rfl⟩

theorem inv_serve {s : System} (h : Inv s) (item : Item) (body : List Char) :
    Inv { s.serve item body with worker := .idle } := by
  obtain ⟨objects, uploaded, heq⟩ := serve_frame s item body
  rw [heq]
  exact ⟨h.effects, h.recorder, h.keeps, h.queue, by simp, by simp⟩

theorem inv_step {s t : System} {l : Label} (h : Inv s) (hl : SendsNoRebuild s l)
    (hstep : step s l = some t) : Inv t := by
  cases l with
  | call frame env =>
    exact inv_called h (fun he hr => Recorder.rec_inv_processFrame hr he frame) hstep
  | finish env => exact inv_called h (fun _ hr => Recorder.rec_inv_endWriter hr) hstep
  | effect =>
    rw [step] at hstep
    cases hp : s.pending with
    | nil =>
      rw [hp] at hstep
      exact absurd hstep (by simp)
    | cons e es =>
      rw [hp] at hstep
      exact inv_effect h hp hstep
  | pop =>
    rw [step] at hstep
    split at hstep
    case h_1 item rest hw hq => exact Option.some_inj.mp hstep ▸ inv_pop h hq
    case h_2 => exact absurd hstep (by simp)
  | send =>
    rw [step] at hstep
    split at hstep
    case h_1 item hw =>
      obtain ⟨body, hbody, rfl⟩ := Option.map_eq_some_iff.mp hstep
      exact inv_send h hw hl hbody
    case h_2 => exact absurd hstep (by simp)
  | skip =>
    rw [step] at hstep
    split at hstep
    case h_1 item hw =>
      split at hstep
      · exact absurd hstep (by simp)
      · exact Option.some_inj.mp hstep ▸ inv_skip h
    case h_2 => exact absurd hstep (by simp)
  | serve =>
    rw [step] at hstep
    split at hstep
    case h_1 item body hw => exact Option.some_inj.mp hstep ▸ inv_serve h item body
    case h_2 => exact absurd hstep (by simp)

/-- The server keeps what the playlist lists. -/
theorem prunesNothingKept_of_inv {s : System} (h : Inv s) (l : Label) : PrunesNothingKept s l := by
  cases l with
  | serve =>
    rintro ⟨item, body⟩ hr hi object _ hprune hup segment hseg heq
    have hw : s.worker = .sent item body := by
      cases hworker : s.worker with
      | sent i b =>
        rw [hworker] at hr
        obtain ⟨rfl, rfl⟩ : i = item ∧ b = body := by simpa [Worker.request] using hr
        rfl
      | _ =>
        rw [hworker] at hr
        exact absurd hr (by simp [Worker.request])
    rw [prunes, Bool.and_eq_true, decide_eq_true_eq] at hprune
    obtain ⟨hday, hunlisted⟩ := hprune
    have hlisted := h.sent item body hw hi segment hseg (by rw [← hday, ← heq]; rfl)
      (heq ▸ hup)
    rw [isUnlisted, Bool.and_eq_true] at hunlisted
    have hname : object.name = segment.filename := by rw [← heq]; rfl
    exact absurd hlisted (by simpa [hname] using hunlisted.2)
  | _ => trivial

theorem inv_start {config : RecordConfig} {kept : List KeptSegment} {mediaFiles : List File}
    {index : String → Option (List Char)} {objects uploaded : List File}
    (hnamed : Named kept) :
    Inv (start config kept mediaFiles index objects uploaded) := by
  have harchive : Archive.ArchiveInv ⟨kept, index, [], none⟩
      ⟨config, kept, .empty, "", mediaFiles, []⟩ :=
    ⟨⟨fun _ hd => absurd hd (by simp), rfl, rfl, hnamed⟩, fun _ => rfl, fun hp => absurd rfl hp⟩
  have hnew : ∀ a : Archive, Archive.ArchiveInv ⟨kept, index, [], none⟩ a →
      (Recorder.new a).RecInv ⟨kept, index, [], none⟩ := fun a ha =>
    .of_closed ha rfl fun hs => absurd hs (by simp [Recorder.new])
  rw [start]
  refine inv_commit ?_ (hnew _ ?_)
  · refine ⟨rfl, hnew _ harchive, harchive.keeps, ?_, ?_, ?_⟩
    · exact fun item hitem => absurd hitem (by simp)
    · exact fun item hw => absurd hw (by simp)
    · exact fun item body hw => absurd hw (by simp)
  · exact (Archive.inv_pruneRetained harchive fun hp => absurd rfl hp).1

/-- **A recorder none of whose playlists is sent while it is written anew loses
no kept segment on the server.** -/
theorem prunesNothingKept_of_sendsNoRebuild {config : RecordConfig} {kept : List KeptSegment}
    {mediaFiles : List File} {index : String → Option (List Char)} {objects uploaded : List File}
    (hnamed : Named kept) {ls : List Label}
    (h : Along step SendsNoRebuild (start config kept mediaFiles index objects uploaded) ls) :
    Along step PrunesNothingKept (start config kept mediaFiles index objects uploaded) ls :=
  along_imp (fun _ _ _ hs hl => inv_step hs hl) (fun _ l hs _ => prunesNothingKept_of_inv hs l)
    (inv_start hnamed) h

/-! ### Two runs -/

/-- A segment of five minutes, recorded at the given minute after noon. -/
def recording (minute : ℕ) : KeptSegment :=
  ⟨nextMediaPath ⟨2024, 1, 1, 12, minute, 0⟩ none, 300, 1⟩

theorem generated_recording (minute : ℕ) : Generated (recording minute).path :=
  ⟨⟨2024, 1, 1, 12, minute, 0⟩, none, rfl⟩

/-- A restart over three segments, the newest of which was uploaded before; the
retention time allows for one. -/
def restart : System :=
  start { retainSec := 500, uploadUrl := "http://host/record" }
    [recording 0, recording 5, recording 10]
    [(recording 0).path, (recording 5).path, (recording 10).path]
    (fun _ => none) [(recording 10).path] [(recording 10).path]

/-- The uploader waits until the recorder is done. -/
theorem rebuild_not_sent :
    Along step PrunesNothingKept restart
      (List.replicate 19 .effect ++ [.pop, .send, .serve, .pop, .send, .serve, .pop, .send, .serve,
        .pop, .send, .serve]) := by
  refine prunesNothingKept_of_sendsNoRebuild (named_of_generated fun item hitem => ?_)
    (by decide +kernel)
  simp only [List.mem_cons, List.not_mem_nil, or_false] at hitem
  rcases hitem with rfl | rfl | rfl
  · exact generated_recording 0
  · exact generated_recording 5
  · exact generated_recording 10

/-- The recorder prunes two segments.  It queues the playlist for the first and
has just begun to write it anew for the second when the playlist is sent: the
server removes the segment that is left. -/
theorem rebuild_sent :
    ¬ Along step PrunesNothingKept restart
      (List.replicate 15 .effect ++ [.pop, .send, .serve, .pop, .send, .serve]) := by
  decide +kernel

end UploadPrune

end IpcMini
