/-
Uploads of a playlist that is being rewritten (`src/record/hls_playlist.cpp`,
`src/record/http_segment_uploader.cpp`).

`HlsPlaylist::rewrite` opens the file with truncation, writes the text and
closes it, on the recorder's writer thread; `put_once` opens the same file on
the uploader's thread, measures it, announces that length and sends what it
reads until the end of the file.

* `step` — the steps of the two threads, over names and inodes;
* `Exact` — an upload that has sent everything has sent the announced number
  of bytes, the text of one rewrite;
* **`exact_of_undisturbed`** — so it is when no rewrite has the file open while
  it is measured, and none opens it from then to the end of the file;
* **`rewrite_during_put`** — an announced list of which nothing is sent.
-/
import IpcMini.HlsPlaylist
import IpcMini.Inodes
import IpcMini.Run

namespace IpcMini

open Interleaving Inodes

namespace PlaylistPut

/-- The bytes that `rewrite` writes. -/
def bytes (playlist : HlsPlaylist) : List UInt8 := playlist.text.flatMap String.utf8EncodeChar

/-- A rewrite that has the file open. -/
structure Rewrite where
  ino : ℕ
  text : List UInt8
  written : ℕ
  deriving DecidableEq, Repr

/-- A call of `put_once` that has the file open. -/
structure Put where
  ino : ℕ
  /-- the announced content length, once the file is measured -/
  size : Option ℕ
  /-- the bytes read and sent -/
  body : List UInt8
  deriving DecidableEq, Repr

structure State where
  files : Files File UInt8
  rewriting : Option Rewrite
  put : Option Put
  /-- the texts of the rewrites that are closed -/
  produced : List (List UInt8)

/-- One step of the recorder (up to `remove`) or of the uploader. -/
inductive Label
  /-- `fopen` of a rewrite -/
  | rewrite (playlist : HlsPlaylist) (opened : Bool)
  /-- the next bytes reach the file -/
  | write (count : ℕ)
  | close
  /-- `prune_retained` removes the playlist of a day -/
  | remove (path : File)
  /-- the `ifstream` of `put_once` -/
  | open (path : File)
  | measure
  /-- bytes are read and sent -/
  | send (count : ℕ)
  /-- the end of the file is read, everything is sent -/
  | eof
  /-- `put_once` gives up: no connection, or a send fails -/
  | fail
  deriving Repr

def step (s : State) : Label → Option State
  | .rewrite playlist opened =>
    match s.rewriting, playlist.path with
    | none, some path =>
      if opened then
        let (ino, files) := s.files.create path
        some { s with files := files, rewriting := some ⟨ino, bytes playlist, 0⟩ }
      else some s
    | none, none => some s
    | some _, _ => none
  | .write count =>
    match s.rewriting with
    | some ⟨ino, text, written⟩ =>
      if 0 < count ∧ written + count ≤ text.length then
        some { s with
          files := s.files.write ino written ((text.drop written).take count)
          rewriting := some ⟨ino, text, written + count⟩ }
      else none
    | none => none
  | .close =>
    match s.rewriting with
    | some ⟨_, text, written⟩ =>
      if written = text.length then
        some { s with rewriting := none, produced := s.produced ++ [text] }
      else none
    | none => none
  | .remove path => some { s with files := s.files.unlink path }
  | .open path =>
    if s.put.isSome then none
    else some { s with put := (s.files.names path).map fun ino => ⟨ino, none, []⟩ }
  | .measure =>
    match s.put with
    | some ⟨ino, none, body⟩ =>
      some { s with put := some ⟨ino, some (s.files.content ino).length, body⟩ }
    | _ => none
  | .send count =>
    match s.put with
    | some ⟨ino, some size, body⟩ =>
      let chunk := s.files.read ino body.length count
      if chunk = [] then none else some { s with put := some ⟨ino, some size, body ++ chunk⟩ }
    | _ => none
  | .eof =>
    match s.put with
    | some ⟨ino, some _, body⟩ =>
      if (s.files.content ino).length ≤ body.length then some { s with put := none } else none
    | _ => none
  | .fail => if s.put.isSome then some { s with put := none } else none

/-- An upload that has sent everything has sent what it announced, and the text
of a rewrite. -/
def Exact (s : State) : Label → Prop
  | .eof => ∀ put size, s.put = some put → put.size = some size → (step s .eof).isSome →
    put.body.length = size ∧ put.body ∈ s.produced
  | _ => True

/-- No rewrite has the file open when it is measured, and none opens it before
the upload is over. -/
def Undisturbed (s : State) : Label → Prop
  | .measure => ∀ put ∈ s.put, ∀ rewriting ∈ s.rewriting, rewriting.ino ≠ put.ino
  | .rewrite playlist opened => opened = true → ∀ put ∈ s.put, put.size.isSome →
    ∀ path ∈ playlist.path, s.files.names path ≠ some put.ino
  | _ => True

instance (s : State) (i : Label) : Decidable (Undisturbed s i) := by
  cases i <;> unfold Undisturbed <;> infer_instance

/-- The files at the start are complete, and nobody has one open. -/
structure Start (s : State) : Prop where
  rewriting : s.rewriting = none
  put : s.put = none
  complete : ∀ ino < s.files.inodes.length, s.files.content ino ∈ s.produced

/-! ### The invariant -/

structure Inv (s : State) : Prop where
  /-- the file of a rewrite holds what is written of its text -/
  rewriting : ∀ w, s.rewriting = some w → w.ino < s.files.inodes.length ∧
    w.written ≤ w.text.length ∧ s.files.content w.ino = w.text.take w.written
  complete : ∀ ino < s.files.inodes.length, (∀ w, s.rewriting = some w → w.ino ≠ ino) →
    s.files.content ino ∈ s.produced
  put : ∀ put, s.put = some put → put.ino < s.files.inodes.length
  unmeasured : ∀ put, s.put = some put → put.size = none → put.body = []
  /-- a measured file stays as it is, and what is sent is its beginning -/
  measured : ∀ put size, s.put = some put → put.size = some size →
    (∀ w, s.rewriting = some w → w.ino ≠ put.ino) ∧ size = (s.files.content put.ino).length ∧
      put.body <+: s.files.content put.ino

theorem inv_start {s : State} (h : Start s) : Inv s where
  rewriting := fun w hw => absurd (h.rewriting.symm.trans hw) (by simp)
  complete := fun ino hino _ => h.complete ino hino
  put := fun put hp => absurd (h.put.symm.trans hp) (by simp)
  unmeasured := fun put hp => absurd (h.put.symm.trans hp) (by simp)
  measured := fun put size hp => absurd (h.put.symm.trans hp) (by simp)

theorem exact_of_inv {s : State} {i : Label} (h : Inv s) : Exact s i := by
  cases i with
  | eof =>
    intro put size hput hsize hdone
    obtain ⟨hno, hlen, hbody⟩ := h.measured put size hput hsize
    have hend : (s.files.content put.ino).length ≤ put.body.length := by
      obtain ⟨ino, size', body⟩ := put
      obtain rfl : size' = some size := hsize
      simp only [step, hput] at hdone
      by_contra hlt
      rw [if_neg hlt] at hdone
      exact absurd hdone (by simp)
    have heq : put.body = s.files.content put.ino := hbody.eq_of_length_le hend
    exact ⟨heq ▸ hlen.symm, heq ▸ h.complete put.ino (h.put put hput) hno⟩
  | _ => trivial

theorem inv_rewrite {s : State} (h : Inv s) (hfree : s.rewriting = none) {path : File}
    {text : List UInt8}
    (hput : ∀ put ∈ s.put, put.size.isSome → s.files.names path ≠ some put.ino) :
    Inv { s with
      files := (s.files.create path).2
      rewriting := some ⟨(s.files.create path).1, text, 0⟩ } where
  rewriting := by
    intro w hw
    obtain rfl := Option.some_inj.mp hw
    exact ⟨Files.create_lt _ _, Nat.zero_le _, by simp [Files.content_create_self]⟩
  complete := by
    intro ino hino hno
    have hne : ino ≠ (s.files.create path).1 := fun he => hno _ rfl he.symm
    rw [Files.content_create_of_ne _ _ hne]
    exact h.complete ino (Files.lt_of_lt_create _ _ hino hne)
      fun w hw => absurd (hfree.symm.trans hw) (by simp)
  put := fun put hp => (h.put put hp).trans_le (Files.length_create_le _ _)
  unmeasured := h.unmeasured
  measured := by
    intro put size hp hsize
    obtain ⟨-, hlen, hbody⟩ := h.measured put size hp hsize
    -- the upload has another inode open
    have hne : put.ino ≠ (s.files.create path).1 := by
      intro he
      rcases s.files.create_eq path with hname | hnew
      · exact hput put hp (by simp [hsize]) (hname.trans (congrArg some he.symm))
      · exact (h.put put hp).ne (he.trans hnew)
    refine ⟨fun w hw => ?_, ?_, ?_⟩
    · obtain rfl := Option.some_inj.mp hw
      exact hne.symm
    · rw [Files.content_create_of_ne _ _ hne, hlen]
    · rw [Files.content_create_of_ne _ _ hne]
      exact hbody

theorem inv_write {s : State} (h : Inv s) {ino written count : ℕ} {text : List UInt8}
    (hw : s.rewriting = some ⟨ino, text, written⟩) (hcount : written + count ≤ text.length) :
    Inv { s with
      files := s.files.write ino written ((text.drop written).take count)
      rewriting := some ⟨ino, text, written + count⟩ } := by
  obtain ⟨hlt, hle, hcontent⟩ := h.rewriting _ hw
  have hend : written = (s.files.content ino).length := by
    rw [hcontent, List.length_take, Nat.min_eq_left hle]
  refine ⟨fun w hw' => ?_, fun ino' hino hno => ?_, fun put hp => ?_, h.unmeasured,
    fun put size hp hsize => ?_⟩
  · obtain rfl := Option.some_inj.mp hw'
    refine ⟨by simpa using hlt, hcount, ?_⟩
    rw [hend, Files.content_write_end _ hlt, ← hend, hcontent, List.take_add]
  · have hne : ino' ≠ ino := fun he => hno _ rfl he.symm
    rw [Files.content_write_of_ne _ hne]
    refine h.complete ino' (by simpa using hino) fun w hw' => ?_
    obtain rfl := Option.some_inj.mp (hw.symm.trans hw')
    exact hne.symm
  · exact (h.put put hp).trans_le (by simp)
  · obtain ⟨hno, hlen, hbody⟩ := h.measured put size hp hsize
    have hne : put.ino ≠ ino := (hno _ hw).symm
    refine ⟨fun w hw' => ?_, ?_, ?_⟩
    · obtain rfl := Option.some_inj.mp hw'
      exact hne.symm
    · rw [Files.content_write_of_ne _ hne, hlen]
    · rw [Files.content_write_of_ne _ hne]
      exact hbody

theorem inv_close {s : State} (h : Inv s) {ino : ℕ} {text : List UInt8}
    (hw : s.rewriting = some ⟨ino, text, text.length⟩) :
    Inv { s with rewriting := none, produced := s.produced ++ [text] } := by
  obtain ⟨-, -, hcontent⟩ := h.rewriting _ hw
  refine ⟨fun w hw' => absurd hw' (by simp), fun ino' hino _ => ?_, h.put, h.unmeasured,
    fun put size hp hsize => ?_⟩
  · rw [List.mem_append]
    by_cases he : ino = ino'
    · right
      rw [← he, hcontent, List.take_length]
      exact List.mem_singleton_self _
    · left
      refine h.complete ino' hino fun w hw' => ?_
      obtain rfl := Option.some_inj.mp (hw.symm.trans hw')
      exact he
  · obtain ⟨-, hlen, hbody⟩ := h.measured put size hp hsize
    exact ⟨fun w hw' => absurd hw' (by simp), hlen, hbody⟩

theorem inv_step {s t : State} {i : Label} (h : Inv s) (hi : Undisturbed s i)
    (hstep : step s i = some t) : Inv t := by
  cases i with
  | rewrite playlist opened =>
    simp only [step] at hstep
    split at hstep
    case h_1 path hfree hpath =>
      split_ifs at hstep with hopened
      · obtain rfl := Option.some_inj.mp hstep
        -- only a rewrite that opens the file could disturb a measured PUT
        exact inv_rewrite h hfree fun put hp hsize => hi hopened put hp hsize path hpath
      · exact Option.some_inj.mp hstep ▸ h
    case h_2 => exact Option.some_inj.mp hstep ▸ h
    case h_3 => exact absurd hstep (by simp)
  | write count =>
    simp only [step] at hstep
    split at hstep
    case h_2 => exact absurd hstep (by simp)
    case h_1 ino text written hw =>
      obtain ⟨⟨-, hcount⟩, hstep⟩ := Option.ite_none_right_eq_some.mp hstep
      exact Option.some_inj.mp hstep ▸ inv_write h hw hcount
  | close =>
    simp only [step] at hstep
    split at hstep
    case h_2 => exact absurd hstep (by simp)
    case h_1 ino text written hw =>
      obtain ⟨hend, hstep⟩ := Option.ite_none_right_eq_some.mp hstep
      exact Option.some_inj.mp hstep ▸ inv_close h (hend ▸ hw)
  | remove path =>
    obtain rfl := Option.some_inj.mp hstep
    exact ⟨h.rewriting, h.complete, h.put, h.unmeasured, h.measured⟩
  | «open» path =>
    obtain ⟨-, hstep⟩ := Option.ite_none_left_eq_some.mp hstep
    obtain rfl := Option.some_inj.mp hstep
    refine ⟨h.rewriting, h.complete, fun put hp => ?_, fun put hp _ => ?_,
      fun put size hp hsize => ?_⟩
    · obtain ⟨ino, hname, rfl⟩ := Option.map_eq_some_iff.mp hp
      exact s.files.valid path ino hname
    · obtain ⟨ino, -, rfl⟩ := Option.map_eq_some_iff.mp hp
      rfl
    · obtain ⟨ino, -, rfl⟩ := Option.map_eq_some_iff.mp hp
      exact absurd hsize (by simp)
  | measure =>
    simp only [step] at hstep
    split at hstep
    case h_2 => exact absurd hstep (by simp)
    case h_1 ino body hput =>
      have hlt := h.put _ hput
      obtain rfl := Option.some_inj.mp hstep
      refine ⟨h.rewriting, h.complete, fun put hp => ?_, fun put hp hsize => ?_,
        fun put size hp hsize => ?_⟩
      · obtain rfl := Option.some_inj.mp hp
        exact hlt
      · obtain rfl := Option.some_inj.mp hp
        exact absurd hsize (by simp)
      · obtain rfl := Option.some_inj.mp hp
        have hnil : body = [] := h.unmeasured _ hput rfl
        -- nobody is writing the file when its size is taken
        exact ⟨fun w hw => hi _ hput w hw, (Option.some_inj.mp hsize).symm, hnil ▸ List.nil_prefix⟩
  | send count =>
    simp only [step] at hstep
    split at hstep
    case h_2 => exact absurd hstep (by simp)
    case h_1 ino size body hput =>
      obtain ⟨-, hstep⟩ := Option.ite_none_left_eq_some.mp hstep
      have hlt := h.put _ hput
      obtain rfl := Option.some_inj.mp hstep
      refine ⟨h.rewriting, h.complete, fun put hp => ?_, fun put hp hsize => ?_,
        fun put size' hp hsize => ?_⟩
      · obtain rfl := Option.some_inj.mp hp
        exact hlt
      · obtain rfl := Option.some_inj.mp hp
        exact absurd hsize (by simp)
      · obtain rfl := Option.some_inj.mp hp
        -- nor while it is read, so the next piece goes on where the last one ended
        obtain ⟨hno, hlen, hbody⟩ := h.measured _ size' hput hsize
        refine ⟨hno, hlen, ?_⟩
        simpa using Files.prefix_read 0 (by simpa using hbody) count
  | eof =>
    simp only [step] at hstep
    split at hstep
    case h_2 => exact absurd hstep (by simp)
    case h_1 =>
      obtain ⟨-, hstep⟩ := Option.ite_none_right_eq_some.mp hstep
      obtain rfl := Option.some_inj.mp hstep
      exact ⟨h.rewriting, h.complete, by simp, by simp, by simp⟩
  | fail =>
    obtain ⟨-, hstep⟩ := Option.ite_none_right_eq_some.mp hstep
    obtain rfl := Option.some_inj.mp hstep
    exact ⟨h.rewriting, h.complete, by simp, by simp, by simp⟩

/-- **An undisturbed upload is exact.** -/
theorem exact_of_undisturbed {s : State} (hs : Start s) {is : List Label}
    (h : Along step Undisturbed s is) : Along step Exact s is :=
  along_imp (fun _ _ _ hs hi => inv_step hs hi) (fun _ _ hs _ => exact_of_inv hs)
    (inv_start hs) h

/-- No files. -/
def init : State := ⟨.empty, none, none, []⟩

theorem start_init : Start init := ⟨rfl, rfl, fun _ h => absurd h (Nat.not_lt_zero _)⟩

/-- The playlist of a new session. -/
def fresh : HlsPlaylist := .begin (.index "2024-01-01") 300

theorem upload_exact :
    Along step Exact init [.rewrite fresh true, .write (bytes fresh).length, .close,
      .open (.index "2024-01-01"), .measure, .send 8192, .eof] :=
  exact_of_undisturbed start_init (by decide +kernel)

/-- The list is measured, then the recorder opens it for the next version. -/
def measuredThenTruncated : List Label :=
  [.rewrite fresh true, .write (bytes fresh).length, .close, .open (.index "2024-01-01"), .measure,
    .rewrite fresh true]

/-- **A rewrite during an upload truncates what is announced**: nothing is sent
of the list. -/
theorem rewrite_during_put :
    (run step init (measuredThenTruncated ++ [.eof])).isSome ∧
      ¬ Along step Exact init (measuredThenTruncated ++ [.eof]) := by
  refine ⟨by decide +kernel, fun h => ?_⟩
  obtain ⟨s, hs⟩ : ∃ s, run step init measuredThenTruncated = some s :=
    Option.isSome_iff_exists.mp (by decide +kernel)
  obtain ⟨t, ht⟩ : ∃ t, run step init (measuredThenTruncated ++ [.eof]) = some t :=
    Option.isSome_iff_exists.mp (by decide +kernel)
  have hput : (run step init measuredThenTruncated).map State.put =
      some (some ⟨0, some (bytes fresh).length, []⟩) := by decide +kernel
  rw [hs, Option.map_some] at hput
  have hexact : Exact s .eof := ((along_append.mp h).2 s hs).1
  have hsent := hexact _ _ (Option.some_inj.mp hput) rfl (by rw [← run_concat hs, ht]; rfl)
  exact absurd hsent.1 (by decide +kernel)

end PlaylistPut

end IpcMini
