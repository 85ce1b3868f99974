/-
Overlapping uploads of one object (`cloud/signaling/record_http.js`).

A PUT streams its body into a temporary file beside the object and renames it
when the body is complete; a PUT that fails unlinks the temporary file.  All
PUTs of a key share that file.  The steps of any number of PUT and GET requests
of one key interleave over names, inodes and open files.

* `step` — a request arrives, opens, receives, writes, ends, renames, unlinks;
* `Sound` — the object is one upload's whole body or absent, changes only as a
  whole, and is the body of an upload that is answered 201;
* **`sound_of_alone`** — so it is when a PUT opens the temporary file while no
  other PUT has it open or is about to rename it;
* `served_of_alone` — then a GET sends bytes of one upload only;
* **`overlapping_put`** — two PUTs that have it open at the same time.
-/
import IpcMini.Inodes
import IpcMini.RecordHttp
import IpcMini.Run

namespace IpcMini

open Interleaving Inodes

namespace RecordPut

/-- The names of an object: `dest` and `tmp`. -/
inductive Name
  | dest
  | tmp
  deriving DecidableEq, Repr

/-- The place of a PUT in the handler. -/
inductive Phase
  /-- the write stream is made, the file not yet opened -/
  | opening
  /-- the body is piped into the file -/
  | receiving
  /-- the body is complete, `rename` is called -/
  | committing
  /-- failed with 500, with calls of `unlink` to come -/
  | failed (unlinks : ℕ)
  /-- renamed and answered 201 -/
  | created
  deriving DecidableEq, Repr

structure Put where
  /-- the announced content length -/
  length : ℕ
  /-- the part of the body that has arrived -/
  received : List UInt8
  /-- how much of it is written, and so the offset of the open file -/
  written : ℕ
  /-- the inode that is open -/
  out : Option ℕ
  phase : Phase
  deriving DecidableEq, Repr

structure Get where
  /-- the first byte that is sent, and the last one if the request names it -/
  first : ℕ
  last : Option ℕ
  /-- the inode that the read stream has open -/
  stream : Option ℕ
  /-- the bytes sent -/
  sent : List UInt8
  deriving DecidableEq, Repr

structure State where
  files : Files Name UInt8
  puts : List Put
  gets : List Get

/-- One step of the server; `n` is the `n`-th PUT or GET. -/
inductive Label
  /-- a PUT passes the checks of the handler -/
  | put (length : ℕ)
  | open (n : ℕ)
  /-- a chunk of the body arrives -/
  | data (n : ℕ) (chunk : List UInt8)
  /-- the next bytes of the body are written -/
  | write (n count : ℕ)
  /-- the body has ended and is written, the file is closed -/
  | finish (n : ℕ)
  /-- the client goes away, or the file cannot be opened or written -/
  | abort (n : ℕ)
  | rename (n : ℕ) (ok : Bool)
  | unlink (n : ℕ)
  /-- a GET calls `stat`, which answers the size of the object -/
  | get (first : ℕ) (last : Option ℕ)
  | openRead (n : ℕ)
  | read (n count : ℕ)
  deriving Repr

def init : State := ⟨.empty, [], []⟩

/-- The object that is visible under the key. -/
def State.visible (s : State) : Option (List UInt8) := s.files.lookup .dest

/-- The PUT has the temporary file open or waits for its rename. -/
def Put.active (put : Put) : Bool :=
  match put.phase with
  | .receiving | .committing => true
  | _ => false

/-- The step of a PUT, with the file system it leaves. -/
def stepPut (files : Files Name UInt8) (put : Put) : Label → Option (Files Name UInt8 × Put)
  | .open _ =>
    if put.phase = .opening then
      let (ino, files) := files.create .tmp
      some (files, { put with out := some ino, phase := .receiving })
    else none
  | .data _ chunk =>
    if put.phase = .opening ∨ put.phase = .receiving then
      let received := put.received ++ chunk
      if received.length > RecordHttp.maxPutBytes then
        -- unlinked here and by the callback of the pipeline
        some (files, { put with received := received, phase := .failed 2 })
      else some (files, { put with received := received })
    else none
  | .write _ count =>
    match put.out with
    | some ino =>
      if put.phase = .receiving ∧ 0 < count ∧ put.written + count ≤ put.received.length then
        some (files.write ino put.written ((put.received.drop put.written).take count),
          { put with written := put.written + count })
      else none
    | none => none
  | .finish _ =>
    if put.phase = .receiving ∧ put.written = put.received.length then
      if put.received.length ≠ put.length then some (files, { put with phase := .failed 1 })
      else some (files, { put with phase := .committing })
    else none
  | .abort _ =>
    if put.phase = .opening ∨ put.phase = .receiving then
      some (files, { put with phase := .failed 1 })
    else none
  | .rename _ ok =>
    if put.phase = .committing then
      match files.rename .tmp .dest, ok with
      | some files, true => some (files, { put with phase := .created })
      | _, _ => some (files, { put with phase := .failed 0 })
    else none
  | .unlink _ =>
    match put.phase with
    | .failed (unlinks + 1) => some (files.unlink .tmp, { put with phase := .failed unlinks })
    | _ => none
  | _ => none

/-- The PUT that a step belongs to. -/
def Label.ofPut : Label → Option ℕ
  | .open n | .data n _ | .write n _ | .finish n | .abort n | .rename n _ | .unlink n => some n
  | _ => none

def step (s : State) (i : Label) : Option State :=
  match i with
  | .put length =>
    if 0 < length ∧ length ≤ RecordHttp.maxPutBytes then
      some { s with puts := s.puts ++ [⟨length, [], 0, none, .opening⟩] }
    else none
  | .get first last =>
    match s.visible with
    | some body =>
      -- a range that is not satisfiable is answered 416
      if ∀ k ∈ last, first ≤ k ∧ k < body.length then
        some { s with gets := s.gets ++ [⟨first, last, none, []⟩] }
      else some s
    | none => some s
  | .openRead n =>
    match s.gets[n]? with
    | some get =>
      if get.stream = none then
        some { s with gets := s.gets.set n { get with stream := s.files.names .dest } }
      else none
    | none => none
  | .read n count =>
    match s.gets[n]? with
    | some ⟨first, last, some ino, sent⟩ =>
      let offset := first + sent.length
      let count := last.elim count fun last => min count (last + 1 - offset)
      let sent := sent ++ s.files.read ino offset count
      some { s with gets := s.gets.set n ⟨first, last, some ino, sent⟩ }
    | _ => none
  | i =>
    i.ofPut.bind fun n => s.puts[n]?.bind fun put =>
      (stepPut s.files put i).map fun (files, put) =>
        { files := files, puts := s.puts.set n put, gets := s.gets }

/-! ### The object under the key -/

/-- The `n`-th PUT was answered 201, and its file was this inode. -/
def Stored (s : State) (n ino : ℕ) : Prop :=
  ∃ put, s.puts[n]? = some put ∧ put.phase = .created ∧ put.out = some ino

/-- The whole body of the `n`-th PUT. -/
def Body (s : State) (n : ℕ) (body : List UInt8) : Prop :=
  ∃ put, s.puts[n]? = some put ∧ put.received = body ∧ body.length = put.length

/-- The object is absent or the whole body of exactly one PUT. -/
def Whole (s : State) : Prop :=
  ∀ ino, s.files.names .dest = some ino →
    ∃ n, Stored s n ino ∧ Body s n (s.files.content ino) ∧ ∀ m, Stored s m ino → m = n

/-- After the step the object is whole; unless it was replaced no byte of it
has changed; and a PUT that is answered 201 has made its body the object. -/
def Sound (s : State) (i : Label) : Prop :=
  ∀ t, step s i = some t →
    Whole t ∧ (t.files.names .dest = s.files.names .dest → t.visible = s.visible) ∧
      ∀ n ok put, i = .rename n ok → t.puts[n]? = some put → put.phase = .created →
        t.visible = some put.received ∧ Body t n put.received

/-- A PUT opens the temporary file when no other PUT has it open or is about to
rename it. -/
def Alone (s : State) : Label → Prop
  | .open _ => ∀ put ∈ s.puts, put.active = false
  | _ => True

instance (s : State) (i : Label) : Decidable (Alone s i) := by
  cases i <;> unfold Alone <;> infer_instance

/-! ### The invariant -/

/-- The PUT writes, or has written, this inode. -/
def Put.Holds (put : Put) (ino : ℕ) : Prop :=
  put.out = some ino ∧ (put.active = true ∨ put.phase = .created)

/-- The file of a PUT holds what is written of its body, and no other name than
that of the temporary file until it is renamed. -/
structure Good (files : Files Name UInt8) (put : Put) : Prop where
  opening : put.phase = .opening → put.written = 0
  written : put.active = true → put.written ≤ put.received.length
  active : put.active = true → ∃ ino, put.out = some ino ∧ ino < files.inodes.length ∧
    files.content ino = put.received.take put.written ∧
    (files.names .tmp = none ∨ files.names .tmp = some ino) ∧ files.names .dest ≠ some ino
  committing : put.phase = .committing →
    put.written = put.received.length ∧ put.received.length = put.length
  created : put.phase = .created → put.received.length = put.length ∧
    ∃ ino, put.out = some ino ∧ ino < files.inodes.length ∧ files.content ino = put.received ∧
      files.names .tmp ≠ some ino

/-- At most one of two PUTs is active, and no inode is written by both. -/
def Apart (p q : Put) : Prop :=
  ¬ (p.active = true ∧ q.active = true) ∧ ∀ ino, ¬ (p.Holds ino ∧ q.Holds ino)

structure Inv (s : State) : Prop where
  good : ∀ (n : ℕ) put, s.puts[n]? = some put → Good s.files put
  apart : ∀ (m n : ℕ) p q, m ≠ n → s.puts[m]? = some p → s.puts[n]? = some q → Apart p q
  object : ∀ ino, s.files.names .dest = some ino → ∃ n, Stored s n ino

theorem inv_init : Inv init :=
  ⟨fun _ _ h => absurd h (by simp [init]), fun _ _ _ _ _ h => absurd h (by simp [init]),
    fun _ h => absurd h (by simp [init, Files.empty])⟩

theorem Apart.symm {p q : Put} (h : Apart p q) : Apart q p :=
  ⟨fun ha => h.1 ha.symm, fun ino hi => h.2 ino hi.symm⟩

theorem Apart.idle {p q : Put} (h : Apart p q) (hp : p.active = true) : q.active = false :=
  Bool.of_not_eq_true fun hq => h.1 ⟨hp, hq⟩

/-- A PUT that is no more active than before, over the same file, stays apart. -/
theorem Apart.mono {p p' q : Put} (h : Apart p q) (ha : p'.active = true → p.active = true)
    (hh : ∀ ino, p'.Holds ino → p.Holds ino) : Apart p' q :=
  ⟨fun hpq => h.1 ⟨ha hpq.1, hpq.2⟩, fun ino hpq => h.2 ino ⟨hh ino hpq.1, hpq.2⟩⟩

theorem created_of_holds {q : Put} (hq : q.active = false) {ino : ℕ} (h : q.Holds ino) :
    q.phase = .created := by
  rcases h.2 with ha | hc
  · exact absurd (ha.symm.trans hq) (by simp)
  · exact hc

/-- A PUT that is not active only needs its finished file. -/
theorem Good.idle {files files' : Files Name UInt8} {q : Put} (h : Good files q)
    (hq : q.active = false) (hlen : files.inodes.length ≤ files'.inodes.length)
    (hcontent : ∀ ino, q.Holds ino → files'.content ino = files.content ino)
    (htmp : ∀ ino, q.Holds ino → files'.names .tmp ≠ some ino) : Good files' q where
  opening := h.opening
  written := h.written
  active := fun ha => absurd (ha.symm.trans hq) (by simp)
  committing := h.committing
  created := by
    intro hc
    obtain ⟨hlength, ino, hout, hlt, hbody, -⟩ := h.created hc
    have hholds : q.Holds ino := ⟨hout, .inr hc⟩
    exact ⟨hlength, ino, hout, hlt.trans_le hlen, (hcontent ino hholds).trans hbody,
      htmp ino hholds⟩

/-- The temporary file may always be unlinked. -/
theorem Good.unlink {files : Files Name UInt8} {q : Put} (h : Good files q) :
    Good (files.unlink .tmp) q where
  opening := h.opening
  written := h.written
  active := by
    intro ha
    obtain ⟨ino, hout, hlt, hbody, -, hdest⟩ := h.active ha
    refine ⟨ino, hout, hlt, hbody, .inl (Files.names_unlink_self _ _), ?_⟩
    rwa [Files.names_unlink_of_ne _ (by decide)]
  committing := h.committing
  created := by
    intro hc
    obtain ⟨hlength, ino, hout, hlt, hbody, -⟩ := h.created hc
    exact ⟨hlength, ino, hout, hlt, hbody, by simp⟩

/-- Nothing is asked of the file of a PUT that has failed. -/
theorem Good.failed {files : Files Name UInt8} {put : Put} {unlinks : ℕ}
    (h : put.phase = .failed unlinks) : Good files put where
  opening := fun hp => absurd (h.symm.trans hp) (by simp)
  written := fun ha => absurd ha (by simp [Put.active, h])
  active := fun ha => absurd ha (by simp [Put.active, h])
  committing := fun hp => absurd (h.symm.trans hp) (by simp)
  created := fun hp => absurd (h.symm.trans hp) (by simp)

theorem Apart.failed {p q : Put} {unlinks : ℕ} (h : p.phase = .failed unlinks) : Apart p q :=
  ⟨fun ha => absurd ha.1 (by simp [Put.active, h]), fun ino hh => by
    rcases hh.1.2 with ha | hc
    · exact absurd ha (by simp [Put.active, h])
    · exact absurd (h.symm.trans hc) (by simp)⟩

/-! ### One PUT moves -/

theorem getElem?_set_cases {puts : List Put} {n m : ℕ} {put' q : Put}
    (h : (puts.set n put')[m]? = some q) : (m = n ∧ q = put') ∨ (m ≠ n ∧ puts[m]? = some q) := by
  by_cases hm : m = n
  · subst hm
    rw [List.getElem?_set_self'] at h
    obtain ⟨-, -, rfl⟩ := Option.map_eq_some_iff.mp h
    exact .inl ⟨rfl, rfl⟩
  · rw [List.getElem?_set_ne (Ne.symm hm)] at h
    exact .inr ⟨hm, h⟩

section Move

variable {s : State} {n : ℕ} {put put' : Put} {files' : Files Name UInt8}

theorem inv_move (h : Inv s) (hn : s.puts[n]? = some put) (hnew : put.phase ≠ .created)
    (hself : Good files' put')
    (hother : ∀ (m : ℕ) q, m ≠ n → s.puts[m]? = some q → Good files' q)
    (hapart : ∀ (m : ℕ) q, m ≠ n → s.puts[m]? = some q → Apart put' q)
    (hobject : ∀ ino, files'.names .dest = some ino →
      s.files.names .dest = some ino ∨ (put'.phase = .created ∧ put'.out = some ino)) :
    Inv ⟨files', s.puts.set n put', s.gets⟩ where
  good := by
    intro m q hq
    rcases getElem?_set_cases hq with ⟨-, rfl⟩ | ⟨hm, hq⟩
    · exact hself
    · exact hother m q hm hq
  apart := by
    intro m k p q hmk hp hq
    rcases getElem?_set_cases hp with ⟨hm, hp'⟩ | ⟨hm, hp'⟩
    · rcases getElem?_set_cases hq with ⟨hk, -⟩ | ⟨hk, hq'⟩
      · exact absurd (hm.trans hk.symm) hmk
      · exact hp' ▸ hapart k q hk hq'
    · rcases getElem?_set_cases hq with ⟨-, hq'⟩ | ⟨-, hq'⟩
      · exact hq' ▸ (hapart m p hm hp').symm
      · exact h.apart m k p q hmk hp' hq'
  object := by
    intro ino hino
    rcases hobject ino hino with hold | ⟨hcreated, hout⟩
    · obtain ⟨m, q, hq, hcreated, hout⟩ := h.object ino hold
      have hm : m ≠ n := by
        rintro rfl
        exact hnew (Option.some_inj.mp (hn.symm.trans hq) ▸ hcreated)
      exact ⟨m, q, (List.getElem?_set_ne hm.symm).trans hq, hcreated, hout⟩
    · have hlt : n < s.puts.length := (List.getElem?_eq_some_iff.mp hn).1
      exact ⟨n, put', List.getElem?_set_self hlt, hcreated, hout⟩

/-- The step leaves the files alone. -/
theorem inv_same_files (h : Inv s) (hn : s.puts[n]? = some put) (hnew : put.phase ≠ .created)
    (hself : Good s.files put')
    (hapart : ∀ q, Apart put q → Apart put' q) :
    Inv ⟨s.files, s.puts.set n put', s.gets⟩ :=
  inv_move h hn hnew hself (fun m q _ hq => h.good m q hq)
    (fun m q hm hq => hapart q (h.apart n m put q hm.symm hn hq)) fun _ => .inl

/-- A PUT opens the temporary file while no other one is active. -/
theorem inv_open (h : Inv s) (hn : s.puts[n]? = some put) (hopening : put.phase = .opening)
    (halone : ∀ q ∈ s.puts, q.active = false) :
    Inv ⟨(s.files.create .tmp).2,
        s.puts.set n { put with out := some (s.files.create .tmp).1, phase := .receiving },
        s.gets⟩ ∧
      ∀ m ino, Stored s m ino → (s.files.create .tmp).2.content ino = s.files.content ino := by
  -- the inode that is opened is none that a PUT has made the object
  have hfresh : ∀ (m : ℕ) q ino, s.puts[m]? = some q → q.phase = .created → q.out = some ino →
      ino ≠ (s.files.create .tmp).1 := by
    intro m q ino hq hcreated hout he
    obtain ⟨-, ino', hout', hlt, -, htmp⟩ := (h.good m q hq).created hcreated
    obtain rfl : ino = ino' := Option.some_inj.mp (hout.symm.trans hout')
    rcases s.files.create_eq .tmp with hname | hnew
    · exact htmp (hname.trans (congrArg some he.symm))
    · exact hlt.ne (he.trans hnew)
  have hidle : ∀ (m : ℕ) q ino, s.puts[m]? = some q → q.Holds ino →
      ino ≠ (s.files.create .tmp).1 := by
    intro m q ino hq hholds
    exact hfresh m q ino hq
      (created_of_holds (halone q (List.mem_of_getElem? hq)) hholds) hholds.1
  refine ⟨inv_move h hn (by simp [hopening]) ?_ ?_ ?_ ?_, ?_⟩
  · have hwritten := (h.good n put hn).opening hopening
    refine ⟨by simp, fun _ => by simp [hwritten],
      fun _ => ⟨_, rfl, Files.create_lt _ _, ?_, ?_, ?_⟩, by simp, by simp⟩
    · simp [Files.content_create_self, hwritten]
    · exact .inr (Files.names_create_self _ _)
    · rw [Files.names_create_of_ne _ (by decide)]
      intro hdest
      obtain ⟨m, q, hq, hcreated, hout⟩ := h.object _ hdest
      exact hfresh m q _ hq hcreated hout rfl
  · intro m q _ hq
    refine (h.good m q hq).idle (halone q (List.mem_of_getElem? hq)) (Files.length_create_le _ _)
      (fun ino hholds => Files.content_create_of_ne _ _ (hidle m q ino hq hholds)) ?_
    intro ino hholds htmp
    rw [Files.names_create_self] at htmp
    exact hidle m q ino hq hholds (Option.some_inj.mp htmp).symm
  · intro m q _ hq
    have hq' := halone q (List.mem_of_getElem? hq)
    refine ⟨fun ha => absurd (ha.2.symm.trans hq') (by simp), fun ino hh => ?_⟩
    exact hidle m q ino hq hh.2 (Option.some_inj.mp hh.1.1).symm
  · intro ino hino
    rw [Files.names_create_of_ne _ (by decide)] at hino
    exact .inl hino
  · rintro m ino ⟨q, hq, hcreated, hout⟩
    exact Files.content_create_of_ne _ _ (hfresh m q ino hq hcreated hout)

/-- A PUT writes the next bytes of its body. -/
theorem inv_write (h : Inv s) (hn : s.puts[n]? = some put) {ino count : ℕ}
    (hout : put.out = some ino) (hphase : put.phase = .receiving)
    (hcount : put.written + count ≤ put.received.length) :
    Inv ⟨s.files.write ino put.written ((put.received.drop put.written).take count),
        s.puts.set n { put with written := put.written + count }, s.gets⟩ ∧
      ∀ m ino', Stored s m ino' →
        (s.files.write ino put.written ((put.received.drop put.written).take count)).content ino' =
          s.files.content ino' := by
  have hactive : put.active = true := by simp [Put.active, hphase]
  have hg := h.good n put hn
  obtain ⟨ino', hout', hlt, hbody, htmp, hdest⟩ := hg.active hactive
  obtain rfl : ino = ino' := Option.some_inj.mp (hout.symm.trans hout')
  -- the file ends where the PUT has written up to
  have hend : put.written = (s.files.content ino).length := by
    rw [hbody, List.length_take, Nat.min_eq_left (hg.written hactive)]
  have hother : ∀ (m : ℕ) q ino', m ≠ n → s.puts[m]? = some q → q.Holds ino' → ino' ≠ ino := by
    rintro m q ino' hm hq hholds rfl
    exact (h.apart n m put q hm.symm hn hq).2 ino' ⟨⟨hout, .inl hactive⟩, hholds⟩
  refine ⟨inv_move h hn (by simp [hphase]) ?_ ?_ ?_ fun _ => .inl, ?_⟩
  · refine ⟨by simp [hphase], fun _ => hcount, fun _ => ⟨ino, hout, by simpa using hlt, ?_, htmp,
      hdest⟩, by simp [hphase], by simp [hphase]⟩
    rw [hend, Files.content_write_end _ hlt, ← hend, hbody, List.take_add]
  · intro m q hm hq
    have hq' := (h.apart n m put q hm.symm hn hq).idle hactive
    refine (h.good m q hq).idle hq' (by simp) (fun ino' hholds => ?_) fun ino' hholds => ?_
    · exact Files.content_write_of_ne _ (hother m q ino' hm hq hholds) _ _
    · obtain ⟨-, ino'', hout'', -, -, htmp''⟩ :=
        (h.good m q hq).created (created_of_holds hq' hholds)
      obtain rfl : ino' = ino'' := Option.some_inj.mp (hholds.1.symm.trans hout'')
      exact htmp''
  · intro m q hm hq
    exact (h.apart n m put q hm.symm hn hq).mono (fun _ => hactive)
      fun ino' hholds => ⟨hholds.1, .inl hactive⟩
  · rintro m ino' ⟨q, hq, hcreated, hqout⟩
    have hm : m ≠ n := by
      rintro rfl
      obtain rfl := Option.some_inj.mp (hn.symm.trans hq)
      exact absurd (hphase.symm.trans hcreated) (by simp)
    exact Files.content_write_of_ne _ (hother m q ino' hm hq ⟨hqout, .inr hcreated⟩) _ _

/-- The rename makes the whole body of its own PUT the object. -/
theorem inv_rename (h : Inv s) (hn : s.puts[n]? = some put) (hphase : put.phase = .committing)
    (hrename : s.files.rename .tmp .dest = some files') :
    Inv ⟨files', s.puts.set n { put with phase := .created }, s.gets⟩ ∧
      (∀ ino, files'.content ino = s.files.content ino) ∧
      files'.lookup .dest = some put.received ∧ put.received.length = put.length := by
  have hactive : put.active = true := by simp [Put.active, hphase]
  have hg := h.good n put hn
  obtain ⟨ino, hout, hlt, hbody, htmp, hdest⟩ := hg.active hactive
  obtain ⟨ino', hino', hinodes, hnames⟩ := Files.rename_eq_some hrename
  -- the temporary name still stands for the file that was opened
  obtain rfl : ino = ino' := by
    rcases htmp with htmp | htmp
    · exact absurd (htmp.symm.trans hino') (by simp)
    · exact Option.some_inj.mp (htmp.symm.trans hino')
  have hcontent : ∀ ino, files'.content ino = s.files.content ino := by
    intro ino
    rw [Files.content, hinodes, ← Files.content]
  have htmp' : files'.names .tmp = none := by simp [hnames, Function.update]
  have hdest' : files'.names .dest = some ino := by simp [hnames, Function.update]
  have hwhole : s.files.content ino = put.received := by
    rw [hbody, (hg.committing hphase).1, List.take_length]
  refine ⟨inv_move h hn (by simp [hphase]) ?_ ?_ ?_ ?_, hcontent, ?_, (hg.committing hphase).2⟩
  · refine ⟨by simp, by simp [Put.active], by simp [Put.active], by simp, fun _ => ?_⟩
    exact ⟨(hg.committing hphase).2, ino, hout, hinodes ▸ hlt, (hcontent ino).trans hwhole,
      by simp [htmp']⟩
  · intro m q hm hq
    have hq' := (h.apart n m put q hm.symm hn hq).idle hactive
    exact (h.good m q hq).idle hq' (hinodes ▸ Nat.le_refl _) (fun ino _ => hcontent ino)
      fun _ _ => by simp [htmp']
  · intro m q hm hq
    exact (h.apart n m put q hm.symm hn hq).mono (fun _ => hactive)
      fun ino' hholds => ⟨hholds.1, .inl hactive⟩
  · intro i hi
    exact .inr ⟨rfl, hout.trans (hdest'.symm.trans hi)⟩
  · rw [Files.lookup, hdest', Option.map_some, hcontent, hwhole]

end Move

/-! ### Every step -/

/-- What the step of a PUT keeps. -/
theorem inv_stepPut {s : State} (h : Inv s) {n : ℕ} {put : Put} (hn : s.puts[n]? = some put)
    {i : Label} (hi : i.ofPut = some n) (halone : Alone s i) {files' : Files Name UInt8}
    {put' : Put} (hstep : stepPut s.files put i = some (files', put')) :
    Inv ⟨files', s.puts.set n put', s.gets⟩ ∧
      (∀ m ino, Stored s m ino → files'.content ino = s.files.content ino) ∧
      (put'.phase = .created → files'.lookup .dest = some put'.received ∧
        put'.received.length = put'.length) := by
  cases i with
  | «open» k =>
    obtain ⟨hphase, hstep⟩ := Option.ite_none_right_eq_some.mp hstep
    obtain ⟨rfl, rfl⟩ := Prod.mk.inj (Option.some_inj.mp hstep)
    obtain ⟨hinv, hsame⟩ := inv_open h hn hphase halone
    exact ⟨hinv, hsame, by simp⟩
  | data k chunk =>
    obtain ⟨hphase, hstep⟩ := Option.ite_none_right_eq_some.mp hstep
    -- a PUT that takes data has not answered yet
    have hnew : put.phase ≠ .created := by rcases hphase with hp | hp <;> simp [hp]
    split_ifs at hstep
    · obtain ⟨rfl, rfl⟩ := Prod.mk.inj (Option.some_inj.mp hstep)
      exact ⟨inv_same_files h hn hnew (.failed rfl) fun q _ => .failed rfl, fun _ _ _ => rfl,
        by simp⟩
    · obtain ⟨rfl, rfl⟩ := Prod.mk.inj (Option.some_inj.mp hstep)
      have hg := h.good n put hn
      refine ⟨inv_same_files h hn hnew ⟨hg.opening, fun ha => ?_, fun ha => ?_, ?_, ?_⟩
        fun q hq => hq.mono id fun _ => id, fun _ _ _ => rfl, fun hc => absurd hc hnew⟩
      · exact (hg.written ha).trans (by simp)
      · obtain ⟨ino, hout, hlt, hbody, hnames⟩ := hg.active ha
        exact ⟨ino, hout, hlt,
          hbody.trans (List.take_append_of_le_length (hg.written ha)).symm, hnames⟩
      · intro hc
        rcases hphase with hp | hp <;> exact absurd (hp.symm.trans hc) (by simp)
      · exact fun hc => absurd hc hnew
  | write k count =>
    simp only [stepPut] at hstep
    split at hstep
    case h_2 => exact absurd hstep (by simp)
    case h_1 ino hout =>
      obtain ⟨⟨hphase, -, hcount⟩, hstep⟩ := Option.ite_none_right_eq_some.mp hstep
      obtain ⟨rfl, rfl⟩ := Prod.mk.inj (Option.some_inj.mp hstep)
      obtain ⟨hinv, hsame⟩ := inv_write h hn hout hphase hcount
      exact ⟨hinv, hsame, by simp [hphase]⟩
  | finish k =>
    obtain ⟨⟨hphase, hwritten⟩, hstep⟩ := Option.ite_none_right_eq_some.mp hstep
    have hnew : put.phase ≠ .created := by simp [hphase]
    split_ifs at hstep with hlength
    · obtain ⟨rfl, rfl⟩ := Prod.mk.inj (Option.some_inj.mp hstep)
      exact ⟨inv_same_files h hn hnew (.failed rfl) fun q _ => .failed rfl, fun _ _ _ => rfl,
        by simp⟩
    · obtain ⟨rfl, rfl⟩ := Prod.mk.inj (Option.some_inj.mp hstep)
      have hg := h.good n put hn
      have hactive : put.active = true := by simp [Put.active, hphase]
      refine ⟨inv_same_files h hn hnew ⟨by simp, fun _ => hg.written hactive,
          fun _ => hg.active hactive, fun _ => ⟨hwritten, not_not.mp hlength⟩, by simp⟩ ?_,
        fun _ _ _ => rfl, by simp⟩
      -- the other PUTs only see that this one has stopped writing
      exact fun q hq => hq.mono (fun _ => hactive) fun _ hholds => ⟨hholds.1, .inl hactive⟩
  | abort k =>
    obtain ⟨hphase, hstep⟩ := Option.ite_none_right_eq_some.mp hstep
    obtain ⟨rfl, rfl⟩ := Prod.mk.inj (Option.some_inj.mp hstep)
    have hnew : put.phase ≠ .created := by rcases hphase with hp | hp <;> simp [hp]
    exact ⟨inv_same_files h hn hnew (.failed rfl) fun q _ => .failed rfl, fun _ _ _ => rfl, by simp⟩
  | rename k ok =>
    obtain ⟨hphase, hstep⟩ := Option.ite_none_right_eq_some.mp hstep
    split at hstep
    case h_1 files hrename _ =>
      obtain ⟨rfl, rfl⟩ := Prod.mk.inj (Option.some_inj.mp hstep)
      obtain ⟨hinv, hsame, hvisible, hlength⟩ := inv_rename h hn hphase hrename
      exact ⟨hinv, fun _ ino _ => hsame ino, fun _ => ⟨hvisible, hlength⟩⟩
    case h_2 =>
      obtain ⟨rfl, rfl⟩ := Prod.mk.inj (Option.some_inj.mp hstep)
      exact ⟨inv_same_files h hn (by simp [hphase]) (.failed rfl) fun q _ => .failed rfl,
        fun _ _ _ => rfl, by simp⟩
  | unlink k =>
    simp only [stepPut] at hstep
    split at hstep
    case h_2 => exact absurd hstep (by simp)
    case h_1 unlinks hphase =>
      obtain ⟨rfl, rfl⟩ := Prod.mk.inj (Option.some_inj.mp hstep)
      refine ⟨inv_move h hn (by simp [hphase]) (.failed rfl)
        (fun m q _ hq => (h.good m q hq).unlink) (fun _ _ _ _ => .failed rfl) fun ino hino => ?_,
        fun _ _ _ => rfl, by simp⟩
      rw [Files.names_unlink_of_ne _ (by decide)] at hino
      exact .inl hino
  -- the rest are not steps of a PUT
  | put _ => exact absurd hi (by simp [Label.ofPut])
  | get _ _ => exact absurd hi (by simp [Label.ofPut])
  | openRead _ => exact absurd hi (by simp [Label.ofPut])
  | read _ _ => exact absurd hi (by simp [Label.ofPut])

/-- A step of a PUT. -/
theorem step_ofPut {s t : State} {i : Label} {n : ℕ} (hi : i.ofPut = some n)
    (hstep : step s i = some t) :
    ∃ put files' put', s.puts[n]? = some put ∧ stepPut s.files put i = some (files', put') ∧
      t = ⟨files', s.puts.set n put', s.gets⟩ := by
  have heq : step s i = i.ofPut.bind fun n => s.puts[n]?.bind fun put =>
      (stepPut s.files put i).map fun (files, put) => ⟨files, s.puts.set n put, s.gets⟩ := by
    cases i <;> first | rfl | exact absurd hi (by simp [Label.ofPut])
  rw [heq, hi, Option.bind_some] at hstep
  obtain ⟨put, hput, hstep⟩ := Option.bind_eq_some_iff.mp hstep
  obtain ⟨⟨files', put'⟩, hmove, rfl⟩ := Option.map_eq_some_iff.mp hstep
  exact ⟨put, files', put', hput, hmove, rfl⟩

/-- Every other step leaves the files alone; a new PUT may come. -/
theorem step_of_other {s t : State} {i : Label} (hi : i.ofPut = none)
    (hstep : step s i = some t) :
    t.files = s.files ∧ (t.puts = s.puts ∨
      ∃ length, t.puts = s.puts ++ [⟨length, [], 0, none, .opening⟩]) := by
  cases i with
  | put length =>
    obtain ⟨-, hstep⟩ := Option.ite_none_right_eq_some.mp hstep
    obtain rfl := Option.some_inj.mp hstep
    exact ⟨rfl, .inr ⟨length, rfl⟩⟩
  | get first last =>
    simp only [step] at hstep
    split at hstep
    · split_ifs at hstep <;> exact Option.some_inj.mp hstep ▸ ⟨rfl, .inl rfl⟩
    · exact Option.some_inj.mp hstep ▸ ⟨rfl, .inl rfl⟩
  | openRead n =>
    simp only [step] at hstep
    split at hstep
    · obtain ⟨-, hstep⟩ := Option.ite_none_right_eq_some.mp hstep
      exact Option.some_inj.mp hstep ▸ ⟨rfl, .inl rfl⟩
    · exact absurd hstep (by simp)
  | read n count =>
    simp only [step] at hstep
    split at hstep
    · exact Option.some_inj.mp hstep ▸ ⟨rfl, .inl rfl⟩
    · exact absurd hstep (by simp)
  | _ => exact absurd hi (by simp [Label.ofPut])

theorem inv_new_put {s t : State} (h : Inv s) (hfiles : t.files = s.files) {length : ℕ}
    (hputs : t.puts = s.puts ++ [⟨length, [], 0, none, .opening⟩]) : Inv t := by
  have hcases : ∀ (n : ℕ) q, t.puts[n]? = some q →
      s.puts[n]? = some q ∨ q = ⟨length, [], 0, none, .opening⟩ := by
    intro n q hq
    rw [hputs, List.getElem?_append] at hq
    split_ifs at hq
    · exact .inl hq
    · exact .inr (by simpa using List.mem_of_getElem? hq)
  have hnew : ∀ q, Apart ⟨length, [], 0, none, .opening⟩ q := fun q =>
    ⟨fun ha => absurd ha.1 (by simp [Put.active]), fun ino hh => absurd hh.1.1 (by simp)⟩
  refine ⟨fun n q hq => ?_, fun m n p q hmn hp hq => ?_, fun ino hino => ?_⟩
  · rw [hfiles]
    rcases hcases n q hq with hq | rfl
    · exact h.good n q hq
    · exact ⟨fun _ => rfl, by simp [Put.active], by simp [Put.active], by simp, by simp⟩
  · rcases hcases m p hp with hp | rfl
    · rcases hcases n q hq with hq | rfl
      · exact h.apart m n p q hmn hp hq
      · exact (hnew p).symm
    · exact hnew q
  · obtain ⟨n, q, hq, hstored⟩ := h.object ino (hfiles ▸ hino)
    refine ⟨n, q, ?_, hstored⟩
    rw [hputs, List.getElem?_append_left (List.getElem?_eq_some_iff.mp hq).1, hq]

theorem inv_step {s t : State} {i : Label} (h : Inv s) (hi : Alone s i)
    (hstep : step s i = some t) :
    Inv t ∧ ∀ m ino, Stored s m ino → t.files.content ino = s.files.content ino := by
  cases hput : i.ofPut with
  | some n =>
    obtain ⟨put, files', put', hn, hmove, rfl⟩ := step_ofPut hput hstep
    obtain ⟨hinv, hsame, -⟩ := inv_stepPut h hn hput hi hmove
    exact ⟨hinv, hsame⟩
  | none =>
    obtain ⟨hfiles, hputs | ⟨length, hputs⟩⟩ := step_of_other hput hstep
    · refine ⟨⟨?_, ?_, ?_⟩, fun _ _ _ => by rw [hfiles]⟩
      · rw [hputs, hfiles]
        exact h.good
      · rw [hputs]
        exact h.apart
      · intro ino hino
        obtain ⟨n, q, hq, hstored⟩ := h.object ino (hfiles ▸ hino)
        exact ⟨n, q, hputs ▸ hq, hstored⟩
    · exact ⟨inv_new_put h hfiles hputs, fun _ _ _ => by rw [hfiles]⟩

theorem whole_of_inv {s : State} (h : Inv s) : Whole s := by
  intro ino hino
  obtain ⟨n, put, hn, hcreated, hout⟩ := h.object ino hino
  obtain ⟨hlength, ino', hout', -, hbody, -⟩ := (h.good n put hn).created hcreated
  obtain rfl : ino = ino' := Option.some_inj.mp (hout.symm.trans hout')
  refine ⟨n, ⟨put, hn, hcreated, hout⟩, ⟨put, hn, hbody.symm, hbody ▸ hlength⟩, ?_⟩
  rintro m ⟨q, hm, hq, hqout⟩
  by_contra hne
  exact (h.apart m n q put hne hm hn).2 ino ⟨⟨hqout, .inr hq⟩, ⟨hout, .inr hcreated⟩⟩

theorem sound_of_inv {s : State} {i : Label} (h : Inv s) (hi : Alone s i) : Sound s i := by
  intro t hstep
  obtain ⟨hinv, hsame⟩ := inv_step h hi hstep
  refine ⟨whole_of_inv hinv, fun hdest => ?_, ?_⟩
  · rw [State.visible, State.visible, Files.lookup, Files.lookup, hdest]
    cases hino : s.files.names .dest with
    | none => rfl
    | some ino =>
      obtain ⟨m, hstored⟩ := h.object ino hino
      rw [Option.map_some, Option.map_some, hsame m ino hstored]
  · rintro n ok put' rfl hn' hcreated
    obtain ⟨put, files', put'', hn, hmove, rfl⟩ := step_ofPut rfl hstep
    obtain ⟨-, -, hvisible⟩ := inv_stepPut h hn rfl hi hmove
    obtain rfl : put'' = put' := by
      rw [List.getElem?_set_self (List.getElem?_eq_some_iff.mp hn).1] at hn'
      exact Option.some_inj.mp hn'
    exact ⟨(hvisible hcreated).1, put'', hn', rfl, (hvisible hcreated).2⟩

/-- **An object under its key is one upload's whole body**, if every PUT opens
the temporary file alone. -/
theorem sound_of_alone {is : List Label} (h : Along step Alone init is) :
    Along step Sound init is :=
  along_imp (fun _ _ _ hs hi hstep => (inv_step hs hi hstep).1)
    (fun _ _ hs hi => sound_of_inv hs hi) inv_init h

/-! ### What a GET sends -/

/-- A PUT that has been answered does not move. -/
theorem created_step {s t : State} {i : Label} (hstep : step s i = some t) {m : ℕ} {q : Put}
    (hq : s.puts[m]? = some q) (hcreated : q.phase = .created) : t.puts[m]? = some q := by
  cases hput : i.ofPut with
  | some n =>
    obtain ⟨put, files', put', hn, hmove, rfl⟩ := step_ofPut hput hstep
    refine (List.getElem?_set_ne ?_).trans hq
    rintro rfl
    obtain rfl := Option.some_inj.mp (hn.symm.trans hq)
    cases i with
    | write k count =>
      simp only [stepPut, hcreated] at hmove
      split at hmove <;> simp at hmove
    | _ => simp [stepPut, hcreated] at hmove
  | none =>
    obtain ⟨-, hputs | ⟨length, hputs⟩⟩ := step_of_other hput hstep
    · rw [hputs, hq]
    · rw [hputs, List.getElem?_append_left (List.getElem?_eq_some_iff.mp hq).1, hq]

/-- The bytes that a GET has sent are those of one PUT's whole body. -/
structure Served (s : State) (get : Get) : Prop where
  unopened : get.stream = none → get.sent = []
  opened : ∀ ino, get.stream = some ino → ∃ n, Stored s n ino ∧ Body s n (s.files.content ino) ∧
    get.sent <+: (s.files.content ino).drop get.first

theorem served_step {s t : State} {i : Label} (h : Inv s) (hi : Alone s i)
    (hstep : step s i = some t) {get : Get} (hget : Served s get) : Served t get := by
  refine ⟨hget.unopened, fun ino hino => ?_⟩
  obtain ⟨n, ⟨put, hn, hcreated, hout⟩, ⟨put', hn', hbody⟩, hsent⟩ := hget.opened ino hino
  obtain rfl := Option.some_inj.mp (hn.symm.trans hn')
  have hsame := (inv_step h hi hstep).2 n ino ⟨put, hn, hcreated, hout⟩
  have hstill := created_step hstep hn hcreated
  rw [hsame]
  exact ⟨n, ⟨put, hstill, hcreated, hout⟩, ⟨put, hstill, hbody⟩, hsent⟩

theorem served_gets {s t : State} {i : Label} (h : Inv s) (hi : Alone s i)
    (hstep : step s i = some t) (hgets : ∀ get ∈ s.gets, Served s get) :
    ∀ get ∈ t.gets, Served t get := by
  have hold : ∀ get ∈ s.gets, Served t get := fun get hget =>
    served_step h hi hstep (hgets get hget)
  cases hput : i.ofPut with
  | some n =>
    obtain ⟨put, files', put', -, -, rfl⟩ := step_ofPut hput hstep
    exact hold
  | none =>
    cases i with
    | put length =>
      obtain ⟨-, hstep⟩ := Option.ite_none_right_eq_some.mp hstep
      exact Option.some_inj.mp hstep ▸ hold
    | get first last =>
      simp only [step] at hstep
      split at hstep
      · split_ifs at hstep
        · obtain rfl := Option.some_inj.mp hstep
          intro get hget
          rcases List.mem_append.mp hget with hget | hget
          · exact hold get hget
          · obtain rfl := List.mem_singleton.mp hget
            exact ⟨fun _ => rfl, fun ino hino => absurd hino (by simp)⟩
        · exact Option.some_inj.mp hstep ▸ hold
      · exact Option.some_inj.mp hstep ▸ hold
    | openRead k =>
      simp only [step] at hstep
      split at hstep
      case h_2 => exact absurd hstep (by simp)
      case h_1 get hk =>
        obtain ⟨hnone, hstep⟩ := Option.ite_none_right_eq_some.mp hstep
        have hsent := (hgets get (List.mem_of_getElem? hk)).unopened hnone
        obtain rfl := Option.some_inj.mp hstep
        intro get' hget
        rcases List.mem_or_eq_of_mem_set hget with hget | rfl
        · exact hold get' hget
        · refine ⟨fun _ => hsent, fun ino hino => ?_⟩
          -- the object that is opened is whole, and nothing is sent yet
          obtain ⟨n, hstored, hbody, -⟩ := whole_of_inv h ino hino
          exact ⟨n, hstored, hbody, hsent ▸ List.nil_prefix⟩
    | read k count =>
      simp only [step] at hstep
      split at hstep
      case h_2 => exact absurd hstep (by simp)
      case h_1 first last ino sent hk =>
        obtain rfl := Option.some_inj.mp hstep
        intro get' hget
        rcases List.mem_or_eq_of_mem_set hget with hget | rfl
        · exact hold get' hget
        · refine ⟨fun hnone => absurd hnone (by simp), fun ino' hino => ?_⟩
          obtain rfl := Option.some_inj.mp hino
          obtain ⟨n, hstored, hbody, hsent⟩ :=
            (hold _ (List.mem_of_getElem? hk)).opened ino rfl
          exact ⟨n, hstored, hbody, Files.prefix_read first hsent _⟩
    | _ => exact absurd hput (by simp [Label.ofPut])

/-- **A GET sends bytes of one upload only**, if every PUT opens the temporary
file alone. -/
theorem served_of_alone {is : List Label} {t : State} (h : Along step Alone init is)
    (hrun : run step init is = some t) : ∀ get ∈ t.gets, Served t get := by
  refine (run_invariant (P := fun s => Inv s ∧ ∀ get ∈ s.gets, Served s get) ?_
    ⟨inv_init, fun get hget => absurd hget (by simp [init])⟩ h hrun).2
  intro s i t hs hi hstep
  exact ⟨(inv_step hs.1 hi hstep).1, served_gets hs.1 hi hstep hs.2⟩

/-- An upload of two bytes in two chunks, and a GET of it. -/
theorem upload_sound :
    Along step Sound init [.put 2, .open 0, .data 0 [1], .write 0 1, .data 0 [2], .write 0 1,
      .finish 0, .rename 0 true, .get 0 none, .openRead 0, .read 0 2] :=
  sound_of_alone (by decide)

/-- Two PUTs have the temporary file open; the first one is renamed. -/
def overlapping : List Label :=
  [.put 2, .put 1, .open 0, .open 1, .data 0 [1, 2], .write 0 2, .finish 0, .rename 0 true,
    .data 1 [3]]

/-- **The second of two overlapping PUTs writes into the object of the first**,
which was answered 201. -/
theorem overlapping_put : (run step init (overlapping ++ [.write 1 1])).isSome ∧
    ¬ Along step Sound init (overlapping ++ [.write 1 1]) := by
  refine ⟨by decide, fun h => ?_⟩
  obtain ⟨s, hs⟩ : ∃ s, run step init overlapping = some s :=
    Option.isSome_iff_exists.mp (by decide)
  obtain ⟨t, ht⟩ : ∃ t, run step init (overlapping ++ [.write 1 1]) = some t :=
    Option.isSome_iff_exists.mp (by decide)
  have hstep : step s (.write 1 1) = some t := (run_concat hs _).symm.trans ht
  obtain ⟨-, hkept, -⟩ := ((along_append.mp h).2 s hs).1 t hstep
  -- the inode stays the object's, and its first byte changes
  have hbefore : (run step init overlapping).map State.visible = some (some [1, 2]) := by decide
  have hafter : (run step init (overlapping ++ [.write 1 1])).map State.visible =
      some (some [3, 2]) := by decide
  have hdest : (run step init overlapping).map (·.files.names .dest) =
      (run step init (overlapping ++ [.write 1 1])).map (·.files.names .dest) := by decide
  rw [hs, Option.map_some] at hbefore hdest
  rw [ht, Option.map_some] at hafter hdest
  rw [hkept (Option.some_inj.mp hdest).symm, Option.some_inj.mp hbefore] at hafter
  exact absurd hafter (by decide)

end RecordPut

end IpcMini
