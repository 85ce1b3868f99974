/-
The microphone of the browser's viewer (`cloud/signaling/public/viewer.js`).

`startPeer` asks for the microphone in advance, and `enableTalk` asks if there is none.
Both wait for `getUserMedia` and then put what they get into `micStream`; `closePeer`
stops the tracks of `micStream`.  A stream that is replaced there is stopped by nobody,
and one that comes after `closePeer` is open without a connection.

* `step` — a call of `startPeer`, of `closePeer` or of `enableTalk`, or a call that goes on
  with what it waited for;
* `overlaps`, `late`, `talksLate` — the answers that come at a wrong time;
* `Inv`, and `inv_step`: every step keeps it, with the steps before it;
* **`open_microphones`** — the open streams are that of the page and one for each
  overlapping answer; without a connection there is one, or a button for talking that is
  on, exactly after a late answer;
* **`stranded_kept`** — a stream that was replaced stays open.
-/
import IpcMini.ViewerPeer

namespace IpcMini

open Interleaving
open ViewerPeer (Setup Answer)

namespace Microphone

/-! ### The page -/

/-- What a call waits for. -/
inductive Wait
  /-- `getUserMedia` in `startPeer` -/
  | silence
  /-- `replaceTrack` in `startPeer` -/
  | silenceTrack
  /-- the offer in `startPeer` -/
  | offer
  /-- `getUserMedia` in `enableTalk` -/
  | microphone
  /-- `replaceTrack` in `enableTalk` -/
  | talkTrack
  deriving DecidableEq, Repr

/-- The answer to the call is a new stream. -/
def Wait.acquires : Wait → Bool
  | .silence | .microphone => true
  | _ => false

structure Call where
  id : ℕ
  wait : Wait
  deriving DecidableEq, Repr

structure Page where
  /-- `pc` and `audioSender` are not `null` -/
  pc : Bool
  audioSender : Bool
  offerStarted : Bool
  talkEnabled : Bool
  micStream : Option ℕ
  calls : List Call
  nextCall : ℕ
  /-- the streams that were not stopped, numbered as they came -/
  live : List ℕ
  nextStream : ℕ
  deriving DecidableEq, Repr

/-- The page is ready. -/
def init : Page := ⟨false, false, false, false, none, [], 0, [], 0⟩

inductive Label
  /-- `startPeer`, with a device and an open socket -/
  | startPeer (setup : Setup)
  | closePeer
  /-- a click on the button for talking; the page's stream has a track or none -/
  | talk (track : Bool)
  /-- what a call waits for is settled; the stream has a track or none -/
  | settle (id : ℕ) (answer : Answer) (track : Bool)
  deriving DecidableEq, Repr

namespace Page

/-- `closePeer`. -/
def closePeer (s : Page) : Page :=
  { s with
    offerStarted := false, talkEnabled := false, audioSender := false, pc := false
    micStream := none
    live := s.live.filter fun stream => decide (s.micStream ≠ some stream) }

/-- The call waits. -/
def await (wait : Wait) (s : Page) : Page :=
  { s with calls := ⟨s.nextCall, wait⟩ :: s.calls, nextCall := s.nextCall + 1 }

/-- `startPeer` up to where it waits. -/
def startPeer (setup : Setup) (s : Page) : Page :=
  if s.offerStarted then s
  else
    match setup with
    | .noConnection => s
    | .noSender => { s with pc := true }
    | .waits => { s with offerStarted := true, pc := true, audioSender := true }.await .silence

/-- `startPeer` from `createOffer` on. -/
def makeOffer (s : Page) : Page :=
  if s.pc then s.await .offer else { s with offerStarted := false }

/-- `getUserMedia` has answered with a stream. -/
def acquire (s : Page) : Page :=
  { s with
    micStream := some s.nextStream
    live := s.nextStream :: s.live
    nextStream := s.nextStream + 1 }

/-- `enableTalk(true)` with a stream. -/
def sendTrack (track : Bool) (s : Page) : Page :=
  -- without a track, or where `audioSender` is `null`, it throws
  if track ∧ s.audioSender then s.await .talkTrack else { s with talkEnabled := false }

/-- `enableTalk(!talkEnabled)`. -/
def talk (track : Bool) (s : Page) : Page :=
  if !s.pc ∨ !s.audioSender then s
  else if s.talkEnabled then { s with talkEnabled := false }
  else
    match s.micStream with
    | none => s.await .microphone
    | some _ => s.sendTrack track

/-- A call goes on until it waits again or ends. -/
def resume (wait : Wait) (answer : Answer) (track : Bool) (s : Page) : Page :=
  match wait, answer with
  | .silence, .fulfilled =>
    let s := s.acquire
    -- where `audioSender` is `null` the inner `catch` goes on
    if track ∧ s.audioSender then s.await .silenceTrack else s.makeOffer
  | .silence, .rejected => s.makeOffer
  | .silenceTrack, _ => s.makeOffer
  | .offer, .fulfilled => s
  | .offer, .rejected => { s with offerStarted := false }
  | .microphone, .fulfilled => s.acquire.sendTrack track
  | .microphone, .rejected => { s with talkEnabled := false }
  | .talkTrack, .fulfilled => { s with talkEnabled := true }
  | .talkTrack, .rejected => { s with talkEnabled := false }

/-- The page handles an event; `none` for an event that cannot happen. -/
def step (s : Page) : Label → Option Page
  | .startPeer setup => some (s.startPeer setup)
  | .closePeer => some s.closePeer
  | .talk track => some (s.talk track)
  | .settle id answer track =>
    (s.calls.find? fun c => decide (c.id = id)).map fun c =>
      { s with calls := s.calls.filter fun c => decide (c.id ≠ id) }.resume c.wait answer track

end Page

/-! ### Answers at a wrong time -/

/-- What the call whose answer comes waits for. -/
def awaited (s : Page) : Label → Option Wait
  | .settle id .fulfilled _ => (s.calls.find? fun c => decide (c.id = id)).map Call.wait
  | _ => none

/-- A stream comes while the page has one. -/
def overlaps (e : Page × Label) : Bool :=
  (awaited e.1 e.2).any Wait.acquires && e.1.micStream.isSome

/-- A stream comes when the connection is closed. -/
def late (e : Page × Label) : Bool := (awaited e.1 e.2).any Wait.acquires && !e.1.pc

/-- The track for talking is in place when the connection is closed. -/
def talksLate (e : Page × Label) : Bool := decide (awaited e.1 e.2 = some .talkTrack) && !e.1.pc

/-- There was such a step since the connection was closed last. -/
def sinceClose (wrong : Page × Label → Bool) (past : List (Page × Label)) : Bool :=
  past.foldl (fun found e => !decide (e.2 = .closePeer) && (found || wrong e)) false

theorem sinceClose_concat (wrong : Page × Label → Bool) (past : List (Page × Label))
    (e : Page × Label) :
    sinceClose wrong (past ++ [e]) =
      (!decide (e.2 = .closePeer) && (sinceClose wrong past || wrong e)) := by
  rw [sinceClose, List.foldl_append]
  rfl

/-! ### The invariant -/

/-- The open streams, after the steps of the past. -/
structure Inv (past : List (Page × Label)) (s : Page) : Prop where
  /-- that of the page, and one for each that was replaced -/
  count : s.live.length = s.micStream.toList.length + past.countP overlaps
  mem : ∀ stream ∈ s.micStream, stream ∈ s.live
  nodup : s.live.Nodup
  lt : ∀ stream ∈ s.live, stream < s.nextStream
  silent : s.pc = false → s.micStream.isSome = sinceClose late past
  talking : s.pc = false → s.talkEnabled = true → sinceClose talksLate past = true

theorem inv_init : Inv [] init where
  count := rfl
  mem := by simp [init]
  nodup := .nil
  lt := by simp [init]
  silent := fun _ => rfl
  talking := by simp [init]

variable {past : List (Page × Label)} {s t : Page} {i : Label}

/-- The streams are the same, and a connection is not closed. -/
structure Same (s t : Page) : Prop where
  micStream : t.micStream = s.micStream
  live : t.live = s.live
  nextStream : t.nextStream = s.nextStream
  pc : t.pc = false → s.pc = false

/-- There is one more stream, which is that of the page. -/
structure Acquired (s t : Page) : Prop where
  micStream : t.micStream = some s.nextStream
  live : t.live = s.nextStream :: s.live
  nextStream : t.nextStream = s.nextStream + 1
  pc : t.pc = s.pc

theorem Inv.of_same (h : Inv past s) (hsame : Same s t) (hi : i ≠ .closePeer)
    (hawaited : (awaited s i).any Wait.acquires = false)
    (htalk : t.talkEnabled = true → s.talkEnabled = true ∨ awaited s i = some .talkTrack) :
    Inv (past ++ [(s, i)]) t where
  count := by
    rw [hsame.live, hsame.micStream, h.count, List.countP_append, List.countP_singleton]
    simp [overlaps, hawaited]
  mem := by
    rw [hsame.micStream, hsame.live]
    exact h.mem
  nodup := by
    rw [hsame.live]
    exact h.nodup
  lt := by
    rw [hsame.live, hsame.nextStream]
    exact h.lt
  silent := by
    intro hpc
    rw [hsame.micStream, h.silent (hsame.pc hpc), sinceClose_concat]
    simp [late, hawaited, hi]
  talking := by
    intro hpc hon
    have hclosed := hsame.pc hpc
    rw [sinceClose_concat]
    rcases htalk hon with hbefore | hanswer
    · simp [h.talking hclosed hbefore, hi]
    · simp [talksLate, hanswer, hclosed, hi]

theorem Inv.of_acquired (h : Inv past s) (hnew : Acquired s t) (hi : i ≠ .closePeer)
    (hawaited : (awaited s i).any Wait.acquires = true)
    (htalk : t.talkEnabled = true → s.talkEnabled = true) : Inv (past ++ [(s, i)]) t where
  count := by
    have hoverlaps : overlaps (s, i) = s.micStream.isSome := by simp [overlaps, hawaited]
    rw [hnew.live, hnew.micStream, List.length_cons, h.count, List.countP_append,
      List.countP_singleton, hoverlaps]
    -- the stream of the page is counted as replaced now
    cases s.micStream with
    | none => simp [Nat.add_comm]
    | some stream =>
      simp only [Option.toList_some, List.length_singleton, Option.isSome_some, if_true]
      omega
  mem := by
    rw [hnew.micStream, hnew.live]
    rintro stream ⟨⟩
    exact List.mem_cons_self
  nodup := by
    rw [hnew.live]
    exact List.nodup_cons.mpr ⟨fun hmem => Nat.lt_irrefl _ (h.lt _ hmem), h.nodup⟩
  lt := by
    rw [hnew.live, hnew.nextStream]
    intro stream hstream
    rcases List.mem_cons.mp hstream with rfl | hstream
    · exact Nat.lt_succ_self _
    · exact Nat.lt_succ_of_lt (h.lt stream hstream)
  silent := by
    intro hpc
    rw [hnew.pc] at hpc
    rw [hnew.micStream, sinceClose_concat]
    simp [late, hawaited, hpc, hi]
  talking := by
    intro hpc hon
    rw [hnew.pc] at hpc
    rw [sinceClose_concat]
    simp [h.talking hpc (htalk hon), hi]

theorem Inv.closePeer (h : Inv past s) : Inv (past ++ [(s, .closePeer)]) s.closePeer where
  count := by
    rw [List.countP_append, List.countP_singleton]
    simp only [Page.closePeer, overlaps, awaited, Option.any_none, Bool.false_and,
      Bool.false_eq_true, if_false, Option.toList_none, List.length_nil, Nat.zero_add, Nat.add_zero]
    have hcount := h.count
    cases hmic : s.micStream with
    | none => simpa [hmic] using hcount
    | some stream =>
      -- the stream is open, and once
      have hmem := h.mem stream hmic
      have hfilter : (s.live.filter fun other => decide (some stream ≠ some other)) =
          s.live.erase stream := by
        rw [h.nodup.erase_eq_filter]
        refine List.filter_congr fun other _ => ?_
        by_cases hother : other = stream
        · simp [hother]
        · simp [hother, Ne.symm hother]
      rw [hfilter, List.length_erase_of_mem hmem, hcount, hmic]
      simp only [Option.toList_some, List.length_singleton]
      omega
  mem := by simp [Page.closePeer]
  nodup := h.nodup.filter _
  lt := fun stream hstream => h.lt stream (List.mem_of_mem_filter hstream)
  silent := by
    intro _
    rw [sinceClose_concat]
    simp [Page.closePeer]
  talking := by simp [Page.closePeer]

/-! ### What the functions change -/

theorem Same.refl (s : Page) : Same s s := ⟨rfl, rfl, rfl, id⟩

theorem same_makeOffer (s : Page) : Same s s.makeOffer := by
  unfold Page.makeOffer
  split <;> exact ⟨rfl, rfl, rfl, id⟩

theorem same_sendTrack (s : Page) (track : Bool) : Same s (s.sendTrack track) := by
  unfold Page.sendTrack
  split <;> exact ⟨rfl, rfl, rfl, id⟩

theorem makeOffer_talk (s : Page) : s.makeOffer.talkEnabled = s.talkEnabled := by
  unfold Page.makeOffer
  split <;> rfl

theorem sendTrack_talk {track : Bool} (h : (s.sendTrack track).talkEnabled = true) :
    s.talkEnabled = true := by
  unfold Page.sendTrack at h
  split at h
  · exact h
  · cases h

theorem same_startPeer (s : Page) (setup : Setup) :
    Same s (s.startPeer setup) ∧ (s.startPeer setup).talkEnabled = s.talkEnabled := by
  unfold Page.startPeer
  split
  · exact ⟨.refl s, rfl⟩
  · cases setup <;> exact ⟨⟨rfl, rfl, rfl, by simp [Page.await]⟩, rfl⟩

theorem same_talk (s : Page) (track : Bool) :
    Same s (s.talk track) ∧ ((s.talk track).talkEnabled = true → s.talkEnabled = true) := by
  unfold Page.talk
  split
  · exact ⟨.refl s, id⟩
  · split
    · exact ⟨⟨rfl, rfl, rfl, id⟩, by simp⟩
    · split
      · exact ⟨⟨rfl, rfl, rfl, id⟩, id⟩
      · exact ⟨same_sendTrack s track, sendTrack_talk⟩

/-- A call that goes on either leaves the streams alone or has got a new one. -/
theorem resume_cases (s : Page) (wait : Wait) (answer : Answer) (track : Bool) :
    (wait.acquires = true ∧ answer = .fulfilled ∧ Acquired s (s.resume wait answer track) ∧
        ((s.resume wait answer track).talkEnabled = true → s.talkEnabled = true)) ∨
      ((wait.acquires = false ∨ answer = .rejected) ∧ Same s (s.resume wait answer track) ∧
        ((s.resume wait answer track).talkEnabled = true →
          s.talkEnabled = true ∨ wait = .talkTrack ∧ answer = .fulfilled)) := by
  have hoffer := same_makeOffer s
  have htalk := makeOffer_talk s
  cases wait with
  | silence =>
    cases answer with
    | fulfilled =>
      refine .inl ⟨rfl, rfl, ?_⟩
      unfold Page.resume
      simp only
      split
      · exact ⟨⟨rfl, rfl, rfl, rfl⟩, id⟩
      · have hsame := same_makeOffer s.acquire
        refine ⟨⟨hsame.micStream, hsame.live, hsame.nextStream, ?_⟩, ?_⟩
        · unfold Page.makeOffer
          split <;> rfl
        · rw [makeOffer_talk]
          exact id
    | rejected => exact .inr ⟨.inr rfl, hoffer, fun h => .inl (htalk.symm.trans h)⟩
  | silenceTrack => exact .inr ⟨.inl rfl, hoffer, fun h => .inl (htalk.symm.trans h)⟩
  | offer => cases answer <;> exact .inr ⟨.inl rfl, ⟨rfl, rfl, rfl, id⟩, .inl⟩
  | microphone =>
    cases answer with
    | fulfilled =>
      refine .inl ⟨rfl, rfl, ?_⟩
      have hsame := same_sendTrack s.acquire track
      refine ⟨⟨hsame.micStream, hsame.live, hsame.nextStream, ?_⟩, ?_⟩
      · change (s.acquire.sendTrack track).pc = s.pc
        unfold Page.sendTrack
        split <;> rfl
      · exact fun h => sendTrack_talk (s := s.acquire) h
    | rejected => exact .inr ⟨.inr rfl, ⟨rfl, rfl, rfl, id⟩, fun h => by cases h⟩
  | talkTrack =>
    cases answer with
    | fulfilled => exact .inr ⟨.inl rfl, ⟨rfl, rfl, rfl, id⟩, fun _ => .inr ⟨rfl, rfl⟩⟩
    | rejected => exact .inr ⟨.inl rfl, ⟨rfl, rfl, rfl, id⟩, fun h => by cases h⟩

theorem inv_step (past : List (Page × Label)) (s : Page) (i : Label) (t : Page) (h : Inv past s)
    (hstep : s.step i = some t) : Inv (past ++ [(s, i)]) t := by
  cases i with
  | startPeer setup =>
    obtain rfl := Option.some_inj.mp hstep
    obtain ⟨hsame, htalk⟩ := same_startPeer s setup
    exact h.of_same hsame nofun rfl fun hon => .inl (htalk.symm.trans hon)
  | closePeer =>
    obtain rfl := Option.some_inj.mp hstep
    exact h.closePeer
  | talk track =>
    obtain rfl := Option.some_inj.mp hstep
    obtain ⟨hsame, htalk⟩ := same_talk s track
    exact h.of_same hsame nofun rfl fun hon => .inl (htalk hon)
  | settle id answer track =>
    obtain ⟨c, hfind, rfl⟩ := Option.map_eq_some_iff.mp hstep
    have hfulfilled : awaited s (.settle id .fulfilled track) = some c.wait := by
      simp only [awaited, hfind, Option.map_some]
    rcases resume_cases { s with calls := s.calls.filter fun c => decide (c.id ≠ id) } c.wait answer
      track with ⟨hacquires, rfl, hnew, htalk⟩ | ⟨hnot, hsame, htalk⟩
    · refine h.of_acquired ⟨hnew.micStream, hnew.live, hnew.nextStream, hnew.pc⟩ nofun ?_ htalk
      rw [hfulfilled]
      exact hacquires
    · refine h.of_same ⟨hsame.micStream, hsame.live, hsame.nextStream, hsame.pc⟩ nofun ?_ ?_
      · rcases hnot with hwait | rfl
        · cases answer with
          | fulfilled =>
            rw [hfulfilled]
            exact hwait
          | rejected => rfl
        · rfl
      · intro hon
        rcases htalk hon with hbefore | ⟨hwait, rfl⟩
        · exact .inl hbefore
        · exact .inr (hfulfilled.trans (congrArg some hwait))

/-! ### Open microphones -/

/-- **Open microphones.**  After every run the streams that are open are that of the page
and one for each stream that came while the page had one.  Where the connection is closed
the page has a stream exactly if one came after that, and its button for talking is on only
if a track was put in place after that. -/
theorem open_microphones {labels : List Label} {s : Page}
    (hrun : run Page.step init labels = some s) :
    s.live.length =
        s.micStream.toList.length + (trace Page.step init labels).countP overlaps ∧
      (s.pc = false →
        s.micStream.isSome = sinceClose late (trace Page.step init labels) ∧
          (s.talkEnabled = true →
            sinceClose talksLate (trace Page.step init labels) = true)) := by
  have h : Inv (trace Page.step init labels) s := run_trace_invariant inv_step inv_init hrun
  exact ⟨h.count, fun hpc => ⟨h.silent hpc, h.talking hpc⟩⟩

/-- The device comes back while the microphone is asked for. -/
theorem microphone_returning :
    let labels : List Label := [.startPeer .waits, .closePeer, .settle 0 .fulfilled true,
      .startPeer .waits, .settle 1 .fulfilled true, .closePeer]
    ∃ s, run Page.step init labels = some s ∧ s.live = [0] ∧
      s.live.length =
        s.micStream.toList.length + (trace Page.step init labels).countP overlaps :=
  ⟨_, rfl, rfl, (open_microphones rfl).1⟩

/-- A stream that is open and not the page's. -/
def Stranded (s : Page) (stream : ℕ) : Prop := stream ∈ s.live ∧ s.micStream ≠ some stream

theorem Stranded.of_same {stream : ℕ} (h : Stranded s stream) (hsame : Same s t) :
    Stranded t stream :=
  ⟨hsame.live ▸ h.1, hsame.micStream ▸ h.2⟩

theorem Stranded.of_acquired {stream : ℕ} (h : Stranded s stream) (hs : Inv past s)
    (hnew : Acquired s t) : Stranded t stream := by
  refine ⟨hnew.live ▸ List.mem_cons_of_mem _ h.1, ?_⟩
  rw [hnew.micStream]
  -- the stream is older than the new one
  rintro ⟨⟩
  exact Nat.lt_irrefl _ (hs.lt _ h.1)

theorem stranded_step {stream : ℕ} (hs : Inv past s) (h : Stranded s stream)
    (hstep : s.step i = some t) : Stranded t stream := by
  cases i with
  | startPeer setup =>
    obtain rfl := Option.some_inj.mp hstep
    exact h.of_same (same_startPeer s setup).1
  | closePeer =>
    obtain rfl := Option.some_inj.mp hstep
    exact ⟨List.mem_filter.mpr ⟨h.1, decide_eq_true h.2⟩, nofun⟩
  | talk track =>
    obtain rfl := Option.some_inj.mp hstep
    exact h.of_same (same_talk s track).1
  | settle id answer track =>
    obtain ⟨c, -, rfl⟩ := Option.map_eq_some_iff.mp hstep
    rcases resume_cases { s with calls := s.calls.filter fun c => decide (c.id ≠ id) } c.wait answer
      track with ⟨-, -, hnew, -⟩ | ⟨-, hsame, -⟩
    · exact h.of_acquired hs ⟨hnew.micStream, hnew.live, hnew.nextStream, hnew.pc⟩
    · exact h.of_same ⟨hsame.micStream, hsame.live, hsame.nextStream, hsame.pc⟩

/-- **Stranded streams.**  A stream that was replaced stays open in every run that follows. -/
theorem stranded_kept {stream : ℕ} {before after : List Label}
    (hrun : run Page.step init before = some s) (h : Stranded s stream)
    (hafter : run Page.step s after = some t) : Stranded t stream := by
  have hs : Inv (trace Page.step init before) s := run_trace_invariant inv_step inv_init hrun
  -- the past goes on with every step
  have hkept : (∃ past, Inv past t) ∧ Stranded t stream := by
    refine run_preserves (P := fun s => (∃ past, Inv past s) ∧ Stranded s stream) ?_
      ⟨⟨_, hs⟩, h⟩ hafter
    rintro s i t ⟨⟨past, hs⟩, h⟩ hstep
    exact ⟨⟨_, inv_step past s i t hs hstep⟩, stranded_step hs h hstep⟩
  exact hkept.2

/-- The first stream outlives the second call. -/
theorem stranded_first :
    ∃ s t, run Page.step init [.startPeer .waits, .closePeer, .settle 0 .fulfilled true,
        .startPeer .waits, .settle 1 .fulfilled true] = some s ∧ Stranded s 0 ∧
      run Page.step s [.closePeer] = some t ∧ Stranded t 0 :=
  have h : Stranded _ 0 := ⟨by decide, by decide⟩
  have hrun : run Page.step init [.startPeer .waits, .closePeer, .settle 0 .fulfilled true,
      .startPeer .waits, .settle 1 .fulfilled true] = some _ := rfl
  have hafter : run Page.step _ [.closePeer] = some _ := rfl
  ⟨_, _, hrun, h, hafter, stranded_kept hrun h hafter⟩

end Microphone

end IpcMini
