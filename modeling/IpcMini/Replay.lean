/-
Playing recordings in the browser (`cloud/signaling/public/viewer.js`).

`playPlaylist` is asynchronous: it fetches the playlist, reads it and loads the player
library.  Each call takes a new `replayToken` and goes on only while it is the latest;
`stopReplay` takes one as well.  `loadReplayDays`, which lists the days and plays the
newest, is asynchronous too, and has no token.

* `step` — the user, the live stream, and the calls that go on with what they waited for;
* `OnePlayer` — what the tokens are for, and `Inv`, with `inv_step`: every step keeps it;
* **`one_player`** — at most one player exists, that of the latest call, and never in the
  live view;
* **`live_picture_kept`** — the live picture goes when its connection is closed, and when
  days that were asked for in the replay view are listed in the live view.
-/
import IpcMini.Run

namespace IpcMini

open Interleaving

namespace Replay

/-! ### The page -/

/-- What a call of `playPlaylist` waits for. -/
inductive Stage
  /-- `fetch` -/
  | fetching
  /-- `response.text` -/
  | reading
  /-- `ensureHls` -/
  | loadingHls
  deriving DecidableEq, Repr

/-- A call of `playPlaylist` that waits. -/
structure PlayRun where
  token : ℕ
  stage : Stage
  deriving DecidableEq, Repr

/-- What a call of `loadReplayDays` waits for. -/
inductive ListStage
  /-- `fetch` -/
  | fetching
  /-- `response.json` -/
  | parsing
  deriving DecidableEq, Repr

structure ListRun where
  id : ℕ
  stage : ListStage
  deriving DecidableEq, Repr

/-- A player of the library; they are numbered as they are made. -/
structure Player where
  id : ℕ
  /-- of the call that made it -/
  token : ℕ
  deriving DecidableEq, Repr

/-- A call of `ui.video.play` by `startPlayback`. -/
structure Play where
  token : ℕ
  /-- `replayToken` and the view at that time -/
  replayToken : ℕ
  live : Bool
  deriving DecidableEq, Repr

structure Page where
  /-- `viewMode` is `live` -/
  live : Bool
  connectedIntent : Bool
  replayToken : ℕ
  hlsPlayer : Option ℕ
  playRuns : List PlayRun
  listRuns : List ListRun
  nextList : ℕ
  /-- the players that were made, and those that were not destroyed -/
  made : List Player
  alive : List ℕ
  /-- `ui.video.srcObject` is the live stream -/
  srcObject : Bool
  /-- `ui.video.src` is a playlist, by the token of the call -/
  src : Option ℕ
  plays : List Play
  deriving DecidableEq, Repr

/-- The page is ready. -/
def init : Page where
  live := true
  connectedIntent := false
  replayToken := 0
  hlsPlayer := none
  playRuns := []
  listRuns := []
  nextList := 0
  made := []
  alive := []
  srcObject := false
  src := none
  plays := []

/-- What the browser can play. -/
inductive Support
  | hls
  | native
  | none
  deriving DecidableEq, Repr

/-- How a promise of `playPlaylist` is settled: with the number of segments in the text
where this is read, and with what is supported where the library is loaded. -/
inductive PlayAnswer
  | rejected
  | fulfilled (segments : ℕ) (support : Support)
  deriving DecidableEq, Repr

/-- How a promise of `loadReplayDays` is settled, with the number of days in the list. -/
inductive ListAnswer
  | rejected
  | fulfilled (days : ℕ)
  deriving DecidableEq, Repr

/-- What `connect` finds in its fields. -/
inductive Address
  | missing
  | invalid
  | valid
  deriving DecidableEq, Repr

inductive Label
  /-- a click on the button -/
  | go (address : Address)
  /-- the peer connection is closed by the server or the network -/
  | closePeer
  /-- a track of the live stream arrives -/
  | track
  | setViewMode (live : Bool)
  | chooseDay
  /-- what a call of `loadReplayDays` waits for is settled -/
  | listed (id : ℕ) (answer : ListAnswer)
  /-- what a call of `playPlaylist` waits for is settled -/
  | resume (token : ℕ) (answer : PlayAnswer)
  /-- a player, destroyed or not, has parsed its playlist -/
  | manifestParsed (id : ℕ)
  deriving DecidableEq, Repr

namespace Page

/-- `closePeer`. -/
def closePeer (s : Page) : Page := { s with srcObject := false }

/-- `disconnect`. -/
def disconnect (s : Page) : Page := { s with connectedIntent := false }.closePeer

/-- What `stopReplay` does, and `playPlaylist` first. -/
def stopReplay (s : Page) : Page :=
  { s with
    replayToken := s.replayToken + 1
    hlsPlayer := none
    alive := s.alive.filter fun id => decide (s.hlsPlayer ≠ some id)
    srcObject := false
    src := none }

/-- `playPlaylist` up to its `fetch`. -/
def playPlaylist (s : Page) : Page :=
  let s := s.stopReplay
  { s with playRuns := ⟨s.replayToken, .fetching⟩ :: s.playRuns }

/-- `loadReplayDays` up to its `fetch`. -/
def loadReplayDays (s : Page) : Page :=
  { s with
    listRuns := ⟨s.nextList, .fetching⟩ :: s.listRuns
    nextList := s.nextList + 1 }

/-- `startPlayback` of the call with this token. -/
def startPlayback (token : ℕ) (s : Page) : Page :=
  if token ≠ s.replayToken then s
  else { s with plays := ⟨token, s.replayToken, s.live⟩ :: s.plays }

/-- The call was overtaken, or the view left. -/
def overtaken (s : Page) (token : ℕ) : Bool := decide (token ≠ s.replayToken) || s.live

/-- `playPlaylist` goes on until it waits again or ends. -/
def resumeRun (r : PlayRun) (answer : PlayAnswer) (s : Page) : Page :=
  match r.stage, answer with
  | .fetching, .fulfilled _ _ => { s with playRuns := ⟨r.token, .reading⟩ :: s.playRuns }
  | .reading, .fulfilled segments _ =>
    if segments = 0 ∨ s.overtaken r.token then s
    else { s with playRuns := ⟨r.token, .loadingHls⟩ :: s.playRuns }
  | .fetching, .rejected | .reading, .rejected => s
  -- `ensureHls` does not throw; without the library nothing but `native` is supported
  | .loadingHls, .rejected => s
  | .loadingHls, .fulfilled _ support =>
    if s.overtaken r.token then s
    else
      match support with
      | .hls =>
        { s with
          hlsPlayer := some s.made.length
          made := ⟨s.made.length, r.token⟩ :: s.made
          alive := s.made.length :: s.alive }
      | .native => { s with src := some r.token }.startPlayback r.token
      | .none => s

/-- `loadReplayDays` goes on until it waits again or ends. -/
def resumeList (r : ListRun) (answer : ListAnswer) (s : Page) : Page :=
  match r.stage, answer with
  | .fetching, .fulfilled _ => { s with listRuns := ⟨r.id, .parsing⟩ :: s.listRuns }
  | .parsing, .fulfilled days => if days = 0 then s else s.playPlaylist
  | _, .rejected => s

/-- `setViewMode`. -/
def setViewMode (live : Bool) (s : Page) : Page :=
  if live = s.live then s
  else
    let s := { s with live := live }
    if live then s.stopReplay
    else (if s.connectedIntent then s.disconnect else s).loadReplayDays

/-- The page handles an event; `none` for an event that cannot happen. -/
def step (s : Page) : Label → Option Page
  | .go address =>
    if !s.live then some s.loadReplayDays
    else if s.connectedIntent then some s.disconnect
    else
      match address with
      | .missing => some s
      | .invalid => some s.disconnect
      | .valid => some { s.closePeer with connectedIntent := true }
  | .closePeer => if s.connectedIntent then some s.closePeer else none
  -- the handlers of a connection are taken away when it is closed
  | .track => if s.connectedIntent then some { s with srcObject := true } else none
  | .setViewMode live => some (s.setViewMode live)
  -- the days are shown in the replay view
  | .chooseDay => if s.live then none else some s.playPlaylist
  | .listed id answer =>
    (s.listRuns.find? fun r => decide (r.id = id)).map fun r =>
      { s with listRuns := s.listRuns.filter fun r => decide (r.id ≠ id) }.resumeList r answer
  | .resume token answer =>
    (s.playRuns.find? fun r => decide (r.token = token)).map fun r =>
      { s with
        playRuns := s.playRuns.filter fun r => decide (r.token ≠ token) }.resumeRun r answer
  | .manifestParsed id =>
    (s.made.find? fun p => decide (p.id = id)).map fun p => s.startPlayback p.token

end Page

/-! ### One player -/

/-- The player belongs to the latest call, and to the replay view. -/
structure OnePlayer (s : Page) : Prop where
  /-- the players that were not destroyed are that of the page -/
  alive : s.alive = s.hlsPlayer.toList
  /-- which the latest call has made, and not in the live view -/
  latest : ∀ id ∈ s.hlsPlayer, ⟨id, s.replayToken⟩ ∈ s.made ∧ s.live = false
  /-- a call makes one player at most -/
  once : (s.made.map Player.token).Nodup
  /-- only the latest call starts the playback, and not in the live view -/
  plays : ∀ play ∈ s.plays, play.token = play.replayToken ∧ play.live = false

structure Inv (s : Page) : Prop extends OnePlayer s where
  made_le : ∀ p ∈ s.made, p.token ≤ s.replayToken
  /-- in the live view all calls that made a player were overtaken -/
  made_lt : s.live = true → ∀ p ∈ s.made, p.token < s.replayToken
  runs_le : ∀ r ∈ s.playRuns, r.token ≤ s.replayToken
  runs_nodup : (s.playRuns.map PlayRun.token).Nodup
  /-- a call that waits has made no player -/
  apart : ∀ r ∈ s.playRuns, ∀ p ∈ s.made, r.token ≠ p.token

theorem inv_init : Inv init where
  alive := rfl
  latest := by simp [init]
  once := by simp [init]
  plays := by simp [init]
  made_le := by simp [init]
  made_lt := by simp [init]
  runs_le := by simp [init]
  runs_nodup := by simp [init]
  apart := by simp [init]

variable {s t : Page}

theorem inv_disconnect (h : Inv s) : Inv s.disconnect := { h with }

theorem inv_loadReplayDays (h : Inv s) : Inv s.loadReplayDays := { h with }

/-- A new token overtakes all calls, and their player goes. -/
theorem inv_stopReplay (h : Inv s) (live : Bool) : Inv { s with live := live }.stopReplay where
  alive := by
    rw [Page.stopReplay, h.alive]
    cases s.hlsPlayer <;> simp
  latest := by simp [Page.stopReplay]
  once := h.once
  plays := h.plays
  made_le := fun p hp => Nat.le_succ_of_le (h.made_le p hp)
  made_lt := fun _ p hp => Nat.lt_succ_of_le (h.made_le p hp)
  runs_le := fun r hr => Nat.le_succ_of_le (h.runs_le r hr)
  runs_nodup := h.runs_nodup
  apart := h.apart

/-- A call that waits, with a token that no other one has. -/
theorem inv_wait (h : Inv s) (r : PlayRun) (hle : r.token ≤ s.replayToken)
    (hnew : ∀ q ∈ s.playRuns, q.token ≠ r.token) (hmade : ∀ p ∈ s.made, r.token ≠ p.token) :
    Inv { s with playRuns := r :: s.playRuns } := by
  refine { h with runs_le := ?_, runs_nodup := ?_, apart := ?_ }
  · intro q hq
    rcases List.mem_cons.mp hq with rfl | hq
    · exact hle
    · exact h.runs_le q hq
  · refine List.nodup_cons.mpr ⟨?_, h.runs_nodup⟩
    intro hmem
    obtain ⟨q, hq, htoken⟩ := List.mem_map.mp hmem
    exact hnew q hq htoken
  · intro q hq p hp
    rcases List.mem_cons.mp hq with rfl | hq
    · exact hmade p hp
    · exact h.apart q hq p hp

theorem inv_playPlaylist (h : Inv s) : Inv s.playPlaylist := by
  refine inv_wait (inv_stopReplay h s.live) _ (Nat.le_refl _) ?_ ?_
  · exact fun q hq => Nat.ne_of_lt (Nat.lt_succ_of_le (h.runs_le q hq))
  · exact fun p hp => Nat.ne_of_gt (Nat.lt_succ_of_le (h.made_le p hp))

theorem inv_setViewMode (h : Inv s) (live : Bool) : Inv (s.setViewMode live) := by
  unfold Page.setViewMode
  split
  · exact h
  · cases live with
    | true => exact inv_stopReplay h true
    | false =>
      have hreplay : Inv { s with live := false } :=
        { h with latest := fun id hid => ⟨(h.latest id hid).1, rfl⟩, made_lt := by simp }
      simp only [Bool.false_eq_true, if_false]
      split
      · exact inv_loadReplayDays (inv_disconnect hreplay)
      · exact inv_loadReplayDays hreplay

theorem inv_startPlayback (h : Inv s) {token : ℕ}
    (hlive : token = s.replayToken → s.live = false) : Inv (s.startPlayback token) := by
  unfold Page.startPlayback
  split
  · exact h
  · next htoken =>
    rw [not_not] at htoken
    refine { h with plays := ?_ }
    intro play hplay
    rcases List.mem_cons.mp hplay with rfl | hplay
    · exact ⟨htoken, hlive htoken⟩
    · exact h.plays play hplay

theorem overtaken_eq_false {token : ℕ} (h : ¬ s.overtaken token = true) :
    token = s.replayToken ∧ s.live = false := by
  simpa [Page.overtaken] using h

/-- The latest call makes the player, where there is none yet. -/
theorem inv_make_player (h : Inv s) (hreplay : s.live = false)
    (hmade : ∀ p ∈ s.made, s.replayToken ≠ p.token)
    (hruns : ∀ q ∈ s.playRuns, q.token ≠ s.replayToken) :
    Inv { s with
      hlsPlayer := some s.made.length
      made := ⟨s.made.length, s.replayToken⟩ :: s.made
      alive := s.made.length :: s.alive } := by
  have hnone : s.hlsPlayer = none := by
    cases hplayer : s.hlsPlayer with
    | none => rfl
    | some id => exact absurd rfl (hmade _ (h.latest id hplayer).1)
  refine { h with alive := ?_, latest := ?_, once := ?_, made_le := ?_, made_lt := ?_, apart := ?_ }
  · rw [h.alive, hnone]
    rfl
  · rintro id ⟨⟩
    exact ⟨List.mem_cons_self, hreplay⟩
  · refine List.nodup_cons.mpr ⟨?_, h.once⟩
    intro hmem
    obtain ⟨p, hp, htoken⟩ := List.mem_map.mp hmem
    exact hmade p hp htoken.symm
  · intro p hp
    rcases List.mem_cons.mp hp with rfl | hp
    · exact Nat.le_refl _
    · exact h.made_le p hp
  · intro hlive
    rw [show s.live = true from hlive] at hreplay
    cases hreplay
  · intro q hq p hp
    rcases List.mem_cons.mp hp with rfl | hp
    · exact hruns q hq
    · exact h.apart q hq p hp

/-- A call that is not waiting any more goes on. -/
theorem inv_resumeRun (h : Inv s) (r : PlayRun) (answer : PlayAnswer)
    (hle : r.token ≤ s.replayToken) (hnew : ∀ q ∈ s.playRuns, q.token ≠ r.token)
    (hmade : ∀ p ∈ s.made, r.token ≠ p.token) : Inv (s.resumeRun r answer) := by
  obtain ⟨token, stage⟩ := r
  cases answer with
  | rejected => cases stage <;> exact h
  | fulfilled segments support =>
    cases stage with
    | fetching => exact inv_wait h _ hle hnew hmade
    | reading =>
      unfold Page.resumeRun
      simp only
      split
      · exact h
      · exact inv_wait h _ hle hnew hmade
    | loadingHls =>
      unfold Page.resumeRun
      simp only
      split
      · exact h
      · next hcurrent =>
        obtain ⟨rfl, hreplay⟩ := overtaken_eq_false hcurrent
        cases support with
        | hls => exact inv_make_player h hreplay hmade hnew
        | native =>
          have hsrc : Inv { s with src := some s.replayToken } := { h with }
          exact inv_startPlayback hsrc fun _ => hreplay
        | none => exact h

theorem inv_resumeList (h : Inv s) (r : ListRun) (answer : ListAnswer) :
    Inv (s.resumeList r answer) := by
  obtain ⟨id, stage⟩ := r
  cases answer with
  | rejected => cases stage <;> exact h
  | fulfilled days =>
    cases stage with
    | fetching => exact { h with }
    | parsing =>
      unfold Page.resumeList
      simp only
      split
      · exact h
      · exact inv_playPlaylist h

theorem inv_step {i : Label} (h : Inv s) (hstep : s.step i = some t) : Inv t := by
  cases i with
  | go address =>
    simp only [Page.step] at hstep
    split at hstep
    · obtain rfl := Option.some_inj.mp hstep
      exact inv_loadReplayDays h
    · split at hstep
      · obtain rfl := Option.some_inj.mp hstep
        exact inv_disconnect h
      · cases address <;> obtain rfl := Option.some_inj.mp hstep <;> exact { h with }
  | closePeer =>
    simp only [Page.step] at hstep
    split at hstep
    · obtain rfl := Option.some_inj.mp hstep
      exact { h with }
    · cases hstep
  | track =>
    simp only [Page.step] at hstep
    split at hstep
    · obtain rfl := Option.some_inj.mp hstep
      exact { h with }
    · cases hstep
  | setViewMode live =>
    obtain rfl := Option.some_inj.mp hstep
    exact inv_setViewMode h live
  | chooseDay =>
    simp only [Page.step] at hstep
    split at hstep
    · cases hstep
    · obtain rfl := Option.some_inj.mp hstep
      exact inv_playPlaylist h
  | listed id answer =>
    obtain ⟨r, -, rfl⟩ := Option.map_eq_some_iff.mp hstep
    have hrest : Inv { s with
        listRuns := s.listRuns.filter fun r => decide (r.id ≠ id) } := { h with }
    exact inv_resumeList hrest r answer
  | resume token answer =>
    obtain ⟨r, hfind, rfl⟩ := Option.map_eq_some_iff.mp hstep
    have hr := List.mem_of_find?_eq_some hfind
    have htoken : r.token = token := by simpa using List.find?_some hfind
    have hsub := (List.filter_sublist (p := fun q : PlayRun => decide (q.token ≠ token))
      (l := s.playRuns))
    have hrest : Inv { s with
        playRuns := s.playRuns.filter fun r => decide (r.token ≠ token) } :=
      { h with
        runs_le := fun q hq => h.runs_le q (hsub.subset hq)
        runs_nodup := h.runs_nodup.sublist (hsub.map _)
        apart := fun q hq => h.apart q (hsub.subset hq) }
    refine inv_resumeRun hrest r answer (h.runs_le r hr) ?_ (h.apart r hr)
    intro q hq
    rw [htoken]
    simpa using (List.mem_filter.mp hq).2
  | manifestParsed id =>
    obtain ⟨p, hfind, rfl⟩ := Option.map_eq_some_iff.mp hstep
    refine inv_startPlayback h fun htoken => ?_
    have hmem := List.mem_of_find?_eq_some hfind
    cases hlive : s.live with
    | false => rfl
    | true =>
      have hlt := h.made_lt hlive p hmem
      rw [htoken] at hlt
      exact absurd hlt (Nat.lt_irrefl _)

/-- **One player.**  In every state of every run at most one player exists: that of the
latest call of `playPlaylist`, and not in the live view.  A call that was overtaken, or that
the view was left under, makes no player and does not start the playback. -/
theorem one_player (labels : List Label) :
    Along Page.step (fun s _ => OnePlayer s) init labels :=
  along_of_invariant (fun _ _ _ => inv_step) (fun _ _ h => h.toOnePlayer) inv_init

/-! ### The live picture -/

/-- The event closes the connection of the live view. -/
def ClosesPeer : Label → Prop
  | .go _ | .closePeer => True
  | .setViewMode live => live = false
  | _ => False

/-- Days that were asked for in the replay view are listed now. -/
def ListedLate (s : Page) : Label → Prop
  | .listed id (.fulfilled days) =>
    days ≠ 0 ∧ ∃ r, s.listRuns.find? (fun r => decide (r.id = id)) = some r ∧ r.stage = .parsing
  | _ => False

/-- The live stream is shown only while the user wants to be connected. -/
def Shown (s : Page) : Prop := s.srcObject = true → s.connectedIntent = true

theorem shown_of_eq (h : Shown s) (hsrc : t.srcObject = s.srcObject)
    (hintent : t.connectedIntent = s.connectedIntent) : Shown t := by
  unfold Shown
  rwa [hsrc, hintent]

theorem startPlayback_eq (token : ℕ) :
    (s.startPlayback token).srcObject = s.srcObject ∧
      (s.startPlayback token).connectedIntent = s.connectedIntent := by
  unfold Page.startPlayback
  split <;> exact ⟨rfl, rfl⟩

/-- A call of `playPlaylist` that goes on leaves the live stream alone. -/
theorem resumeRun_eq (r : PlayRun) (answer : PlayAnswer) :
    (s.resumeRun r answer).srcObject = s.srcObject ∧
      (s.resumeRun r answer).connectedIntent = s.connectedIntent := by
  obtain ⟨token, stage⟩ := r
  cases answer with
  | rejected => cases stage <;> exact ⟨rfl, rfl⟩
  | fulfilled segments support =>
    cases stage with
    | fetching => exact ⟨rfl, rfl⟩
    | reading =>
      unfold Page.resumeRun
      simp only
      split <;> exact ⟨rfl, rfl⟩
    | loadingHls =>
      unfold Page.resumeRun
      simp only
      split
      · exact ⟨rfl, rfl⟩
      · cases support with
        | hls => exact ⟨rfl, rfl⟩
        | native => exact startPlayback_eq (s := { s with src := some token }) token
        | none => exact ⟨rfl, rfl⟩

/-- A call of `loadReplayDays` takes it away when it has found a day. -/
theorem resumeList_eq (r : ListRun) (answer : ListAnswer) :
    (s.resumeList r answer).connectedIntent = s.connectedIntent ∧
      ((∃ days, answer = .fulfilled days ∧ days ≠ 0 ∧ r.stage = .parsing) ∧
          (s.resumeList r answer).srcObject = false ∨
        (∀ days, answer = .fulfilled days → days ≠ 0 → r.stage ≠ .parsing) ∧
          (s.resumeList r answer).srcObject = s.srcObject) := by
  obtain ⟨id, stage⟩ := r
  cases answer with
  | rejected => cases stage <;> exact ⟨rfl, .inr ⟨by simp, rfl⟩⟩
  | fulfilled days =>
    cases stage with
    | fetching => exact ⟨rfl, .inr ⟨by simp, rfl⟩⟩
    | parsing =>
      unfold Page.resumeList
      simp only
      split
      · next hdays => exact ⟨rfl, .inr ⟨by simp [hdays], rfl⟩⟩
      · next hdays => exact ⟨rfl, .inl ⟨⟨days, rfl, hdays, trivial⟩, rfl⟩⟩

theorem shown_step {i : Label} (h : Shown s) (hstep : s.step i = some t) : Shown t := by
  cases i with
  | go address =>
    simp only [Page.step] at hstep
    split at hstep
    · obtain rfl := Option.some_inj.mp hstep
      exact shown_of_eq h rfl rfl
    · split at hstep
      · obtain rfl := Option.some_inj.mp hstep
        exact fun hsrc => absurd hsrc (by simp [Page.disconnect, Page.closePeer])
      · cases address <;> obtain rfl := Option.some_inj.mp hstep
        · exact h
        · exact fun hsrc => absurd hsrc (by simp [Page.disconnect, Page.closePeer])
        · exact fun _ => rfl
  | closePeer =>
    simp only [Page.step] at hstep
    split at hstep
    · obtain rfl := Option.some_inj.mp hstep
      exact fun hsrc => absurd hsrc (by simp [Page.closePeer])
    · cases hstep
  | track =>
    simp only [Page.step] at hstep
    split at hstep
    · next hintent =>
      obtain rfl := Option.some_inj.mp hstep
      exact fun _ => hintent
    · cases hstep
  | setViewMode live =>
    obtain rfl := Option.some_inj.mp hstep
    unfold Page.setViewMode
    split
    · exact h
    · cases live with
      | true => exact fun hsrc => absurd hsrc (by simp [Page.stopReplay])
      | false =>
        simp only [Bool.false_eq_true, if_false]
        split
        · exact fun hsrc => absurd hsrc
            (by simp [Page.disconnect, Page.closePeer, Page.loadReplayDays])
        · exact shown_of_eq h rfl rfl
  | chooseDay =>
    simp only [Page.step] at hstep
    split at hstep
    · cases hstep
    · obtain rfl := Option.some_inj.mp hstep
      exact fun hsrc => absurd hsrc (by simp [Page.playPlaylist, Page.stopReplay])
  | listed id answer =>
    obtain ⟨r, -, rfl⟩ := Option.map_eq_some_iff.mp hstep
    obtain ⟨hintent, ⟨-, hsrc⟩ | ⟨-, hsrc⟩⟩ := resumeList_eq (s := { s with
      listRuns := s.listRuns.filter fun r => decide (r.id ≠ id) }) r answer
    · intro hshown
      rw [hsrc] at hshown
      cases hshown
    · exact shown_of_eq h hsrc hintent
  | resume token answer =>
    obtain ⟨r, -, rfl⟩ := Option.map_eq_some_iff.mp hstep
    obtain ⟨hsrc, hintent⟩ := resumeRun_eq (s := { s with
      playRuns := s.playRuns.filter fun r => decide (r.token ≠ token) }) r answer
    exact shown_of_eq h hsrc hintent
  | manifestParsed id =>
    obtain ⟨p, -, rfl⟩ := Option.map_eq_some_iff.mp hstep
    exact shown_of_eq h (startPlayback_eq _).1 (startPlayback_eq _).2

theorem picture_lost_iff {i : Label} (h : Shown s) (hlive : s.live = true)
    (hpicture : s.srcObject = true) (hstep : s.step i = some t) :
    t.srcObject = false ↔ ClosesPeer i ∨ ListedLate s i := by
  cases i with
  | go address =>
    have ht : s.step (.go address) = some s.disconnect := by simp [Page.step, hlive, h hpicture]
    obtain rfl := Option.some_inj.mp (ht.symm.trans hstep)
    simp [ClosesPeer, Page.disconnect, Page.closePeer]
  | closePeer =>
    have ht : s.step .closePeer = some s.closePeer := if_pos (h hpicture)
    obtain rfl := Option.some_inj.mp (ht.symm.trans hstep)
    simp [ClosesPeer, Page.closePeer]
  | track =>
    have ht : s.step .track = some { s with srcObject := true } := if_pos (h hpicture)
    obtain rfl := Option.some_inj.mp (ht.symm.trans hstep)
    simp [ClosesPeer, ListedLate]
  | setViewMode live =>
    obtain rfl := Option.some_inj.mp hstep
    cases live with
    | true => simp [Page.setViewMode, hlive, hpicture, ClosesPeer, ListedLate]
    | false =>
      simp [Page.setViewMode, hlive, h hpicture, ClosesPeer, Page.loadReplayDays,
        Page.disconnect, Page.closePeer]
  | chooseDay => simp [Page.step, hlive] at hstep
  | listed id answer =>
    obtain ⟨r, hfind, rfl⟩ := Option.map_eq_some_iff.mp hstep
    obtain ⟨-, ⟨⟨days, rfl, hdays, hstage⟩, hsrc⟩ | ⟨hnot, hsrc⟩⟩ := resumeList_eq (s := { s with
      listRuns := s.listRuns.filter fun r => decide (r.id ≠ id) }) r answer
    · exact iff_of_true hsrc (.inr ⟨hdays, r, hfind, hstage⟩)
    · refine iff_of_false (by rw [hsrc]; simp [hpicture]) ?_
      rintro (hcloses | hlate)
      · exact hcloses
      · cases answer with
        | rejected => exact hlate
        | fulfilled days =>
          obtain ⟨hdays, r', hfind', hstage⟩ := hlate
          obtain rfl := Option.some_inj.mp (hfind.symm.trans hfind')
          exact hnot days rfl hdays hstage
  | resume token answer =>
    obtain ⟨r, -, rfl⟩ := Option.map_eq_some_iff.mp hstep
    obtain ⟨hsrc, -⟩ := resumeRun_eq (s := { s with
      playRuns := s.playRuns.filter fun r => decide (r.token ≠ token) }) r answer
    rw [hsrc]
    simp [hpicture, ClosesPeer, ListedLate]
  | manifestParsed id =>
    obtain ⟨p, -, rfl⟩ := Option.map_eq_some_iff.mp hstep
    rw [(startPlayback_eq _).1]
    simp [hpicture, ClosesPeer, ListedLate]

/-- **The live picture** goes, in every run, exactly when its connection is closed, or when
a call of `loadReplayDays` that was made in the replay view has found a day. -/
theorem live_picture_kept (labels : List Label) :
    Along Page.step (fun s i => s.live = true → s.srcObject = true →
      ∀ t, s.step i = some t → (t.srcObject = false ↔ ClosesPeer i ∨ ListedLate s i))
      init labels :=
  along_of_invariant (fun _ _ _ => shown_step)
    (fun _ _ h hlive hpicture _ hstep => picture_lost_iff h hlive hpicture hstep)
    (P := Shown) (by simp [Shown, init])

/-- The recordings are listed after the user has gone back to the live view. -/
example :
    let labels : List Label := [.setViewMode false, .listed 0 (.fulfilled 2),
      .setViewMode true, .go .valid, .track]
    (run Page.step init labels).map Page.srcObject = some true ∧
      (run Page.step init (labels ++ [.listed 0 (.fulfilled 2)])).map Page.srcObject =
        some false := by
  decide

end Replay

end IpcMini
