/-
The pieces in which a server's stream arrives (`protocol/webrtc/ws_client.cpp`).

Until the response to its handshake is complete the client gathers what it
receives, and gives up when it has gathered more than 8192 bytes.  The piece that
ends the response may bring frames, which count as well.

* `cut_append`, `cut_of_le` — the end of the response is found as soon as it is
  there;
* `gathered` — the bytes in the buffer when the response is complete;
* `ClosesSilently` — frames that the client ignores up to one that makes it close;
* `receive_all_connecting` — what comes of the pieces of a stream;
* **`splits_agree_iff`** — the pieces make no difference to single bytes, exactly
  unless the frames push the buffer over its limit and would have mattered.
-/
import IpcMini.WsClient

namespace IpcMini

namespace WsClient

/-! ### The end of the response -/

variable {pattern s t before behind : List UInt8}

/-- What was found stands there. -/
theorem cut_eq (h : cut pattern s = some (before, behind)) : s = before ++ pattern ++ behind := by
  induction s generalizing before with
  | nil => exact absurd h (by simp [cut])
  | cons byte s ih =>
    rw [cut] at h
    split at h
    next hprefix =>
      obtain ⟨rfl, rfl⟩ := Prod.mk.inj (Option.some.inj h)
      obtain ⟨rest, hrest⟩ := List.isPrefixOf_iff_prefix.mp hprefix
      rw [← hrest, List.drop_left, List.nil_append]
    next hprefix =>
      obtain ⟨⟨front, back⟩, hcut, heq⟩ := Option.map_eq_some_iff.mp h
      obtain ⟨rfl, rfl⟩ := Prod.mk.inj heq
      rw [ih hcut]
      rfl

/-- What is found is found again when more has arrived. -/
theorem cut_append (h : cut pattern s = some (before, behind)) (t : List UInt8) :
    cut pattern (s ++ t) = some (before, behind ++ t) := by
  induction s generalizing before with
  | nil => exact absurd h (by simp [cut])
  | cons byte s ih =>
    rw [cut] at h
    rw [List.cons_append, cut]
    split at h
    next hprefix =>
      obtain ⟨rfl, rfl⟩ := Prod.mk.inj (Option.some.inj h)
      obtain ⟨rest, hrest⟩ := List.isPrefixOf_iff_prefix.mp hprefix
      have hmore : pattern.isPrefixOf (byte :: (s ++ t)) = true := by
        rw [← List.cons_append, ← hrest, List.append_assoc]
        exact List.isPrefixOf_iff_prefix.mpr (List.prefix_append _ _)
      rw [if_pos hmore, ← List.cons_append, ← hrest, List.append_assoc, List.drop_left,
        List.drop_left]
    next hprefix =>
      obtain ⟨⟨front, back⟩, hcut, heq⟩ := Option.map_eq_some_iff.mp h
      obtain ⟨rfl, rfl⟩ := Prod.mk.inj heq
      -- the pattern fits into `s`, so more bytes do not make it start earlier
      have hle : pattern.length ≤ (byte :: s).length := by
        rw [cut_eq hcut]
        simp only [List.length_cons, List.length_append]
        omega
      have hmore : ¬ pattern.isPrefixOf (byte :: (s ++ t)) = true := by
        intro hlong
        refine hprefix (List.isPrefixOf_iff_prefix.mpr ?_)
        exact List.prefix_of_prefix_length_le (List.isPrefixOf_iff_prefix.mp hlong)
          (List.prefix_append (byte :: s) t) hle
      rw [if_neg hmore, ih hcut]
      rfl

/-- The pattern is found where it stands, or earlier. -/
theorem cut_of_mem (before pattern behind : List UInt8) (hp : pattern ≠ []) :
    ∃ r, cut pattern (before ++ pattern ++ behind) = some r := by
  induction before with
  | nil =>
    obtain ⟨first, rest, rfl⟩ := List.exists_cons_of_ne_nil hp
    refine ⟨([], behind), ?_⟩
    rw [List.nil_append, List.cons_append, cut, ← List.cons_append, List.drop_left,
      if_pos (List.isPrefixOf_iff_prefix.mpr (List.prefix_append _ _))]
  | cons byte before ih =>
    obtain ⟨r, hr⟩ := ih
    rw [List.cons_append, List.cons_append, cut, hr]
    split
    · exact ⟨_, rfl⟩
    · exact ⟨_, rfl⟩

/-- The end of the response is found once it has arrived, and not before. -/
theorem cut_of_le (hp : pattern ≠ []) (h : cut pattern (s ++ t) = some (before, behind)) :
    (before.length + pattern.length ≤ s.length →
      ∃ arrived, cut pattern s = some (before, arrived) ∧ behind = arrived ++ t) ∧
    (s.length < before.length + pattern.length → cut pattern s = none) := by
  have hstands := cut_eq h
  constructor
  · intro hle
    have hfront : before ++ pattern <+: s := by
      refine List.prefix_of_prefix_length_le ⟨behind, hstands.symm⟩ (List.prefix_append s t) ?_
      rw [List.length_append]
      exact hle
    obtain ⟨arrived, rfl⟩ := hfront
    obtain ⟨⟨front, back⟩, hcut⟩ := cut_of_mem before pattern arrived hp
    obtain ⟨rfl, rfl⟩ := Prod.mk.inj (Option.some.inj (h.symm.trans (cut_append hcut t)))
    exact ⟨back, hcut, rfl⟩
  · intro hlt
    by_contra hne
    obtain ⟨⟨front, back⟩, hcut⟩ := Option.ne_none_iff_exists'.mp hne
    obtain ⟨rfl, -⟩ := Prod.mk.inj (Option.some.inj (h.symm.trans (cut_append hcut t)))
    have hlen := congrArg List.length (cut_eq hcut)
    simp only [List.length_append] at hlen
    omega

/-! ### Connecting -/

/-- A client that has gathered a part of the response. -/
def Client.gathering (handshakeBuffer : List UInt8) : Client :=
  ⟨true, false, false, handshakeBuffer, []⟩

/-- The bytes in the buffer when the first `header` bytes are there, after `n`
bytes and the pieces. -/
def gathered (header : ℕ) : ℕ → List (List UInt8) → ℕ
  | n, [] => n
  | n, piece :: pieces =>
    if header ≤ n + piece.length then n + piece.length
    else gathered header (n + piece.length) pieces

/-- What comes of a response with its blank line, and of the frames behind it. -/
def respond (joined : Bool) (before behind : List UInt8) : Client × List Event :=
  if cut switching (before ++ blankLine) = none then (.closed, [.state false])
  else if !joined then (.closed, [.state true])
  else ofDrain (.state true :: (frames.drain behind).1, (frames.drain behind).2)

theorem foldl_receive_closed (joined : Bool) (events : List Event) (pieces : List (List UInt8)) :
    pieces.foldl (receive joined) (.closed, events) = (.closed, events) := by
  induction pieces with
  | nil => rfl
  | cons piece pieces ih => exact ih

/-- The events before do not matter. -/
theorem receive_events (joined : Bool) (c : Client) (events : List Event) (piece : List UInt8) :
    receive joined (c, events) piece =
      ((receive joined (c, []) piece).1, events ++ (receive joined (c, []) piece).2) := by
  rw [receive, receive]
  split
  · rfl
  · simp

theorem foldl_receive_events (joined : Bool) (pieces : List (List UInt8)) (c : Client)
    (events : List Event) :
    pieces.foldl (receive joined) (c, events) =
      ((receiveAll joined c pieces).1, events ++ (receiveAll joined c pieces).2) := by
  induction pieces generalizing c events with
  | nil => simp [receiveAll]
  | cons piece pieces ih =>
    rw [receiveAll, List.foldl_cons, List.foldl_cons, receive_events, ih, ih, List.append_assoc]

theorem foldl_receive_append (joined : Bool) (pieces : List (List UInt8)) (c : Client)
    (earlier events : List Event) :
    pieces.foldl (receive joined) (c, earlier ++ events) =
      ((pieces.foldl (receive joined) (c, events)).1,
        earlier ++ (pieces.foldl (receive joined) (c, events)).2) := by
  rw [foldl_receive_events, foldl_receive_events, List.append_assoc]

theorem receive_gathering (joined : Bool) {buffer piece : List UInt8} (hpiece : piece ≠ []) :
    receive joined (.gathering buffer, []) piece =
      handleTcpData joined piece (.gathering buffer) := by
  have hempty : piece.isEmpty = false := by simpa using hpiece
  rw [receive, Client.gathering, hempty]
  rfl

theorem handle_gathering (joined : Bool) (buffer piece : List UInt8) :
    handleTcpData joined piece (.gathering buffer) =
      if 8192 < (buffer ++ piece).length then (.closed, [.state false])
      else
        match cut blankLine (buffer ++ piece) with
        | none => (.gathering (buffer ++ piece), [])
        | some (before, behind) => respond joined before behind := by
  rw [handleTcpData, if_neg (by simp [Client.gathering])]
  show (if 8192 < (buffer ++ piece).length then _ else _) = _
  refine if_congr Iff.rfl rfl ?_
  show (match cut blankLine (buffer ++ piece) with | none => _ | some (before, behind) => _) = _
  rcases cut blankLine (buffer ++ piece) with _ | ⟨before, behind⟩
  · rfl
  dsimp only
  rw [respond]
  simp only [Option.isNone_iff_eq_none]
  split
  · rfl
  split
  · rfl
  · simp only [Client.gathering, List.nil_append, consumeFrames]
    rcases frames.drain behind with ⟨events, _ | rest⟩ <;> rfl

/-- After the response the pieces are drained as one stream. -/
theorem foldl_respond (joined : Bool) (before behind : List UInt8) (pieces : List (List UInt8)) :
    pieces.foldl (receive joined) (respond joined before behind) =
      respond joined before (behind ++ pieces.flatten) := by
  rw [respond, respond]
  split
  · exact foldl_receive_closed joined _ pieces
  split
  · exact foldl_receive_closed joined _ pieces
  · have hdrain := foldl_receive_ofDrain joined pieces behind
    rw [Deframer.foldl_resume] at hdrain
    have hevents : ∀ state : List Event × Option (List UInt8),
        ofDrain (.state true :: state.1, state.2) =
          ((ofDrain state).1, [.state true] ++ (ofDrain state).2) := fun _ => rfl
    rw [hevents, hevents, foldl_receive_append, ← hdrain]

/-- **What comes of the pieces** of a stream with a response, from a part of it
on: the frames behind the response are drained as a whole, unless the buffer goes
over its limit when the response is complete. -/
theorem foldl_receive_response (joined : Bool) {pieces : List (List UInt8)} :
    ∀ {buffer before behind : List UInt8}, (∀ piece ∈ pieces, piece ≠ []) →
      cut blankLine (buffer ++ pieces.flatten) = some (before, behind) →
      buffer.length < before.length + 4 → before.length + 4 ≤ 8192 →
      pieces.foldl (receive joined) (.gathering buffer, []) =
        if 8192 < gathered (before.length + 4) buffer.length pieces then (.closed, [.state false])
        else respond joined before behind := by
  have hblank : blankLine ≠ [] := by simp [blankLine]
  induction pieces with
  | nil =>
    intro buffer before behind _ hcut hlt
    rw [List.flatten_nil] at hcut
    have hnone := (cut_of_le hblank hcut).2 hlt
    rw [List.append_nil, hnone] at hcut
    exact absurd hcut (by simp)
  | cons piece pieces ih =>
    intro buffer before behind hne hcut hlt hheader
    rw [List.flatten_cons, ← List.append_assoc] at hcut
    have hlen : (buffer ++ piece).length = buffer.length + piece.length := List.length_append
    rw [List.foldl_cons, receive_gathering joined (hne piece List.mem_cons_self), handle_gathering,
      gathered, ← hlen]
    by_cases hdone : before.length + 4 ≤ (buffer ++ piece).length
    · -- the response is complete with this piece
      obtain ⟨arrived, harrived, hbehind⟩ := (cut_of_le hblank hcut).1 hdone
      rw [if_pos hdone, harrived]
      split
      · exact foldl_receive_closed joined _ pieces
      · rw [foldl_respond, hbehind]
    · have hmore : (buffer ++ piece).length < before.length + 4 := Nat.lt_of_not_le hdone
      rw [if_neg hdone, if_neg (by omega), (cut_of_le hblank hcut).2 hmore]
      exact ih (fun p hp => hne p (List.mem_cons_of_mem _ hp)) hcut hmore hheader

/-- Without a blank line the client waits for more, or gives up. -/
theorem foldl_receive_waiting (joined : Bool) {pieces : List (List UInt8)} :
    ∀ {buffer : List UInt8}, (∀ piece ∈ pieces, piece ≠ []) →
      cut blankLine (buffer ++ pieces.flatten) = none → buffer.length ≤ 8192 →
      pieces.foldl (receive joined) (.gathering buffer, []) =
        if 8192 < (buffer ++ pieces.flatten).length then (.closed, [.state false])
        else (.gathering (buffer ++ pieces.flatten), []) := by
  induction pieces with
  | nil =>
    intro buffer _ _ hle
    rw [List.flatten_nil, List.append_nil, if_neg (Nat.not_lt.mpr hle)]
    rfl
  | cons piece pieces ih =>
    intro buffer hne hcut hle
    rw [List.flatten_cons, ← List.append_assoc] at hcut ⊢
    rw [List.foldl_cons, receive_gathering joined (hne piece List.mem_cons_self), handle_gathering]
    split
    next hover =>
      have hmore : 8192 < (buffer ++ piece ++ pieces.flatten).length := by
        rw [List.length_append]
        omega
      rw [if_pos hmore]
      exact foldl_receive_closed joined _ pieces
    next hfits =>
      have hnone : cut blankLine (buffer ++ piece) = none := by
        by_contra hsome
        obtain ⟨⟨before, behind⟩, hfound⟩ := Option.ne_none_iff_exists'.mp hsome
        exact absurd ((cut_append hfound pieces.flatten).symm.trans hcut) (by simp)
      rw [hnone]
      exact ih (fun p hp => hne p (List.mem_cons_of_mem _ hp)) hcut (Nat.not_lt.mp hfits)

/-! ### Single bytes -/

/-- The stream, a byte at a time. -/
def singleBytes (stream : List UInt8) : List (List UInt8) := stream.map fun byte => [byte]

theorem singleBytes_ne (stream : List UInt8) : ∀ piece ∈ singleBytes stream, piece ≠ [] := by
  intro piece hpiece
  obtain ⟨byte, -, rfl⟩ := List.mem_map.mp hpiece
  simp

theorem flatten_singleBytes (stream : List UInt8) : (singleBytes stream).flatten = stream := by
  induction stream with
  | nil => rfl
  | cons byte stream ih => exact congrArg (byte :: ·) ih

/-- Byte by byte nothing but the response is gathered. -/
theorem gathered_singleBytes {header n : ℕ} {stream : List UInt8} (hlt : n < header)
    (hle : header ≤ n + stream.length) : gathered header n (singleBytes stream) = header := by
  induction stream generalizing n with
  | nil => exact absurd hle (by simpa using hlt)
  | cons byte stream ih =>
    have hone : n + [byte].length = n + 1 := rfl
    rw [singleBytes, List.map_cons, gathered, hone]
    rw [List.length_cons] at hle
    split
    next hdone => omega
    next hmore => exact ih (by omega) (by omega)

/-! ### What the pieces make a difference to -/

def messages (events : List Event) : List (List UInt8) :=
  events.filterMap fun
    | .message text => some text
    | _ => none

def pongs (events : List Event) : List (List UInt8) :=
  events.filterMap fun
    | .pong payload => some payload
    | _ => none

/-- The same messages, the same pongs, and the same decision to close. -/
structure Agrees (a b : Client × List Event) : Prop where
  messages : messages a.2 = messages b.2
  pongs : pongs a.2 = pongs b.2
  client : a.1.client = b.1.client

/-- The frames of the stream are ignored, up to one that closes the connection. -/
inductive ClosesSilently : List UInt8 → Prop
  | close {stream : List UInt8} : nextFrame stream = some ([.state false], none) →
    ClosesSilently stream
  | skip {stream rest : List UInt8} : nextFrame stream = some ([], some rest) →
    ClosesSilently rest → ClosesSilently stream

theorem react_cases (fin : Bool) (opcode : UInt8) (decoded rest : List UInt8) :
    react fin opcode decoded rest = ([.state false], none) ∨
    react fin opcode decoded rest = ([], some rest) ∨
    ∃ e, (e = .pong decoded ∨ e = .message decoded) ∧
      react fin opcode decoded rest = ([e], some rest) := by
  rw [react]
  split
  · exact .inl rfl
  split
  · exact .inr (.inr ⟨_, .inl rfl, rfl⟩)
  split
  · exact .inr (.inr ⟨_, .inr rfl, rfl⟩)
  · exact .inr (.inl rfl)

/-- A frame closes the connection, is ignored, is answered or is passed on. -/
theorem nextFrame_cases {stream : List UInt8} {r : List Event × Option (List UInt8)}
    (h : nextFrame stream = some r) :
    r = ([.state false], none) ∨ (∃ rest, r = ([], some rest)) ∨
      ∃ e rest decoded, (e = .pong decoded ∨ e = .message decoded) ∧ r = ([e], some rest) := by
  have hreact : ∀ fin opcode decoded rest, react fin opcode decoded rest = r →
      r = ([.state false], none) ∨ (∃ rest, r = ([], some rest)) ∨
        ∃ e rest decoded, (e = .pong decoded ∨ e = .message decoded) ∧ r = ([e], some rest) := by
    rintro fin opcode decoded rest rfl
    rcases react_cases fin opcode decoded rest with hr | hr | ⟨e, he, hr⟩
    · exact .inl hr
    · exact .inr (.inl ⟨rest, hr⟩)
    · exact .inr (.inr ⟨e, rest, decoded, he, hr⟩)
  rcases stream with _ | ⟨b0, _ | ⟨b1, body⟩⟩
  · exact absurd h (by simp [nextFrame])
  · exact absurd h (by simp [nextFrame])
  simp only [nextFrame] at h
  split_ifs at h
  · rcases body with _ | ⟨b2, _ | ⟨b3, body⟩⟩
    · exact absurd h (by simp)
    · exact absurd h (by simp)
    · obtain ⟨⟨decoded, rest⟩, -, hr⟩ := Option.map_eq_some_iff.mp h
      exact hreact _ _ decoded rest hr
  · exact .inl (Option.some_inj.mp h).symm
  · obtain ⟨⟨decoded, rest⟩, -, hr⟩ := Option.map_eq_some_iff.mp h
    exact hreact _ _ decoded rest hr

/-- The loop closes the connection without passing anything on. -/
theorem closesSilently_iff (stream : List UInt8) :
    ClosesSilently stream ↔ (frames.drain stream).2 = none ∧
      messages (frames.drain stream).1 = [] ∧ pongs (frames.drain stream).1 = [] := by
  constructor
  · intro h
    induction h with
    | close hclose =>
      rw [Deframer.drain_of_end frames hclose]
      exact ⟨rfl, rfl, rfl⟩
    | skip hskip _ ih =>
      rw [Deframer.drain_of_frame frames hskip]
      exact ih
  · induction hn : stream.length using Nat.strongRecOn generalizing stream with
    | _ n ih =>
      rintro ⟨hclosed, hmessages, hpongs⟩
      cases hnext : frames.next stream with
      | none =>
        rw [Deframer.drain_of_none frames hnext] at hclosed
        exact absurd hclosed (by simp)
      | some r =>
        rcases nextFrame_cases hnext with rfl | ⟨rest, rfl⟩ | ⟨e, rest, decoded, he, rfl⟩
        · exact .close hnext
        · rw [Deframer.drain_of_frame frames hnext] at hclosed hmessages hpongs
          have hlt : rest.length < n := hn ▸ frames.progress _ _ _ hnext
          exact .skip hnext (ih _ hlt rest rfl ⟨hclosed, hmessages, hpongs⟩)
        · -- something is passed on
          rw [Deframer.drain_of_frame frames hnext] at hmessages hpongs
          rcases he with rfl | rfl
          · exact absurd hpongs (by simp [pongs])
          · exact absurd hmessages (by simp [messages])

/-- Giving up is what the response would have led to as well. -/
theorem agrees_respond_iff (joined : Bool) (before behind : List UInt8) :
    Agrees (.closed, [.state false]) (respond joined before behind) ↔
      cut switching (before ++ blankLine) = none ∨ joined = false ∨ ClosesSilently behind := by
  rw [respond]
  split
  next hstatus => exact ⟨fun _ => .inl hstatus, fun _ => ⟨rfl, rfl, rfl⟩⟩
  next hstatus =>
  cases joined with
  | false => exact ⟨fun _ => .inr (.inl rfl), fun _ => ⟨rfl, rfl, rfl⟩⟩
  | true =>
    rw [closesSilently_iff, if_neg (by simp)]
    rcases frames.drain behind with ⟨events, rest⟩
    have hmessages : messages (.state true :: events) = messages events := rfl
    have hpongs : pongs (.state true :: events) = pongs events := rfl
    constructor
    · intro h
      refine .inr (.inr ⟨?_, ?_, ?_⟩)
      · cases rest with
        | none => rfl
        | some rest => exact absurd h.client (by simp [ofDrain, Client.closed, Client.opened])
      · exact hmessages.symm.trans h.messages.symm
      · exact hpongs.symm.trans h.pongs.symm
    · rintro (hnone | hfalse | ⟨rfl, hm, hp⟩)
      · exact absurd hnone hstatus
      · exact absurd hfalse (by simp)
      · exact ⟨(hmessages.trans hm).symm, (hpongs.trans hp).symm, rfl⟩

/-- If the stream has a response: the buffer that has it is within the limit, or
the response is refused, or the join fails, or the frames behind it are ignored
up to one that closes the connection. -/
def Undisturbed (joined : Bool) (stream : List UInt8) (pieces : List (List UInt8)) : Prop :=
  ∀ before behind, cut blankLine stream = some (before, behind) →
    gathered (before.length + 4) 0 pieces ≤ 8192 ∨
      cut switching (before ++ blankLine) = none ∨ joined = false ∨ ClosesSilently behind

/-- **When the pieces make no difference.**  For every stream whose response is
within the limit, cut into pieces that are not empty, the messages, the pongs and
the decision to close are those of the stream of single bytes, exactly when the
stream is undisturbed. -/
theorem splits_agree_iff (joined : Bool) {stream : List UInt8} {pieces : List (List UInt8)}
    (hstream : pieces.flatten = stream) (hne : ∀ piece ∈ pieces, piece ≠ [])
    (hheader : ∀ before behind, cut blankLine stream = some (before, behind) →
      before.length + 4 ≤ 8192) :
    Agrees (receiveAll joined .connecting pieces)
        (receiveAll joined .connecting (singleBytes stream)) ↔
      Undisturbed joined stream pieces := by
  have hflat := flatten_singleBytes stream
  cases hcut : cut blankLine stream with
  -- the blank line never comes, and both wait for it
  | none =>
    have hpieces := @foldl_receive_waiting joined pieces [] hne (by rw [hstream]; exact hcut)
      (Nat.zero_le _)
    have hsingle := @foldl_receive_waiting joined _ [] (singleBytes_ne stream)
      (by rw [hflat]; exact hcut) (Nat.zero_le _)
    rw [hstream] at hpieces
    rw [hflat] at hsingle
    refine ⟨fun _ before behind hsome => absurd (hsome.symm.trans hcut) (by simp), fun _ => ?_⟩
    rw [receiveAll, receiveAll]
    have hsame := hpieces.trans hsingle.symm
    exact ⟨congrArg (fun r => messages r.2) hsame, congrArg (fun r => pongs r.2) hsame,
      congrArg (fun r => r.1.client) hsame⟩
  | some r =>
    obtain ⟨before, behind⟩ := r
    have hsize := hheader before behind hcut
    have hlen : before.length + 4 ≤ stream.length := by
      rw [cut_eq hcut, List.length_append, List.length_append]
      exact Nat.le_add_right _ _
    have hpieces : receiveAll joined .connecting pieces =
        if 8192 < gathered (before.length + 4) 0 pieces then (.closed, [.state false])
        else respond joined before behind :=
      @foldl_receive_response joined pieces [] before behind hne (by rw [hstream]; exact hcut)
        (Nat.succ_pos _) hsize
    -- a byte at a time never gathers more than the response itself
    have hsingle : receiveAll joined .connecting (singleBytes stream) =
        respond joined before behind := by
      have hgathered : gathered (before.length + 4) 0 (singleBytes stream) = before.length + 4 :=
        gathered_singleBytes (Nat.succ_pos _) (by omega)
      refine (@foldl_receive_response joined _ [] before behind (singleBytes_ne stream)
        (by rw [hflat]; exact hcut) (Nat.succ_pos _) hsize).trans (if_neg ?_)
      rw [List.length_nil, hgathered]
      omega
    have hundisturbed : Undisturbed joined stream pieces ↔
        (gathered (before.length + 4) 0 pieces ≤ 8192 ∨
          cut switching (before ++ blankLine) = none ∨ joined = false ∨
            ClosesSilently behind) := by
      constructor
      · exact fun h => h before behind hcut
      · intro h front back hsome
        obtain ⟨rfl, rfl⟩ := Prod.mk.inj (Option.some.inj (hcut.symm.trans hsome))
        exact h
    rw [hpieces, hsingle, hundisturbed]
    split
    next hover =>
      rw [agrees_respond_iff]
      exact ⟨.inr, fun h => h.resolve_left (by omega)⟩
    next hfits => exact ⟨fun _ => .inl (by omega), fun _ => ⟨rfl, rfl, rfl⟩⟩

/-- A response, and the text `A` behind it. -/
def greeting : List UInt8 := [32, 49, 48, 49, 32, 13, 10, 13, 10, 0x81, 1, 65]

/-- The greeting, cut in the status, in the blank line and in the frame. -/
def greetingPieces : List (List UInt8) :=
  [[32, 49], [48, 49, 32, 13, 10, 13], [10, 0x81, 1], [65]]

theorem greeting_agrees :
    (Agrees (receiveAll true .connecting greetingPieces)
        (receiveAll true .connecting (singleBytes greeting)) ↔
      Undisturbed true greeting greetingPieces) ∧ Undisturbed true greeting greetingPieces := by
  have hcut : cut blankLine greeting = some ([32, 49, 48, 49, 32], [0x81, 1, 65]) := by decide
  refine ⟨splits_agree_iff true (by decide) (by decide) ?_, ?_⟩
  · intro before behind h
    obtain ⟨rfl, rfl⟩ := Prod.mk.inj (Option.some.inj (hcut.symm.trans h))
    decide
  · intro before behind h
    obtain ⟨rfl, rfl⟩ := Prod.mk.inj (Option.some.inj (hcut.symm.trans h))
    exact .inl (by decide)

/-- **A long text that comes with the response is lost**: the response has nine
bytes, and the text behind it takes the buffer over the limit. -/
theorem long_greeting_lost :
    ¬ ∀ (joined : Bool) (stream : List UInt8) (pieces : List (List UInt8)),
      pieces.flatten = stream → (∀ piece ∈ pieces, piece ≠ []) →
      (∀ before behind, cut blankLine stream = some (before, behind) →
        before.length + 4 ≤ 8192) →
      Agrees (receiveAll joined .connecting pieces)
        (receiveAll joined .connecting (singleBytes stream)) := by
  intro h
  have hlen : (List.replicate 8190 (65 : UInt8)).length = 8190 := List.length_replicate
  generalize List.replicate 8190 (65 : UInt8) = text at hlen
  have hresponse : cut blankLine [32, 49, 48, 49, 32, 13, 10, 13, 10] =
      some ([32, 49, 48, 49, 32], []) := by decide
  have hcut := cut_append hresponse (textFrame text)
  rw [List.nil_append] at hcut
  have hframe := @nextFrame_text text (by omega) []
  rw [List.append_nil] at hframe
  -- nine bytes of response and the frame are over the limit together
  have hsize : 8192 < (textFrame text).length + 9 := by
    rw [textFrame, List.length_append, hlen]
    omega
  generalize textFrame text = frame at hcut hframe hsize
  have hagrees := h true _ [[32, 49, 48, 49, 32, 13, 10, 13, 10] ++ frame] rfl (by simp) (by
    intro before behind hsome
    rw [List.flatten_singleton] at hsome
    obtain ⟨rfl, -⟩ := Prod.mk.inj (Option.some.inj (hcut.symm.trans hsome))
    decide)
  have hpieces := @foldl_receive_response true [[32, 49, 48, 49, 32, 13, 10, 13, 10] ++ frame] []
    [32, 49, 48, 49, 32] frame (by simp) (by simpa using hcut) (by decide) (by decide)
  have hsingle := @foldl_receive_response true
    (singleBytes ([32, 49, 48, 49, 32, 13, 10, 13, 10] ++ frame)) []
    [32, 49, 48, 49, 32] frame (singleBytes_ne _)
    (by rw [flatten_singleBytes]; exact hcut) (by decide) (by decide)
  rw [if_pos (by simp [gathered]; omega)] at hpieces
  -- a byte at a time, the buffer never holds more than the response
  rw [gathered_singleBytes (by decide) (by simp), if_neg (by decide)] at hsingle
  rw [List.flatten_singleton] at hagrees
  have hlost : Agrees (.closed, [.state false]) (respond true [32, 49, 48, 49, 32] frame) := by
    rw [← hpieces, ← hsingle]
    exact hagrees
  rcases (agrees_respond_iff true _ frame).mp hlost with hstatus | hjoin | hsilent
  · exact absurd hstatus (by decide)
  · exact absurd hjoin (by simp)
  · cases hsilent with
    | close hclose => exact absurd (hframe.symm.trans hclose) (by simp)
    | skip hskip => exact absurd (hframe.symm.trans hskip) (by simp)

end WsClient

end IpcMini
