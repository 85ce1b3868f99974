/-
The websocket client of the device (`protocol/webrtc/ws_client.cpp`).

The client answers to pieces of the byte stream.  Until the response to its
handshake is complete it gathers them in `handshakeBuffer`; then it takes whole
frames off the front of `frameBuffer`.  Both handlers are set, as
`SignalingClient::start` sets them before it connects.

* `handleTcpData`, `receive` — one piece of the stream, with what it leads to;
* `nextFrame`, `frames` — the loop of `consume_frames` is a deframer;
* `textFrame` — the frame in which a server sends a text;
* **`receiveAll_open`** — an open client decodes the stream as a whole,
  however it is cut into pieces;
* **`receive_text`** — the text is passed on if it has at most 65535 bytes, and
  else the client closes the connection.
-/
import Mathlib.Data.Nat.Notation
import IpcMini.Deframer

namespace IpcMini

namespace WsClient

/-- What the client does to its surroundings. -/
inductive Event
  /-- `notify_state` -/
  | state (connected : Bool)
  /-- the message handler is called -/
  | message (text : List UInt8)
  /-- `send_frame_on_poller(0x0a, ...)` -/
  | pong (payload : List UInt8)
  deriving DecidableEq, Repr

/-! ### Frames -/

def maskLen (masked : Bool) : ℕ := if masked then 4 else 0

/-- The decoded payload of that length, and the bytes behind it; `none` as long
as the buffer is too short. -/
def payloadOf (masked : Bool) (payloadLen : ℕ) (body : List UInt8) :
    Option (List UInt8 × List UInt8) :=
  if 65535 < payloadLen ∨ body.length < maskLen masked + payloadLen then none
  else
    let mask := body.take (maskLen masked)
    let payload := (body.drop (maskLen masked)).take payloadLen
    some (payload.mapIdx fun i byte => byte ^^^ mask.getD (i % 4) 0,
      body.drop (maskLen masked + payloadLen))

/-- What a frame leads to, and the rest of the buffer unless it closes the
connection. -/
def react (fin : Bool) (opcode : UInt8) (decoded rest : List UInt8) :
    List Event × Option (List UInt8) :=
  if opcode = 0x8 then ([.state false], none)
  else if opcode = 0x9 then ([.pong decoded], some rest)
  else if (opcode = 0x1 ∨ opcode = 0x0) ∧ fin then ([.message decoded], some rest)
  else ([], some rest)

/-- One iteration of the loop of `consume_frames`; `none` is its `return`. -/
def nextFrame : List UInt8 → Option (List Event × Option (List UInt8))
  | b0 :: b1 :: body =>
    let fin := decide (b0 &&& 0x80 ≠ 0)
    let opcode := b0 &&& 0x0f
    let masked := decide (b1 &&& 0x80 ≠ 0)
    let payloadLen := (b1 &&& 0x7f).toNat
    if payloadLen = 126 then
      match body with
      | b2 :: b3 :: body =>
        (payloadOf masked (b2.toNat * 256 + b3.toNat) body).map fun (decoded, rest) =>
          react fin opcode decoded rest
      | _ => none
    else if payloadLen = 127 then some ([.state false], none)
    else
      (payloadOf masked payloadLen body).map fun (decoded, rest) =>
        react fin opcode decoded rest
  | _ => none

theorem payloadOf_append {masked : Bool} {len : ℕ} {body decoded rest : List UInt8}
    (h : payloadOf masked len body = some (decoded, rest)) (more : List UInt8) :
    payloadOf masked len (body ++ more) = some (decoded, rest ++ more) := by
  rw [payloadOf] at h ⊢
  by_cases hlen : 65535 < len ∨ body.length < maskLen masked + len
  · rw [if_pos hlen] at h
    cases h
  · have hle : maskLen masked + len ≤ body.length := by omega
    rw [if_neg hlen] at h
    rw [if_neg (by rw [List.length_append]; omega), List.take_append_of_le_length (by omega),
      List.drop_append_of_le_length (by omega), List.drop_append_of_le_length hle,
      List.take_append_of_le_length (by rw [List.length_drop]; omega)]
    obtain ⟨rfl, rfl⟩ := Prod.mk.inj (Option.some.inj h)
    rfl

theorem length_payloadOf {masked : Bool} {len : ℕ} {body decoded rest : List UInt8}
    (h : payloadOf masked len body = some (decoded, rest)) : rest.length ≤ body.length := by
  rw [payloadOf] at h
  by_cases hlen : 65535 < len ∨ body.length < maskLen masked + len
  · rw [if_pos hlen] at h
    cases h
  · rw [if_neg hlen] at h
    obtain ⟨-, rfl⟩ := Prod.mk.inj (Option.some.inj h)
    rw [List.length_drop]
    omega

/-- A frame is decided by the buffer's front. -/
theorem react_append {fin : Bool} {opcode : UInt8} {decoded rest : List UInt8}
    (more : List UInt8) : react fin opcode decoded (rest ++ more) =
      ((react fin opcode decoded rest).1, (react fin opcode decoded rest).2.map (· ++ more)) := by
  rw [react, react]
  split_ifs <;> rfl

theorem length_react {fin : Bool} {opcode : UInt8} {decoded rest left : List UInt8}
    {events : List Event} (h : react fin opcode decoded rest = (events, some left)) :
    left = rest := by
  rw [react] at h
  split_ifs at h <;> simp_all

/-- Every frame has at least two bytes. -/
theorem nextFrame_progress {buffer rest : List UInt8} {events : List Event}
    (h : nextFrame buffer = some (events, some rest)) : rest.length < buffer.length := by
  match buffer, h with
  | b0 :: b1 :: body, h =>
    -- the frame takes its payload from what follows its length
    have hcut : ∀ masked len, ∀ tail : List UInt8, tail.length ≤ body.length →
        (payloadOf masked len tail).map (fun (decoded, left) =>
          react (decide (b0 &&& 0x80 ≠ 0)) (b0 &&& 0x0f) decoded left) =
            some (events, some rest) → rest.length < (b0 :: b1 :: body).length := by
      intro masked len tail htail hmap
      obtain ⟨⟨decoded, left⟩, hpayload, hreact⟩ := Option.map_eq_some_iff.mp hmap
      have hleft := length_payloadOf hpayload
      rw [length_react hreact]
      simp only [List.length_cons]
      omega
    simp only [nextFrame] at h
    split_ifs at h
    · match body, h with
      | b2 :: b3 :: body, h =>
        exact hcut _ _ body (by simp only [List.length_cons]; omega) h
    · simp at h
    · exact hcut _ _ body (Nat.le_refl _) h

theorem nextFrame_stable {buffer : List UInt8} {events : List Event}
    {rest : Option (List UInt8)} (more : List UInt8) (h : nextFrame buffer = some (events, rest)) :
    nextFrame (buffer ++ more) = some (events, rest.map (· ++ more)) := by
  match buffer, h with
  | b0 :: b1 :: body, h =>
    have hcut : ∀ masked len, ∀ tail : List UInt8,
        (payloadOf masked len tail).map (fun (decoded, left) =>
          react (decide (b0 &&& 0x80 ≠ 0)) (b0 &&& 0x0f) decoded left) = some (events, rest) →
        (payloadOf masked len (tail ++ more)).map (fun (decoded, left) =>
          react (decide (b0 &&& 0x80 ≠ 0)) (b0 &&& 0x0f) decoded left) =
            some (events, rest.map (· ++ more)) := by
      intro masked len tail hmap
      obtain ⟨⟨decoded, left⟩, hpayload, hreact⟩ := Option.map_eq_some_iff.mp hmap
      rw [payloadOf_append hpayload, Option.map_some]
      dsimp only at hreact ⊢
      rw [react_append, hreact]
    simp only [nextFrame, List.cons_append] at h ⊢
    split_ifs at h ⊢
    · match body, h with
      | b2 :: b3 :: body, h => exact hcut _ _ body h
    · obtain ⟨rfl, rfl⟩ := Prod.mk.inj (Option.some.inj h)
      rfl
    · exact hcut _ _ body h

/-- The loop of `consume_frames`. -/
def frames : Deframer UInt8 Event where
  next := nextFrame
  progress _ _ _ h := nextFrame_progress h
  stable _ _ _ more h := nextFrame_stable more h

/-! ### The client -/

structure Client where
  /-- `client_` is set -/
  client : Bool
  handshakeComplete : Bool
  connected : Bool
  handshakeBuffer : List UInt8
  frameBuffer : List UInt8
  deriving DecidableEq, Repr

/-- `connect_on_poller`: the TCP client connects. -/
def Client.connecting : Client := ⟨true, false, false, [], []⟩

/-- `close_on_poller`. -/
def Client.closed : Client := ⟨false, false, false, [], []⟩

/-- `consume_frames`. -/
def consumeFrames (c : Client) : Client × List Event :=
  match frames.drain c.frameBuffer with
  | (events, some rest) => ({ c with frameBuffer := rest }, events)
  | (events, none) => (.closed, events)

/-- What stands before the first place where the pattern is found, and what
stands behind it. -/
def cut (pattern : List UInt8) : List UInt8 → Option (List UInt8 × List UInt8)
  | [] => none
  | byte :: rest =>
    if pattern.isPrefixOf (byte :: rest) then some ([], (byte :: rest).drop pattern.length)
    else (cut pattern rest).map fun (before, behind) => (byte :: before, behind)

/-- `"\r\n\r\n"`. -/
def blankLine : List UInt8 := [13, 10, 13, 10]

/-- `" 101 "`. -/
def switching : List UInt8 := [32, 49, 48, 49, 32]

/-- `handle_tcp_data`; `joined` tells whether the state handler, which is called
when the handshake is complete, leaves the connection open. -/
def handleTcpData (joined : Bool) (data : List UInt8) (c : Client) : Client × List Event :=
  if c.handshakeComplete then consumeFrames { c with frameBuffer := c.frameBuffer ++ data }
  else
    let handshakeBuffer := c.handshakeBuffer ++ data
    if 8192 < handshakeBuffer.length then (.closed, [.state false])
    else
      match cut blankLine handshakeBuffer with
      | none => ({ c with handshakeBuffer := handshakeBuffer }, [])
      | some (before, behind) =>
        if (cut switching (before ++ blankLine)).isNone then (.closed, [.state false])
        else if !joined then (.closed, [.state true])
        else
          let (c, events) := consumeFrames ⟨c.client, true, true, [], c.frameBuffer ++ behind⟩
          (c, .state true :: events)

/-- `on_tcp_recv`: a client that is closed hears nothing. -/
def receive (joined : Bool) (state : Client × List Event) (data : List UInt8) :
    Client × List Event :=
  if state.1.client && !data.isEmpty then
    let (c, events) := handleTcpData joined data state.1
    (c, state.2 ++ events)
  else state

/-- The pieces of a stream. -/
def receiveAll (joined : Bool) (c : Client) (pieces : List (List UInt8)) : Client × List Event :=
  pieces.foldl (receive joined) (c, [])

/-- An open client between two pieces, with what is left of the stream. -/
def Client.opened (frameBuffer : List UInt8) : Client := ⟨true, true, true, [], frameBuffer⟩

/-- The client in the state of its deframer. -/
def ofDrain (state : List Event × Option (List UInt8)) : Client × List Event :=
  (state.2.elim .closed .opened, state.1)

/-- A piece resumes the deframer. -/
theorem receive_ofDrain (joined : Bool) {state : List Event × Option (List UInt8)}
    (hstate : ∀ rest, state.2 = some rest → frames.drain rest = ([], some rest))
    (piece : List UInt8) :
    receive joined (ofDrain state) piece = ofDrain (frames.resume state piece) := by
  obtain ⟨events, _ | rest⟩ := state
  · rfl
  cases piece with
  | nil =>
    -- nothing is received, and nothing was left to be drained
    have hdrain := hstate rest rfl
    simp [receive, ofDrain, Deframer.resume, hdrain]
  | cons byte piece =>
    simp only [receive, ofDrain, Option.elim_some, Client.opened, List.isEmpty_cons,
      Bool.not_false, Bool.and_self, ↓reduceIte, handleTcpData, consumeFrames,
      Deframer.resume]
    rcases frames.drain (rest ++ byte :: piece) with ⟨later, _ | left⟩
    · rfl
    · rfl

/-- The pieces resume it one after the other. -/
theorem foldl_receive_ofDrain (joined : Bool) (pieces : List (List UInt8)) (buffer : List UInt8) :
    pieces.foldl (receive joined) (ofDrain (frames.drain buffer)) =
      ofDrain (pieces.foldl frames.resume (frames.drain buffer)) := by
  induction pieces generalizing buffer with
  | nil => rfl
  | cons piece pieces ih =>
    rw [List.foldl_cons, List.foldl_cons, receive_ofDrain joined fun _ h => frames.drain_left h,
      ← Deframer.drain_append, ih]

/-- **An open client decodes the stream as a whole.**  Nothing that could be
decoded is waiting in its buffer. -/
theorem receiveAll_open (joined : Bool) {left : List UInt8}
    (hleft : frames.drain left = ([], some left)) (pieces : List (List UInt8)) :
    receiveAll joined (.opened left) pieces =
      ofDrain (frames.drain (left ++ pieces.flatten)) := by
  have hfold := foldl_receive_ofDrain joined pieces left
  rw [Deframer.foldl_resume, hleft] at hfold
  exact hfold

/-! ### The frames of a server -/

/-- The length of a payload, with 7, 7 + 16 or 7 + 64 bits. -/
def lengthBytes (n : ℕ) : List UInt8 :=
  if n < 126 then [.ofNat n]
  else if n < 65536 then [126, .ofNat (n / 256), .ofNat n]
  else
    127 :: (List.range 8).map fun i => .ofNat (n >>> (56 - 8 * i))

/-- The one frame of a text: final, and not masked. -/
def textFrame (text : List UInt8) : List UInt8 := 0x81 :: lengthBytes text.length ++ text

/-- A payload that is not masked stands in the buffer. -/
theorem payloadOf_unmasked {text : List UInt8} (h : text.length ≤ 65535) (after : List UInt8) :
    payloadOf false text.length (text ++ after) = some (text, after) := by
  have hmask : ∀ byte : UInt8, byte ^^^ (0 : UInt8) = byte := fun _ => UInt8.xor_zero
  rw [payloadOf, if_neg (by simp [maskLen]; omega)]
  simp [maskLen, List.mapIdx_eq_iff, hmask]

theorem toNat_and_127 (n : ℕ) : ((UInt8.ofNat n) &&& 0x7f).toNat = n % 128 := by
  rw [UInt8.toNat_and, show (0x7f : UInt8).toNat = 2 ^ 7 - 1 from rfl,
    Nat.and_two_pow_sub_one_eq_mod]
  simp only [UInt8.toNat_ofNat']
  omega

/-- **A text of at most 65535 bytes is passed on.** -/
theorem nextFrame_text {text : List UInt8} (h : text.length ≤ 65535) (after : List UInt8) :
    nextFrame (textFrame text ++ after) = some ([.message text], some after) := by
  rw [textFrame, lengthBytes]
  by_cases hshort : text.length < 126
  · have hmask : ∀ n < 126, (UInt8.ofNat n &&& 0x80) = 0 := by decide
    rw [if_pos hshort]
    simp only [List.cons_append, List.nil_append, nextFrame, toNat_and_127]
    rw [Nat.mod_eq_of_lt (by omega), if_neg (by omega), if_neg (by omega), hmask _ hshort]
    simp only [ne_eq, not_true_eq_false, decide_false]
    rw [payloadOf_unmasked h]
    rfl
  · rw [if_neg hshort, if_pos (by omega)]
    have hlen : (UInt8.ofNat (text.length / 256)).toNat * 256 + (UInt8.ofNat text.length).toNat =
        text.length := by
      simp only [UInt8.toNat_ofNat']
      omega
    simp only [List.cons_append, List.nil_append, nextFrame]
    rw [if_pos (by decide), hlen, show decide ((126 : UInt8) &&& 0x80 ≠ 0) = false by decide,
      payloadOf_unmasked h]
    rfl

/-- **A longer one closes the connection.** -/
theorem nextFrame_long {text : List UInt8} (h : 65535 < text.length) (after : List UInt8) :
    nextFrame (textFrame text ++ after) = some ([.state false], none) := by
  rw [textFrame, lengthBytes, if_neg (by omega), if_neg (by omega)]
  rfl

/-- **The text is passed on, or closes the connection**, after what came before
it in the stream, and before what comes behind it. -/
theorem receive_text (joined : Bool) {left before text after : List UInt8} {earlier : List Event}
    (hleft : frames.drain left = ([], some left)) {pieces : List (List UInt8)}
    (hpieces : left ++ pieces.flatten = before ++ (textFrame text ++ after))
    (hbefore : frames.drain before = (earlier, some [])) :
    receiveAll joined (.opened left) pieces =
      if text.length ≤ 65535 then
        ofDrain (earlier ++ .message text :: (frames.drain after).1, (frames.drain after).2)
      else (.closed, earlier ++ [.state false]) := by
  rw [receiveAll_open joined hleft, hpieces, Deframer.drain_append, hbefore]
  simp only [Deframer.resume, List.nil_append]
  by_cases h : text.length ≤ 65535
  · rw [if_pos h, Deframer.drain_of_frame frames (nextFrame_text h after)]
    rfl
  · rw [if_neg h, Deframer.drain_of_end frames (nextFrame_long (by omega) after)]
    rfl

end WsClient

end IpcMini
