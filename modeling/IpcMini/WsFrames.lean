/-
Frames between the device and the server (`protocol/webrtc/ws_client.cpp`).

What `send_frame_on_poller` builds, the rules of `consume_frames` take apart
again.  A server may send a text in fragments, with control frames between them;
`consume_frames` passes on the last fragment alone.

* `takeFrame` — the header, the mask and the payload as `consume_frames` reads
  them, `nextFrame_of_take` and `take_of_nextFrame` its place in the loop;
* `sendFrame` — the bytes of a frame;
* **`sent_frame_taken`** — they are read back, whatever comes behind them;
* `Server` — the frames a server may send, and the texts they make up;
* **`messages_received_iff`** — the texts are received if and only if all
  fragments but the last of each message are empty.
-/
import IpcMini.HandshakeSplits

namespace IpcMini

namespace WsClient

structure Frame where
  fin : Bool
  opcode : UInt8
  payload : List UInt8
  deriving DecidableEq, Repr

/-! ### Reading a frame -/

/-- The frame in front of the buffer, and the bytes behind it. -/
def takeFrame : List UInt8 → Option (Frame × List UInt8)
  | b0 :: b1 :: body =>
    let fin := decide (b0 &&& 0x80 ≠ 0)
    let opcode := b0 &&& 0x0f
    let masked := decide (b1 &&& 0x80 ≠ 0)
    let payloadLen := (b1 &&& 0x7f).toNat
    if payloadLen = 126 then
      match body with
      | b2 :: b3 :: body =>
        (payloadOf masked (b2.toNat * 256 + b3.toNat) body).map fun (decoded, rest) =>
          (⟨fin, opcode, decoded⟩, rest)
      | _ => none
    else if payloadLen = 127 then none
    else
      (payloadOf masked payloadLen body).map fun (decoded, rest) =>
        (⟨fin, opcode, decoded⟩, rest)
  | _ => none

/-- The loop reacts to the frame that is read. -/
theorem nextFrame_of_take {buffer rest : List UInt8} {f : Frame}
    (h : takeFrame buffer = some (f, rest)) :
    nextFrame buffer = some (react f.fin f.opcode f.payload rest) := by
  rcases buffer with _ | ⟨b0, _ | ⟨b1, body⟩⟩
  · cases h
  · cases h
  simp only [takeFrame] at h
  simp only [nextFrame]
  split_ifs at h ⊢
  · rcases body with _ | ⟨b2, _ | ⟨b3, body⟩⟩
    · cases h
    · cases h
    · obtain ⟨⟨decoded, left⟩, hp, hf⟩ := Option.map_eq_some_iff.mp h
      obtain ⟨rfl, rfl⟩ := Prod.mk.inj hf
      dsimp only
      rw [hp]
      rfl
  · obtain ⟨⟨decoded, left⟩, hp, hf⟩ := Option.map_eq_some_iff.mp h
    obtain ⟨rfl, rfl⟩ := Prod.mk.inj hf
    rw [hp]
    rfl

/-- Else it closes the connection, or waits. -/
theorem take_of_nextFrame {buffer : List UInt8} {r : List Event × Option (List UInt8)}
    (h : nextFrame buffer = some r) :
    r = ([.state false], none) ∨
      ∃ f rest, takeFrame buffer = some (f, rest) ∧ r = react f.fin f.opcode f.payload rest := by
  rcases buffer with _ | ⟨b0, _ | ⟨b1, body⟩⟩
  · cases h
  · cases h
  simp only [nextFrame] at h
  simp only [takeFrame]
  split_ifs at h ⊢
  · rcases body with _ | ⟨b2, _ | ⟨b3, body⟩⟩
    · cases h
    · cases h
    · obtain ⟨⟨decoded, left⟩, hp, hf⟩ := Option.map_eq_some_iff.mp h
      dsimp only at hp ⊢
      rw [hp]
      exact .inr ⟨⟨_, _, decoded⟩, left, rfl, hf.symm⟩
  · exact .inl (Option.some.inj h).symm
  · obtain ⟨⟨decoded, left⟩, hp, hf⟩ := Option.map_eq_some_iff.mp h
    rw [hp]
    exact .inr ⟨⟨_, _, decoded⟩, left, rfl, hf.symm⟩

/-! ### Sending a frame -/

/-- The byte of the payload, masked. -/
def maskedByte (mask : Fin 4 → UInt8) (i : ℕ) (byte : UInt8) : UInt8 :=
  byte ^^^ mask (Fin.ofNat 4 i)

/-- `send_frame_on_poller`: what is given to the TCP client, for the four random
bytes of `mask`. -/
def sendFrame (client connected : Bool) (opcode : UInt8) (mask : Fin 4 → UInt8)
    (data : List UInt8) : Option (List UInt8) :=
  if !client || !connected || 65535 < data.length then none
  else
    let length :=
      if data.length < 126 then [0x80 ||| .ofNat data.length]
      else [0x80 ||| 126, .ofNat (data.length / 256), .ofNat data.length]
    some ((0x80 ||| opcode &&& 0x0f) :: length ++ ([mask 0, mask 1, mask 2, mask 3] ++
      data.mapIdx (maskedByte mask)))

/-- The length in a header, with the bit that tells whether there is a mask. -/
def maskBit (masked : Bool) : UInt8 := if masked then 0x80 else 0

/-- Both classes of lengths are read. -/
theorem takeFrame_length (b0 : UInt8) (masked : Bool) {n : ℕ} (h : n ≤ 65535)
    (body : List UInt8) :
    takeFrame (b0 :: (if n < 126 then [maskBit masked ||| .ofNat n]
        else [maskBit masked ||| 126, .ofNat (n / 256), .ofNat n]) ++ body) =
      (payloadOf masked n body).map fun (decoded, rest) =>
        (⟨decide (b0 &&& 0x80 ≠ 0), b0 &&& 0x0f, decoded⟩, rest) := by
  by_cases hshort : n < 126
  · have hbits : ∀ masked : Bool, ∀ n < 126,
        ((maskBit masked ||| UInt8.ofNat n) &&& 0x7f).toNat = n ∧
          decide ((maskBit masked ||| UInt8.ofNat n) &&& 0x80 ≠ 0) = masked := by decide
    obtain ⟨hlen, hmask⟩ := hbits masked n hshort
    rw [if_pos hshort]
    simp only [List.cons_append, List.nil_append, takeFrame]
    rw [hlen, hmask, if_neg (by omega), if_neg (by omega)]
  · have hbits : ∀ masked : Bool, ((maskBit masked ||| 126) &&& 0x7f).toNat = 126 ∧
        decide ((maskBit masked ||| 126) &&& 0x80 ≠ 0) = masked := by decide
    obtain ⟨hlen, hmask⟩ := hbits masked
    have htwo : (UInt8.ofNat (n / 256)).toNat * 256 + (UInt8.ofNat n).toNat = n := by
      simp only [UInt8.toNat_ofNat']
      omega
    rw [if_neg hshort]
    simp only [List.cons_append, List.nil_append, takeFrame]
    rw [hlen, hmask, htwo, if_pos rfl]

/-- The mask is taken off again. -/
theorem payloadOf_masked {data : List UInt8} (h : data.length ≤ 65535) (mask : Fin 4 → UInt8)
    (more : List UInt8) :
    payloadOf true data.length
        ([mask 0, mask 1, mask 2, mask 3] ++ data.mapIdx (maskedByte mask) ++ more) =
      some (data, more) := by
  have hbytes : ∀ i : Fin 4, [mask 0, mask 1, mask 2, mask 3].getD i.1 0 = mask i := by
    intro i
    match i with
    | 0 => rfl
    | 1 => rfl
    | 2 => rfl
    | 3 => rfl
  have hlen : (data.mapIdx (maskedByte mask)).length = data.length := List.length_mapIdx
  have htake : ([mask 0, mask 1, mask 2, mask 3] ++ data.mapIdx (maskedByte mask) ++ more).drop 4 =
      data.mapIdx (maskedByte mask) ++ more := rfl
  have hrest : ([mask 0, mask 1, mask 2, mask 3] ++ data.mapIdx (maskedByte mask) ++ more).drop
      (4 + data.length) = more := by
    rw [← List.drop_drop, htake, List.drop_left' hlen]
  -- the same byte of the mask is used on both sides
  have hunmask : (data.mapIdx (maskedByte mask)).mapIdx
      (fun i byte => byte ^^^ [mask 0, mask 1, mask 2, mask 3].getD (i % 4) 0) = data := by
    rw [List.mapIdx_mapIdx, List.mapIdx_eq_iff]
    intro i
    cases data[i]? with
    | none => rfl
    | some byte =>
      have hsame := hbytes (Fin.ofNat 4 i)
      simp only [Fin.val_ofNat] at hsame
      simp only [Option.map_some, Function.comp_apply, maskedByte, hsame, UInt8.xor_assoc,
        UInt8.xor_self, UInt8.xor_zero]
  rw [payloadOf, if_neg (by simp [maskLen]; omega)]
  simp only [maskLen, if_true]
  rw [htake, hrest, List.take_left' hlen]
  exact congrArg (fun decoded => some (decoded, more)) hunmask

/-- The first byte of a frame has the opcode and the bit of a final frame. -/
theorem opcode_bits (opcode : UInt8) :
    decide ((0x80 ||| opcode &&& 0x0f) &&& 0x80 ≠ 0) = true ∧
      (0x80 ||| opcode &&& 0x0f) &&& 0x0f = opcode &&& 0x0f ∧
      (opcode < 16 → opcode &&& 0x0f = opcode) := by
  have h : ∀ n < 256, decide ((0x80 ||| UInt8.ofNat n &&& 0x0f) &&& 0x80 ≠ 0) = true ∧
      (0x80 ||| UInt8.ofNat n &&& 0x0f) &&& 0x0f = UInt8.ofNat n &&& 0x0f ∧
      (UInt8.ofNat n < 16 → UInt8.ofNat n &&& 0x0f = UInt8.ofNat n) := by decide +kernel
  have hopcode := h opcode.toNat (UInt8.toNat_lt opcode)
  rwa [UInt8.ofNat_toNat] at hopcode

/-- **What is sent is read back**, up to the last byte of the frame, and nothing
is sent that is too long. -/
theorem sent_frame_taken (client connected : Bool) (opcode : UInt8) (mask : Fin 4 → UInt8)
    (data more : List UInt8) :
    ((sendFrame client connected opcode mask data).isSome = true ↔
      client = true ∧ connected = true ∧ data.length ≤ 65535) ∧
    (∀ frame, sendFrame client connected opcode mask data = some frame →
      takeFrame (frame ++ more) = some (⟨true, opcode &&& 0x0f, data⟩, more) ∧
        nextFrame (frame ++ more) = some (react true (opcode &&& 0x0f) data more)) ∧
    (opcode < 16 → opcode &&& 0x0f = opcode) := by
  refine ⟨?_, ?_, (opcode_bits opcode).2.2⟩
  · rw [sendFrame]
    cases client <;> cases connected <;> simp
  · intro frame hframe
    rw [sendFrame] at hframe
    split at hframe
    next => cases hframe
    next hsend =>
      have hlen : data.length ≤ 65535 := by
        simp at hsend
        omega
      have hlength := takeFrame_length (0x80 ||| opcode &&& 0x0f) true hlen
        ([mask 0, mask 1, mask 2, mask 3] ++ data.mapIdx (maskedByte mask) ++ more)
      rw [payloadOf_masked hlen, (opcode_bits opcode).1, (opcode_bits opcode).2.1] at hlength
      have htake : takeFrame (frame ++ more) = some (⟨true, opcode &&& 0x0f, data⟩, more) := by
        rw [← Option.some.inj hframe, List.append_assoc, List.append_assoc]
        exact hlength
      exact ⟨htake, nextFrame_of_take htake⟩

/-! ### The frames of a server -/

/-- Where a server stands in its messages. -/
inductive Server
  | between
  | text (soFar : List UInt8)
  | binary
  | closed
  deriving DecidableEq, Repr

/-- The server sends a frame that is no control frame: where it stands then, and
the text that is complete with it. -/
def Server.data (s : Server) (f : Frame) : Option (Server × Option (List UInt8)) :=
  match s with
  | .between =>
    if f.opcode = 0x1 then
      some (if f.fin then (.between, some f.payload) else (.text f.payload, none))
    else if f.opcode = 0x2 then some (if f.fin then .between else .binary, none)
    else none
  | .text soFar =>
    if f.opcode = 0x0 then
      some (if f.fin then (.between, some (soFar ++ f.payload))
        else (.text (soFar ++ f.payload), none))
    else none
  | .binary => if f.opcode = 0x0 then some (if f.fin then .between else .binary, none) else none
  | .closed => none

/-- Pings and pongs may come between the fragments of a message; `none` is a
frame that the server may not send where it stands. -/
def Server.send (s : Server) (f : Frame) : Option (Server × Option (List UInt8)) :=
  if f.opcode = 0x9 ∨ f.opcode = 0xa then
    if f.fin ∧ f.payload.length ≤ 125 then some (s, none) else none
  else if f.opcode = 0x8 then
    if f.fin ∧ f.payload.length ≤ 125 ∧ s ≠ .closed then some (.closed, none) else none
  else if f.payload.length ≤ 65535 then s.data f
  else none

/-- The texts that the frames make up; `none` if one of them may not be sent. -/
def Server.texts : Server → List Frame → Option (List (List UInt8))
  | _, [] => some []
  | s, f :: fs => (s.send f).bind fun (s', complete) => (s'.texts fs).map (complete.toList ++ ·)

/-- When a message ends with a continuation, it is a text, and all of it is in
that last fragment. -/
def Server.Whole : Server → List Frame → Prop
  | _, [] => True
  | s, f :: fs => (f.opcode = 0x0 → f.fin = true → s = .text []) ∧
      ∀ r, s.send f = some r → r.1.Whole fs

/-- The bytes of a frame that is not masked. -/
def wire (f : Frame) : List UInt8 :=
  ((if f.fin then 0x80 else 0) ||| f.opcode) :: lengthBytes f.payload.length ++ f.payload

/-- The message that the frame is passed on as. -/
def delivered (f : Frame) : List (List UInt8) :=
  if (f.opcode = 0x1 ∨ f.opcode = 0x0) ∧ f.fin then [f.payload] else []

/-- What the client does with a frame, it passes on. -/
theorem messages_react (f : Frame) (rest : List UInt8) :
    messages (react f.fin f.opcode f.payload rest).1 = delivered f ∧
      (react f.fin f.opcode f.payload rest).2 =
        if f.opcode = 0x8 then none else some rest := by
  rw [react, delivered]
  split_ifs <;> simp_all [messages]

/-- What a frame that may be sent is, and how it is passed on: as the text that is
complete with it, or as the end of a message that is not as a whole in it. -/
theorem Server.data_cases {s : Server} {f : Frame} {r : Server × Option (List UInt8)}
    (h : s.data f = some r) :
    f.opcode ∈ [0x0, 0x1, 0x2] ∧ s ≠ .closed ∧
      (delivered f = r.2.toList ∧ (f.opcode = 0x0 → f.fin = true → s = .text []) ∨
        (f.opcode = 0x0 ∧ f.fin = true ∧ s ≠ .text [] ∧ delivered f = [f.payload] ∧
          ∀ complete ∈ r.2, f.payload.length < complete.length)) := by
  obtain ⟨fin, opcode, payload⟩ := f
  rw [delivered]
  cases s with
  | between =>
    rw [Server.data] at h
    split at h
    next htext =>
      obtain rfl := Option.some.inj h
      cases fin <;> simp_all
    next =>
      split at h
      next hbinary =>
        obtain rfl := Option.some.inj h
        simp_all
      next => cases h
  | text soFar =>
    rw [Server.data] at h
    split at h
    next hcont =>
      obtain rfl := Option.some.inj h
      cases fin with
      | false => simp_all
      | true =>
        cases soFar with
        | nil => simp_all
        | cons byte soFar =>
          dsimp only at hcont
          subst hcont
          -- a text that was begun is longer than its last frame
          have hlt : payload.length < (byte :: soFar ++ payload).length := by
            rw [List.length_append, List.length_cons]
            omega
          refine ⟨by simp, by simp, .inr ⟨rfl, rfl, by simp, by simp, ?_⟩⟩
          rintro complete ⟨⟩
          exact hlt
    next => cases h
  | binary =>
    rw [Server.data] at h
    split at h
    next hcont =>
      obtain rfl := Option.some.inj h
      cases fin <;> simp_all
    next => cases h
  | closed => cases h

/-- A frame that may be sent. -/
theorem Server.send_cases {s : Server} {f : Frame} {r : Server × Option (List UInt8)}
    (h : s.send f = some r) :
    f.opcode ∈ [0x0, 0x1, 0x2, 0x8, 0x9, 0xa] ∧ f.payload.length ≤ 65535 ∧
      (f.opcode = 0x8 ∧ r = (.closed, none) ∨ (f.opcode = 0x9 ∨ f.opcode = 0xa) ∧ r = (s, none) ∨
        f.opcode ∈ [0x0, 0x1, 0x2] ∧ s.data f = some r) := by
  rw [Server.send] at h
  split at h
  next hcontrol =>
    split at h
    next hshort =>
      obtain rfl := Option.some.inj h
      exact ⟨by rcases hcontrol with hop | hop <;> simp [hop], by omega,
        .inr (.inl ⟨hcontrol, rfl⟩)⟩
    next => cases h
  next =>
    split at h
    next hclose =>
      split at h
      next hshort =>
        obtain rfl := Option.some.inj h
        exact ⟨by simp [hclose], by omega, .inl ⟨hclose, rfl⟩⟩
      next => cases h
    next =>
      split at h
      next hlen =>
        have hop := (Server.data_cases h).1
        exact ⟨List.mem_append_left [0x8, 0x9, 0xa] hop, hlen, .inr (.inr ⟨hop, h⟩)⟩
      next => cases h

/-- The wire form of a frame is read back. -/
theorem take_wire {f : Frame} (hop : f.opcode ∈ [0x0, 0x1, 0x2, 0x8, 0x9, 0xa])
    (hlen : f.payload.length ≤ 65535) (rest : List UInt8) :
    takeFrame (wire f ++ rest) = some (f, rest) := by
  have hbits : ∀ opcode ∈ [(0x0 : UInt8), 0x1, 0x2, 0x8, 0x9, 0xa], ∀ fin : Bool,
      decide (((if fin then 0x80 else 0) ||| opcode) &&& 0x80 ≠ 0) = fin ∧
        ((if fin then 0x80 else 0) ||| opcode) &&& 0x0f = opcode := by
    intro opcode hop fin
    simp only [List.mem_cons, List.not_mem_nil, or_false] at hop
    rcases hop with rfl | rfl | rfl | rfl | rfl | rfl <;> cases fin <;> decide
  have hzero : ∀ byte : UInt8, maskBit false ||| byte = byte := fun _ => UInt8.zero_or
  have hlength := takeFrame_length ((if f.fin then 0x80 else 0) ||| f.opcode) false hlen
    (f.payload ++ rest)
  rw [payloadOf_unmasked hlen, (hbits _ hop _).1, (hbits _ hop _).2, hzero, hzero] at hlength
  have hbytes : lengthBytes f.payload.length =
      if f.payload.length < 126 then [.ofNat f.payload.length]
      else [126, .ofNat (f.payload.length / 256), .ofNat f.payload.length] := by
    rw [lengthBytes]
    split
    · rfl
    · rw [if_pos (by omega)]
  rw [wire, hbytes, List.append_assoc]
  exact hlength

/-- A frame is passed on as the text that is complete with it, unless it ends a
message that is not as a whole in it. -/
theorem Server.send_delivered {s : Server} {f : Frame} {r : Server × Option (List UInt8)}
    (h : s.send f = some r) :
    (delivered f = r.2.toList ∧ (f.opcode = 0x0 → f.fin = true → s = .text [])) ∨
      (f.opcode = 0x0 ∧ f.fin = true ∧ s ≠ .text [] ∧ delivered f = [f.payload] ∧
        ∀ complete ∈ r.2, f.payload.length < complete.length) := by
  obtain ⟨-, -, ⟨hclose, rfl⟩ | ⟨hcontrol, rfl⟩ | ⟨-, hdata⟩⟩ := Server.send_cases h
  · exact .inl ⟨by simp [delivered, hclose], by simp [hclose]⟩
  · rcases hcontrol with hop | hop
    · exact .inl ⟨by simp [delivered, hop], by simp [hop]⟩
    · exact .inl ⟨by simp [delivered, hop], by simp [hop]⟩
  · exact (Server.data_cases hdata).2.2

theorem Server.texts_cons {s : Server} {f : Frame} {fs : List Frame} {texts : List (List UInt8)}
    (h : s.texts (f :: fs) = some texts) :
    ∃ r later, s.send f = some r ∧ r.1.texts fs = some later ∧ texts = r.2.toList ++ later := by
  rw [Server.texts] at h
  obtain ⟨r, hsend, hrest⟩ := Option.bind_eq_some_iff.mp h
  obtain ⟨later, hlater, rfl⟩ := Option.map_eq_some_iff.mp hrest
  exact ⟨r, later, hsend, hlater, rfl⟩

/-- After the end nothing is sent that would be passed on. -/
theorem Server.closed_delivered {fs : List Frame} {texts : List (List UInt8)}
    (h : Server.closed.texts fs = some texts) : fs.flatMap delivered = [] := by
  induction fs generalizing texts with
  | nil => rfl
  | cons f fs ih =>
    obtain ⟨r, later, hsend, hlater, -⟩ := Server.texts_cons h
    obtain ⟨-, -, ⟨hclose, rfl⟩ | ⟨hcontrol, rfl⟩ | ⟨-, hdata⟩⟩ := Server.send_cases hsend
    · rw [List.flatMap_cons, ih hlater]
      simp [delivered, hclose]
    · rw [List.flatMap_cons, ih hlater]
      rcases hcontrol with hop | hop <;> simp [delivered, hop]
    · cases hdata

/-- **The client decodes the frames one by one.** -/
theorem messages_drain_wire {s : Server} {fs : List Frame} {texts : List (List UInt8)}
    (h : s.texts fs = some texts) :
    messages (frames.drain (fs.flatMap wire)).1 = fs.flatMap delivered := by
  induction fs generalizing s texts with
  | nil =>
    rw [List.flatMap_nil, Deframer.drain_of_none frames (by rfl)]
    rfl
  | cons f fs ih =>
    obtain ⟨r, later, hsend, hlater, -⟩ := Server.texts_cons h
    obtain ⟨hop, hlen, hcases⟩ := Server.send_cases hsend
    have hnext := nextFrame_of_take (take_wire hop hlen (fs.flatMap wire))
    obtain ⟨hmessages, hrest⟩ := messages_react f (fs.flatMap wire)
    rcases hreact : react f.fin f.opcode f.payload (fs.flatMap wire) with ⟨events, left⟩
    rw [hreact] at hnext hmessages hrest
    rw [List.flatMap_cons, List.flatMap_cons]
    by_cases hclose : f.opcode = 0x8
    · -- the client closes the connection, and the server sends no more text
      rw [if_pos hclose] at hrest
      subst hrest
      rw [Deframer.drain_of_end frames hnext, hmessages]
      rcases hcases with ⟨-, rfl⟩ | ⟨hcontrol, -⟩ | ⟨hdata, -⟩
      · rw [Server.closed_delivered hlater, List.append_nil]
      · rw [hclose] at hcontrol
        exact absurd hcontrol (by decide)
      · rw [hclose] at hdata
        exact absurd hdata (by decide)
    · rw [if_neg hclose] at hrest
      subst hrest
      rw [Deframer.drain_of_frame frames hnext, messages, List.filterMap_append]
      exact congrArg₂ (· ++ ·) hmessages (ih hlater)

/-- The client passes on at least as many messages as there are texts. -/
theorem Server.length_texts_le {s : Server} {fs : List Frame} {texts : List (List UInt8)}
    (h : s.texts fs = some texts) : texts.length ≤ (fs.flatMap delivered).length := by
  induction fs generalizing s texts with
  | nil =>
    obtain rfl := Option.some.inj h
    exact Nat.le_refl _
  | cons f fs ih =>
    obtain ⟨r, later, hsend, hlater, rfl⟩ := Server.texts_cons h
    have hle := ih hlater
    rw [List.flatMap_cons, List.length_append, List.length_append]
    rcases Server.send_delivered hsend with ⟨hsame, -⟩ | ⟨-, -, -, hpart, -⟩
    · rw [hsame]
      omega
    · have hone : r.2.toList.length ≤ 1 := by cases r.2 <;> simp
      rw [hpart, List.length_singleton]
      omega

/-- What is passed on are the texts if and only if every message that ends with a
continuation is a text that is as a whole in that fragment. -/
theorem Server.delivered_iff_whole {s : Server} {fs : List Frame} {texts : List (List UInt8)}
    (h : s.texts fs = some texts) : fs.flatMap delivered = texts ↔ s.Whole fs := by
  induction fs generalizing s texts with
  | nil =>
    obtain rfl := Option.some.inj h
    exact iff_of_true rfl trivial
  | cons f fs ih =>
    obtain ⟨r, later, hsend, hlater, rfl⟩ := Server.texts_cons h
    have hrest : (∀ r', s.send f = some r' → r'.1.Whole fs) ↔ r.1.Whole fs := by
      constructor
      · exact fun hwhole => hwhole r hsend
      · rintro hwhole r' hr'
        rw [← Option.some.inj (hsend.symm.trans hr')]
        exact hwhole
    rw [List.flatMap_cons, Server.Whole, hrest, ← ih hlater]
    rcases Server.send_delivered hsend with ⟨hsame, hends⟩ | ⟨hcont, hfin, hpart, hlast, hlonger⟩
    · rw [hsame, List.append_cancel_left_eq, and_iff_right hends]
    · -- a part is passed on for the whole, or for a message that is no text
      refine iff_of_false (fun heq => ?_) fun hwhole => hpart (hwhole.1 hcont hfin)
      rw [hlast] at heq
      have hle := Server.length_texts_le hlater
      have hcount := congrArg List.length heq
      cases hcomplete : r.2 with
      | none =>
        rw [hcomplete, Option.toList_none, List.nil_append, List.length_append,
          List.length_singleton] at hcount
        omega
      | some complete =>
        rw [hcomplete, Option.toList_some, List.singleton_append, List.singleton_append,
          List.cons.injEq] at heq
        have hlt := hlonger complete hcomplete
        rw [heq.1] at hlt
        exact Nat.lt_irrefl _ hlt

/-- However the stream of the frames is cut into pieces, they are passed on. -/
theorem messages_receive_wire (joined : Bool) {s : Server} {fs : List Frame}
    {texts : List (List UInt8)} (h : s.texts fs = some texts) {pieces : List (List UInt8)}
    (hpieces : pieces.flatten = fs.flatMap wire) :
    messages (receiveAll joined (.opened []) pieces).2 = fs.flatMap delivered := by
  have hopen : frames.drain [] = ([], some []) := Deframer.drain_of_none frames (by rfl)
  rw [receiveAll_open joined hopen, List.nil_append, hpieces, ← messages_drain_wire h]
  rfl

/-- **The texts of a server are received**, however the stream of its frames is
cut into pieces, if and only if all fragments of a message but the last are
empty, and no other message is fragmented. -/
theorem messages_received_iff (joined : Bool) {fs : List Frame} {texts : List (List UInt8)}
    (h : Server.between.texts fs = some texts) {pieces : List (List UInt8)}
    (hpieces : pieces.flatten = fs.flatMap wire) :
    messages (receiveAll joined (.opened []) pieces).2 = texts ↔ Server.between.Whole fs := by
  rw [messages_receive_wire joined h hpieces, Server.delivered_iff_whole h]

/-- A text with an empty first fragment, and a ping before the second. -/
def lateText : List Frame := [⟨false, 0x1, []⟩, ⟨true, 0x9, [1]⟩, ⟨true, 0x0, [97, 98]⟩]

theorem lateText_received :
    (messages (receiveAll true (.opened []) [lateText.flatMap wire]).2 = [[97, 98]] ↔
      Server.between.Whole lateText) ∧ Server.between.Whole lateText := by
  have htexts : Server.between.texts lateText = some [[97, 98]] := by decide
  refine ⟨messages_received_iff true htexts (by simp), ?_⟩
  exact (Server.delivered_iff_whole htexts).mp (by decide)

/-- **The last fragment of a text is passed on alone**: of `ab` in two fragments
the client hears `b`. -/
theorem last_fragment_received :
    ¬ ∀ (joined : Bool) (fs : List Frame) (texts : List (List UInt8)),
      Server.between.texts fs = some texts → ∀ pieces : List (List UInt8),
        pieces.flatten = fs.flatMap wire →
          messages (receiveAll joined (.opened []) pieces).2 = texts := by
  intro h
  have htexts : Server.between.texts [⟨false, 0x1, [97]⟩, ⟨true, 0x0, [98]⟩] = some [[97, 98]] := by
    decide
  have hpieces : [[(0x01 : UInt8), 1, 97], [0x80, 1, 98]].flatten =
      [(⟨false, 0x1, [97]⟩ : Frame), ⟨true, 0x0, [98]⟩].flatMap wire := by decide
  have hheard := messages_receive_wire true htexts hpieces
  rw [h true _ _ htexts _ hpieces] at hheard
  exact absurd hheard (by decide)

end WsClient

end IpcMini
