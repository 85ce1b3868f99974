/-
Whether the device takes the signals that the server relays to it
(`cloud/signaling/protocol.js`, `cloud/signaling/rooms.js`,
`protocol/webrtc/ws_client.cpp`).

The validators bound the strings of a signal, the websocket client bounds the
frame in which the whole message is relayed.

* `Passes`, `Closes` — what becomes of the frame of a text in the stream of the
  device's connection;
* `passes_iff`, `closes_iff` — a text of at most 65535 bytes is passed on, and a
  longer one closes the connection;
* `signal_routed` — an accepted signal is relayed to the device;
* **`relayed_signal_taken_iff`** — the device takes it exactly if its text has at
  most 65535 bytes;
* `long_offer_closes_device` — an offer that is accepted and is too long.
-/
import IpcMini.SignalProtocol
import IpcMini.SignalRouting
import IpcMini.WsClient

namespace IpcMini

open Interleaving Json WsClient

namespace Signaling

/-- Wherever the frame of the text stands in the stream, and however the stream
is cut into pieces, the client passes the text on and goes on with what comes
behind it. -/
def Passes (text : List UInt8) : Prop :=
  ∀ joined pieces before after earlier, frames.drain before = (earlier, some []) →
    pieces.flatten = before ++ (textFrame text ++ after) →
    receiveAll joined (.opened []) pieces =
      ofDrain (earlier ++ .message text :: (frames.drain after).1, (frames.drain after).2)

/-- The frame of the text closes the connection, and the text is not passed on. -/
def Closes (text : List UInt8) : Prop :=
  ∀ joined pieces before after earlier, frames.drain before = (earlier, some []) →
    pieces.flatten = before ++ (textFrame text ++ after) →
    receiveAll joined (.opened []) pieces = (.closed, earlier ++ [.state false])

theorem drain_nil : frames.drain [] = ([], some []) := Deframer.drain_of_none frames rfl

/-- A text is not both passed on and the end of the connection. -/
theorem not_passes_and_closes {text : List UInt8} (hpasses : Passes text) : ¬ Closes text := by
  intro hcloses
  -- the frame stands alone in the stream
  have hflat : [textFrame text].flatten = [] ++ (textFrame text ++ []) := by simp
  have hone := hpasses true [textFrame text] [] [] [] drain_nil hflat
  have htwo := hcloses true [textFrame text] [] [] [] drain_nil hflat
  have heq := congrArg (fun r => r.1.client) (hone.symm.trans htwo)
  simp [ofDrain, drain_nil, Client.opened, Client.closed] at heq

theorem passes_of_le {text : List UInt8} (h : text.length ≤ 65535) : Passes text := by
  intro joined pieces before after earlier hbefore hpieces
  have := receive_text joined drain_nil (by rw [List.nil_append, hpieces]) hbefore
  rwa [if_pos h] at this

theorem closes_of_lt {text : List UInt8} (h : 65535 < text.length) : Closes text := by
  intro joined pieces before after earlier hbefore hpieces
  have := receive_text joined drain_nil (by rw [List.nil_append, hpieces]) hbefore
  rwa [if_neg (by omega)] at this

/-- **A text is passed on exactly if it has at most 65535 bytes.** -/
theorem passes_iff (text : List UInt8) : Passes text ↔ text.length ≤ 65535 := by
  constructor
  · intro h
    by_contra hlong
    exact not_passes_and_closes h (closes_of_lt (by omega))
  · exact passes_of_le

/-- **A longer one closes the connection.** -/
theorem closes_iff (text : List UInt8) : Closes text ↔ 65535 < text.length := by
  constructor
  · intro h
    by_contra hshort
    exact not_passes_and_closes (passes_of_le (by omega)) h
  · exact closes_of_lt

/-! ### Signals -/

/-- A message that is accepted has been validated. -/
theorem validated_of_parse {parse : List UInt8 → Option Value} {data : List UInt8}
    {isBinary : Bool} {maxBytes : ℕ} {value : Value}
    (h : parseClientMessage parse data isBinary maxBytes = .ok value) {msg : Object}
    {type : Units} (htyped : typed value = some (msg, type)) : validateTyped msg type = none := by
  rw [parseClientMessage] at h
  split at h
  · cases h
  split at h
  · cases h
  split at h
  · cases h
  next hnone =>
    obtain rfl := Except.ok.inj h
    rwa [validateSignalMessage, htyped] at hnone

/-- An accepted offer or candidate is relayed to the open socket of the peer it
is for. -/
theorem signal_routed (cfg : Config) {s : State Object} (hf : Filed s) {msg : Object}
    {type : Units} (hvalid : validateTyped msg type = none)
    (hsignal : type = units "offer" ∨ type = units "candidate") {sender device : Peer}
    {ready : Ready} (hsocket : s.sockets sender.ws = some ⟨ready, some sender⟩)
    (hready : ready ≠ .closed)
    (hto : recipient s.rooms sender (identifier (msg.field (units "to"))) = some device)
    (hopen : s.isOpen device.ws = true) (newId : String) :
    ∃ t, step cfg s (.message sender.ws (clientMessage msg type) newId) = some t ∧
      t.log = s.log ++ [(device.ws, .relay sender.id device.id msg)] := by
  have hmessage : clientMessage msg type = .signal (identifier (msg.field (units "to"))) msg := by
    rcases hsignal with rfl | rfl
    · rfl
    · rfl
  have hids := valid_clientMessage hvalid
  rw [hmessage] at hids ⊢
  refine ⟨_, by simp only [step, hsocket]; exact if_pos ⟨hready, hids, trivial⟩, ?_⟩
  rcases signal_log hf cfg sender.ws sender newId _ msg with ⟨target, htarget, hlog⟩ | ⟨hnone, -⟩
  · obtain rfl := Option.some.inj (htarget.symm.trans hto)
    rwa [if_pos hopen] at hlog
  · exact absurd (hnone.symm.trans hto) (by simp)

/-- **The device takes an accepted offer or candidate exactly if the text in
which it is relayed has at most 65535 bytes**, and else its connection is closed. -/
theorem relayed_signal_taken_iff (cfg : Config) (parse : List UInt8 → Option Value)
    (data : List UInt8) (isBinary : Bool) (maxBytes : ℕ) {value : Value} {msg : Object}
    {type : Units} (hparse : parseClientMessage parse data isBinary maxBytes = .ok value)
    (htyped : typed value = some (msg, type))
    (hsignal : type = units "offer" ∨ type = units "candidate") {is : List (Label Object)}
    {s : State Object} (hs : run (step cfg) init is = some s) {sender device : Peer} {ready : Ready}
    (hsocket : s.sockets sender.ws = some ⟨ready, some sender⟩) (hready : ready ≠ .closed)
    (hto : recipient s.rooms sender (identifier (msg.field (units "to"))) = some device)
    (hopen : s.isOpen device.ws = true) (newId : String) :
    ∃ t, step cfg s (.message sender.ws (clientMessage msg type) newId) = some t ∧
      t.log = s.log ++ [(device.ws, .relay sender.id device.id msg)] ∧
      (Passes (relayText sender.id device.id msg) ↔
        (relayText sender.id device.id msg).length ≤ 65535) ∧
      (Closes (relayText sender.id device.id msg) ↔
        65535 < (relayText sender.id device.id msg).length) := by
  have hf : Filed s := run_preserves (fun _ _ _ hf => filed_step hf) filed_init hs
  obtain ⟨t, hstep, hlog⟩ := signal_routed cfg hf (validated_of_parse hparse htyped) hsignal hsocket
    hready hto hopen newId
  exact ⟨t, hstep, hlog, passes_iff _, closes_iff _⟩

/-! ### Offers of a given size -/

/-- An offer whose session description is `n` times the letter `v`. -/
def offer (n : ℕ) : Object :=
  [(units "type", .string (units "offer")), (units "sdp", .string (List.replicate n 118))]

/-- The bytes in which a viewer sends it. -/
def offerData (n : ℕ) : List UInt8 :=
  utf8 (units "\x7b\"type\":\"offer\",\"sdp\":\"") ++ List.replicate n 118 ++ [34, 125]

/-- `JSON.parse` of these bytes. -/
def parseOffer (n : ℕ) (data : List UInt8) : Option Value :=
  if data = offerData n then some (.object (offer n)) else none

theorem typed_offer (n : ℕ) : typed (.object (offer n)) = some (offer n, units "offer") := rfl

theorem offer_accepted {n : ℕ} (hpos : 0 < n) (hmax : n ≤ 262000) :
    parseClientMessage (parseOffer n) (offerData n) false (256 * 1024) =
      .ok (.object (offer n)) := by
  have hlength : (offerData n).length ≤ 256 * 1024 := by
    have hhead : (utf8 (units "\x7b\"type\":\"offer\",\"sdp\":\"")).length = 23 := by decide
    simp only [offerData, List.length_append, List.length_replicate, hhead, List.length_cons,
      List.length_nil]
    omega
  have hvalid : validateSignalMessage (.object (offer n)) = none := by
    have hsdp : (offer n).field (units "sdp") = some (.string (List.replicate n 118)) := rfl
    have hto : (offer n).field (units "to") = none := rfl
    rw [validateSignalMessage, typed_offer]
    dsimp only
    rw [validateTyped, if_neg (by decide), if_pos (by decide)]
    refine if_neg ?_
    dsimp only
    rw [hsdp, hto]
    simp only [validSignalString, List.length_replicate, isUndefined]
    rw [decide_eq_true hpos, decide_eq_true (by omega)]
    decide
  rw [parseClientMessage, if_neg (by simpa using hlength), parseOffer, if_pos rfl]
  dsimp only
  rw [hvalid]

/-- The session description is relayed, whatever its size. -/
theorem lt_relayText_offer (n : ℕ) : n ≤ (relayText "v" "m" (offer n)).length := by
  have hmem : (units "sdp", Value.string (List.replicate n 118)) ∈ offer n :=
    List.mem_cons_of_mem _ List.mem_cons_self
  have hrouted := Object.mem_setMember (units "to") (.string (units "m"))
    (Object.mem_setMember (units "from") (.string (units "v")) hmem (by decide)) (by decide)
  have hle := string_le_bytes hrouted
  rwa [List.length_replicate] at hle

/-- A device and a viewer join a room. -/
def joined : List (Label Object) :=
  [.connect 0, .message 0 (.join "r" .master "m") "", .connect 1,
    .message 1 (.join "r" .viewer "v") ""]

theorem run_joined : ∃ s, run (step defaultConfig) init joined = some s ∧
    s.sockets 1 = some ⟨.open, some ⟨"v", .viewer, "r", 1, 1⟩⟩ ∧
    recipient s.rooms ⟨"v", .viewer, "r", 1, 1⟩ "" = some ⟨"m", .master, "r", 0, 0⟩ ∧
    s.isOpen 0 = true := by
  obtain ⟨s, hs⟩ : ∃ s, run (step defaultConfig) init joined = some s :=
    Option.isSome_iff_exists.mp (by decide +kernel)
  have hsocket : (run (step defaultConfig) init joined).map (·.sockets 1) =
      some (some ⟨.open, some ⟨"v", .viewer, "r", 1, 1⟩⟩) := by decide +kernel
  have hto : (run (step defaultConfig) init joined).map
      (fun s => recipient s.rooms ⟨"v", .viewer, "r", 1, 1⟩ "") =
        some (some ⟨"m", .master, "r", 0, 0⟩) := by decide +kernel
  have hopen : (run (step defaultConfig) init joined).map (·.isOpen 0) = some true := by
    decide +kernel
  rw [hs, Option.map_some] at hsocket hto hopen
  exact ⟨s, hs, Option.some.inj hsocket, Option.some.inj hto, Option.some.inj hopen⟩

/-- A short offer is passed on. -/
theorem short_offer_taken : ∃ s t, run (step defaultConfig) init joined = some s ∧
    step defaultConfig s (.message 1 (clientMessage (offer 1) (units "offer")) "") = some t ∧
    t.log = s.log ++ [(0, .relay "v" "m" (offer 1))] ∧ Passes (relayText "v" "m" (offer 1)) := by
  obtain ⟨s, hs, hsocket, hto, hopen⟩ := run_joined
  obtain ⟨t, hstep, hlog, hpasses, -⟩ := relayed_signal_taken_iff defaultConfig (parseOffer 1)
    (offerData 1) false (256 * 1024) (offer_accepted (by decide) (by decide)) (typed_offer 1)
    (.inl rfl) hs hsocket (by decide) hto hopen ""
  exact ⟨s, t, hs, hstep, hlog, hpasses.mpr (by decide +kernel)⟩

/-- An offer of 64 KiB is accepted and relayed, and closes the connection of the
device. -/
theorem long_offer_closes_device :
    parseClientMessage (parseOffer 65536) (offerData 65536) false (256 * 1024) =
      .ok (.object (offer 65536)) ∧
    ∃ s t, run (step defaultConfig) init joined = some s ∧
      step defaultConfig s (.message 1 (clientMessage (offer 65536) (units "offer")) "") =
        some t ∧
      t.log = s.log ++ [(0, .relay "v" "m" (offer 65536))] ∧
      ¬ Passes (relayText "v" "m" (offer 65536)) ∧ Closes (relayText "v" "m" (offer 65536)) := by
  have haccepted := offer_accepted (n := 65536) (by decide) (by decide)
  have hlong : 65535 < (relayText "v" "m" (offer 65536)).length :=
    Nat.lt_of_lt_of_le (by decide) (lt_relayText_offer 65536)
  obtain ⟨s, hs, hsocket, hto, hopen⟩ := run_joined
  have hf : Filed s := run_preserves (fun _ _ _ hf => filed_step hf) filed_init hs
  obtain ⟨t, hstep, hlog⟩ := signal_routed defaultConfig hf
    (validated_of_parse haccepted (typed_offer 65536)) (.inl rfl) hsocket (by decide) hto hopen ""
  exact ⟨haccepted, s, t, hs, hstep, hlog,
    fun h => absurd ((passes_iff _).mp h) (by omega), closes_of_lt hlong⟩

end Signaling

end IpcMini
