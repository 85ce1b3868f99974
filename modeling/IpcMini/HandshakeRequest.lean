/-
The request that opens a WebSocket (`WsClient::send_handshake` of
`protocol/webrtc/ws_client.cpp`).

The path of the URL is written into the first line as it is.  The server takes for the
target of the request what stands there up to the next space or end of a line, and
gives it to its handlers with a character for each byte.

* `utf8`, `handshake` — the bytes of the request;
* `targetOf` — the target that a server reads in a request;
* `sent` — a path with a character for each of its bytes;
* **`targetOf_handshake`** — the target is the path up to its first space or line break.
-/
import IpcMini.Endpoints
import IpcMini.UriEncoding

namespace IpcMini

namespace Endpoints

/-! ### Bytes and characters -/

/-- The bytes of a text. -/
def utf8 (text : String) : List UInt8 := text.toList.flatMap String.utf8EncodeChar

/-- The bytes, each taken for a character. -/
def latin1 (bytes : List UInt8) : List Char := bytes.map fun b => Char.ofNat b.toNat

/-- A path as it is sent, with a character for each byte. -/
def sent (path : List Char) : List Char := latin1 (path.flatMap String.utf8EncodeChar)

theorem toNat_byte (b : UInt8) : (Char.ofNat b.toNat).toNat = b.toNat := by
  rw [Char.ofNat, dif_pos (.inl (by have := UInt8.toNat_lt b; omega))]
  rfl

/-- The bytes of a character that is not in ASCII are not either. -/
theorem high_of_mem_utf8 {c : Char} (hc : 128 ≤ c.toNat) {b : UInt8}
    (hb : b ∈ String.utf8EncodeChar c) : 128 ≤ b.toNat := by
  have hmod : ∀ {lead k m : ℕ}, 128 ≤ lead → lead + (m - 1) < 256 → 0 < m →
      128 ≤ (UInt8.ofNat (k % m + lead)).toNat := by
    intro lead k m hlead hmax hm
    have hlt := Nat.mod_lt k hm
    rw [UInt8.toNat_ofNat', Nat.mod_eq_of_lt (by omega)]
    omega
  rw [UriComponent.utf8EncodeChar_eq] at hb
  split at hb
  · omega
  split at hb
  · simp only [List.mem_cons, List.not_mem_nil, or_false] at hb
    rcases hb with rfl | rfl <;> exact hmod (by decide) (by decide) (by decide)
  split at hb
  · simp only [List.mem_cons, List.not_mem_nil, or_false] at hb
    rcases hb with rfl | rfl | rfl <;> exact hmod (by decide) (by decide) (by decide)
  · simp only [List.mem_cons, List.not_mem_nil, or_false] at hb
    rcases hb with rfl | rfl | rfl | rfl <;> exact hmod (by decide) (by decide) (by decide)

theorem sent_append (path path' : List Char) : sent (path ++ path') = sent path ++ sent path' := by
  simp only [sent, latin1, List.flatMap_append, List.map_append]

theorem sent_cons (c : Char) (path : List Char) :
    sent (c :: path) = latin1 (String.utf8EncodeChar c) ++ sent path := by
  simp only [sent, latin1, List.flatMap_cons, List.map_append]

/-- A character of ASCII is sent as itself. -/
theorem latin1_ascii {c : Char} (hc : c.toNat < 128) : latin1 (String.utf8EncodeChar c) = [c] := by
  have hbyte : (UInt8.ofNat c.toNat).toNat = c.toNat := UriComponent.toNat_octet (by omega)
  rw [UriComponent.utf8EncodeChar_eq, if_pos (by omega), latin1, List.map_cons, List.map_nil,
    hbyte, Char.ofNat_toNat]

theorem sent_ascii {path : List Char} (h : ∀ c ∈ path, c.toNat < 128) : sent path = path := by
  induction path with
  | nil => rfl
  | cons c path ih =>
    obtain ⟨hc, hrest⟩ := List.forall_mem_cons.mp h
    rw [sent_cons, latin1_ascii hc, ih hrest]
    rfl

/-- What is sent has the same characters of ASCII. -/
theorem mem_sent_iff {c : Char} (hc : c.toNat < 128) {path : List Char} :
    c ∈ sent path ↔ c ∈ path := by
  induction path with
  | nil => exact Iff.rfl
  | cons d path ih =>
    rw [sent_cons, List.mem_append, List.mem_cons, ih]
    refine or_congr_left ?_
    by_cases hd : d.toNat < 128
    · rw [latin1_ascii hd, List.mem_singleton]
    · refine iff_of_false (fun hmem => ?_) fun heq => hd (heq ▸ hc)
      obtain ⟨b, hb, rfl⟩ := List.mem_map.mp hmem
      have hhigh := high_of_mem_utf8 (by omega) hb
      rw [toNat_byte] at hc
      omega

/-! ### The request -/

/-- The request of `send_handshake`, with the key that it has made of random bytes. -/
def handshake (host : String) (port : ℤ) (path key : String) : List UInt8 :=
  utf8 ("GET " ++ (path ++ (" HTTP/1.1\r\nHost: " ++ host ++ ":" ++ toString port ++
    "\r\nUpgrade: websocket\r\nConnection: Upgrade\r\nSec-WebSocket-Key: " ++ key ++
    "\r\nSec-WebSocket-Version: 13\r\n\r\n")))

/-- A space, or the end of a line. -/
def endsTarget (n : ℕ) : Bool := n = 32 || n = 13 || n = 10

/-- The target behind the method of a request. -/
def targetOf (request : List UInt8) : List Char :=
  latin1 (((request.dropWhile (· ≠ 32)).drop 1).takeWhile fun b => !endsTarget b.toNat)

/-- **The target is the path** up to its first space or line break. -/
theorem targetOf_handshake (host : String) (port : ℤ) (path key : String) :
    targetOf (handshake host port path key) =
      (sent path.toList).takeWhile fun c => !endsTarget c.toNat := by
  obtain ⟨headers, hrequest⟩ : ∃ headers, handshake host port path key =
      [71, 69, 84] ++ 32 :: (path.toList.flatMap String.utf8EncodeChar ++ 32 :: headers) := by
    simp only [handshake, utf8, String.toList_append, List.flatMap_append]
    exact ⟨_, rfl⟩
  have hpath : ((handshake host port path key).dropWhile (· ≠ 32)).drop 1 =
      path.toList.flatMap String.utf8EncodeChar ++ 32 :: headers := by
    rw [hrequest, dropWhile_cut (by decide) (.inr ⟨_, rfl⟩)]
    rfl
  have hstop : ∀ bytes : List UInt8,
      (bytes ++ 32 :: headers).takeWhile (fun b => !endsTarget b.toNat) =
        bytes.takeWhile fun b => !endsTarget b.toNat := by
    intro bytes
    rw [List.takeWhile_append]
    split
    next hall =>
      have hself := (List.takeWhile_prefix (l := bytes)
        fun b : UInt8 => !endsTarget b.toNat).eq_of_length hall
      rw [hself]
      exact List.append_nil bytes
    next => rfl
  rw [targetOf, hpath, hstop, sent, latin1, latin1, List.takeWhile_map]
  congr 2
  funext b
  rw [Function.comp, toNat_byte]

-- a space in the path cuts the parameter off
example : targetOf (handshake "h" 80 "/a b?token=t" "a2V5") = ['/', 'a'] := by decide +kernel

end Endpoints

end IpcMini
