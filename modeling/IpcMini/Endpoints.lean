/-
The addresses that the clients accept: `parse_ws_url` of the signaling client
(`protocol/webrtc/ws_client.cpp`) and `parse_http_url` of the segment uploader
(`src/record/http_segment_uploader.cpp`).

Both cut an address at its first slash and what is before that at its last
colon.

* `atoi` — on a platform whose conversion of numbers outside `int` is left open;
* `rsplit` — cut a text at the last occurrence of a character;
* `parseWsUrl`, `parseHttpUrl`;
* **`parseWsUrl_isSome_iff`**, **`parseHttpUrl_isSome_iff`** — the addresses
  accepted, by their parts.
-/
import Mathlib.Data.Int.Notation
import Mathlib.Data.Nat.Notation
import IpcMini.RuntimeConfig

namespace IpcMini

namespace Endpoints

open Config

/-! ### Cutting a text -/

section Cut

variable {α : Type} [DecidableEq α]

/-- Cut at the last `c`, which is dropped. -/
def rsplit (c : α) (l : List α) : Option (List α × List α) :=
  match l.reverse.dropWhile (· ≠ c) with
  | [] => none
  | _ :: before => some (before.reverse, (l.reverse.takeWhile (· ≠ c)).reverse)

variable {c : α}

theorem takeWhile_cut {before rest : List α} (hb : c ∉ before)
    (hr : rest = [] ∨ ∃ t, rest = c :: t) :
    (before ++ rest).takeWhile (· ≠ c) = before := by
  rw [List.takeWhile_append_of_pos]
  · rcases hr with rfl | ⟨t, rfl⟩ <;> simp
  · intro x hx
    exact decide_eq_true fun h => hb (h ▸ hx)

theorem dropWhile_cut {before rest : List α} (hb : c ∉ before)
    (hr : rest = [] ∨ ∃ t, rest = c :: t) :
    (before ++ rest).dropWhile (· ≠ c) = rest := by
  rw [List.dropWhile_append_of_pos]
  · rcases hr with rfl | ⟨t, rfl⟩ <;> simp
  · intro x hx
    exact decide_eq_true fun h => hb (h ▸ hx)

/-- Every text is what comes before the first `c`, and the rest from there. -/
theorem exists_cut (c : α) (l : List α) :
    ∃ before rest, l = before ++ rest ∧ c ∉ before ∧ (rest = [] ∨ ∃ t, rest = c :: t) := by
  by_cases h : c ∈ l
  · obtain ⟨before, t, rfl, hb⟩ := List.eq_append_cons_of_mem h
    exact ⟨before, c :: t, rfl, hb, .inr ⟨t, rfl⟩⟩
  · exact ⟨l, [], (List.append_nil l).symm, h, .inl rfl⟩

theorem rsplit_append {before after : List α} (ha : c ∉ after) :
    rsplit c (before ++ c :: after) = some (before, after) := by
  have hrev : (before ++ c :: after).reverse = after.reverse ++ c :: before.reverse := by simp
  have hnot : c ∉ after.reverse := by simpa using ha
  rw [rsplit, hrev, dropWhile_cut hnot (.inr ⟨_, rfl⟩), takeWhile_cut hnot (.inr ⟨_, rfl⟩)]
  simp

theorem rsplit_none {l : List α} (h : c ∉ l) : rsplit c l = none := by
  have hnot : c ∉ l.reverse := by simpa using h
  have hdrop := dropWhile_cut hnot (.inl rfl)
  rw [List.append_nil] at hdrop
  rw [rsplit, hdrop]

omit [DecidableEq α] in
/-- There is a last `c`. -/
theorem exists_rsplit {l : List α} (h : c ∈ l) :
    ∃ before after, l = before ++ c :: after ∧ c ∉ after := by
  obtain ⟨after, before, hrev, ha⟩ := List.eq_append_cons_of_mem (List.mem_reverse.mpr h)
  refine ⟨before.reverse, after.reverse, ?_, by simpa using ha⟩
  rw [← List.reverse_reverse l, hrev]
  simp

end Cut

/-! ### The two parsers -/

/-- `isspace` in the C locale. -/
def isspace (c : Char) : Bool := c = ' ' || (9 ≤ c.toNat && c.toNat ≤ 13)

/-- The sign before the digits, and the digits. -/
def sign : List Char → ℤ × List Char
  | '-' :: digits => (-1, digits)
  | '+' :: digits => (1, digits)
  | digits => (1, digits)

/-- How `atoi` makes an `int` of a number.  Outside the range of `int` the C
standard leaves the result open, and C libraries differ. -/
structure Conversion where
  toInt : ℤ → ℤ
  exact : ∀ n, -2147483648 ≤ n → n ≤ 2147483647 → toInt n = n

/-- The number that a text of digits stands for. -/
def value (digits : List Char) : ℕ :=
  digits.foldl (fun n c => 10 * n + (c.toNat - '0'.toNat)) 0

section Parsers

variable (platform : Conversion)

def atoi (text : List Char) : ℤ :=
  let signed := sign (text.dropWhile isspace)
  platform.toInt (signed.1 * value (signed.2.takeWhile Char.isDigit))

/-- Host and port before they are checked. -/
def hostPort (hostport : List Char) : List Char × ℤ :=
  match rsplit ':' hostport with
  | none => (hostport, 80)
  | some (host, port) => (host, atoi platform port)

/-- The uploader does not look for a port where there is a bracket. -/
def httpHostPort (hostport : List Char) : List Char × ℤ :=
  if ']' ∈ hostport then (hostport, 80) else hostPort platform hostport

/-- Host, port and path of an accepted address. -/
def accept (target : List Char × ℤ) (path : List Char) : Option (String × ℤ × String) :=
  if target.1 ≠ [] ∧ 0 < target.2 ∧ target.2 ≤ 65535 then
    some (String.ofList target.1, target.2, String.ofList path)
  else none

/-- From the first slash on, which is put where there is none. -/
def pathOf (rest : List Char) : List Char :=
  if '/' ∈ rest then rest.dropWhile (· ≠ '/') else ['/']

def parseWsUrl (url : String) : Option (String × ℤ × String) :=
  if !startsWith url "ws://" then none
  else
    let rest := url.toList.drop 5
    accept (hostPort platform (rest.takeWhile (· ≠ '/'))) (pathOf rest)

def parseHttpUrl (url : String) : Option (String × ℤ × String) :=
  if !startsWith url "http://" then none
  else
    let rest := url.toList.drop 7
    accept (httpHostPort platform (rest.takeWhile (· ≠ '/'))) (pathOf rest)

/-- The path of a text that is cut at its first slash. -/
theorem pathOf_cut {authority rest : List Char} (hslash : '/' ∉ authority)
    (hrest : rest = [] ∨ ∃ t, rest = '/' :: t) :
    pathOf (authority ++ rest) = if rest = [] then ['/'] else rest := by
  rw [pathOf, dropWhile_cut hslash hrest]
  rcases hrest with rfl | ⟨t, rfl⟩
  · rw [if_neg (by simpa using hslash), if_pos rfl]
  · rw [if_pos (by simp), if_neg (by simp)]

/-! ### The addresses accepted -/

/-- A host alone, or a host and a port. -/
def Authority (authority : List Char) : Prop :=
  authority ≠ [] ∧ ':' ∉ authority ∨
    ∃ host port, authority = host ++ ':' :: port ∧ ':' ∉ port ∧ host ≠ [] ∧
      0 < atoi platform port ∧ atoi platform port ≤ 65535

/-- With a bracket it is a host alone. -/
def HttpAuthority (authority : List Char) : Prop :=
  ']' ∈ authority ∨ Authority platform authority

/-- The scheme, an authority as it should be, and then nothing or a slash. -/
def Addresses (scheme : String) (P : List Char → Prop) (url : String) : Prop :=
  ∃ authority rest, url.toList = scheme.toList ++ (authority ++ rest) ∧ '/' ∉ authority ∧
    (rest = [] ∨ ∃ path, rest = '/' :: path) ∧ P authority

theorem accept_isSome_iff (target : List Char × ℤ) (path : List Char) :
    (accept target path).isSome = true ↔ target.1 ≠ [] ∧ 0 < target.2 ∧ target.2 ≤ 65535 := by
  rw [accept]
  split
  next h => exact iff_of_true rfl h
  next h => exact iff_of_false Bool.false_ne_true h

theorem accept_eq_some_iff {target : List Char × ℤ} {path : List Char}
    {r : String × ℤ × String} : accept target path = some r ↔
      target.1 ≠ [] ∧ 0 < target.2 ∧ target.2 ≤ 65535 ∧
        r = (String.ofList target.1, target.2, String.ofList path) := by
  rw [accept]
  split
  next h =>
    rw [Option.some.injEq, eq_comm]
    exact ⟨fun hr => ⟨h.1, h.2.1, h.2.2, hr⟩, fun hr => hr.2.2.2⟩
  next h => exact iff_of_false (by simp) fun hr => h ⟨hr.1, hr.2.1, hr.2.2.1⟩

theorem port_80 : (0 : ℤ) < 80 ∧ (80 : ℤ) ≤ 65535 := by decide

theorem accept_hostPort_iff (authority path : List Char) :
    (accept (hostPort platform authority) path).isSome = true ↔ Authority platform authority := by
  rw [accept_isSome_iff, Authority]
  by_cases hc : ':' ∈ authority
  · obtain ⟨before, after, rfl, ha⟩ := exists_rsplit hc
    rw [hostPort, rsplit_append ha]
    constructor
    · rintro ⟨hh, hp⟩
      exact .inr ⟨_, _, rfl, ha, hh, hp⟩
    · rintro (⟨-, hn⟩ | ⟨host, port, heq, hport, hh, hp⟩)
      · exact absurd (by simp) hn
      · have hsame : rsplit ':' (before ++ ':' :: after) = _ := rsplit_append ha
        rw [heq, rsplit_append hport, Option.some.injEq, Prod.mk.injEq] at hsame
        rw [← hsame.1, ← hsame.2]
        exact ⟨hh, hp⟩
  · rw [hostPort, rsplit_none hc]
    constructor
    · rintro ⟨hh, -⟩
      exact .inl ⟨hh, hc⟩
    · rintro (⟨hh, -⟩ | ⟨host, port, heq, -⟩)
      · exact ⟨hh, port_80⟩
      · exact absurd (by simp [heq]) hc

theorem accept_httpHostPort_iff (authority path : List Char) :
    (accept (httpHostPort platform authority) path).isSome = true ↔ HttpAuthority platform authority := by
  rw [httpHostPort, HttpAuthority]
  by_cases hb : ']' ∈ authority
  · rw [if_pos hb, accept_isSome_iff]
    exact iff_of_true ⟨List.ne_nil_of_mem hb, port_80⟩ (.inl hb)
  · rw [if_neg hb, accept_hostPort_iff, or_iff_right hb]

theorem startsWith_iff {url scheme : String} :
    startsWith url scheme = true ↔ ∃ rest, url.toList = scheme.toList ++ rest := by
  rw [startsWith, List.isPrefixOf_iff_prefix]
  constructor
  · rintro ⟨rest, h⟩
    exact ⟨rest, h.symm⟩
  · rintro ⟨rest, h⟩
    exact ⟨rest, h.symm⟩

/-- An address of the scheme is accepted by what is before its first slash. -/
theorem addresses_iff {url scheme : String} {P : List Char → Prop} :
    Addresses scheme P url ↔ startsWith url scheme = true ∧
      P ((url.toList.drop scheme.toList.length).takeWhile (· ≠ '/')) := by
  rw [startsWith_iff, Addresses]
  constructor
  · rintro ⟨authority, rest, heq, hslash, hrest, hP⟩
    refine ⟨⟨_, heq⟩, ?_⟩
    rwa [heq, List.drop_left, takeWhile_cut hslash hrest]
  · rintro ⟨⟨tail, heq⟩, hP⟩
    rw [heq, List.drop_left] at hP
    obtain ⟨authority, rest, hcut, hslash, hrest⟩ := exists_cut '/' tail
    rw [hcut, takeWhile_cut hslash hrest] at hP
    exact ⟨authority, rest, by rw [heq, hcut], hslash, hrest, hP⟩

/-- **The addresses the signaling client accepts.** -/
theorem parseWsUrl_isSome_iff (url : String) :
    (parseWsUrl platform url).isSome = true ↔ Addresses "ws://" (Authority platform) url := by
  rw [addresses_iff, parseWsUrl]
  cases startsWith url "ws://" with
  | false => exact iff_of_false Bool.false_ne_true fun h => Bool.false_ne_true h.1
  | true => exact (accept_hostPort_iff _ _ _).trans (and_iff_right rfl).symm

/-- **The addresses the uploader accepts.** -/
theorem parseHttpUrl_isSome_iff (url : String) :
    (parseHttpUrl platform url).isSome = true ↔
      Addresses "http://" (HttpAuthority platform) url := by
  rw [addresses_iff, parseHttpUrl]
  cases startsWith url "http://" with
  | false => exact iff_of_false Bool.false_ne_true fun h => Bool.false_ne_true h.1
  | true => exact (accept_httpHostPort_iff _ _ _).trans (and_iff_right rfl).symm

end Parsers

end Endpoints

end IpcMini
