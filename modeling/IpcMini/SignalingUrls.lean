/-
The token in the URL of the signaling server (`protocol/webrtc/signaling_client.cpp`,
`protocol/webrtc/ws_client.cpp`, `cloud/signaling/server.js`).

`build_url` appends the token to the text of the URL as one more parameter of its
query.  `parse_ws_url` takes the request path from the first slash on, the client writes
it into its request as it is, and the server looks for the parameter in the target of the
request.

* `urlEncodeQueryValue`, `buildUrl` — the URL with the token;
* `formDecode`, `searchParams`, `queryOf` — what `URLSearchParams` reads;
* **`formDecode_encoded`** — a token is decoded to itself;
* `authOk` — the server's decision, with the parsers of Node left open;
* `get_prefix` — what is cut off a query adds no parameter to it;
* **`token_seen_iff`** — the token is seen if and only if the URL has a path, with
  its query in it and without a fragment, a space or a line break, and the server can
  parse the request.
-/
import Mathlib.Data.List.Infix
import Mathlib.Data.List.TakeWhile
import IpcMini.HandshakeRequest

namespace IpcMini

namespace Endpoints

open Config

/-! ### The URL with the token -/

def safe (c : UInt8) : Bool :=
  (97 ≤ c && c ≤ 122) || (65 ≤ c && c ≤ 90) || (48 ≤ c && c ≤ 57) || c == 45 || c == 95 ||
    c == 46 || c == 126

/-- `"0123456789ABCDEF"`. -/
def hex (n : ℕ) : Char := Char.ofNat (if n < 10 then 48 + n else 55 + n)

def urlEncodeByte (c : UInt8) : List Char :=
  if safe c then [Char.ofNat c.toNat] else ['%', hex (c.toNat / 16), hex (c.toNat % 16)]

def urlEncodeQueryValue (value : List UInt8) : List Char := value.flatMap urlEncodeByte

/-- `"token="`. -/
def tokenName : List Char := ['t', 'o', 'k', 'e', 'n', '=']

/-- What `build_url` appends behind `?` or `&`. -/
def tokenParameter (token : String) : List Char :=
  tokenName ++ urlEncodeQueryValue (utf8 token)

def buildUrl (url token : String) : String :=
  if token = "" then url
  else
    String.ofList (url.toList ++ (if '?' ∈ url.toList then '&' else '?') :: tokenParameter token)

/-! ### What the server reads -/

/-- A name or a value of `application/x-www-form-urlencoded`, as bytes. -/
def formDecode : List Char → List UInt8
  | '%' :: high :: low :: rest =>
    match UriComponent.hex high, UriComponent.hex low with
    | some h, some l => .ofNat (16 * h + l) :: formDecode rest
    | _, _ => 37 :: formDecode (high :: low :: rest)
  | '+' :: rest => 32 :: formDecode rest
  | c :: rest => String.utf8EncodeChar c ++ formDecode rest
  | [] => []

/-- A piece of a query, cut at its first `=`. -/
def parameter (piece : List Char) : List UInt8 × List UInt8 :=
  (formDecode (piece.takeWhile (· ≠ '=')), formDecode ((piece.dropWhile (· ≠ '=')).drop 1))

/-- `url.searchParams` of a query. -/
def searchParams (query : List Char) : List (List UInt8 × List UInt8) :=
  ((query.splitOn '&').filter (· ≠ [])).map parameter

/-- `searchParams.get(name)`. -/
def get (params : List (List UInt8 × List UInt8)) (name : String) : Option (List UInt8) :=
  (params.find? (·.1 = utf8 name)).map Prod.snd

/-- The URL parser removes tabs and line breaks. -/
def isRemoved (c : Char) : Bool := c = '\t' || c = '\n' || c = '\r'

/-- The query of a request target: between its first `?` and the fragment. -/
def queryOf (target : List Char) : List Char :=
  (((target.filter (!isRemoved ·)).takeWhile (· ≠ '#')).dropWhile (· ≠ '?')).drop 1

/-- What Node makes of a request: its target, if the request is not refused, and the
query of `new URL(target, "http://localhost")`, which throws for some targets. -/
structure NodeServer where
  target : List UInt8 → Option (List Char)
  target_eq : ∀ request t, target request = some t → t = targetOf request
  query : List Char → Option (List Char)
  query_eq : ∀ target q, query target = some q → q = queryOf target

/-- The query of a request, unless it is refused or the URL parser throws. -/
def NodeServer.requestQuery (server : NodeServer) (request : List UInt8) : Option (List Char) :=
  (server.target request).bind server.query

/-- `authOk` of a request, with its header `x-signaling-token`; `none` where the server
does not get so far. -/
def authOk (server : NodeServer) (request : List UInt8) (header : Option (List UInt8))
    (token : String) : Option Bool :=
  (server.target request).bind fun target =>
    if token = "" then some true
    else
      (server.query target).map fun q =>
        decide (get (searchParams q) "token" = some (utf8 token)) ||
          decide (header = some (utf8 token))

/-! ### Encoding -/

theorem hex_value : ∀ n < 16, UriComponent.hex (hex n) = some n := by decide

/-- A byte is decoded to itself. -/
theorem formDecode_byte (b : UInt8) (rest : List Char) :
    formDecode (urlEncodeByte b ++ rest) = b :: formDecode rest := by
  rw [urlEncodeByte]
  split
  next hsafe =>
    have hchar : ∀ n < 256, safe (.ofNat n) = true →
        Char.ofNat n ≠ '%' ∧ Char.ofNat n ≠ '+' ∧
          String.utf8EncodeChar (Char.ofNat n) = [.ofNat n] := by decide +kernel
    obtain ⟨hpercent, hplus, hbytes⟩ := hchar b.toNat (UInt8.toNat_lt b) (by
      rw [UInt8.ofNat_toNat]
      exact hsafe)
    rw [UInt8.ofNat_toNat] at hbytes
    rw [List.singleton_append, formDecode.eq_3, hbytes]
    · rfl
    · exact fun _ _ _ heq _ => hpercent heq
    · exact hplus
  next =>
    have hlow := hex_value (b.toNat % 16) (Nat.mod_lt _ (by decide))
    have hhigh := hex_value (b.toNat / 16) (by have := UInt8.toNat_lt b; omega)
    have hsum : 16 * (b.toNat / 16) + b.toNat % 16 = b.toNat := by omega
    simp only [List.cons_append, List.nil_append]
    rw [formDecode.eq_1, hhigh, hlow]
    dsimp only
    rw [hsum, UInt8.ofNat_toNat]

/-- **A value is decoded to itself.** -/
theorem formDecode_encoded (value : List UInt8) :
    formDecode (urlEncodeQueryValue value) = value := by
  induction value with
  | nil => rfl
  | cons b value ih =>
    rw [urlEncodeQueryValue, List.flatMap_cons, formDecode_byte, ← urlEncodeQueryValue, ih]

/-- Nothing in it is special in a URL. -/
theorem encoded_plain {value : List UInt8} {c : Char} (h : c ∈ urlEncodeQueryValue value) :
    c ∉ ['/', '?', '#', '&', '=', ':', ' ', '\t', '\n', '\r'] := by
  obtain ⟨b, -, hc⟩ := List.mem_flatMap.mp h
  rw [urlEncodeByte] at hc
  split at hc
  next hsafe =>
    have hall : (['/', '?', '#', '&', '=', ':', ' ', '\t', '\n', '\r'].all
        fun d => !safe (.ofNat d.toNat)) = true := by decide
    intro hmem
    have hnot := List.all_eq_true.mp hall c hmem
    rw [List.mem_singleton.mp hc, toNat_byte, UInt8.ofNat_toNat, hsafe] at hnot
    cases hnot
  next =>
    have hhex : ∀ n < 16, hex n ∉ ['/', '?', '#', '&', '=', ':', ' ', '\t', '\n', '\r'] := by decide
    simp only [List.mem_cons, List.not_mem_nil, or_false] at hc
    rcases hc with rfl | rfl | rfl
    · decide
    · exact hhex _ (by have := UInt8.toNat_lt b; omega)
    · exact hhex _ (Nat.mod_lt _ (by decide))

/-! ### The query of the request -/

/-- The parameter is read as the token. -/
theorem parameter_token (token : String) :
    parameter (tokenParameter token) = (utf8 "token", utf8 token) := by
  have hname : tokenParameter token =
      ['t', 'o', 'k', 'e', 'n'] ++ '=' :: urlEncodeQueryValue (utf8 token) := rfl
  have hno : '=' ∉ ['t', 'o', 'k', 'e', 'n'] := by decide
  rw [parameter, hname, takeWhile_cut hno (.inr ⟨_, rfl⟩), dropWhile_cut hno (.inr ⟨_, rfl⟩),
    List.drop_one, List.tail_cons, formDecode_encoded]
  have htoken : formDecode ['t', 'o', 'k', 'e', 'n'] = utf8 "token" := by decide
  rw [htoken]

theorem tokenParameter_plain {token : String} {c : Char} (h : c ∈ tokenParameter token) :
    c ∉ ['/', '?', '#', '&', ':', ' ', '\t', '\n', '\r'] := by
  rcases List.mem_append.mp h with h | h
  · have hall : ∀ c ∈ tokenName, c ∉ ['/', '?', '#', '&', ':', ' ', '\t', '\n', '\r'] := by
      simp [tokenName]
    exact hall c h
  · have hplain := encoded_plain h
    simp only [List.mem_cons, not_or] at hplain ⊢
    tauto

/-- It is in ASCII. -/
theorem tokenParameter_ascii {token : String} {c : Char} (h : c ∈ tokenParameter token) :
    c.toNat < 128 := by
  rcases List.mem_append.mp h with h | h
  · have hall : (tokenName.all fun c => decide (c.toNat < 128)) = true := by decide
    exact of_decide_eq_true (List.all_eq_true.mp hall c h)
  · obtain ⟨b, -, hc⟩ := List.mem_flatMap.mp h
    rw [urlEncodeByte] at hc
    split at hc
    next hsafe =>
      have hlow : ∀ n < 256, safe (.ofNat n) = true → n < 128 := by decide +kernel
      rw [List.mem_singleton.mp hc, toNat_byte]
      exact hlow b.toNat (UInt8.toNat_lt b) (by rwa [UInt8.ofNat_toNat])
    next =>
      have hhex : ∀ n < 16, (hex n).toNat < 128 := by decide
      simp only [List.mem_cons, List.not_mem_nil, or_false] at hc
      rcases hc with rfl | rfl | rfl
      · decide
      · exact hhex _ (by have := UInt8.toNat_lt b; omega)
      · exact hhex _ (Nat.mod_lt _ (by decide))

theorem searchParams_token (token : String) :
    searchParams (tokenParameter token) = [(utf8 "token", utf8 token)] := by
  have hno : '&' ∉ tokenParameter token := fun hmem =>
    tokenParameter_plain hmem (by decide)
  have hne : tokenParameter token ≠ [] := by simp [tokenParameter, tokenName]
  rw [searchParams, List.splitOn_eq_singleton hno]
  simp [hne, parameter_token]

/-- Further parameters are read behind the others. -/
theorem searchParams_append (query more : List Char) :
    searchParams (query ++ '&' :: more) = searchParams query ++ searchParams more := by
  rw [searchParams, searchParams, searchParams, List.splitOn_append_cons_self,
    List.filter_append, List.map_append]

theorem get_cons (p : List UInt8 × List UInt8) (params : List (List UInt8 × List UInt8))
    (name : String) :
    get (p :: params) name = if p.1 = utf8 name then some p.2 else get params name := by
  rw [get, List.find?_cons]
  by_cases h : p.1 = utf8 name <;> simp [h, get]

theorem get_append (params more : List (List UInt8 × List UInt8)) (name : String) :
    get (params ++ more) name = (get params name).or (get more name) := by
  rw [get, get, get, List.find?_append, Option.map_or]

/-- What is appended to a path. -/
def extended (path : List Char) (separator : Char) (token : String) : List Char :=
  path ++ separator :: tokenParameter token

theorem filter_token (token : String) :
    (tokenParameter token).filter (!isRemoved ·) = tokenParameter token := by
  refine List.filter_eq_self.mpr fun c hc => ?_
  have hplain := tokenParameter_plain hc
  simp only [List.mem_cons, not_or] at hplain
  simp [isRemoved, hplain]

/-- The path without tabs and line breaks. -/
theorem filter_extended (path : List Char) {separator : Char}
    (hsep : separator = '?' ∨ separator = '&') (token : String) :
    (extended path separator token).filter (!isRemoved ·) =
      extended (path.filter (!isRemoved ·)) separator token := by
  have hkept : (!isRemoved separator) = true := by rcases hsep with rfl | rfl <;> decide
  rw [extended, List.filter_append, List.filter_cons_of_pos (by simpa using hkept), filter_token,
    extended]

theorem mem_filter_removed {path : List Char} {c : Char} (hc : isRemoved c = false) :
    c ∈ path.filter (!isRemoved ·) ↔ c ∈ path := by
  simp [hc]

/-- Without a fragment the parameter is appended to the query, or is the query. -/
theorem queryOf_extended {path : List Char} (hfragment : '#' ∉ path) {separator : Char}
    (hsep : separator = '?' ∨ separator = '&') (token : String) :
    queryOf (extended path separator token) =
      if '?' ∈ path then queryOf path ++ separator :: tokenParameter token
      else if separator = '?' then tokenParameter token
      else [] := by
  have hq : '?' ∈ path.filter (!isRemoved ·) ↔ '?' ∈ path := mem_filter_removed (by decide)
  have hf : '#' ∉ path.filter (!isRemoved ·) := by rwa [mem_filter_removed (by decide)]
  rw [queryOf, queryOf, filter_extended path hsep, if_congr hq.symm rfl rfl]
  generalize path.filter (!isRemoved ·) = path at hf ⊢
  -- the token itself adds no fragment
  have hnone : '#' ∉ extended path separator token := by
    rw [extended, List.mem_append, List.mem_cons]
    rintro (h | rfl | h)
    · exact hf h
    · exact absurd hsep (by decide)
    · exact tokenParameter_plain h (by decide)
  have htake : ∀ {l : List Char}, '#' ∉ l → l.takeWhile (· ≠ '#') = l := by
    intro l hl
    have hcut := takeWhile_cut hl (.inl rfl)
    rwa [List.append_nil] at hcut
  rw [htake hnone, htake hf, extended]
  obtain ⟨before, rest, rfl, hbefore, hrest⟩ := exists_cut '?' path
  have htoken : '?' ∉ tokenParameter token := fun h => tokenParameter_plain h (by decide)
  -- without a query the parameter begins one, if its separator is a `?`
  rcases hrest with rfl | ⟨t, rfl⟩
  · rw [List.append_nil, if_neg hbefore]
    by_cases hquestion : separator = '?'
    · rw [if_pos hquestion, hquestion, dropWhile_cut hbefore (.inr ⟨_, rfl⟩)]
      rfl
    · have hno : '?' ∉ before ++ separator :: tokenParameter token := by
        rw [List.mem_append, List.mem_cons]
        rintro (h | h | h)
        · exact hbefore h
        · exact hquestion h.symm
        · exact htoken h
      have hcut := dropWhile_cut hno (.inl rfl)
      rw [List.append_nil] at hcut
      rw [if_neg hquestion, hcut]
      rfl
  · rw [if_pos (by simp), List.append_assoc, List.cons_append,
      dropWhile_cut hbefore (.inr ⟨_, rfl⟩), dropWhile_cut hbefore (.inr ⟨_, rfl⟩)]
    rfl

/-- With a fragment nothing is appended to the query. -/
theorem queryOf_fragment {path : List Char} (hfragment : '#' ∈ path) {separator : Char}
    (hsep : separator = '?' ∨ separator = '&') (token : String) :
    queryOf (extended path separator token) = queryOf path := by
  have hf : '#' ∈ path.filter (!isRemoved ·) := (mem_filter_removed (by decide)).mpr hfragment
  rw [queryOf, queryOf, filter_extended path hsep]
  generalize path.filter (!isRemoved ·) = path at hf ⊢
  obtain ⟨before, rest, rfl, hbefore, rfl | ⟨t, rfl⟩⟩ := exists_cut '#' path
  · exact absurd hf (by simpa using hbefore)
  · rw [extended, List.append_assoc, List.cons_append, takeWhile_cut hbefore (.inr ⟨_, rfl⟩),
      takeWhile_cut hbefore (.inr ⟨_, rfl⟩)]

/-! ### A query that is cut off -/

section CutOff

theorem isPrefix_dropWhile {α : Type*} (p : α → Bool) {l m : List α} (h : l <+: m) :
    l.dropWhile p <+: m.dropWhile p := by
  obtain ⟨more, rfl⟩ := h
  rw [List.dropWhile_append]
  split
  next hnil =>
    rw [List.isEmpty_iff.mp hnil]
    exact List.nil_prefix
  next => exact List.prefix_append _ _

theorem takeWhile_prefix_takeWhile {α : Type*} (p : α → Bool) {l m : List α} (h : l <+: m) :
    l.takeWhile p <+: m.takeWhile p := by
  obtain ⟨more, rfl⟩ := h
  rw [List.takeWhile_append]
  split
  next hall =>
    rw [(List.takeWhile_prefix (l := l) p).eq_of_length hall]
    exact List.prefix_append _ _
  next => exact List.prefix_rfl

/-- The query of a target that is cut off is cut off itself. -/
theorem isPrefix_queryOf {target whole : List Char} (h : target <+: whole) :
    queryOf target <+: queryOf whole :=
  List.IsPrefix.drop (isPrefix_dropWhile _ (takeWhile_prefix_takeWhile _ (h.filter _))) 1

theorem searchParams_piece {piece : List Char} (hne : piece ≠ []) (hno : '&' ∉ piece) :
    searchParams piece = [parameter piece] := by
  rw [searchParams, List.splitOn_eq_singleton hno]
  simp [hne]

/-- A parameter that is cut off has its name, or no value. -/
theorem parameter_prefix (piece more : List Char) :
    (parameter piece).1 = (parameter (piece ++ more)).1 ∨ (parameter piece).2 = [] := by
  obtain ⟨name, value, rfl, hname, rfl | ⟨t, rfl⟩⟩ := exists_cut '=' piece
  · right
    have hcut := dropWhile_cut hname (.inl rfl)
    rw [parameter, hcut]
    rfl
  · left
    rw [parameter, parameter, List.append_assoc, List.cons_append,
      takeWhile_cut hname (.inr ⟨_, rfl⟩), takeWhile_cut hname (.inr ⟨_, rfl⟩)]

/-- **What is cut off a query** leaves no value of a parameter that was not there. -/
theorem get_prefix {query whole : List Char} (h : query <+: whole) {name : String}
    (hnone : get (searchParams whole) name = none) {value : List UInt8} (hvalue : value ≠ []) :
    get (searchParams query) name ≠ some value := by
  obtain ⟨more, rfl⟩ := h
  -- only the last parameter is cut off
  suffices hlast : ∀ piece : List Char, '&' ∉ piece →
      get (searchParams (piece ++ more)) name = none →
        get (searchParams piece) name ≠ some value by
    by_cases hamp : '&' ∈ query
    · obtain ⟨before, piece, rfl, hpiece⟩ := exists_rsplit hamp
      rw [List.append_assoc, List.cons_append, searchParams_append, get_append,
        Option.or_eq_none_iff] at hnone
      rw [searchParams_append, get_append, hnone.1, Option.none_or]
      exact hlast piece hpiece hnone.2
    · exact hlast query hamp hnone
  intro piece hpiece hnone
  rcases eq_or_ne piece [] with rfl | hne
  · simp [searchParams, get]
  have hwhole : (parameter (piece ++ more.takeWhile (· ≠ '&'))).1 ≠ utf8 name := by
    obtain ⟨rest, tail, rfl, hrest, htail⟩ := exists_cut '&' more
    rw [takeWhile_cut hrest htail]
    have hno : '&' ∉ piece ++ rest := by simp [hpiece, hrest]
    have hfirst : ∃ others, searchParams (piece ++ (rest ++ tail)) =
        parameter (piece ++ rest) :: others := by
      rw [← List.append_assoc]
      rcases htail with rfl | ⟨t, rfl⟩
      · exact ⟨[], by rw [List.append_nil, searchParams_piece (by simp [hne]) hno]⟩
      · exact ⟨searchParams t, by
          rw [searchParams_append, searchParams_piece (by simp [hne]) hno]
          rfl⟩
    obtain ⟨others, hothers⟩ := hfirst
    rw [hothers, get_cons] at hnone
    intro hname
    rw [if_pos hname] at hnone
    cases hnone
  rw [searchParams_piece hne hpiece, get_cons]
  split
  next hname =>
    rcases parameter_prefix piece (more.takeWhile (· ≠ '&')) with hsame | hempty
    · exact absurd (hsame.symm.trans hname) hwhole
    · rw [hempty]
      exact fun heq => hvalue (Option.some_inj.mp heq).symm
  next => simp [get]

end CutOff

/-! ### What the server sees -/

variable (platform : Conversion) (server : NodeServer) (key : String)

/-- The URL with the token is accepted with the same host and port; the request
path is the original one with a parameter that is decoded to the token; and the
server accepts the request, whatever its header says. -/
def TokenSeen (url token : String) : Prop :=
  ∃ host port path separator, parseWsUrl platform url = some (host, port, path) ∧
    parseWsUrl platform (buildUrl url token) =
      some (host, port, String.ofList (extended path.toList separator token)) ∧
    parameter (tokenParameter token) = (utf8 "token", utf8 token) ∧
    ∀ header, authOk server
      (handshake host port (String.ofList (extended path.toList separator token)) key)
      header token = some true

/-- The text of the URL behind `ws://`. -/
def behindScheme (url : String) : List Char := url.toList.drop 5

/-- What `build_url` puts before the parameter. -/
def separatorOf (url : String) : Char := if '?' ∈ url.toList then '&' else '?'

/-- The request for the URL with the token. -/
def requestFor (host : String) (port : ℤ) (key url token : String) : List UInt8 :=
  handshake host port
    (String.ofList (extended (pathOf (behindScheme url)) (separatorOf url) token)) key

/-- The URL has a path; what is behind a question mark in it is in the path; the
path has no fragment, and no character that ends the target; and the server can parse
the request. -/
structure Extensible (host : String) (port : ℤ) (url token : String) : Prop where
  path : '/' ∈ behindScheme url
  query : '?' ∈ url.toList → '?' ∈ pathOf (behindScheme url)
  fragment : '#' ∉ pathOf (behindScheme url)
  line : ∀ c ∈ pathOf (behindScheme url), endsTarget c.toNat = false
  parsed : (server.requestQuery (requestFor host port key url token)).isSome = true

theorem separatorOf_cases (url : String) : separatorOf url = '?' ∨ separatorOf url = '&' := by
  rw [separatorOf]
  split
  · exact .inr rfl
  · exact .inl rfl

/-- The parts of a URL that is accepted. -/
theorem parseWsUrl_parts {url : String} {authority rest : List Char}
    (hurl : url.toList = "ws://".toList ++ (authority ++ rest)) (hslash : '/' ∉ authority)
    (hrest : rest = [] ∨ ∃ t, rest = '/' :: t) :
    parseWsUrl platform url = accept (hostPort platform authority)
      (if rest = [] then ['/'] else rest) := by
  have hstarts : startsWith url "ws://" = true := startsWith_iff.mpr ⟨_, hurl⟩
  have hdrop : url.toList.drop 5 = authority ++ rest := by rw [hurl]; rfl
  rw [parseWsUrl, hstarts, if_neg (by decide)]
  dsimp only
  rw [hdrop, takeWhile_cut hslash hrest, pathOf_cut hslash hrest]

theorem toList_buildUrl {token : String} (h : token ≠ "") (url : String) :
    (buildUrl url token).toList = extended url.toList (separatorOf url) token := by
  rw [buildUrl, if_neg h, String.toList_ofList]
  rfl

/-- The server accepts a request that it can parse and that has the token. -/
theorem authOk_iff {token : String} (h : token ≠ "") (request : List UInt8) :
    (∀ header, authOk server request header token = some true) ↔
      (server.requestQuery request).isSome = true ∧
        get (searchParams (queryOf (targetOf request))) "token" = some (utf8 token) := by
  simp only [authOk, NodeServer.requestQuery, if_neg h]
  cases ht : server.target request with
  | none => simp
  | some target =>
    rw [← server.target_eq request target ht]
    simp only [Option.bind_some]
    cases hq : server.query target with
    | none => simp
    | some q =>
      rw [← server.query_eq target q hq]
      simp only [Option.map_some, Option.isSome_some, true_and, Option.some.injEq,
        Bool.or_eq_true, decide_eq_true_eq]
      exact ⟨fun hall => (hall none).resolve_right (by simp), fun hseen _ => .inl hseen⟩

/-- The token is in the query of the extended path if the path has no fragment,
and the parameter follows a question mark. -/
theorem get_extended_iff {path : List Char} {separator : Char}
    (hsep : separator = '?' ∨ separator = '&') (hpath : '?' ∈ path → separator = '&')
    {token : String} (hnone : get (searchParams (queryOf path)) "token" = none) :
    get (searchParams (queryOf (extended path separator token))) "token" = some (utf8 token) ↔
      '#' ∉ path ∧ ('?' ∈ path ∨ separator = '?') := by
  by_cases hfragment : '#' ∈ path
  · rw [queryOf_fragment hfragment hsep, hnone]
    exact iff_of_false (by simp) fun h => h.1 hfragment
  · rw [queryOf_extended hfragment hsep]
    by_cases hq : '?' ∈ path
    · rw [if_pos hq, hpath hq, searchParams_append, searchParams_token]
      exact iff_of_true (by rw [get_append, hnone, get_cons, if_pos rfl]; rfl)
        ⟨hfragment, .inl hq⟩
    · rw [if_neg hq]
      by_cases hquestion : separator = '?'
      · rw [if_pos hquestion, searchParams_token]
        exact iff_of_true (by simp [get]) ⟨hfragment, .inr hquestion⟩
      · rw [if_neg hquestion]
        refine iff_of_false (by simp [searchParams, get]) ?_
        exact fun h => h.2.elim hq hquestion

/-- The token goes behind what is behind the scheme. -/
theorem toList_built {token : String} (htoken : token ≠ "") {url : String} {behind : List Char}
    (hurl : url.toList = "ws://".toList ++ behind) :
    (buildUrl url token).toList =
      "ws://".toList ++ extended behind (separatorOf url) token := by
  rw [toList_buildUrl htoken, hurl, extended, extended, List.append_assoc]

/-- Without a path the parameter becomes a part of the port or of the host. -/
theorem unseen_without_path {url : String} {authority : List Char}
    (hurl : url.toList = "ws://".toList ++ authority) (hslash : '/' ∉ authority) {token : String}
    (htoken : token ≠ "") : ¬ TokenSeen platform server key url token := by
  have hno : '/' ∉ extended authority (separatorOf url) token := by
    rw [extended, List.mem_append, List.mem_cons]
    rintro (hmem | hmem | hmem)
    · exact hslash hmem
    · rcases separatorOf_cases url with hs | hs
      · exact absurd (hmem.trans hs) (by decide)
      · exact absurd (hmem.trans hs) (by decide)
    · exact tokenParameter_plain hmem (by decide)
  have hseen := parseWsUrl_parts platform
    ((toList_built htoken hurl).trans (by rw [List.append_nil])) hno
    (.inl rfl : ([] : List Char) = [] ∨ _)
  rintro ⟨host, port, path, separator, -, hparse, -⟩
  rw [hseen, accept_eq_some_iff] at hparse
  have hpath := String.ofList_injective (congrArg (fun r => r.2.2) hparse.2.2.2)
  have hlen := congrArg List.length hpath
  simp [extended, tokenParameter, tokenName] at hlen
  omega

/-- With a path the URL with the token has the same host and port, and what the
server sees is the request for the path with the parameter. -/
theorem seen_iff_authOk {url : String} {authority t : List Char}
    (hurl : url.toList = "ws://".toList ++ (authority ++ '/' :: t)) (hslash : '/' ∉ authority)
    {host : String} {port : ℤ} {path : String}
    (h : parseWsUrl platform url = some (host, port, path)) {token : String}
    (htoken : token ≠ "") :
    TokenSeen platform server key url token ↔
      ∀ header, authOk server (requestFor host port key url token) header token = some true := by
  have hparts := parseWsUrl_parts platform hurl hslash (.inr ⟨t, rfl⟩)
  obtain ⟨hhost, hport, hle, htarget⟩ := accept_eq_some_iff.mp (hparts.symm.trans h)
  rw [if_neg (by simp)] at htarget
  simp only [Prod.mk.injEq] at htarget
  obtain ⟨rfl, rfl, rfl⟩ := htarget
  have hpath : pathOf (behindScheme url) = '/' :: t := by
    rw [show behindScheme url = authority ++ '/' :: t by rw [behindScheme, hurl]; rfl,
      pathOf_cut hslash (.inr ⟨t, rfl⟩), if_neg (by simp)]
  have hseen : parseWsUrl platform (buildUrl url token) =
      some (String.ofList (hostPort platform authority).1, (hostPort platform authority).2,
        String.ofList (extended ('/' :: t) (separatorOf url) token)) := by
    have hbuilt : (buildUrl url token).toList =
        "ws://".toList ++ (authority ++ extended ('/' :: t) (separatorOf url) token) := by
      rw [toList_built htoken hurl, extended, extended, List.append_assoc]
    rw [parseWsUrl_parts platform hbuilt hslash (.inr ⟨_, rfl⟩), accept_eq_some_iff]
    exact ⟨hhost, hport, hle, by rw [if_neg (by simp [extended])]⟩
  rw [requestFor, hpath]
  constructor
  · rintro ⟨host', port', path', separator, hurl', hparse, -, hauth⟩
    have hsame := h.symm.trans hurl'
    rw [hseen] at hparse
    simp only [Option.some.injEq, Prod.mk.injEq] at hsame hparse
    obtain ⟨rfl, rfl, -⟩ := hsame
    rwa [hparse.2.2]
  · intro hauth
    refine ⟨_, _, _, separatorOf url, h, ?_, parameter_token token, ?_⟩
    · rw [hseen, String.toList_ofList]
    · rw [String.toList_ofList]
      exact hauth

/-- The target of the request: the whole path if nothing in it ends the target, and
otherwise a part of it without the parameter. -/
theorem targetOf_request (host : String) (port : ℤ) (path : List Char) {separator : Char}
    (hsep : separator = '?' ∨ separator = '&') (token : String) :
    let target :=
      targetOf (handshake host port (String.ofList (extended path separator token)) key)
    ((∀ c ∈ path, endsTarget c.toNat = false) ∧ target = extended (sent path) separator token) ∨
      (¬(∀ c ∈ path, endsTarget c.toNat = false) ∧ target <+: sent path) := by
  intro target
  have hsent : sent (extended path separator token) = extended (sent path) separator token := by
    have hascii : ∀ c ∈ separator :: tokenParameter token, c.toNat < 128 := by
      intro c hc
      rcases List.mem_cons.mp hc with rfl | hc
      · rcases hsep with rfl | rfl <;> decide
      · exact tokenParameter_ascii hc
    rw [extended, sent_append, sent_ascii hascii, extended]
  -- what ends a target is in ASCII, and sent as itself
  have hends : ∀ {c : Char}, endsTarget c.toNat = true → c.toNat < 128 := by
    intro c hc
    simp only [endsTarget, Bool.or_eq_true, decide_eq_true_eq] at hc
    omega
  have htarget : target = (extended (sent path) separator token).takeWhile
      fun c => !endsTarget c.toNat := by
    rw [← hsent]
    have h := targetOf_handshake host port (String.ofList (extended path separator token)) key
    rwa [String.toList_ofList] at h
  by_cases hline : ∀ c ∈ path, endsTarget c.toNat = false
  · refine .inl ⟨hline, htarget.trans (List.takeWhile_eq_self_iff.mpr fun c hc => ?_)⟩
    rw [Bool.not_eq_true']
    by_contra hend
    have hend : endsTarget c.toNat = true := by simpa using hend
    rcases List.mem_append.mp hc with hc | hc
    · rw [mem_sent_iff (hends hend)] at hc
      exact absurd (hline c hc) (by simp [hend])
    · rcases List.mem_cons.mp hc with rfl | hc
      · rcases hsep with rfl | rfl <;> exact absurd hend (by decide)
      · have hplain := tokenParameter_plain hc
        simp only [endsTarget, Bool.or_eq_true, decide_eq_true_eq] at hend
        rcases hend with (hend | hend) | hend
        · exact hplain (by rw [← Char.ofNat_toNat c, hend]; decide)
        · exact hplain (by rw [← Char.ofNat_toNat c, hend]; decide)
        · exact hplain (by rw [← Char.ofNat_toNat c, hend]; decide)
  · refine .inr ⟨hline, ?_⟩
    obtain ⟨c, hc, hend⟩ : ∃ c ∈ path, endsTarget c.toNat = true := by simpa using hline
    rw [htarget, extended, List.takeWhile_append]
    split
    next hall =>
      have hself := (List.takeWhile_prefix (l := sent path)
        fun c : Char => !endsTarget c.toNat).eq_of_length hall
      have hno := List.takeWhile_eq_self_iff.mp hself c ((mem_sent_iff (hends hend)).mpr hc)
      rw [hend] at hno
      cases hno
    next => exact List.takeWhile_prefix _

theorem utf8_ne_nil {text : String} (h : text ≠ "") : utf8 text ≠ [] := by
  intro hnil
  rw [utf8, List.flatMap_eq_nil_iff] at hnil
  refine h (String.toList_eq_nil_iff.mp ?_)
  exact List.eq_nil_iff_forall_not_mem.mpr fun c hc => String.utf8EncodeChar_ne_nil (hnil c hc)

/-- **The token is seen** if and only if the URL has a path, its query is in the
path, the path has no fragment, space or line break, and the server can parse the
request. -/
theorem token_seen_iff {url : String} {host : String} {port : ℤ} {path : String}
    (h : parseWsUrl platform url = some (host, port, path))
    (hnone : get (searchParams (queryOf (sent path.toList))) "token" = none) {token : String}
    (htoken : token ≠ "") :
    TokenSeen platform server key url token ↔ Extensible server key host port url token := by
  have hstarts : startsWith url "ws://" = true := by
    by_contra hno
    simp [parseWsUrl, hno] at h
  obtain ⟨tail, htail⟩ := startsWith_iff.mp hstarts
  obtain ⟨authority, rest, rfl, hslash, hrest⟩ := exists_cut '/' tail
  have hbehind : behindScheme url = authority ++ rest := by rw [behindScheme, htail]; rfl
  rcases hrest with rfl | ⟨t, rfl⟩
  -- without a path there is nothing to add the token to
  · rw [List.append_nil] at htail hbehind
    refine iff_of_false (unseen_without_path platform server key htail hslash htoken) fun hext => ?_
    exact hslash (hbehind ▸ hext.path)
  · have hpath : pathOf (behindScheme url) = '/' :: t := by
      rw [hbehind, pathOf_cut hslash (.inr ⟨t, rfl⟩), if_neg (by simp)]
    have hnone' : get (searchParams (queryOf (sent ('/' :: t)))) "token" = none := by
      rw [parseWsUrl_parts platform htail hslash (.inr ⟨t, rfl⟩), if_neg (by simp)] at h
      obtain ⟨-, -, -, htarget⟩ := accept_eq_some_iff.mp h
      simp only [Prod.mk.injEq] at htarget
      rwa [htarget.2.2, String.toList_ofList] at hnone
    have hsent : ∀ c : Char, c.toNat < 128 → (c ∈ sent ('/' :: t) ↔ c ∈ '/' :: t) := fun c hc =>
      mem_sent_iff hc
    -- the separator is `&` for a `?` anywhere in the URL
    have hquestion : '?' ∈ sent ('/' :: t) → separatorOf url = '&' := by
      intro hmem
      rw [hsent _ (by decide)] at hmem
      have hin : '?' ∈ url.toList := by
        rw [htail]
        exact List.mem_append_right _ (List.mem_append_right _ hmem)
      rw [separatorOf, if_pos hin]
    rw [seen_iff_authOk platform server key htail hslash h htoken, authOk_iff server htoken]
    rcases targetOf_request key host port ('/' :: t) (separatorOf_cases url) token with
      ⟨hline, htarget⟩ | ⟨hline, htarget⟩
    · have hrequest : targetOf (requestFor host port key url token) =
          extended (sent ('/' :: t)) (separatorOf url) token := by
        rw [requestFor, hpath]
        exact htarget
      rw [hrequest, get_extended_iff (separatorOf_cases url) hquestion hnone',
        hsent _ (by decide), hsent _ (by decide)]
      constructor
      · rintro ⟨hparsed, hfragment, hq⟩
        refine ⟨?_, ?_, by rwa [hpath], by rwa [hpath], hparsed⟩
        · rw [hbehind]
          simp
        · intro hin
          rw [hpath]
          refine hq.resolve_right fun hs => ?_
          rw [separatorOf, if_pos hin] at hs
          exact absurd hs (by decide)
      · rintro ⟨-, hq, hfragment, -, hparsed⟩
        rw [hpath] at hq hfragment
        refine ⟨hparsed, hfragment, ?_⟩
        by_cases hin : '?' ∈ url.toList
        · exact .inl (hq hin)
        · exact .inr (if_neg hin)
    · -- the parameter is behind the end of the target
      refine iff_of_false (fun hseen => ?_) fun hext => hline (hpath ▸ hext.line)
      have hrequest : targetOf (requestFor host port key url token) <+: sent ('/' :: t) := by
        rw [requestFor, hpath]
        exact htarget
      exact get_prefix (isPrefix_queryOf hrequest) hnone' (utf8_ne_nil htoken) hseen.2

/-- A server that parses every request. -/
def lenient : NodeServer where
  target request := some (targetOf request)
  target_eq _ _ h := (Option.some.inj h).symm
  query target := some (queryOf target)
  query_eq _ _ h := (Option.some.inj h).symm

/-- A platform without numbers outside `int`. -/
def exactInts : Conversion := ⟨id, fun _ _ _ => rfl⟩

/-- A path with a query, and a token that is escaped. -/
theorem query_seen :
    (TokenSeen exactInts lenient "a2V5" "ws://h:8089/ws?v=1" "a b" ↔
      Extensible lenient "a2V5" "h" 8089 "ws://h:8089/ws?v=1" "a b") ∧
      Extensible lenient "a2V5" "h" 8089 "ws://h:8089/ws?v=1" "a b" := by
  have hparse : parseWsUrl exactInts "ws://h:8089/ws?v=1" = some ("h", 8089, "/ws?v=1") := by
    decide +kernel
  have hline : (pathOf (behindScheme "ws://h:8089/ws?v=1")).all
      (fun c => !endsTarget c.toNat) = true := by decide +kernel
  refine ⟨token_seen_iff exactInts lenient "a2V5" hparse (by decide +kernel) (by decide), ?_⟩
  refine ⟨by decide +kernel, by decide +kernel, by decide +kernel, fun c hc => ?_, ?_⟩
  · simpa using List.all_eq_true.mp hline c hc
  simp only [NodeServer.requestQuery, lenient, Option.bind_some, Option.isSome_some]

/-- **Without a path the token is lost**: it is taken for a part of the port. -/
theorem token_in_port :
    ¬ ∀ (platform : Conversion) (server : NodeServer) (key url host : String) (port : ℤ)
        (path : String),
      parseWsUrl platform url = some (host, port, path) →
        get (searchParams (queryOf (sent path.toList))) "token" = none →
          ∀ token, token ≠ "" → TokenSeen platform server key url token := by
  intro h
  have hparse : parseWsUrl exactInts "ws://h:8089" = some ("h", 8089, "/") := by decide +kernel
  have hbuilt : parseWsUrl exactInts (buildUrl "ws://h:8089" "t") = some ("h", 8089, "/") := by
    decide +kernel
  obtain ⟨host, port, path, separator, hurl, hseen, -⟩ :=
    h exactInts lenient "a2V5" _ _ _ _ hparse (by decide +kernel) "t" (by decide)
  rw [hbuilt] at hseen
  simp only [Option.some.injEq, Prod.mk.injEq] at hseen
  have hslash : String.ofList ['/'] = "/" := by decide +kernel
  have hlen := congrArg List.length (String.ofList_injective (hslash.trans hseen.2.2))
  simp only [extended, tokenParameter, tokenName, List.length_append, List.length_cons,
    List.length_nil] at hlen
  omega

end Endpoints

end IpcMini
