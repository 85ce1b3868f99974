/-
The URLs of an upload (`src/record/http_segment_uploader.cpp`).

A URL of the form `http://host[:port][/path]` has a name or an IPv6 address in
brackets for its host.  `parse_http_url` looks for the last colon, and not at all
where it finds a bracket.

* `IPv6` — the addresses that may stand in brackets;
* `HttpForm` — the form, with the host, the port and the path of a URL;
* `Clean` — what has to be so of the text before the first slash;
* **`parse_exact_iff`** — the parser accepts a URL exactly if it has the form,
  and returns its parts, if and only if that text is clean;
* `bracketed_port_ignored` — the port behind an address in brackets is lost.
-/
import IpcMini.Endpoints

namespace IpcMini

namespace Endpoints

open Config

/-! ### Addresses in brackets -/

def hexDigit (c : Char) : Bool :=
  c.isDigit || decide ('a' ≤ c ∧ c ≤ 'f') || decide ('A' ≤ c ∧ c ≤ 'F')

/-- Sixteen bits of an address. -/
def Group (text : List Char) : Prop :=
  1 ≤ text.length ∧ text.length ≤ 4 ∧ ∀ c ∈ text, hexDigit c = true

/-- A number of at most 255, without leading zeros. -/
def Octet (text : List Char) : Prop :=
  text ≠ [] ∧ text.all Char.isDigit = true ∧ value text ≤ 255 ∧
    (text.head? = some '0' → text = ['0'])

/-- The last 32 bits may be written as an IPv4 address. -/
def IPv4 (text : List Char) : Prop :=
  ∃ a b c d, Octet a ∧ Octet b ∧ Octet c ∧ Octet d ∧
    text = a ++ '.' :: (b ++ '.' :: (c ++ '.' :: d))

/-- So many groups with colons between them; `last` tells whether they end the
address, with an IPv4 address for two groups. -/
inductive Groups (last : Bool) : List Char → ℕ → Prop
  | group {text : List Char} : Group text → Groups last text 1
  | ipv4 {text : List Char} : last = true → IPv4 text → Groups last text 2
  | cons {text rest : List Char} {n : ℕ} : Group text → Groups last rest n →
    Groups last (text ++ ':' :: rest) (n + 1)

/-- Eight groups, or fewer around one `::`. -/
def IPv6 (text : List Char) : Prop :=
  Groups true text 8 ∨ ∃ before after m n, text = before ++ ':' :: ':' :: after ∧ m + n ≤ 7 ∧
    (before = [] ∧ m = 0 ∨ Groups false before m) ∧ (after = [] ∧ n = 0 ∨ Groups true after n)

/-- No slash and no bracket stands in an address. -/
theorem Groups.chars {last : Bool} {text : List Char} {n : ℕ} (h : Groups last text n) :
    ∀ c ∈ text, c ∉ ['/', '[', ']'] := by
  -- a hex digit is none of the three
  have hdigit : ∀ c : Char, hexDigit c = true → c ∉ ['/', '[', ']'] := by
    intro c hc hmem
    simp only [List.mem_cons, List.not_mem_nil, or_false] at hmem
    rcases hmem with rfl | rfl | rfl <;> exact absurd hc (by decide)
  have hoctet : ∀ text : List Char, Octet text → ∀ c ∈ text, c ∉ ['/', '[', ']'] := by
    intro text htext c hc
    refine hdigit c ?_
    rw [hexDigit, List.all_eq_true.mp htext.2.1 c hc]
    rfl
  induction h with
  | group hgroup => exact fun c hc => hdigit c (hgroup.2.2 c hc)
  | ipv4 _ hipv4 =>
    obtain ⟨a, b, c, d, ha, hb, hc, hd, rfl⟩ := hipv4
    intro x hx
    simp only [List.mem_append, List.mem_cons] at hx
    rcases hx with hx | rfl | hx | rfl | hx | rfl | hx
    · exact hoctet a ha x hx
    · decide
    · exact hoctet b hb x hx
    · decide
    · exact hoctet c hc x hx
    · decide
    · exact hoctet d hd x hx
  | cons hgroup _ ih =>
    intro x hx
    rcases List.mem_append.mp hx with hx | hx
    · exact hdigit x (hgroup.2.2 x hx)
    · rcases List.mem_cons.mp hx with rfl | hx
      · decide
      · exact ih x hx

theorem IPv6.chars {text : List Char} (h : IPv6 text) : ∀ c ∈ text, c ∉ ['/', '[', ']'] := by
  rcases h with h | ⟨before, after, m, n, rfl, -, hbefore, hafter⟩
  · exact h.chars
  · have hcolon : ':' ∉ ['/', '[', ']'] := by decide
    intro c hc
    simp only [List.mem_append, List.mem_cons] at hc
    rcases hc with hc | rfl | rfl | hc
    · rcases hbefore with ⟨rfl, -⟩ | hbefore
      · cases hc
      · exact hbefore.chars c hc
    · exact hcolon
    · exact hcolon
    · rcases hafter with ⟨rfl, -⟩ | hafter
      · cases hc
      · exact hafter.chars c hc

/-! ### The form -/

/-- A host without brackets. -/
def PlainHost (host : List Char) : Prop := host ≠ [] ∧ ∀ c ∈ host, c ∉ [':', '/', '[', ']']

def BracketedHost (host : List Char) : Prop := ∃ address, IPv6 address ∧ host = '[' :: (address ++ [']'])

/-- No port, or a colon and the digits of one. -/
def Port (text : List Char) (port : ℤ) : Prop :=
  text = [] ∧ port = 80 ∨ ∃ digits, text = ':' :: digits ∧ digits ≠ [] ∧
    digits.all Char.isDigit = true ∧ port = value digits ∧ 1 ≤ value digits ∧ value digits ≤ 65535

/-- No path, or one from a slash on. -/
def Path (text path : List Char) : Prop :=
  text = [] ∧ path = ['/'] ∨ ∃ rest, text = '/' :: rest ∧ path = text

/-- `http://host[:port][/path]`, and what is to be returned for it. -/
def HttpForm (url : String) (target : String × ℤ × String) : Prop :=
  ∃ host port rest path, url.toList = "http://".toList ++ (host ++ port ++ rest) ∧
    (PlainHost host ∨ BracketedHost host) ∧ Port port target.2.1 ∧ Path rest path ∧
    target.1 = String.ofList host ∧ target.2.2 = String.ofList path

/-- The text before the first slash. -/
def authorityOf (url : String) : List Char := (url.toList.drop 7).takeWhile (· ≠ '/')

/-- What stands before the first slash is a host and perhaps a port. -/
def AuthorityForm (authority host : List Char) (port : ℤ) : Prop :=
  ∃ text, authority = host ++ text ∧ (PlainHost host ∨ BracketedHost host) ∧ Port text port

theorem cut_unique {before before' rest rest' : List Char} (h : before ++ rest = before' ++ rest')
    (hb : '/' ∉ before) (hr : rest = [] ∨ ∃ t, rest = '/' :: t) (hb' : '/' ∉ before')
    (hr' : rest' = [] ∨ ∃ t, rest' = '/' :: t) : before = before' ∧ rest = rest' := by
  have htake := takeWhile_cut hb hr
  have hdrop := dropWhile_cut hb hr
  rw [h, takeWhile_cut hb' hr'] at htake
  rw [h, dropWhile_cut hb' hr'] at hdrop
  exact ⟨htake.symm, hdrop.symm⟩

theorem PlainHost.no_slash {host : List Char} (h : PlainHost host ∨ BracketedHost host) :
    '/' ∉ host := by
  rcases h with h | ⟨address, haddress, rfl⟩
  · exact fun hmem => h.2 '/' hmem (by decide)
  · intro hmem
    rcases List.mem_cons.mp hmem with h | hmem
    · exact absurd h (by decide)
    · rcases List.mem_append.mp hmem with hmem | hmem
      · exact haddress.chars '/' hmem (by decide)
      · exact absurd hmem (by decide)

theorem Port.no_slash {text : List Char} {port : ℤ} (h : Port text port) : '/' ∉ text := by
  rcases h with ⟨rfl, -⟩ | ⟨digits, rfl, -, hdigits, -⟩
  · simp
  · intro hmem
    rcases List.mem_cons.mp hmem with h | hmem
    · exact absurd h (by decide)
    · exact absurd (List.all_eq_true.mp hdigits '/' hmem) (by decide)

/-- The form of a URL is that of its authority. -/
theorem httpForm_iff {url : String} {authority rest : List Char}
    (hurl : url.toList = "http://".toList ++ (authority ++ rest)) (hslash : '/' ∉ authority)
    (hrest : rest = [] ∨ ∃ t, rest = '/' :: t) (target : String × ℤ × String) :
    HttpForm url target ↔ ∃ host, AuthorityForm authority host target.2.1 ∧
      target.1 = String.ofList host ∧ target.2.2 = String.ofList (pathOf (authority ++ rest)) := by
  rw [pathOf_cut hslash hrest]
  constructor
  · rintro ⟨host, port, rest', path, heq, hhost, hport, hp, hfst, hsnd⟩
    have hsame : host ++ port ++ rest' = authority ++ rest :=
      List.append_cancel_left (heq.symm.trans hurl)
    have hno : '/' ∉ host ++ port := by
      rw [List.mem_append]
      rintro (h | h)
      · exact PlainHost.no_slash hhost h
      · exact hport.no_slash h
    have hrest' : rest' = [] ∨ ∃ t, rest' = '/' :: t := by
      rcases hp with ⟨rfl, -⟩ | ⟨t, rfl, -⟩
      · exact .inl rfl
      · exact .inr ⟨t, rfl⟩
    obtain ⟨rfl, rfl⟩ := cut_unique hsame hno hrest' hslash hrest
    refine ⟨host, ⟨port, rfl, hhost, hport⟩, hfst, hsnd.trans ?_⟩
    rcases hp with ⟨rfl, rfl⟩ | ⟨t, rfl, rfl⟩
    · rw [if_pos rfl]
    · rw [if_neg (by simp)]
  · rintro ⟨host, ⟨port, rfl, hhost, hport⟩, hfst, hsnd⟩
    refine ⟨host, port, rest, _, hurl, hhost, hport, ?_, hfst, hsnd⟩
    rcases hrest with rfl | ⟨t, rfl⟩
    · exact .inl ⟨rfl, if_pos rfl⟩
    · exact .inr ⟨t, rfl, if_neg (by simp)⟩

section Exact

variable (platform : Conversion)

/-- Digits are converted exactly up to the largest port. -/
theorem atoi_digits {digits : List Char} (hdigits : digits.all Char.isDigit = true)
    (hle : value digits ≤ 65535) : atoi platform digits = value digits := by
  have hall : ∀ c ∈ digits, Char.isDigit c = true := List.all_eq_true.mp hdigits
  have htake : digits.takeWhile Char.isDigit = digits := by
    rw [← List.append_nil digits, List.takeWhile_append_of_pos hall, List.takeWhile_nil]
  have hfront : sign (digits.dropWhile isspace) = (1, digits) := by
    cases digits with
    | nil => rfl
    | cons c rest =>
      have hdigit := hall c List.mem_cons_self
      have hspace : isspace c = false := by
        rw [Bool.eq_false_iff]
        intro hc
        simp only [isspace, Bool.or_eq_true, Bool.and_eq_true, decide_eq_true_eq] at hc
        rcases hc with rfl | hc
        · exact absurd hdigit (by decide)
        · have hrange : 48 ≤ c.toNat ∧ c.toNat ≤ 57 := by
            simpa [Char.isDigit, UInt32.le_iff_toNat_le] using hdigit
          omega
      rw [List.dropWhile_cons_of_neg (by simp [hspace]), sign.eq_3]
      · intro rest' heq
        rw [(List.cons.inj heq).1] at hdigit
        exact absurd hdigit (by decide)
      · intro rest' heq
        rw [(List.cons.inj heq).1] at hdigit
        exact absurd hdigit (by decide)
  rw [atoi, hfront, htake, Int.one_mul, platform.exact _ (by omega) (by omega)]

/-- The parser takes the text for this host and port. -/
def Accepted (authority host : List Char) (port : ℤ) : Prop :=
  httpHostPort platform authority = (host, port) ∧ host ≠ [] ∧ 0 < port ∧ port ≤ 65535

/-- The parser and the form agree on a URL if they agree on its authority. -/
theorem agree_iff {url : String} {authority rest : List Char}
    (hurl : url.toList = "http://".toList ++ (authority ++ rest)) (hslash : '/' ∉ authority)
    (hrest : rest = [] ∨ ∃ t, rest = '/' :: t) :
    (∀ target, parseHttpUrl platform url = some target ↔ HttpForm url target) ↔
      ∀ host port, Accepted platform authority host port ↔ AuthorityForm authority host port := by
  have hstarts : startsWith url "http://" = true := startsWith_iff.mpr ⟨_, hurl⟩
  have hdrop : url.toList.drop 7 = authority ++ rest := by rw [hurl]; rfl
  -- both sides have the same path, so only host and port are compared
  have hparse : ∀ target, parseHttpUrl platform url = some target ↔
      ∃ host, Accepted platform authority host target.2.1 ∧ target.1 = String.ofList host ∧
        target.2.2 = String.ofList (pathOf (authority ++ rest)) := by
    intro target
    rw [parseHttpUrl, hstarts, if_neg (by decide)]
    dsimp only
    rw [hdrop, takeWhile_cut hslash hrest, accept_eq_some_iff]
    constructor
    · rintro ⟨hne, hpos, hle, rfl⟩
      exact ⟨_, ⟨rfl, hne, hpos, hle⟩, rfl, rfl⟩
    · rintro ⟨host, ⟨htarget, hne, hpos, hle⟩, hfst, hsnd⟩
      rw [htarget]
      refine ⟨hne, hpos, hle, ?_⟩
      rw [← hfst, ← hsnd]
  have hinj : Function.Injective String.ofList := fun a b h => by
    rw [← String.toList_ofList (l := a), h, String.toList_ofList]
  constructor
  · intro h host port
    have htarget := h (String.ofList host, port, String.ofList (pathOf (authority ++ rest)))
    rw [hparse, httpForm_iff hurl hslash hrest] at htarget
    have hone : ∀ P : List Char → Prop, (∃ host', P host' ∧
        String.ofList host = String.ofList host' ∧
          String.ofList (pathOf (authority ++ rest)) =
            String.ofList (pathOf (authority ++ rest))) ↔ P host := by
      intro P
      constructor
      · rintro ⟨host', hP, heq, -⟩
        rwa [hinj heq]
      · exact fun hP => ⟨host, hP, rfl, rfl⟩
    rwa [hone, hone] at htarget
  · intro h target
    rw [hparse, httpForm_iff hurl hslash hrest]
    exact exists_congr fun host => and_congr_left fun _ => h host target.2.1

/-- A host and a port that the parser takes, it takes rightly. -/
def CleanPort (host port : List Char) : Prop :=
  host ≠ [] → 0 < atoi platform port → atoi platform port ≤ 65535 →
    PlainHost host ∧ port.all Char.isDigit = true ∧ value port ≤ 65535

/-- With a closing bracket the text is an address in brackets; without one and
without a colon it has no opening bracket either; and what stands around the
last colon is a host and a port, if it is taken at all. -/
def Clean (text : List Char) : Prop :=
  if ']' ∈ text then BracketedHost text
  else
    match rsplit ':' text with
    | none => '[' ∉ text
    | some (host, port) => CleanPort platform host port

/-- An address in brackets is read in one way. -/
theorem bracketed_unique {address address' text : List Char} (h : IPv6 address)
    (h' : IPv6 address') (heq : '[' :: (address' ++ [']']) ++ text = '[' :: (address ++ [']'])) :
    address' = address ∧ text = [] := by
  have hno : ∀ a, IPv6 a → ']' ∉ a := fun a ha hmem => ha.chars ']' hmem (by decide)
  have hbody : address' ++ (']' :: text) = address ++ (']' :: []) := by
    simpa using heq
  have htake := takeWhile_cut (hno _ h') (.inr ⟨text, rfl⟩)
  have hdrop := dropWhile_cut (hno _ h') (.inr ⟨text, rfl⟩)
  rw [hbody, takeWhile_cut (hno _ h) (.inr ⟨[], rfl⟩)] at htake
  rw [hbody, dropWhile_cut (hno _ h) (.inr ⟨[], rfl⟩)] at hdrop
  exact ⟨htake.symm, (List.cons.inj hdrop).2.symm⟩

theorem agree_bracket {authority : List Char} (hb : ']' ∈ authority) :
    (∀ host port, Accepted platform authority host port ↔ AuthorityForm authority host port) ↔
      BracketedHost authority := by
  have haccepted : ∀ host port, Accepted platform authority host port ↔
      host = authority ∧ port = 80 := by
    intro host port
    rw [Accepted, httpHostPort, if_pos hb, Prod.mk.injEq]
    constructor
    · rintro ⟨⟨rfl, rfl⟩, -⟩
      exact ⟨rfl, rfl⟩
    · rintro ⟨rfl, rfl⟩
      exact ⟨⟨rfl, rfl⟩, List.ne_nil_of_mem hb, port_80⟩
  constructor
  · intro h
    obtain ⟨text, htext, hhost, -⟩ := (h authority 80).mp ((haccepted _ _).mpr ⟨rfl, rfl⟩)
    exact hhost.resolve_left fun hplain => hplain.2 ']' hb (by decide)
  · rintro ⟨address, haddress, rfl⟩ host port
    rw [haccepted]
    constructor
    · rintro ⟨rfl, rfl⟩
      exact ⟨[], (List.append_nil _).symm, .inr ⟨address, haddress, rfl⟩, .inl ⟨rfl, rfl⟩⟩
    · rintro ⟨text, htext, hplain | ⟨address', haddress', rfl⟩, hport⟩
      · -- a name does not begin with a bracket
        obtain ⟨c, rest, rfl⟩ := List.exists_cons_of_ne_nil hplain.1
        rw [List.cons_append, List.cons.injEq] at htext
        exact absurd (by simp [← htext.1]) (hplain.2 c List.mem_cons_self)
      · obtain ⟨rfl, rfl⟩ := bracketed_unique haddress haddress' htext.symm
        rcases hport with ⟨-, rfl⟩ | ⟨digits, hdigits, -⟩
        · exact ⟨rfl, rfl⟩
        · cases hdigits

/-- Without a closing bracket the host is a name. -/
theorem authorityForm_plain {authority host : List Char} {port : ℤ} (hb : ']' ∉ authority) :
    AuthorityForm authority host port ↔
      ∃ text, authority = host ++ text ∧ PlainHost host ∧ Port text port := by
  refine exists_congr fun text => and_congr_right fun htext => and_congr_left fun _ => ?_
  refine or_iff_left ?_
  rintro ⟨address, -, rfl⟩
  exact hb (by simp [htext])

theorem agree_name {authority : List Char} (hslash : '/' ∉ authority) (hb : ']' ∉ authority)
    (hc : ':' ∉ authority) :
    (∀ host port, Accepted platform authority host port ↔ AuthorityForm authority host port) ↔
      '[' ∉ authority := by
  -- without a colon the port is 80, and the host is all there is
  have haccepted : ∀ host port, Accepted platform authority host port ↔
      host = authority ∧ port = 80 ∧ authority ≠ [] := by
    intro host port
    rw [Accepted, httpHostPort, if_neg hb, hostPort, rsplit_none hc, Prod.mk.injEq]
    constructor
    · rintro ⟨⟨rfl, rfl⟩, hne, -⟩
      exact ⟨rfl, rfl, hne⟩
    · rintro ⟨rfl, rfl, hne⟩
      exact ⟨⟨rfl, rfl⟩, hne, port_80⟩
  have hform : ∀ host port, AuthorityForm authority host port ↔
      host = authority ∧ port = 80 ∧ PlainHost authority := by
    intro host port
    rw [authorityForm_plain hb]
    constructor
    · rintro ⟨text, rfl, hplain, ⟨rfl, rfl⟩ | ⟨digits, rfl, -⟩⟩
      · rw [List.append_nil]
        exact ⟨rfl, rfl, hplain⟩
      · exact absurd (by simp) hc
    · rintro ⟨rfl, rfl, hplain⟩
      exact ⟨[], (List.append_nil _).symm, hplain, .inl ⟨rfl, rfl⟩⟩
  simp only [haccepted, hform]
  constructor
  · intro h hopen
    have hne : authority ≠ [] := List.ne_nil_of_mem hopen
    exact ((h authority 80).mp ⟨rfl, rfl, hne⟩).2.2.2 '[' hopen (by decide)
  · intro hopen host port
    refine and_congr_right fun _ => and_congr_right fun _ => ?_
    refine ⟨fun hne => ⟨hne, fun c hmem hbad => ?_⟩, fun hplain => hplain.1⟩
    simp only [List.mem_cons, List.not_mem_nil, or_false] at hbad
    rcases hbad with rfl | rfl | rfl | rfl
    · exact hc hmem
    · exact hslash hmem
    · exact hopen hmem
    · exact hb hmem

theorem agree_port {host port : List Char} (hb : ']' ∉ host ++ ':' :: port) (hport : ':' ∉ port) :
    (∀ h p, Accepted platform (host ++ ':' :: port) h p ↔
        AuthorityForm (host ++ ':' :: port) h p) ↔ CleanPort platform host port := by
  -- the parser cuts at the last colon, and the form has only one
  have haccepted : ∀ h p, Accepted platform (host ++ ':' :: port) h p ↔
      h = host ∧ p = atoi platform port ∧ host ≠ [] ∧ 0 < atoi platform port ∧
        atoi platform port ≤ 65535 := by
    intro h p
    rw [Accepted, httpHostPort, if_neg hb, hostPort, rsplit_append hport]
    dsimp only
    rw [Prod.mk.injEq]
    constructor
    · rintro ⟨⟨rfl, rfl⟩, hne, hpos, hle⟩
      exact ⟨rfl, rfl, hne, hpos, hle⟩
    · rintro ⟨rfl, rfl, hne, hpos, hle⟩
      exact ⟨⟨rfl, rfl⟩, hne, hpos, hle⟩
  have hform : ∀ h p, AuthorityForm (host ++ ':' :: port) h p ↔
      h = host ∧ PlainHost host ∧ port ≠ [] ∧ port.all Char.isDigit = true ∧ p = value port ∧
        1 ≤ value port ∧ value port ≤ 65535 := by
    intro h p
    rw [authorityForm_plain hb]
    constructor
    · rintro ⟨text, htext, hplain, ⟨rfl, -⟩ | ⟨digits, rfl, hne, hdigits, hp⟩⟩
      · rw [List.append_nil] at htext
        exact absurd (by simp) (hplain.2 ':' (htext ▸ by simp))
      · have hcolon : ':' ∉ digits := fun hmem =>
          absurd (List.all_eq_true.mp hdigits ':' hmem) (by decide)
        have hcut := @rsplit_append _ _ _ host port hport
        rw [htext, rsplit_append hcolon, Option.some.injEq, Prod.mk.injEq] at hcut
        obtain ⟨rfl, rfl⟩ := hcut
        exact ⟨rfl, hplain, hne, hdigits, hp⟩
    · rintro ⟨rfl, hplain, hne, hdigits, hp⟩
      exact ⟨':' :: port, rfl, hplain, .inr ⟨port, rfl, hne, hdigits, hp⟩⟩
  simp only [haccepted, hform, CleanPort]
  constructor
  · intro h hne hpos hle
    obtain ⟨-, hplain, -, hdigits, -, -, hvalue⟩ := (h host (atoi platform port)).mp
      ⟨rfl, rfl, hne, hpos, hle⟩
    exact ⟨hplain, hdigits, hvalue⟩
  · intro h host' p
    refine and_congr_right fun _ => ?_
    constructor
    · rintro ⟨rfl, hne, hpos, hle⟩
      obtain ⟨hplain, hdigits, hvalue⟩ := h hne hpos hle
      -- a clean port is all digits, and `atoi` is their value
      rw [atoi_digits platform hdigits hvalue] at hpos ⊢
      refine ⟨hplain, ?_, hdigits, rfl, by omega, hvalue⟩
      rintro rfl
      exact absurd hpos (by decide)
    · rintro ⟨hplain, -, hdigits, rfl, hone, hvalue⟩
      rw [atoi_digits platform hdigits hvalue]
      exact ⟨rfl, hplain.1, by omega, by omega⟩

/-- **The parser accepts a URL exactly if it has the form, and returns its parts**,
if and only if the text before the first slash is clean. -/
theorem parse_exact_iff (url : String) :
    (∀ target, parseHttpUrl platform url = some target ↔ HttpForm url target) ↔
      (startsWith url "http://" = true → Clean platform (authorityOf url)) := by
  cases hstarts : startsWith url "http://" with
  | false =>
    refine iff_of_true (fun target => ?_) fun h => absurd h (by simp)
    refine iff_of_false (by simp [parseHttpUrl, hstarts]) ?_
    rintro ⟨host, port, rest, path, hurl, -⟩
    have hscheme := startsWith_iff.mpr ⟨_, hurl⟩
    exact absurd (hstarts.symm.trans hscheme) (by simp)
  | true =>
    obtain ⟨tail, htail⟩ := startsWith_iff.mp hstarts
    obtain ⟨authority, rest, rfl, hslash, hrest⟩ := exists_cut '/' tail
    have hdrop : url.toList.drop 7 = authority ++ rest := by rw [htail]; rfl
    have hauthority : authorityOf url = authority := by
      rw [authorityOf, hdrop]
      exact takeWhile_cut hslash hrest
    rw [agree_iff platform htail hslash hrest, hauthority, Clean]
    simp only [forall_const]
    by_cases hb : ']' ∈ authority
    · rw [if_pos hb]
      exact agree_bracket platform hb
    · rw [if_neg hb]
      by_cases hc : ':' ∈ authority
      · obtain ⟨host, port, rfl, hport⟩ := exists_rsplit hc
        rw [rsplit_append hport]
        exact agree_port platform hb hport
      · rw [rsplit_none hc]
        exact agree_name platform hslash hb hc

end Exact

/-- `http://[::1]:8080/r` has the port 8080. -/
theorem loopback_form : HttpForm "http://[::1]:8080/r" ("[::1]", 8080, "/r") := by
  have haddress : IPv6 [':', ':', '1'] := by
    refine .inr ⟨[], ['1'], 0, 1, rfl, by decide, .inl ⟨rfl, rfl⟩, .inr (.group ?_)⟩
    refine ⟨by decide, by decide, fun c hc => ?_⟩
    obtain rfl := List.mem_singleton.mp hc
    decide
  refine ⟨['[', ':', ':', '1', ']'], [':', '8', '0', '8', '0'], ['/', 'r'], ['/', 'r'], ?_,
    .inr ⟨_, haddress, rfl⟩, .inr ⟨['8', '0', '8', '0'], rfl, ?_⟩, .inr ⟨['r'], rfl, rfl⟩, ?_, ?_⟩
  · decide +kernel
  · exact ⟨by decide, by decide, by decide, by decide, by decide⟩
  · decide +kernel
  · decide +kernel

/-- **The port behind an address in brackets is ignored**, and becomes a part of
the host. -/
theorem bracketed_port_ignored :
    ¬ ∀ (platform : Conversion) (url : String) (target : String × ℤ × String),
      parseHttpUrl platform url = some target ↔ HttpForm url target := by
  intro h
  have hparse : parseHttpUrl ⟨id, fun _ _ _ => rfl⟩ "http://[::1]:8080/r" =
      some ("[::1]:8080", 80, "/r") := by decide +kernel
  have hform := (h ⟨id, fun _ _ _ => rfl⟩ _ _).mpr loopback_form
  exact absurd (hparse.symm.trans hform) (by decide +kernel)

end Endpoints

end IpcMini
