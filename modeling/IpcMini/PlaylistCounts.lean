/-
What a playlist adds up to after `begin` (`src/record/hls_playlist.cpp`).

Each call may rewrite the file, and the file may fail to open.  What is written
is compared with the calls since `begin`.

* `Edit`, `Diary` — the calls after `begin`, and what they write;
* `Document`, `read` — what a playlist says, and what is read from its text;
* `Counts` — the playlist as a count of the calls, kept by `Counts.apply`;
* `read_text` — the text says what the playlist prints;
* **`written_adds_up`** — every text that is written adds up.
-/
import IpcMini.Decimals
import IpcMini.PlaylistReading

namespace IpcMini

open Decimals
open RecordHttp (splitLines)

namespace HlsPlaylist

/-! ### Calls -/

/-- A call after `begin`. -/
inductive Edit
  | append (filename : String) (durationSec : ℚ)
  | dropFrontIf (filename : String)
  | finish
  deriving DecidableEq, Repr

def Edit.op : Edit → Op
  | .append filename durationSec => .append filename durationSec
  | .dropFrontIf filename => .dropFrontIf filename
  | .finish => .finish

/-- What one `rewrite` writes, after the calls since `begin`. -/
structure Writing where
  edits : List Edit
  playlist : HlsPlaylist
  deriving DecidableEq, Repr

/-- A playlist, the calls since `begin`, and what they have written. -/
structure Diary where
  playlist : HlsPlaylist
  edits : List Edit
  writings : List Writing
  deriving DecidableEq, Repr

/-- `begin` on any playlist; `opened` says whether `fopen` succeeds. -/
def begun (previous : HlsPlaylist) (path : Option File) (targetDurationSec : ℤ)
    (opened : Bool) : Diary :=
  let (p, rewritten) := previous.apply (.begin path targetDurationSec)
  ⟨p, [], if rewritten && opened then [⟨[], p⟩] else []⟩

namespace Diary

/-- A call, and whether `fopen` succeeds in it. -/
def call (s : Diary) (c : Edit × Bool) : Diary :=
  let (p, rewritten) := s.playlist.apply c.1.op
  let edits := s.edits ++ [c.1]
  ⟨p, edits, if rewritten && c.2 then s.writings ++ [⟨edits, p⟩] else s.writings⟩

def calls (s : Diary) (cs : List (Edit × Bool)) : Diary := cs.foldl call s

end Diary

/-- The diary of the calls after a `begin`. -/
def diary (previous : HlsPlaylist) (path : Option File) (targetDurationSec : ℤ) (opened : Bool)
    (cs : List (Edit × Bool)) : Diary :=
  (begun previous path targetDurationSec opened).calls cs

/-! ### What a playlist says -/

/-- What a playlist says, with the values of its `EXTINF` lines. -/
structure Document where
  targetDuration : ℤ
  mediaSequence : ℕ
  durations : List ℚ
  names : List String
  ended : Bool
  deriving DecidableEq, Repr

/-- What `%.3f` shows of a duration. -/
def shown (duration : ℚ) : ℚ := (nearest (duration * 1000) : ℚ) / 1000

/-- What `rewrite` prints. -/
def document (p : HlsPlaylist) : Document where
  targetDuration := p.targetDurationSec
  mediaSequence := p.mediaSequence
  durations := p.entries.map fun entry => shown entry.2
  names := p.names
  ended := p.ended

/-- What is behind a tag, in the lines that begin with it. -/
def tagged (tag : String) (lines : List (List Char)) : List (List Char) :=
  (lines.filter (tag.toList.isPrefixOf ·)).map (·.drop tag.toList.length)

/-- The line is a name, and no tag or comment. -/
def isUri (line : List Char) : Bool := !line.isEmpty && !(['#'].isPrefixOf line)

/-- What a text says, unless it has not one target duration and one number. -/
def read (text : List Char) : Option Document :=
  let lines := splitLines text
  match tagged "#EXT-X-TARGETDURATION:" lines, tagged "#EXT-X-MEDIA-SEQUENCE:" lines with
  | [target], [sequence] =>
    some {
      targetDuration := whole target
      mediaSequence := whole sequence
      durations := (tagged "#EXTINF:" lines).map number
      names := (lines.filter isUri).map String.ofList
      ended := lines.contains "#EXT-X-ENDLIST".toList }
  | _, _ => none

/-! ### What the calls add up to -/

/-- The entry that a call appends, if appends of its name count. -/
def Edit.added (counts : String → Bool) : Edit → Option (String × ℚ)
  | .append filename durationSec =>
    if counts filename then some (filename, max (1 / 1000) durationSec) else none
  | _ => none

def added (counts : String → Bool) (edits : List Edit) : List (String × ℚ) :=
  edits.filterMap (Edit.added counts)

/-- `finish` was called after the last append. -/
def Finished (counts : String → Bool) (edits : List Edit) : Prop :=
  ∃ before after, edits = before ++ .finish :: after ∧ added counts after = []

/-- What is written after the calls since `begin`, where the appends of some names
count. -/
structure AddsUp (counts : String → Bool) (targetDurationSec : ℤ) (edits : List Edit)
    (d : Document) : Prop where
  within : ∀ duration ∈ d.durations, duration ≤ d.targetDuration
  configured : targetDurationSec ≤ d.targetDuration
  counted : d.mediaSequence + d.names.length = (added counts edits).length
  listed : d.names = ((added counts edits).drop d.mediaSequence).map Prod.fst
  lasting : d.durations = ((added counts edits).drop d.mediaSequence).map fun e => shown e.2
  ended : d.ended = true ↔ Finished counts edits

/-- An append without a name is none. -/
def named (filename : String) : Bool := filename ≠ ""

section History

variable {counts : String → Bool} {edits : List Edit} {e : Edit}

theorem added_concat (counts : String → Bool) (edits : List Edit) (e : Edit) :
    added counts (edits ++ [e]) = added counts edits ++ (e.added counts).toList := by
  rw [added, List.filterMap_append]
  cases h : e.added counts <;> simp [added, h]

theorem not_finished_nil : ¬ Finished counts [] := by
  rintro ⟨before, after, heq, -⟩
  simp at heq

/-- The end is the latest `finish` that no append has followed. -/
theorem finished_concat :
    Finished counts (edits ++ [e]) ↔
      e = .finish ∨ e.added counts = none ∧ Finished counts edits := by
  constructor
  · rintro ⟨before, after, heq, hnone⟩
    rcases List.eq_nil_or_concat after with rfl | ⟨after, last, rfl⟩
    · obtain ⟨-, hlast⟩ := List.append_inj' heq rfl
      exact .inl (List.singleton_inj.mp hlast)
    · rw [List.concat_eq_append, ← List.cons_append, ← List.append_assoc] at heq
      obtain ⟨rfl, hlast⟩ := List.append_inj' heq rfl
      obtain rfl := List.singleton_inj.mp hlast
      rw [List.concat_eq_append, added_concat, List.append_eq_nil_iff,
        Option.toList_eq_nil_iff] at hnone
      exact .inr ⟨hnone.2, before, after, rfl, hnone.1⟩
  · rintro (rfl | ⟨hnone, before, after, rfl, hafter⟩)
    · exact ⟨edits, [], rfl, rfl⟩
    · refine ⟨before, after ++ [e], by simp, ?_⟩
      rw [added_concat, hafter, hnone]
      rfl

end History

/-! ### The playlist as a count of the calls -/

structure Counts (targetDurationSec : ℤ) (edits : List Edit) (p : HlsPlaylist) : Prop where
  path : p.path ≠ none
  positive : 0 ≤ p.targetDurationSec
  configured : targetDurationSec ≤ p.targetDurationSec
  within : ∀ entry ∈ p.entries, 0 ≤ entry.2 ∧ entry.2 ≤ p.targetDurationSec
  counted : p.mediaSequence + p.entries.length = (added named edits).length
  listed : p.entries = (added named edits).drop p.mediaSequence
  ended : p.ended = true ↔ Finished named edits

namespace Counts

variable {targetDurationSec : ℤ} {edits : List Edit} {p : HlsPlaylist}

theorem of_begin (path : File) (targetDurationSec : ℤ) :
    Counts targetDurationSec [] (begin path targetDurationSec) := by
  refine ⟨by simp [begin], ?_, ?_, by simp [begin], rfl, rfl, ?_⟩
  · rw [begin]
    dsimp only
    split <;> omega
  · rw [begin]
    dsimp only
    split <;> omega
  · exact iff_of_false Bool.false_ne_true not_finished_nil

/-- A call that does nothing is none that counts. -/
theorem idle (h : Counts targetDurationSec edits p) {e : Edit} (hadd : e.added named = none)
    (hend : e = .finish → p.ended = true) : Counts targetDurationSec (edits ++ [e]) p := by
  have hadded : added named (edits ++ [e]) = added named edits := by
    rw [added_concat, hadd, Option.toList_none, List.append_nil]
  refine ⟨h.path, h.positive, h.configured, h.within, hadded ▸ h.counted, hadded ▸ h.listed, ?_⟩
  rw [finished_concat, h.ended]
  exact ⟨fun hf => .inr ⟨hadd, hf⟩, fun hf => hf.elim (fun he => h.ended.mp (hend he)) And.right⟩

theorem append (h : Counts targetDurationSec edits p) (filename : String) (durationSec : ℚ) :
    Counts targetDurationSec (edits ++ [.append filename durationSec])
        (p.append filename durationSec).1 ∧
      p.targetDurationSec ≤ (p.append filename durationSec).1.targetDurationSec := by
  by_cases hf : filename = ""
  · rw [HlsPlaylist.append, if_pos (.inr hf)]
    exact ⟨h.idle (by simp [Edit.added, named, hf]) (by simp), le_refl _⟩
  have hadd : (Edit.append filename durationSec).added named =
      some (filename, max (1 / 1000) durationSec) := by simp [Edit.added, named, hf]
  have hadded : added named (edits ++ [.append filename durationSec]) =
      added named edits ++ [(filename, max (1 / 1000) durationSec)] := by
    rw [added_concat, hadd, Option.toList_some]
  rw [HlsPlaylist.append, if_neg (by simp [h.path, hf])]
  dsimp only
  rw [← max_def_lt, ← max_def_lt]
  generalize hd : max (1 / 1000) durationSec = duration at hadd hadded ⊢
  have hpos : 0 ≤ duration := hd ▸ le_max_of_le_left (by norm_num)
  refine ⟨⟨h.path, h.positive.trans (le_max_left _ _), h.configured.trans (le_max_left _ _),
    fun entry hentry => ?_, ?_, ?_, ?_⟩, le_max_left _ _⟩
  · push_cast
    rcases List.mem_append.mp hentry with hentry | hentry
    · obtain ⟨hnonneg, hle⟩ := h.within entry hentry
      exact ⟨hnonneg, hle.trans (le_max_left _ _)⟩
    · obtain rfl := List.mem_singleton.mp hentry
      exact ⟨hpos, (Int.le_ceil duration).trans (le_max_right _ _)⟩
  · rw [hadded, List.length_append, List.length_append, ← h.counted]
    exact (Nat.add_assoc _ _ _).symm
  · -- the dropped entries were there before
    have hle : p.mediaSequence ≤ (added named edits).length := by
      rw [← h.counted]
      exact Nat.le_add_right _ _
    rw [hadded, List.drop_append_of_le_length hle, ← h.listed]
  · rw [finished_concat, hadd]
    simp

theorem dropFrontIf (h : Counts targetDurationSec edits p) (filename : String) :
    Counts targetDurationSec (edits ++ [.dropFrontIf filename])
        (p.dropFrontIf filename).1 ∧
      p.targetDurationSec ≤ (p.dropFrontIf filename).1.targetDurationSec := by
  have hidle := h.idle (e := .dropFrontIf filename) rfl (by simp)
  rw [HlsPlaylist.dropFrontIf]
  split
  · exact ⟨hidle, le_refl _⟩
  next front rest hentries =>
  split
  · exact ⟨hidle, le_refl _⟩
  have hcounted := hidle.counted
  have hlisted := hidle.listed
  rw [hentries] at hcounted hlisted
  refine ⟨⟨h.path, h.positive, h.configured, fun entry hentry => ?_, ?_, ?_, hidle.ended⟩,
    le_refl _⟩
  · exact h.within entry (hentries ▸ List.mem_cons_of_mem _ hentry)
  · rw [← hcounted, List.length_cons]
    exact Nat.succ_add_eq_add_succ _ _
  · -- one more of the appended entries is dropped
    rw [← List.tail_drop, ← hlisted, List.tail_cons]

theorem finish (h : Counts targetDurationSec edits p) :
    Counts targetDurationSec (edits ++ [.finish]) p.finish.1 ∧
      p.targetDurationSec ≤ p.finish.1.targetDurationSec := by
  rw [HlsPlaylist.finish]
  split
  next hskip =>
    exact ⟨h.idle rfl fun _ => hskip.resolve_left h.path, le_refl _⟩
  next =>
    have hadded : added named (edits ++ [.finish]) = added named edits := by
      rw [added_concat]
      exact List.append_nil _
    refine ⟨⟨h.path, h.positive, h.configured, h.within, hadded ▸ h.counted, hadded ▸ h.listed, ?_⟩,
      le_refl _⟩
    exact iff_of_true rfl (finished_concat.mpr (.inl rfl))

/-- **Every call is counted**, and does not lower the target duration. -/
theorem apply (h : Counts targetDurationSec edits p) (e : Edit) :
    Counts targetDurationSec (edits ++ [e]) (p.apply e.op).1 ∧
      p.targetDurationSec ≤ (p.apply e.op).1.targetDurationSec := by
  cases e with
  | append filename durationSec => exact h.append filename durationSec
  | dropFrontIf filename => exact h.dropFrontIf filename
  | finish => exact h.finish

end Counts

/-! ### What it prints -/

theorem nearest_le {q : ℚ} {n : ℤ} (h : q ≤ n) : nearest q ≤ n := by
  have hlow : ⌊q⌋ ≤ n := by exact_mod_cast (Int.floor_le q).trans h
  -- it is rounded up only if there is something to round
  have hnext : ¬ q - ⌊q⌋ < 1 / 2 → ⌊q⌋ + 1 ≤ n := by
    intro hhalf
    have hlt : (⌊q⌋ : ℚ) < n := by linarith
    exact Int.add_one_le_iff.mpr (by exact_mod_cast hlt)
  rw [nearest]
  split_ifs with hhalf
  · exact hlow
  · exact hnext hhalf
  · exact hlow
  · exact hnext hhalf

theorem nearest_nonneg {q : ℚ} (h : 0 ≤ q) : 0 ≤ nearest q := by
  have hlow : 0 ≤ ⌊q⌋ := Int.floor_nonneg.mpr h
  rw [nearest]
  split_ifs <;> omega

/-- No duration is shown as longer than a number of seconds that it does not
exceed. -/
theorem shown_le {duration : ℚ} {n : ℤ} (h : duration ≤ n) : shown duration ≤ n := by
  have hnearest : nearest (duration * 1000) ≤ n * 1000 := by
    refine nearest_le ?_
    push_cast
    linarith
  rw [shown, div_le_iff₀ (by norm_num)]
  exact_mod_cast hnearest

/-- A playlist that counts the calls adds up. -/
theorem Counts.addsUp {targetDurationSec : ℤ} {edits : List Edit} {p : HlsPlaylist}
    (h : Counts targetDurationSec edits p) :
    AddsUp named targetDurationSec edits p.document := by
  refine ⟨?_, h.configured, ?_, ?_, ?_, h.ended⟩
  · intro duration hduration
    obtain ⟨entry, hentry, rfl⟩ := List.mem_map.mp hduration
    exact shown_le (h.within entry hentry).2
  · rw [← h.counted, document, names, List.length_map]
  · rw [document, names, ← h.listed]
  · rw [document, ← h.listed]

/-- What `%.3f` prints is read as what it shows. -/
theorem number_fixed3 {duration : ℚ} (h : 0 ≤ duration) :
    number (fixed3 duration ++ ",").toList = shown duration := by
  have hnearest : 0 ≤ nearest (duration * 1000) := nearest_nonneg (by linarith)
  obtain ⟨n, hn⟩ := Int.eq_ofNat_of_zero_le hnearest
  rw [HlsPlaylist.fixed3, shown, hn, Int.toNat_natCast, String.toList_append,
    String.toList_append, String.toList_append, pad, pad, String.toList_ofList,
    String.toList_ofList]
  have hlt : n % 1000 < 10 ^ 3 := Nat.mod_lt n (by decide)
  have hcomma : ∀ c ∈ [','].head?, c.isDigit = false := by
    rintro c ⟨⟩
    rfl
  have hread := number_point 1 (n / 1000) hlt (by decide) hcomma
  have hsum : ((n / 1000 : ℕ) : ℚ) * 1000 + (n % 1000 : ℕ) = n := by
    exact_mod_cast Nat.div_add_mod' n 1000
  calc number _ = number _ := by simp
    _ = ((n / 1000 : ℕ) : ℚ) + ((n % 1000 : ℕ) : ℚ) / 10 ^ 3 := hread
    _ = _ := by
      push_cast at hsum ⊢
      linarith

/-! ### What is read -/

/-- A name that is one line and no tag.  What is behind a null is not printed. -/
structure OneLine (name : List Char) : Prop where
  no_null : Char.ofNat 0 ∉ name
  no_break : ∀ c ∈ name, c ≠ '\n' ∧ c ≠ '\r'
  no_comment : name.head? ≠ some '#'

section Tags

variable {tag : String} {lines : List (List Char)}

theorem tagged_cons (tag : String) (line : List Char) (lines : List (List Char)) :
    tagged tag (line :: lines) = tagged tag [line] ++ tagged tag lines := by
  rw [tagged, ← List.singleton_append, List.filter_append, List.map_append]
  rfl

theorem tagged_append (tag : String) (lines more : List (List Char)) :
    tagged tag (lines ++ more) = tagged tag lines ++ tagged tag more := by
  rw [tagged, List.filter_append, List.map_append]
  rfl

theorem tagged_eq_nil (h : ∀ line ∈ lines, ¬ tag.toList <+: line) : tagged tag lines = [] := by
  rw [tagged, List.map_eq_nil_iff, List.filter_eq_nil_iff]
  exact fun line hline hprefix => h line hline (List.isPrefixOf_iff_prefix.mp hprefix)

theorem tagged_self (tag rest : String) : tagged tag [(tag ++ rest).toList] = [rest.toList] := by
  have hprefix : tag.toList.isPrefixOf (tag ++ rest).toList = true := by
    rw [String.toList_append]
    exact List.isPrefixOf_iff_prefix.mpr (List.prefix_append _ _)
  rw [tagged, List.filter_singleton, hprefix, String.toList_append]
  exact congrArg (fun l => [l]) List.drop_left

/-- Two tags of which neither begins the other do not begin one line. -/
theorem not_prefix_of_apart {other : String} (h : ¬ tag.toList <+: other.toList)
    (h' : ¬ other.toList <+: tag.toList) (rest : String) :
    ¬ tag.toList <+: (other ++ rest).toList := by
  intro htag
  rw [String.toList_append] at htag
  rcases List.prefix_or_prefix_of_prefix htag (List.prefix_append _ _) with hp | hp
  · exact h hp
  · exact h' hp

theorem not_prefix_of_name {name : List Char} (htag : tag.toList.head? = some '#')
    (h : name.head? ≠ some '#') : ¬ tag.toList <+: name := by
  rintro ⟨rest, rfl⟩
  refine h ?_
  rw [List.head?_append, htag]
  rfl

theorem tagged_single (before : List (List Char)) {after : List (List Char)} (rest : String)
    (hbefore : ∀ line ∈ before, ¬ tag.toList <+: line)
    (hafter : ∀ line ∈ after, ¬ tag.toList <+: line) :
    tagged tag (before ++ (tag ++ rest).toList :: after) = [rest.toList] := by
  rw [tagged_append, tagged_cons, tagged_self, tagged_eq_nil hbefore, tagged_eq_nil hafter]
  rfl

end Tags

section Lines

variable {p : HlsPlaylist}

/-- The lines before the entries. -/
def header (p : HlsPlaylist) : List (List Char) :=
  ["#EXTM3U".toList, "#EXT-X-VERSION:7".toList,
    ("#EXT-X-TARGETDURATION:" ++ toString p.targetDurationSec).toList,
    ("#EXT-X-MEDIA-SEQUENCE:" ++ toString p.mediaSequence).toList,
    "#EXT-X-INDEPENDENT-SEGMENTS".toList, "#EXT-X-MAP:URI=\"init.mp4\"".toList]

/-- The lines of the entries. -/
def body (p : HlsPlaylist) : List (List Char) :=
  p.entries.flatMap fun entry => [("#EXTINF:" ++ (fixed3 entry.2 ++ ",")).toList, entry.1.toList]

/-- The end of the list, and what is behind the last line break. -/
def trailer (p : HlsPlaylist) : List (List Char) :=
  (if p.ended then ["#EXT-X-ENDLIST".toList] else []) ++ [[]]

theorem split_text_parts (h : ∀ name ∈ p.names, OneLine name.toList) :
    splitLines p.text = p.header ++ (p.body ++ p.trailer) := by
  rw [split_text fun name hname => (h name hname).no_break, HlsPlaylist.lines, List.map_append,
    List.map_append, List.map_flatMap, header, body, trailer]
  cases p.ended <;> simp [String.append_assoc]

/-- An entry's lines are its duration and a name. -/
theorem mem_body (h : ∀ name ∈ p.names, OneLine name.toList) {line : List Char}
    (hline : line ∈ p.body) :
    (∃ rest : String, line = ("#EXTINF:" ++ rest).toList) ∨ line.head? ≠ some '#' := by
  obtain ⟨entry, hentry, hline⟩ := List.mem_flatMap.mp hline
  rcases List.mem_pair.mp hline with hline | hline
  · exact .inl ⟨_, hline⟩
  · exact .inr (hline ▸ (h entry.1 (List.mem_map_of_mem hentry)).no_comment)

theorem mem_trailer {line : List Char} (hline : line ∈ p.trailer) :
    line = "#EXT-X-ENDLIST".toList ∨ line = [] := by
  rcases List.mem_append.mp hline with hline | hline
  · split at hline
    · exact .inl (List.mem_singleton.mp hline)
    · exact absurd hline List.not_mem_nil
  · exact .inr (List.mem_singleton.mp hline)

/-- Behind the header a tag begins no line, unless it begins one of theirs. -/
theorem not_prefix_behind (h : ∀ name ∈ p.names, OneLine name.toList) {tag : String}
    (htag : tag.toList.head? = some '#')
    (hinfo : ¬ tag.toList <+: "#EXTINF:".toList) (hinfo' : ¬ "#EXTINF:".toList <+: tag.toList)
    (hend : ¬ tag.toList <+: "#EXT-X-ENDLIST".toList) :
    ∀ line ∈ p.body ++ p.trailer, ¬ tag.toList <+: line := by
  intro line hline
  rcases List.mem_append.mp hline with hline | hline
  · rcases mem_body h hline with ⟨rest, hinf⟩ | hname
    · exact hinf ▸ not_prefix_of_apart hinfo hinfo' rest
    · exact not_prefix_of_name htag hname
  · rcases mem_trailer hline with hlast | hempty
    · exact hlast ▸ hend
    · exact hempty ▸ not_prefix_of_name htag (by simp)

theorem tagged_target (h : ∀ name ∈ p.names, OneLine name.toList) :
    tagged "#EXT-X-TARGETDURATION:" (p.header ++ (p.body ++ p.trailer)) =
      [(toString p.targetDurationSec).toList] := by
  have hbehind := not_prefix_behind h (by decide +kernel : "#EXT-X-TARGETDURATION:".toList.head? =
    some '#') (by decide +kernel) (by decide +kernel) (by decide +kernel)
  refine tagged_single ["#EXTM3U".toList, "#EXT-X-VERSION:7".toList] _ ?_ ?_
  · refine List.forall_mem_cons.mpr ⟨by decide +kernel, List.forall_mem_cons.mpr ⟨?_, by simp⟩⟩
    decide +kernel
  · refine List.forall_mem_cons.mpr ⟨?_, List.forall_mem_cons.mpr ⟨by decide +kernel,
      List.forall_mem_cons.mpr ⟨by decide +kernel, hbehind⟩⟩⟩
    exact not_prefix_of_apart (by decide +kernel) (by decide +kernel) _

theorem tagged_sequence (h : ∀ name ∈ p.names, OneLine name.toList) :
    tagged "#EXT-X-MEDIA-SEQUENCE:" (p.header ++ (p.body ++ p.trailer)) =
      [(toString p.mediaSequence).toList] := by
  have hbehind := not_prefix_behind h (by decide +kernel : "#EXT-X-MEDIA-SEQUENCE:".toList.head? =
    some '#') (by decide +kernel) (by decide +kernel) (by decide +kernel)
  refine tagged_single ["#EXTM3U".toList, "#EXT-X-VERSION:7".toList,
    ("#EXT-X-TARGETDURATION:" ++ toString p.targetDurationSec).toList] _ ?_ ?_
  · refine List.forall_mem_cons.mpr ⟨by decide +kernel, List.forall_mem_cons.mpr
      ⟨by decide +kernel, List.forall_mem_cons.mpr ⟨?_, by simp⟩⟩⟩
    exact not_prefix_of_apart (by decide +kernel) (by decide +kernel) _
  · exact List.forall_mem_cons.mpr ⟨by decide +kernel,
      List.forall_mem_cons.mpr ⟨by decide +kernel, hbehind⟩⟩

/-- The header tells no duration, names no file and ends nothing. -/
theorem forall_mem_header : ∀ line ∈ p.header,
    ¬ "#EXTINF:".toList <+: line ∧ line.head? = some '#' ∧ line ≠ "#EXT-X-ENDLIST".toList := by
  have happart : ∀ {other : String}, ¬ "#EXTINF:".toList <+: other.toList →
      ¬ other.toList <+: "#EXTINF:".toList → other.toList.head? = some '#' →
      ¬ other.toList <+: "#EXT-X-ENDLIST".toList → ∀ rest : String,
        ¬ "#EXTINF:".toList <+: (other ++ rest).toList ∧
          (other ++ rest).toList.head? = some '#' ∧
          (other ++ rest).toList ≠ "#EXT-X-ENDLIST".toList := by
    intro other hinfo hinfo' hhash hend rest
    refine ⟨not_prefix_of_apart hinfo hinfo' rest, ?_, fun heq => hend ?_⟩
    · rw [String.toList_append, List.head?_append, hhash]
      rfl
    · rw [← heq, String.toList_append]
      exact List.prefix_append _ _
  rw [header]
  simp only [List.forall_mem_cons]
  refine ⟨by decide +kernel, by decide +kernel, ?_, ?_, by decide +kernel, by decide +kernel,
    fun line hline => absurd hline List.not_mem_nil⟩
  · exact happart (by decide +kernel) (by decide +kernel) (by decide +kernel) (by decide +kernel) _
  · exact happart (by decide +kernel) (by decide +kernel) (by decide +kernel) (by decide +kernel) _

theorem tagged_durations (h : ∀ name ∈ p.names, OneLine name.toList) :
    tagged "#EXTINF:" (p.header ++ (p.body ++ p.trailer)) =
      p.entries.map fun entry => (fixed3 entry.2 ++ ",").toList := by
  have hbody : tagged "#EXTINF:" p.body =
      p.entries.map fun entry => (fixed3 entry.2 ++ ",").toList := by
    rw [tagged, body, List.filter_flatMap, List.map_flatMap, List.map_eq_flatMap]
    refine List.flatMap_congr fun entry hentry => ?_
    have hname : tagged "#EXTINF:" [entry.1.toList] = [] := by
      refine tagged_eq_nil fun line hline => ?_
      rw [List.mem_singleton.mp hline]
      exact not_prefix_of_name (by decide +kernel)
        (h entry.1 (List.mem_map_of_mem hentry)).no_comment
    show tagged "#EXTINF:" _ = _
    rw [tagged_cons, tagged_self, hname, List.append_nil]
  have hheader : tagged "#EXTINF:" p.header = [] :=
    tagged_eq_nil fun line hline => (forall_mem_header line hline).1
  have htrailer : tagged "#EXTINF:" p.trailer = [] := by
    refine tagged_eq_nil fun line hline => ?_
    rcases mem_trailer hline with hlast | hempty
    · rw [hlast]
      decide +kernel
    · rw [hempty]
      decide +kernel
  rw [tagged_append, tagged_append, hheader, hbody, htrailer, List.append_nil, List.nil_append]

theorem not_uri_of_hash {line : List Char} (h : line.head? = some '#') : isUri line = false := by
  obtain ⟨rest, rfl⟩ : ∃ rest, line = '#' :: rest := ⟨_, (List.cons_head?_tail h).symm⟩
  simp [isUri, List.isPrefixOf]

theorem uri_of_name {name : List Char} (h : name.head? ≠ some '#') (hne : name ≠ []) :
    isUri name = true := by
  obtain ⟨c, rest, rfl⟩ := List.exists_cons_of_ne_nil hne
  have hc : '#' ≠ c := fun he => h (he ▸ rfl)
  simp [isUri, List.isPrefixOf, hc]

/-- The names stand alone between the tags. -/
theorem uris (h : ∀ name ∈ p.names, OneLine name.toList) (hne : ∀ name ∈ p.names, name ≠ "") :
    (p.header ++ (p.body ++ p.trailer)).filter isUri = p.names.map String.toList := by
  have hbody : p.body.filter isUri = p.names.map String.toList := by
    rw [body, List.filter_flatMap, names, List.map_map, List.map_eq_flatMap]
    refine List.flatMap_congr fun entry hentry => ?_
    have hmem : entry.1 ∈ p.names := List.mem_map_of_mem hentry
    have hinfo : isUri ("#EXTINF:" ++ (fixed3 entry.2 ++ ",")).toList = false :=
      not_uri_of_hash (by simp)
    have hname : isUri entry.1.toList = true :=
      uri_of_name (h entry.1 hmem).no_comment fun he => hne entry.1 hmem
        (String.toList_eq_nil_iff.mp he)
    rw [List.filter_cons_of_neg (Bool.eq_false_iff.mp hinfo), List.filter_cons_of_pos hname]
    rfl
  have hheader : p.header.filter isUri = [] := by
    refine List.filter_eq_nil_iff.mpr fun line hline => ?_
    rw [not_uri_of_hash (forall_mem_header line hline).2.1]
    exact Bool.false_ne_true
  have htrailer : p.trailer.filter isUri = [] := by
    refine List.filter_eq_nil_iff.mpr fun line hline => ?_
    rcases mem_trailer hline with hlast | hempty
    · rw [hlast]
      decide +kernel
    · rw [hempty]
      decide +kernel
  rw [List.filter_append, List.filter_append, hheader, hbody, htrailer, List.append_nil,
    List.nil_append]

/-- The list is ended by a line of its own. -/
theorem contains_endlist (h : ∀ name ∈ p.names, OneLine name.toList) :
    (p.header ++ (p.body ++ p.trailer)).contains "#EXT-X-ENDLIST".toList = p.ended := by
  have hheader : "#EXT-X-ENDLIST".toList ∉ p.header :=
    fun hmem => (forall_mem_header _ hmem).2.2 rfl
  have hbody : "#EXT-X-ENDLIST".toList ∉ p.body := by
    intro hmem
    rcases mem_body h hmem with ⟨rest, heq⟩ | hname
    · refine absurd ?_ (by decide +kernel : ¬ "#EXTINF:".toList <+: "#EXT-X-ENDLIST".toList)
      rw [heq, String.toList_append]
      exact List.prefix_append _ _
    · exact hname (by decide +kernel)
  have htrailer : "#EXT-X-ENDLIST".toList ∈ p.trailer ↔ p.ended = true := by
    rw [trailer]
    cases p.ended <;> simp
  rw [Bool.eq_iff_iff, List.contains_iff_mem, List.mem_append, List.mem_append, htrailer]
  exact ⟨fun hmem => (hmem.resolve_left hheader).resolve_left hbody, fun hend => .inr (.inr hend)⟩

/-- **The text says what the playlist prints.** -/
theorem read_text (h : ∀ name ∈ p.names, OneLine name.toList) (hne : ∀ name ∈ p.names, name ≠ "")
    (htarget : 0 ≤ p.targetDurationSec) (hlong : ∀ entry ∈ p.entries, 0 ≤ entry.2) :
    read p.text = some p.document := by
  have hnil : ∀ c ∈ ([] : List Char).head?, c.isDigit = false := by simp
  have htarget' : (whole (toString p.targetDurationSec).toList : ℤ) = p.targetDurationSec := by
    obtain ⟨n, hn⟩ := Int.eq_ofNat_of_zero_le htarget
    have hwhole := whole_digits n hnil
    rw [List.append_nil] at hwhole
    rw [hn]
    show ((whole (Nat.repr n).toList : ℕ) : ℤ) = n
    rw [Nat.repr, String.toList_ofList, hwhole]
  have hsequence : whole (toString p.mediaSequence).toList = p.mediaSequence := by
    have hwhole := whole_digits p.mediaSequence hnil
    rw [List.append_nil] at hwhole
    show whole (Nat.repr p.mediaSequence).toList = _
    rw [Nat.repr, String.toList_ofList, hwhole]
  have hdurations : (p.entries.map fun entry => (fixed3 entry.2 ++ ",").toList).map number =
      p.entries.map fun entry => shown entry.2 := by
    rw [List.map_map]
    refine List.map_congr_left fun entry hentry => ?_
    have hread := number_fixed3 (hlong entry hentry)
    rw [Function.comp_apply]
    exact hread
  have hnames : (p.names.map String.toList).map String.ofList = p.names := by
    simp
  rw [read, split_text_parts h, tagged_target h, tagged_sequence h]
  dsimp only
  rw [tagged_durations h, uris h hne, contains_endlist h, htarget', hsequence, hdurations, hnames]
  rfl

end Lines

/-! ### Runs -/

/-- What is listed has a name. -/
theorem Counts.name_ne_empty {targetDurationSec : ℤ} {edits : List Edit} {p : HlsPlaylist}
    (h : Counts targetDurationSec edits p) : ∀ name ∈ p.names, name ≠ "" := by
  intro name hname
  obtain ⟨entry, hentry, rfl⟩ := List.mem_map.mp hname
  rw [h.listed] at hentry
  obtain ⟨e, -, he⟩ := List.mem_filterMap.mp (List.mem_of_mem_drop hentry)
  cases e with
  | append filename durationSec =>
    rw [Edit.added] at he
    split at he
    next hnamed =>
      obtain rfl := Option.some.inj he
      simpa [named] using hnamed
    next => cases he
  | dropFrontIf filename => cases he
  | finish => cases he

namespace Diary

variable {targetDurationSec : ℤ}

structure Inv (targetDurationSec : ℤ) (s : Diary) : Prop where
  counts : Counts targetDurationSec s.edits s.playlist
  writings : ∀ w ∈ s.writings, Counts targetDurationSec w.edits w.playlist ∧
    w.playlist.targetDurationSec ≤ s.playlist.targetDurationSec
  rising : s.writings.Pairwise fun w w' =>
    w.playlist.targetDurationSec ≤ w'.playlist.targetDurationSec

theorem inv_begun (previous : HlsPlaylist) (path : File) (targetDurationSec : ℤ)
    (opened : Bool) :
    Inv targetDurationSec (begun previous (some path) targetDurationSec opened) := by
  have hbegin := Counts.of_begin path targetDurationSec
  cases opened with
  | true =>
    refine ⟨hbegin, fun w hw => ?_, List.pairwise_singleton _ _⟩
    obtain rfl := List.mem_singleton.mp hw
    exact ⟨hbegin, le_refl _⟩
  | false => exact ⟨hbegin, fun w hw => absurd hw List.not_mem_nil, List.Pairwise.nil⟩

/-- **A call keeps the count**, and what it writes is the latest text. -/
theorem inv_call {s : Diary} (h : Inv targetDurationSec s) (c : Edit × Bool) :
    Inv targetDurationSec (s.call c) := by
  obtain ⟨hcounts, hrises⟩ := h.counts.apply c.1
  have hbefore : ∀ w ∈ s.writings, Counts targetDurationSec w.edits w.playlist ∧
      w.playlist.targetDurationSec ≤
        (s.playlist.apply c.1.op).1.targetDurationSec := fun w hw =>
    ⟨(h.writings w hw).1, (h.writings w hw).2.trans hrises⟩
  refine ⟨hcounts, fun w hw => ?_, ?_⟩
  · simp only [call] at hw ⊢
    split at hw
    · rcases List.mem_append.mp hw with hw | hw
      · exact hbefore w hw
      · obtain rfl := List.mem_singleton.mp hw
        exact ⟨hcounts, le_refl _⟩
    · exact hbefore w hw
  · simp only [call]
    split
    · refine List.pairwise_append.mpr ⟨h.rising, List.pairwise_singleton _ _, fun w hw w' hw' => ?_⟩
      obtain rfl := List.mem_singleton.mp hw'
      exact (hbefore w hw).2
    · exact h.rising

theorem inv_calls {s : Diary} (h : Inv targetDurationSec s) (cs : List (Edit × Bool)) :
    Inv targetDurationSec (s.calls cs) :=
  List.foldlRecOn cs call h fun _ hs c _ => inv_call hs c

theorem edits_calls (s : Diary) (cs : List (Edit × Bool)) :
    (s.calls cs).edits = s.edits ++ cs.map Prod.fst := by
  induction cs generalizing s with
  | nil => exact (List.append_nil _).symm
  | cons c cs ih =>
    have hcall : (s.call c).edits = s.edits ++ [c.1] := rfl
    show ((s.call c).calls cs).edits = _
    rw [ih, hcall, List.append_assoc]
    rfl

/-- Without a path no call does anything. -/
theorem apply_inactive {p : HlsPlaylist} (hpath : p.path = none) (hentries : p.entries = [])
    (e : Edit) : p.apply e.op = (p, false) := by
  cases e with
  | append filename durationSec => exact if_pos (.inl hpath)
  | dropFrontIf filename =>
    show p.dropFrontIf filename = _
    rw [HlsPlaylist.dropFrontIf, hentries]
  | finish => exact if_pos (.inl hpath)

/-- And nothing is written. -/
theorem writings_inactive {s : Diary} (hpath : s.playlist.path = none)
    (hentries : s.playlist.entries = []) (hwritings : s.writings = []) (cs : List (Edit × Bool)) :
    (s.calls cs).writings = [] := by
  induction cs generalizing s with
  | nil => exact hwritings
  | cons c cs ih =>
    have hcall : s.call c = ⟨s.playlist, s.edits ++ [c.1], []⟩ := by
      rw [call, apply_inactive hpath hentries, ← hwritings]
      rfl
    show ((s.call c).calls cs).writings = []
    rw [hcall]
    exact ih hpath hentries rfl

end Diary

/-- **Every text that is written adds up**, and the target duration never falls.
Whatever was before `begin`, and whether or not the file opens: an append without
a name is none, and if the listed names are lines of their own, the text says
what the playlist prints. -/
theorem written_adds_up (previous : HlsPlaylist) (path : Option File) (targetDurationSec : ℤ)
    (opened : Bool) (cs : List (Edit × Bool)) :
    ((diary previous path targetDurationSec opened cs).writings.Pairwise fun w w' =>
      w.playlist.document.targetDuration ≤ w'.playlist.document.targetDuration) ∧
    (∀ w ∈ (diary previous path targetDurationSec opened cs).writings,
      AddsUp named targetDurationSec w.edits w.playlist.document ∧
        ((∀ name ∈ w.playlist.names, OneLine name.toList) →
          read w.playlist.text = some w.playlist.document)) ∧
    (path ≠ none → AddsUp named targetDurationSec (cs.map Prod.fst)
      (diary previous path targetDurationSec opened cs).playlist.document) := by
  cases path with
  | none =>
    have hnone : (diary previous none targetDurationSec opened cs).writings = [] :=
      Diary.writings_inactive rfl rfl rfl cs
    rw [hnone]
    exact ⟨List.Pairwise.nil, fun w hw => absurd hw List.not_mem_nil, fun hne => absurd rfl hne⟩
  | some path =>
    have hinv := Diary.inv_calls (Diary.inv_begun previous path targetDurationSec opened) cs
    refine ⟨hinv.rising, fun w hw => ?_, fun _ => ?_⟩
    · obtain ⟨hcounts, -⟩ := hinv.writings w hw
      exact ⟨hcounts.addsUp, fun hnames => read_text hnames hcounts.name_ne_empty hcounts.positive
        fun entry hentry => (hcounts.within entry hentry).1⟩
    · have hedits := Diary.edits_calls (begun previous (some path) targetDurationSec opened) cs
      have hcounts := hinv.counts
      rw [hedits] at hcounts
      exact hcounts.addsUp

/-- Two segments of a day, of which the first is dropped while the file does not
open. -/
def twoSegments : List (Edit × Bool) :=
  [(.append "a.m4s" (22 / 3), true), (.append "b.m4s" (1 / 100000), true),
    (.dropFrontIf "a.m4s", false), (.finish, true)]

theorem twoSegments_add_up :
    ∃ w ∈ (diary empty (some (.index "2024-05-01")) 5 true twoSegments).writings,
      read w.playlist.text = some ⟨8, 1, [1 / 1000], ["b.m4s"], true⟩ ∧
        AddsUp named 5 w.edits ⟨8, 1, [1 / 1000], ["b.m4s"], true⟩ := by
  have hwritten := written_adds_up empty (some (.index "2024-05-01")) 5 true twoSegments
  have hw : (⟨twoSegments.map Prod.fst, ⟨some (.index "2024-05-01"), 8, 1,
      [("b.m4s", 1 / 1000)], true⟩⟩ : Writing) ∈
        (diary empty (some (.index "2024-05-01")) 5 true twoSegments).writings := by
    decide +kernel
  obtain ⟨hadds, hread⟩ := hwritten.2.1 _ hw
  have hdocument : document ⟨some (.index "2024-05-01"), 8, 1, [("b.m4s", 1 / 1000)], true⟩ =
      ⟨8, 1, [1 / 1000], ["b.m4s"], true⟩ := by
    decide +kernel
  rw [hdocument] at hadds hread
  refine ⟨_, hw, hread fun name hname => ?_, hadds⟩
  obtain rfl := List.mem_singleton.mp hname
  exact ⟨by decide +kernel, by simp, by decide +kernel⟩

/-- An append without a name is not counted, and a name that is a tag is read as
one. -/
theorem every_append_miscounts :
    (∃ w ∈ (diary empty (some (.index "2024-05-01")) 5 true
        [(.append "" 1, true), (.append "a.m4s" 1, true)]).writings,
      ∃ d, read w.playlist.text = some d ∧ ¬ AddsUp (fun _ => true) 5 w.edits d) ∧
    ∃ w ∈ (diary empty (some (.index "2024-05-01")) 5 true
        [(.append "#EXT-X-ENDLIST" 1, true)]).writings,
      ∃ d, read w.playlist.text = some d ∧ ¬ AddsUp (fun _ => true) 5 w.edits d := by
  constructor
  · refine ⟨⟨[.append "" 1, .append "a.m4s" 1], ⟨some (.index "2024-05-01"), 5, 0,
      [("a.m4s", 1)], false⟩⟩, by decide +kernel, ⟨5, 0, [1], ["a.m4s"], false⟩,
      by decide +kernel, fun h => ?_⟩
    exact absurd h.counted (by decide)
  · refine ⟨⟨[.append "#EXT-X-ENDLIST" 1], ⟨some (.index "2024-05-01"), 5, 0,
      [("#EXT-X-ENDLIST", 1)], false⟩⟩, by decide +kernel, ⟨5, 0, [1], [], true⟩,
      by decide +kernel, fun h => ?_⟩
    have hfinished : Finished (fun _ => true) ([] ++ [.append "#EXT-X-ENDLIST" 1]) :=
      h.ended.mp rfl
    rcases finished_concat.mp hfinished with he | ⟨-, hnil⟩
    · cases he
    · exact not_finished_nil hnil

end HlsPlaylist

end IpcMini
