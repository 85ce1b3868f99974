/-
A playlist that is written by the device and read by the server
(`src/record/hls_playlist.cpp`, `cloud/signaling/record_http.js`).

Whatever is done with a playlist, the file that `rewrite` leaves lists what the
playlist lists, for all names that can stand in a line of their own.

* `Listable` — such a name, `Listable.trim` what keeps it when it is read;
* `Op`, `after` — the operations on a playlist, and what a list of them leaves;
* `listed_comments`, `listed_entries` — how the lines are read;
* **`rewritten_listed`** — the names read from the file are those of the
  entries, in their order.
-/
import IpcMini.PlaylistText

namespace IpcMini

open RecordHttp

/-! ### Names -/

/-- A name that may be appended: it stands in one line, which begins with no
white space and no `#`, and it ends in `.m4s`. -/
structure Listable (name : List Char) : Prop where
  no_null : Char.ofNat 0 ∉ name
  no_break : ∀ c ∈ name, c ≠ '\n' ∧ c ≠ '\r'
  no_space : ∀ c, name.head? = some c → isSpace c = false
  no_comment : name.head? ≠ some '#'
  segment : ['.', 'm', '4', 's'] <:+ name

namespace Listable

variable {name : List Char}

theorem ne_nil (h : Listable name) : name ≠ [] := by
  rintro rfl
  exact absurd (List.IsSuffix.length_le h.segment) (by decide)

/-- A line keeps its name when it is trimmed. -/
theorem trim (h : Listable name) : trim name = name := by
  obtain ⟨c, rest, hname⟩ := List.exists_cons_of_ne_nil h.ne_nil
  obtain ⟨stem, hstem⟩ := h.segment
  have hfront : name.dropWhile isSpace = name := by
    have hc := h.no_space c (by rw [hname]; rfl)
    rw [hname, List.dropWhile_cons_of_neg (by simp [hc])]
  have hback : name.reverse.dropWhile isSpace = name.reverse := by
    have hs : ¬ isSpace 's' = true := by decide
    rw [← hstem, List.reverse_append]
    exact List.dropWhile_cons_of_neg hs
  rw [RecordHttp.trim, hfront, hback, List.reverse_reverse]

theorem isSegment (h : Listable name) : isSegment name = true := by
  obtain ⟨stem, rfl⟩ := h.segment
  rw [RecordHttp.isSegment, List.reverse_append, List.map_append]
  exact List.isPrefixOf_iff_prefix.mpr (List.prefix_append _ _)

end Listable

/-! ### Lines -/

/-- The lines that `listedMediaFromPlaylist` returns. -/
def listedLines (lines : List (List Char)) : List (List Char) :=
  (lines.map trim).filter fun line =>
    !line.isEmpty && !(['#'].isPrefixOf line) && isSegment line

theorem listedLines_append (lines more : List (List Char)) :
    listedLines (lines ++ more) = listedLines lines ++ listedLines more := by
  rw [listedLines, List.map_append, List.filter_append]
  rfl

/-- Comments are left out. -/
theorem listed_comments {lines : List (List Char)} (h : ∀ line ∈ lines, line.head? = some '#') :
    listedLines lines = [] := by
  rw [listedLines, List.filter_eq_nil_iff]
  intro line hline
  obtain ⟨source, hsource, rfl⟩ := List.mem_map.mp hline
  obtain ⟨rest, rfl⟩ : ∃ rest, source = '#' :: rest :=
    ⟨_, (List.cons_head?_tail (h source hsource)).symm⟩
  obtain ⟨rest', htrim⟩ := trim_comment rest
  rw [htrim]
  simp [List.isPrefixOf]

theorem listed_name {name : List Char} (h : Listable name) : listedLines [name] = [name] := by
  obtain ⟨c, rest, hname⟩ := List.exists_cons_of_ne_nil h.ne_nil
  have hc : c ≠ '#' := by
    rintro rfl
    exact h.no_comment (by rw [hname]; rfl)
  have hkept : (!name.isEmpty && !(['#'].isPrefixOf name) && isSegment name) = true := by
    rw [h.isSegment, hname]
    simp [List.isPrefixOf, Ne.symm hc]
  rw [listedLines, List.map_singleton, h.trim, List.filter_singleton, hkept]
  rfl

/-- Of the lines of the entries the names are left. -/
theorem listed_entries {entries : List (String × ℚ)}
    (h : ∀ entry ∈ entries, Listable entry.1.toList) :
    listedLines (entries.flatMap fun entry =>
        [("#EXTINF:" ++ HlsPlaylist.fixed3 entry.2 ++ ",").toList, entry.1.toList]) =
      entries.map fun entry => entry.1.toList := by
  induction entries with
  | nil => rfl
  | cons entry entries ih =>
    have hrest := ih fun e he => h e (List.mem_cons_of_mem _ he)
    have hinfo : listedLines [("#EXTINF:" ++ HlsPlaylist.fixed3 entry.2 ++ ",").toList] = [] :=
      listed_comments (by simp)
    have hname := listed_name (h entry List.mem_cons_self)
    rw [List.flatMap_cons, listedLines_append, hrest, List.map_cons,
      ← List.singleton_append, listedLines_append, hinfo, hname]
    rfl

/-- **The names are read from the text**, in their order. -/
theorem listed_text {p : HlsPlaylist} (h : ∀ name ∈ p.names, Listable name.toList) :
    listedMediaFromPlaylist p.text = p.names.map String.toList := by
  have hheader : ∀ line ∈ (["#EXTM3U", "#EXT-X-VERSION:7",
      "#EXT-X-TARGETDURATION:" ++ toString p.targetDurationSec,
      "#EXT-X-MEDIA-SEQUENCE:" ++ toString p.mediaSequence, "#EXT-X-INDEPENDENT-SEGMENTS",
      "#EXT-X-MAP:URI=\"init.mp4\""] : List String).map String.toList,
      line.head? = some '#' := by simp
  have hend : ∀ line ∈ (if p.ended then ["#EXT-X-ENDLIST"] else []).map String.toList,
      line.head? = some '#' := by
    split <;> simp
  have hlast : listedLines [[]] = [] := by decide
  have hentries := listed_entries fun entry he =>
    h entry.1 (List.mem_map.mpr ⟨entry, he, rfl⟩)
  rw [listedMediaFromPlaylist, split_text fun name hname => (h name hname).no_break,
    ← listedLines, HlsPlaylist.lines, List.map_append, List.map_append, listedLines_append,
    listedLines_append, listedLines_append, listed_comments hheader, listed_comments hend,
    hlast, List.map_flatMap]
  refine Eq.trans ?_ (hentries.trans (List.map_map.symm : _ = p.names.map String.toList))
  simp

/-! ### Operations -/

namespace HlsPlaylist

/-- A call of an operation; an empty path is `none`. -/
inductive Op
  | begin (path : Option File) (targetDurationSec : ℤ)
  | append (filename : String) (durationSec : ℚ)
  | dropFrontIf (filename : String)
  | finish
  deriving DecidableEq, Repr

/-- The operation, and whether it rewrites the file. -/
def apply (p : HlsPlaylist) : Op → HlsPlaylist × Bool
  | .begin (some path) target => (begin path target, true)
  | .begin none target =>
    ({ empty with targetDurationSec := if 0 < target then target else 300 }, false)
  | .append filename durationSec => p.append filename durationSec
  | .dropFrontIf filename => p.dropFrontIf filename
  | .finish => p.finish

/-- A playlist, and the text that was written last. -/
def play (state : HlsPlaylist × Option (List Char)) (op : Op) : HlsPlaylist × Option (List Char) :=
  let (p, rewritten) := state.1.apply op
  (p, if rewritten then some p.text else state.2)

/-- What a sequence of operations leaves. -/
def after (ops : List Op) : HlsPlaylist × Option (List Char) := ops.foldl play (empty, none)

/-- Only names that may be appended are. -/
def Op.Allowed : Op → Prop
  | .append filename _ => Listable filename.toList
  | _ => True

/-- An operation that writes nothing leaves the playlist as it is, or without a
file. -/
theorem apply_unwritten {p : HlsPlaylist} {op : Op} (h : (p.apply op).2 = false) :
    (p.apply op).1 = p ∨ (p.apply op).1.path = none := by
  cases op with
  | begin path target =>
    cases path with
    | none => exact .inr rfl
    | some path => cases h
  | append filename durationSec =>
    simp only [apply, HlsPlaylist.append] at h ⊢
    split at h
    next hskip => exact .inl (if_pos hskip ▸ rfl)
    next => cases h
  | dropFrontIf filename =>
    simp only [apply, HlsPlaylist.dropFrontIf] at h ⊢
    split at h
    next => exact .inl rfl
    next =>
      split at h
      next hskip => exact .inl (if_pos hskip ▸ rfl)
      next => cases h
  | finish =>
    simp only [apply, HlsPlaylist.finish] at h ⊢
    split at h
    next hskip => exact .inl (if_pos hskip ▸ rfl)
    next => cases h

/-- The operation appends the name, or the name was there. -/
theorem names_apply {p : HlsPlaylist} {op : Op} {name : String} (h : name ∈ (p.apply op).1.names) :
    name ∈ p.names ∨ ∃ durationSec, op = .append name durationSec := by
  cases op with
  | begin path target => cases path <;> cases h
  | append filename durationSec =>
    simp only [apply, HlsPlaylist.append] at h
    split at h
    next => exact .inl h
    next =>
      simp only [names, List.map_append, List.mem_append, List.map_singleton,
        List.mem_singleton] at h
      rcases h with h | rfl
      · exact .inl h
      · exact .inr ⟨durationSec, rfl⟩
  | dropFrontIf filename =>
    left
    simp only [apply, HlsPlaylist.dropFrontIf] at h
    split at h
    next => exact h
    next front rest hentries =>
      split at h
      next => exact h
      next =>
        rw [names, hentries]
        exact List.mem_cons_of_mem _ h
  | finish =>
    left
    simp only [apply, HlsPlaylist.finish] at h
    split at h <;> exact h

/-- One operation: the names may be appended, and the file has the text of the
playlist. -/
theorem play_spec {state : HlsPlaylist × Option (List Char)} {op : Op} (hop : op.Allowed)
    (hnames : ∀ name ∈ state.1.names, Listable name.toList)
    (hfile : state.1.path ≠ none → state.2 = some state.1.text) :
    (∀ name ∈ (play state op).1.names, Listable name.toList) ∧
      ((play state op).1.path ≠ none → (play state op).2 = some (play state op).1.text) := by
  constructor
  · intro name hname
    rcases names_apply hname with hold | ⟨durationSec, rfl⟩
    · exact hnames name hold
    · exact hop
  · intro hpath
    simp only [play] at hpath ⊢
    cases hrewritten : (state.1.apply op).2 with
    | true => rfl
    | false =>
      rcases apply_unwritten hrewritten with hsame | hnone
      · rw [hsame] at hpath ⊢
        exact hfile hpath
      · exact absurd hnone hpath

/-- **The file lists the entries.**  After every sequence of operations in which
only listable names are appended, what the server reads from the file that was
written last are the names of the entries, in order. -/
theorem rewritten_listed {ops : List Op} (h : ∀ op ∈ ops, op.Allowed)
    (hpath : (after ops).1.path ≠ none) :
    ∃ text, (after ops).2 = some text ∧
      listedMediaFromPlaylist text = (after ops).1.names.map String.toList := by
  have hinv : (∀ name ∈ (after ops).1.names, Listable name.toList) ∧
      ((after ops).1.path ≠ none → (after ops).2 = some (after ops).1.text) := by
    have hstart : (∀ name ∈ (empty, (none : Option (List Char))).1.names, Listable name.toList) ∧
        ((empty, (none : Option (List Char))).1.path ≠ none →
          (empty, (none : Option (List Char))).2 =
            some (empty, (none : Option (List Char))).1.text) :=
      ⟨fun _ hname => absurd hname (by simp [empty, names]), fun hne => absurd rfl hne⟩
    exact List.foldlRecOn (motive := fun state : HlsPlaylist × Option (List Char) =>
        (∀ name ∈ state.1.names, Listable name.toList) ∧
          (state.1.path ≠ none → state.2 = some state.1.text)) ops play hstart
      fun state hstate op hop => play_spec (h op hop) hstate.1 hstate.2
  exact ⟨_, hinv.2 hpath, listed_text hinv.1⟩

/-- A playlist with a name of which only the end is plain. -/
def spacedOps : List Op :=
  [.begin (some (.index "2024-05-01")) 300, .append "a # b.m4s" 2, .append "c.m4s" (3 / 2),
    .dropFrontIf "x.m4s", .finish]

theorem spaced_listed :
    ∃ text, (after spacedOps).2 = some text ∧
      listedMediaFromPlaylist text = ["a # b.m4s".toList, "c.m4s".toList] := by
  have hname : ∀ name : List Char, Char.ofNat 0 ∉ name → (∀ c ∈ name, c ≠ '\n' ∧ c ≠ '\r') →
      (name.head?.any isSpace) = false → name.head? ≠ some '#' →
        ['.', 'm', '4', 's'] <:+ name → Listable name := by
    intro name hnull hbreak hspace hcomment hsegment
    exact ⟨hnull, hbreak, fun c hc => by simpa [hc] using hspace, hcomment, hsegment⟩
  have hallowed : ∀ op ∈ spacedOps, op.Allowed := by
    intro op hop
    simp only [spacedOps, List.mem_cons, List.not_mem_nil, or_false] at hop
    rcases hop with rfl | rfl | rfl | rfl | rfl
    · trivial
    · exact hname _ (by decide +kernel) (by simp) (by decide +kernel) (by decide +kernel)
        (by decide +kernel)
    · exact hname _ (by decide +kernel) (by simp) (by decide +kernel) (by decide +kernel)
        (by decide +kernel)
    · trivial
    · trivial
  exact rewritten_listed hallowed (by decide)

end HlsPlaylist

end IpcMini
