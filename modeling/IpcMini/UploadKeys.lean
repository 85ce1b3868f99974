/-
Where an uploaded file is stored (`src/record/segment_recorder.cpp`,
`src/record/http_segment_uploader.cpp`, `cloud/signaling/http.js`,
`cloud/signaling/record_http.js`).

The device strips its directory from the path of a file and joins the rest to
the path of the upload URL; the server parses, decodes and normalizes that, and
resolves it below its own directory.

* `joinUrlPath`, `requestTarget` — the target of the device's requests;
* `urlPathname`, `storedAt` — the file that a request is about;
* `Uploader` — a device whose upload URL names a room;
* `ActsOn` — what the requests for a file do;
* **`kept_iff`** — a file is kept as `room/day/name`, and `PUT`, `DELETE` and
  `GET` act on it there, if and only if the room is not `.` and has no `..`; and
  no two files of any rooms are ever kept as one;
* `dotted_room_refused` — a room with two dots.
-/
import IpcMini.RecordContainment
import IpcMini.RetainLoop
import IpcMini.SignalingServer
import IpcMini.UploadUrls

namespace IpcMini

open PosixPath RecordHttp Endpoints

namespace UploadKeys

/-! ### The target of a request -/

/-- `join_url_path`. -/
def joinUrlPath (base key : List Char) : List Char :=
  if key = [] then
    if base = [] then ['/'] else base
  else if base = [] ∨ base = ['/'] then
    if key.head? = some '/' then key else '/' :: key
  else if base.getLast? = some '/' ∧ key.head? = some '/' then base ++ key.drop 1
  else if base.getLast? ≠ some '/' ∧ key.head? ≠ some '/' then base ++ '/' :: key
  else base ++ key

/-- The target of the requests for a file; `none` for an upload URL that is
refused. -/
def requestTarget (platform : Conversion) (uploadUrl : String) (directory : List Char)
    (file : File) : Option (List Char) :=
  (parseHttpUrl platform uploadUrl).map fun target =>
    joinUrlPath target.2.2.toList (relativeKey directory (absolutePath directory file))

/-- A file that the recorder makes and uploads. -/
def Recorded (file : File) : Prop :=
  Generated file ∨ ∃ t : LocalTime, file = .init t.day ∨ file = .index t.day

/-! ### The file of a target -/

/-- The escapes of a dot. -/
def unescapeDots : List Char → List Char
  | '%' :: '2' :: 'e' :: rest => '.' :: unescapeDots rest
  | '%' :: '2' :: 'E' :: rest => '.' :: unescapeDots rest
  | c :: rest => c :: unescapeDots rest
  | [] => []

/-- The URL parser leaves out `.`, and for `..` the segment before it; where one
of them is the last segment, an empty one takes its place. -/
def removeDots (stack : List (List Char)) : List (List Char) → List (List Char)
  | [] => stack
  | seg :: rest =>
    if unescapeDots seg = dotdot then
      if rest = [] then stack.dropLast ++ [[]] else removeDots stack.dropLast rest
    else if unescapeDots seg = dot then
      if rest = [] then stack ++ [[]] else removeDots stack rest
    else removeDots (stack ++ [seg]) rest

/-- `new URL(target, "http://localhost").pathname` for a target that begins with
one slash and has only characters that a URL keeps as they are. -/
def urlPathname (target : List Char) : List Char :=
  let path := target.takeWhile fun c => decide (c ≠ '?' ∧ c ≠ '#')
  (removeDots [] (segments (path.drop 1))).flatMap ('/' :: ·)

/-- The file that an upload, a removal and a read of the target are about;
`none` if it is not taken for an object of the recordings. -/
def storedAt (root : Resolved) (target : List Char) : Option Resolved :=
  if isRecord (urlPathname target) then
    match recordRel (urlPathname target) with
    | .ok (some rel) => if rel = [] then none else resolveRecordPath root rel
    | _ => none
  else none

/-- What the requests for a file do.  An upload makes the directory of the file,
writes the `.part` file next to it and renames that to the file, and a playlist
is pruned after that; a removal and a read are about the file alone. -/
structure ActsOn (file : Resolved) (cfg : RecordHttp.Config) (req : Request) (env : FsAnswers)
    (o : Outcome) : Prop where
  put : req.method = "PUT" → ∀ call ∈ o.calls, call = .mkdir file.dropLast ∨
    call = .writeStream (part file) ∨ call = .unlink (part file) ∨
    call = .rename (part file) file ∨ call ∈ pruneUnlistedSegments env file
  stored : req.method = "PUT" → ∀ r ∈ o.ended, r.status = 201 →
    .rename (part file) file ∈ o.calls
  delete : req.method = "DELETE" → ∀ call ∈ o.calls, call.paths = [file]
  removed : req.method = "DELETE" → ∀ r ∈ o.ended, r.status = 204 →
    .unlink file ∈ o.calls ∨ .rmdir file ∈ o.calls
  get : req.method = "GET" → ∀ call ∈ o.calls, call.paths = [file]
  read : req.method = "GET" → ∀ r ∈ o.ended, ∀ path first last,
    r.body = .file path first last → path = file
  /-- an upload of an accepted length, and any removal and read -/
  reached : (req.method = "PUT" ∧ lengthOk req = true) ∨ req.method = "DELETE" ∨
    req.method = "GET" → tokenOk req cfg.token = true → o.calls ≠ []

/-! ### Names -/

/-- The segments of a path that begins with a name. -/
theorem segments_name {seg : List Char} (h : '/' ∉ seg) (rest : List Char) :
    segments (seg ++ '/' :: rest) = seg :: segments rest := by
  rw [segments, List.splitOn_append_cons_self, List.splitOn_eq_singleton h]
  rfl

theorem segments_slashes (n : ℕ) (rest : List Char) :
    segments (List.replicate n '/' ++ rest) = List.replicate n [] ++ segments rest := by
  induction n with
  | zero => rfl
  | succ n ih =>
    have hcons : List.replicate (n + 1) '/' ++ rest =
        [] ++ '/' :: (List.replicate n '/' ++ rest) := by
      rw [List.replicate_succ]
      rfl
    rw [hcons, segments_name (by simp), ih]
    rfl

/-- Two dots are on one side of a slash. -/
theorem dotdot_infix_iff (a b : List Char) :
    dotdot <:+: a ++ '/' :: b ↔ dotdot <:+: a ∨ dotdot <:+: b := by
  constructor
  · rintro ⟨before, after, h⟩
    rw [List.append_assoc] at h
    rcases List.append_eq_append_iff.mp h with ⟨mid, rfl, hrest⟩ | ⟨mid, rfl, hrest⟩
    · -- what is before the dots ends in the first part
      rcases List.append_eq_append_iff.mp hrest with ⟨tail, rfl, -⟩ | ⟨tail, hdots, hslash⟩
      · exact .inl ⟨before, tail, by simp⟩
      · cases tail with
        | nil =>
          rw [List.append_nil] at hdots
          exact .inl ⟨before, [], by simp [hdots]⟩
        | cons c tail =>
          have hc : c = '/' := (List.cons.inj hslash).1.symm
          have hmem : '/' ∈ dotdot := hdots ▸ by simp [hc]
          exact absurd hmem (by decide)
    · cases mid with
      | nil => exact absurd (List.cons.inj hrest).1 (by decide)
      | cons c mid =>
        rw [List.cons_append, List.cons.injEq] at hrest
        exact .inr ⟨mid, after, by rw [hrest.2, List.append_assoc]⟩
  · rintro (⟨before, after, h⟩ | ⟨before, after, h⟩)
    · exact ⟨before, after ++ '/' :: b, by rw [← h]; simp⟩
    · exact ⟨a ++ '/' :: before, after, by rw [← h]; simp⟩

/-- A name that is neither `.` nor `..`, without two dots and without characters
that are special in a URL. -/
structure Tame (name : List Char) : Prop where
  other : ∃ c ∈ name, c ≠ '.'
  dots : name.count '.' ≤ 1
  plain : ∀ c ∈ name, c ∉ ['%', '?', '#', '/']

theorem Tame.isName {name : List Char} (h : Tame name) : IsName name := by
  obtain ⟨c, hc, hdot⟩ := h.other
  refine ⟨List.ne_nil_of_mem hc, ?_, ?_, fun hslash => h.plain '/' hslash (by decide)⟩
  · rintro rfl
    exact hdot (List.mem_singleton.mp hc)
  · rintro rfl
    simp only [dotdot, List.mem_cons, List.not_mem_nil, or_false, or_self] at hc
    exact hdot hc

theorem Tame.no_dotdot {name : List Char} (h : Tame name) : ¬ dotdot <:+: name := by
  intro hdots
  have hcount := hdots.sublist.count_le '.'
  rw [show dotdot.count '.' = 2 by decide] at hcount
  have := h.dots
  omega

theorem dateChar_plain {c : Char} (h : dateChar c = true) :
    c ∉ ['%', '?', '#', '/'] ∧ c ≠ '.' := by
  constructor
  · intro hmem
    simp only [List.mem_cons, List.not_mem_nil, or_false] at hmem
    rcases hmem with rfl | rfl | rfl | rfl <;> exact absurd h (by decide)
  · rintro rfl
    exact absurd h (by decide)

theorem tame_day (t : LocalTime) : Tame t.day.toList := by
  have hchar : ∀ c ∈ t.day.toList, dateChar c = true := fun c hc => dateChar_of_mem_day hc
  refine ⟨⟨'-', by simp [LocalTime.day], by decide⟩, ?_,
    fun c hc => (dateChar_plain (hchar c hc)).1⟩
  rw [List.count_eq_zero.mpr fun hdot => (dateChar_plain (hchar '.' hdot)).2 rfl]
  exact Nat.zero_le 1

/-- The name of a file that is uploaded: a stem without dots, and the extension
of an object. -/
theorem Recorded.parts {file : File} (h : Recorded file) : ∃ stem ext,
    file.name.toList = stem ++ '.' :: ext ∧ stem ≠ [] ∧
      (∀ c ∈ stem, c ∉ ['%', '?', '#', '/'] ∧ c ≠ '.') ∧
      ext ∈ [['m', '4', 's'], ['m', 'p', '4'], ['m', '3', 'u', '8']] := by
  rcases h with h | ⟨t, rfl | rfl⟩
  · obtain ⟨rest, hname, hchars⟩ := h.toList_name
    refine ⟨_, _, hname, by simp, fun c hc => ?_, by decide⟩
    rcases List.mem_append.mp hc with hc | hc
    · exact dateChar_plain (hchars c (List.mem_append_left _ hc))
    · rcases List.mem_cons.mp hc with rfl | hc
      · decide
      · exact dateChar_plain (hchars c (List.mem_append_right _ hc))
  · refine ⟨['i', 'n', 'i', 't'], ['m', 'p', '4'], by simp [File.init], by decide, fun c hc => ?_,
      by decide⟩
    simp only [List.mem_cons, List.not_mem_nil, or_false] at hc
    rcases hc with rfl | rfl | rfl | rfl <;> decide
  · refine ⟨['i', 'n', 'd', 'e', 'x'], ['m', '3', 'u', '8'], by simp [File.index], by decide,
      fun c hc => ?_, by decide⟩
    simp only [List.mem_cons, List.not_mem_nil, or_false] at hc
    rcases hc with rfl | rfl | rfl | rfl | rfl <;> decide

theorem Recorded.tame_name {file : File} (h : Recorded file) : Tame file.name.toList := by
  obtain ⟨stem, ext, hname, hne, hstem, hext⟩ := h.parts
  have hexts : '.' ∉ ext ∧ ∀ c ∈ ext, c ∉ ['%', '?', '#', '/'] := by
    simp only [List.mem_cons, List.not_mem_nil, or_false] at hext
    rcases hext with rfl | rfl | rfl <;> simp
  rw [hname]
  constructor
  · obtain ⟨c, stem, rfl⟩ := List.exists_cons_of_ne_nil hne
    exact ⟨c, by simp, (hstem c List.mem_cons_self).2⟩
  · rw [List.count_append, List.count_eq_zero.mpr fun hdot => (hstem '.' hdot).2 rfl,
      List.count_cons_self, List.count_eq_zero.mpr hexts.1]
  · intro c hc
    rcases List.mem_append.mp hc with hc | hc
    · exact (hstem c hc).1
    · rcases List.mem_cons.mp hc with rfl | hc
      · decide
      · exact hexts.2 c hc

theorem Recorded.tame_day {file : File} (h : Recorded file) : Tame file.day.toList := by
  rcases h with ⟨t, suffix, rfl⟩ | ⟨t, rfl | rfl⟩
  · exact UploadKeys.tame_day t
  · exact UploadKeys.tame_day t
  · exact UploadKeys.tame_day t

/-- The server stores a file of this type. -/
theorem Recorded.mime {file : File} (h : Recorded file) :
    mimeOf (extension file.name.toList) ≠ none := by
  obtain ⟨stem, ext, hname, hne, hstem, hext⟩ := h.parts
  have hdots : file.name.toList ≠ dotdot := h.tame_name.isName.ne_dotdot
  have hafter : '.' ∉ ext.reverse := by
    simp only [List.mem_cons, List.not_mem_nil, or_false] at hext
    rcases hext with rfl | rfl | rfl <;> simp
  have hreverse : (stem ++ '.' :: ext).reverse = ext.reverse ++ '.' :: stem.reverse := by simp
  have hlen : ext.reverse.length + 1 < (stem ++ '.' :: ext).length := by
    have := List.length_pos_of_ne_nil hne
    simp only [List.length_reverse, List.length_append, List.length_cons]
    omega
  rw [extension, if_neg hdots, hname, hreverse, takeWhile_cut hafter (.inr ⟨_, rfl⟩)]
  dsimp only
  rw [if_pos hlen, List.reverse_reverse]
  simp only [List.mem_cons, List.not_mem_nil, or_false] at hext
  rcases hext with rfl | rfl | rfl <;> decide

/-- A room name has letters, digits, dots, colons, hyphens and underscores. -/
theorem valid_room {room : String} (h : Signaling.validIdentifier room 128 = true) :
    room.toList ≠ [] ∧ ∀ c ∈ room.toList, c ∉ ['%', '?', '#', '/'] := by
  simp only [Signaling.validIdentifier, Bool.and_eq_true, Bool.not_eq_true',
    List.isEmpty_eq_false_iff, List.all_eq_true] at h
  refine ⟨h.1.1, fun c hc hmem => ?_⟩
  have hchar := h.2 c hc
  simp only [List.mem_cons, List.not_mem_nil, or_false] at hmem
  rcases hmem with rfl | rfl | rfl | rfl <;> exact absurd hchar (by decide)

/-! ### The path that the server sees -/

theorem unescape_plain {seg : List Char} (h : '%' ∉ seg) : unescapeDots seg = seg := by
  induction seg with
  | nil => rfl
  | cons c seg ih =>
    rw [List.mem_cons, not_or] at h
    rw [unescapeDots, ih h.2]
    · rintro rest rfl
      exact absurd rfl h.1
    · rintro rest rfl
      exact absurd rfl h.1

/-- What is not a dot segment is kept. -/
theorem removeDots_names {segs : List (List Char)}
    (h : ∀ seg ∈ segs, '%' ∉ seg ∧ seg ≠ dot ∧ seg ≠ dotdot) (stack : List (List Char)) :
    removeDots stack segs = stack ++ segs := by
  induction segs generalizing stack with
  | nil => rw [removeDots, List.append_nil]
  | cons seg segs ih =>
    obtain ⟨hplain, hdot, hdotdot⟩ := h seg List.mem_cons_self
    rw [removeDots, unescape_plain hplain, if_neg hdotdot, if_neg hdot,
      ih fun s hs => h s (List.mem_cons_of_mem _ hs), List.append_assoc]
    rfl

/-- A path of a room, with further slashes behind it. -/
def target (room : List Char) (n : ℕ) (day name : List Char) : List Char :=
  record ++ '/' :: (room ++ '/' :: (List.replicate n '/' ++ (day ++ '/' :: name)))

section Target

variable {room day name : List Char} (hroom : ∀ c ∈ room, c ∉ ['%', '?', '#', '/'])
  (hday : Tame day) (hname : Tame name)

theorem mem_target {n : ℕ} {c : Char} (h : c ∈ target room n day name) :
    c ∈ record ∨ c = '/' ∨ c ∈ room ∨ c ∈ day ∨ c ∈ name := by
  simp only [target, List.mem_append, List.mem_cons, List.mem_replicate] at h
  tauto

include hroom hday hname in
/-- The target has one query-free path. -/
theorem target_plain {n : ℕ} {c : Char} (h : c ∈ target room n day name) :
    c ∉ ['%', '?', '#'] := by
  have hsub : ∀ d, d ∉ ['%', '?', '#', '/'] → d ∉ ['%', '?', '#'] := by
    intro d hd hmem
    exact hd (List.mem_append_left ['/'] hmem)
  rcases mem_target h with h | rfl | h | h | h
  · intro hmem
    simp only [List.mem_cons, List.not_mem_nil, or_false] at hmem
    rcases hmem with rfl | rfl | rfl <;> exact absurd h (by decide)
  · decide
  · exact hsub c (hroom c h)
  · exact hsub c (hday.plain c h)
  · exact hsub c (hname.plain c h)

include hroom hday hname in
theorem segments_target (n : ℕ) : segments ((target room n day name).drop 1) =
    ['r', 'e', 'c', 'o', 'r', 'd'] :: room :: (List.replicate n [] ++ [day, name]) := by
  have hno : ∀ {seg : List Char}, (∀ c ∈ seg, c ∉ ['%', '?', '#', '/']) → '/' ∉ seg :=
    fun hseg hmem => hseg '/' hmem (by decide)
  have hdrop : (target room n day name).drop 1 = ['r', 'e', 'c', 'o', 'r', 'd'] ++
      '/' :: (room ++ '/' :: (List.replicate n '/' ++ (day ++ '/' :: name))) := rfl
  rw [hdrop, segments_name (by decide), segments_name (hno hroom), segments_slashes,
    segments_name (hno hday.plain), segments, List.splitOn_eq_singleton (hno hname.plain)]

/-- Empty segments are written as slashes. -/
theorem flatMap_slashes (n : ℕ) :
    (List.replicate n [] ++ [day, name]).flatMap ('/' :: ·) =
      '/' :: (List.replicate n '/' ++ (day ++ '/' :: name)) := by
  induction n with
  | zero => simp
  | succ n ih =>
    rw [List.replicate_succ, List.cons_append, List.flatMap_cons, ih]
    rfl

include hroom hday hname in
/-- The URL parser takes `.` out of the path, and `..` together with `record`. -/
theorem urlPathname_target (n : ℕ) : urlPathname (target room n day name) =
    if room = dotdot then '/' :: (List.replicate n '/' ++ (day ++ '/' :: name))
    else if room = dot then record ++ '/' :: (List.replicate n '/' ++ (day ++ '/' :: name))
    else target room n day name := by
  -- no name has a `?` or a `#` at which the path would end
  have htake : (target room n day name).takeWhile (fun c => decide (c ≠ '?' ∧ c ≠ '#')) =
      target room n day name := by
    rw [← List.append_nil (target room n day name), List.takeWhile_append_of_pos,
      List.takeWhile_nil]
    intro c hc
    have hplain := target_plain hroom hday hname hc
    simp only [List.mem_cons, not_or] at hplain
    exact decide_eq_true ⟨hplain.2.1, hplain.2.2.1⟩
  have hroom_plain : '%' ∉ room := fun hmem => hroom '%' hmem (by decide)
  have hrest : ∀ seg ∈ List.replicate n [] ++ [day, name],
      '%' ∉ seg ∧ seg ≠ dot ∧ seg ≠ dotdot := by
    intro seg hseg
    simp only [List.mem_append, List.mem_replicate, List.mem_cons, List.not_mem_nil,
      or_false] at hseg
    rcases hseg with ⟨-, rfl⟩ | rfl | rfl
    · decide
    · exact ⟨fun hmem => hday.plain '%' hmem (by decide), hday.isName.ne_dot,
        hday.isName.ne_dotdot⟩
    · exact ⟨fun hmem => hname.plain '%' hmem (by decide), hname.isName.ne_dot,
        hname.isName.ne_dotdot⟩
  have hmore : List.replicate n [] ++ [day, name] ≠ [] := by simp
  rw [urlPathname, htake, segments_target hroom hday hname, removeDots,
    unescape_plain (by decide), if_neg (by decide), if_neg (by decide), removeDots,
    unescape_plain hroom_plain]
  -- `..` takes the `record` with it, `.` only itself
  by_cases hdots : room = dotdot
  · rw [if_pos hdots, if_pos hdots, if_neg hmore, removeDots_names hrest]
    exact flatMap_slashes n
  rw [if_neg hdots, if_neg hdots]
  by_cases hdot : room = dot
  · rw [if_pos hdot, if_pos hdot, if_neg hmore, removeDots_names hrest, List.flatMap_append,
      flatMap_slashes]
    rfl
  · rw [if_neg hdot, if_neg hdot, removeDots_names hrest, List.flatMap_append, flatMap_slashes,
      target]
    simp [record]

end Target

/-! ### Where a path is resolved -/

/-- Empty segments are not pushed. -/
theorem foldl_push_filter (above : Bool) (segs stack : List (List Char)) :
    segs.foldl (push above) stack = (segs.filter (· ≠ [])).foldl (push above) stack := by
  induction segs generalizing stack with
  | nil => rfl
  | cons seg segs ih =>
    by_cases hseg : seg = []
    · rw [List.foldl_cons, ih, List.filter_cons_of_neg (by simpa using hseg), push,
        if_pos (.inl hseg)]
    · rw [List.foldl_cons, ih, List.filter_cons_of_pos (by simpa using hseg), List.foldl_cons]

/-- Names stay as they are, without the slashes between them. -/
theorem normalize_names {path : List Char} {names : List (List Char)}
    (hhead : path.head? ≠ some '/') (hlast : path.getLast? ≠ some '/')
    (hsegs : (segments path).filter (· ≠ []) = names) (hnames : ∀ s ∈ names, IsName s)
    (hne : names ≠ []) : normalize path = join names := by
  have hpath : path ≠ [] := by
    rintro rfl
    exact hne (hsegs.symm.trans (by decide))
  have hjoin : join names ≠ [] := join_ne_nil (fun s hs => (hnames s hs).ne_nil) hne
  rw [PosixPath.normalize, if_neg hpath]
  simp only [hhead, hlast, decide_false, Bool.not_false, Bool.false_eq_true, ↓reduceIte]
  rw [foldl_push_filter, hsegs, foldl_push_name hnames, List.nil_append, if_neg hjoin]

theorem objectRel_names {rest : List Char} {names : List (List Char)}
    (hsegs : (segments (rest.dropWhile (· = '/'))).filter (· ≠ []) = names)
    (hlast : (rest.dropWhile (· = '/')).getLast? ≠ some '/')
    (hnames : ∀ s ∈ names, IsName s) (htwo : 2 ≤ names.length) :
    objectRel (record ++ rest) = if dotdot <:+: join names then [] else join names := by
  have hne : names ≠ [] := by
    rintro rfl
    exact absurd htwo (by decide)
  have hhead : (rest.dropWhile (· = '/')).head? ≠ some '/' := by
    intro h
    have := List.head?_dropWhile_not (· = '/') rest
    rw [h] at this
    simp at this
  have hstrip : stripUp (join names) = join names := by
    have h := @stripUp_climbing 0 names [] hnames (.inl rfl) hne
    rwa [if_neg hne, List.append_nil, List.append_nil,
      show Climbing 0 names = names from rfl] at h
  have hdot : join names ≠ dot := by
    obtain ⟨first, second, more, rfl⟩ : ∃ a b l, names = a :: b :: l := by
      match names, htwo with
      | a :: b :: l, _ => exact ⟨a, b, l, rfl⟩
    intro h
    have hslash : '/' ∈ dot := by
      rw [← h]
      simp [join, List.intercalate_cons_cons]
    exact absurd hslash (by decide)
  rw [objectRel, List.drop_left, normalize_names hhead hlast hsegs hnames hne, hstrip]
  exact if_congr (or_iff_right hdot) rfl rfl

theorem relative_append (root : Resolved) (names : List (List Char)) :
    relative root (root ++ names) = join names := by
  induction root with
  | nil => cases names <;> rfl
  | cons seg root ih => rw [List.cons_append, relative, if_pos rfl, ih]

/-- Names are resolved below the directory. -/
theorem resolve_names (root : Resolved) {names : List (List Char)}
    (hnames : ∀ s ∈ names, IsName s) (hne : names ≠ []) (hdots : ¬ dotdot <:+: join names) :
    resolveRecordPath root (join names) = some (root ++ names) := by
  have hresolve : resolve root (join names) = root ++ names := by
    have h := @resolve_join root names [] hnames hne (.inl rfl)
    rwa [List.append_nil] at h
  have hbegins : ¬ dotdot.isPrefixOf (join names) = true := fun h =>
    hdots (List.isPrefixOf_iff_prefix.mp h).isInfix
  have hhead : (join names).head? ≠ some '/' := by
    obtain ⟨seg, rest, rfl⟩ := List.exists_cons_of_ne_nil hne
    obtain ⟨c, seg, rfl⟩ := List.exists_cons_of_ne_nil (hnames _ List.mem_cons_self).ne_nil
    have hc : c ≠ '/' := fun he => (hnames _ List.mem_cons_self).no_slash (by simp [he])
    cases rest <;> simp [join, List.intercalate_cons_cons, hc]
  rw [resolveRecordPath, hresolve, relative_append, if_neg (not_or.mpr ⟨hbegins, hhead⟩)]

theorem extname_join {names : List (List Char)} (hnames : ∀ s ∈ names, IsName s)
    (hne : names ≠ []) : extname (join names) = extension (names.getLastD []) := by
  have hfilter : names.filter (· ≠ []) = names :=
    List.filter_eq_self.mpr fun s hs => decide_eq_true (hnames s hs).ne_nil
  rw [extname, segments_join hnames hne, hfilter]

/-- The key of a path below `/record`. -/
theorem recordRel_names {rest : List Char} {names : List (List Char)} (hplain : '%' ∉ rest)
    (hsegs : (segments (rest.dropWhile (· = '/'))).filter (· ≠ []) = names)
    (hlast : (rest.dropWhile (· = '/')).getLast? ≠ some '/')
    (hnames : ∀ s ∈ names, IsName s) (htwo : 2 ≤ names.length) :
    recordRel (record ++ rest) =
      .ok (some (if dotdot <:+: join names then [] else join names)) := by
  have hdecode : UriComponent.decode (record ++ rest) = some (record ++ rest) := by
    have hno : '%' ∉ record ++ rest := by
      rw [List.mem_append]
      rintro (h | h)
      · exact absurd h (by decide)
      · exact hplain h
    have h := UriComponent.decode_append hno []
    rw [List.append_nil] at h
    rw [h]
    simp [UriComponent.decode, UriComponent.tokens, UriComponent.utf8]
  rw [recordRel, hdecode]
  dsimp only
  rw [if_pos (List.isPrefixOf_iff_prefix.mpr (List.prefix_append _ _)),
    objectRel_names hsegs hlast hnames htwo]

theorem isRecord_of_slash (rest : List Char) : isRecord (record ++ '/' :: rest) = true := by
  rw [isRecord, Bool.or_eq_true, List.isPrefixOf_iff_prefix]
  exact .inr ⟨rest, by simp⟩

/-- The names that are left of a target. -/
structure Resolves (t : List Char) (names : List (List Char)) : Prop where
  isRecord : isRecord (urlPathname t) = true
  rel : recordRel (urlPathname t) = .ok (some (if dotdot <:+: join names then [] else join names))
  is_name : ∀ s ∈ names, IsName s
  ne_nil : names ≠ []

/-- A path below `/record` is resolved to its names. -/
theorem Resolves.of_path {t rest : List Char} {names : List (List Char)}
    (hpath : urlPathname t = record ++ '/' :: rest) (hplain : '%' ∉ rest)
    (hsegs : (segments (('/' :: rest).dropWhile (· = '/'))).filter (· ≠ []) = names)
    (hlast : (('/' :: rest).dropWhile (· = '/')).getLast? ≠ some '/')
    (hnames : ∀ s ∈ names, IsName s) (htwo : 2 ≤ names.length) : Resolves t names where
  isRecord := by
    rw [hpath]
    exact isRecord_of_slash rest
  rel := by
    rw [hpath]
    refine recordRel_names (fun hmem => ?_) hsegs hlast hnames htwo
    rcases List.mem_cons.mp hmem with h | h
    · exact absurd h (by decide)
    · exact hplain h
  is_name := hnames
  ne_nil := by
    rintro rfl
    exact absurd htwo (by decide)

theorem Resolves.storedAt {t : List Char} {names : List (List Char)} (h : Resolves t names)
    (root : Resolved) : storedAt root t =
      if dotdot <:+: join names then none else some (root ++ names) := by
  have hjoin : join names ≠ [] := join_ne_nil (fun s hs => (h.is_name s hs).ne_nil) h.ne_nil
  rw [UploadKeys.storedAt, if_pos h.isRecord, h.rel]
  dsimp only
  by_cases hdots : dotdot <:+: join names
  · rw [if_pos hdots, if_pos rfl, if_pos hdots]
  · rw [if_neg hdots, if_neg hjoin, if_neg hdots, resolve_names root h.is_name h.ne_nil hdots]

section Target

variable {room day name : List Char} (hne : room ≠ [])
  (hroom : ∀ c ∈ room, c ∉ ['%', '?', '#', '/']) (hday : Tame day) (hname : Tame name)

include hday hname in
/-- The segments of a day and a name behind slashes. -/
theorem filter_segments (n : ℕ) :
    (segments (List.replicate n '/' ++ (day ++ '/' :: name))).filter (· ≠ []) = [day, name] := by
  have hno : ∀ {seg : List Char}, Tame seg → '/' ∉ seg := fun hseg => hseg.isName.no_slash
  rw [segments_slashes, segments_name (hno hday), segments,
    List.splitOn_eq_singleton (hno hname), List.filter_append, List.filter_replicate]
  simp [hday.isName.ne_nil, hname.isName.ne_nil]

include hname in
theorem getLast_behind (front : List Char) (n : ℕ) :
    (front ++ (List.replicate n '/' ++ (day ++ '/' :: name))).getLast? ≠ some '/' := by
  have hlast : (front ++ (List.replicate n '/' ++ (day ++ '/' :: name))).getLast? =
      name.getLast? := by
    have happ : front ++ (List.replicate n '/' ++ (day ++ '/' :: name)) =
        (front ++ (List.replicate n '/' ++ (day ++ ['/']))) ++ name := by simp
    rw [happ, List.getLast?_append_of_ne_nil _ hname.isName.ne_nil]
  rw [hlast]
  exact fun h => hname.isName.no_slash (List.mem_of_getLast? h)

include hne hroom hday hname in
/-- The names that are left of a target: not `.`. -/
theorem resolves_target (n : ℕ) (hdots : room ≠ dotdot) :
    Resolves (target room n day name)
      (if room = dot then [day, name] else [room, day, name]) := by
  have hslash : '/' ∉ room := fun hmem => hroom '/' hmem (by decide)
  -- the slashes before a segment go, and nothing of the segment
  have hskip : ∀ {seg rest : List Char}, '/' ∉ seg → seg ≠ [] →
      ('/' :: (seg ++ rest)).dropWhile (· = '/') = seg ++ rest := by
    intro seg rest hseg hseg_ne
    obtain ⟨c, seg, rfl⟩ := List.exists_cons_of_ne_nil hseg_ne
    have hc : ¬ c = '/' := fun h => hseg (h ▸ List.mem_cons_self)
    rw [List.cons_append, List.dropWhile_cons_of_pos (by simp),
      List.dropWhile_cons_of_neg (by simpa using hc)]
  have hdrop : ('/' :: (List.replicate n '/' ++ (day ++ '/' :: name))).dropWhile (· = '/') =
      day ++ '/' :: name := by
    induction n with
    | zero => exact @hskip day ('/' :: name) hday.isName.no_slash hday.isName.ne_nil
    | succ n ih =>
      rw [List.replicate_succ, List.cons_append, List.dropWhile_cons_of_pos (by simp)]
      exact ih
  have hpath := urlPathname_target hroom hday hname n
  rw [if_neg hdots] at hpath
  have hplain : ∀ c ∈ target room n day name, c ≠ '%' := fun c hc he =>
    target_plain hroom hday hname hc (by simp [he])
  -- a room called `.` is dropped by the normalisation, and leaves its slashes
  by_cases hdot : room = dot
  · rw [if_pos hdot] at hpath ⊢
    have hnames : ∀ s ∈ [day, name], IsName s := by
      intro s hs
      simp only [List.mem_cons, List.not_mem_nil, or_false] at hs
      rcases hs with rfl | rfl
      · exact hday.isName
      · exact hname.isName
    refine .of_path hpath (fun hmem => ?_) ?_ ?_ hnames (by simp)
    · refine hplain '%' ?_ rfl
      rw [target]
      exact List.mem_append_right _ (List.mem_cons_of_mem _
        (List.mem_append_right _ (List.mem_cons_of_mem _ hmem)))
    · rw [hdrop]
      exact filter_segments hday hname 0
    · rw [hdrop]
      exact getLast_behind hname [] 0
  · rw [if_neg hdot] at hpath ⊢
    have hnames : ∀ s ∈ [room, day, name], IsName s := by
      intro s hs
      simp only [List.mem_cons, List.not_mem_nil, or_false] at hs
      rcases hs with rfl | rfl | rfl
      · exact ⟨hne, hdot, hdots, hslash⟩
      · exact hday.isName
      · exact hname.isName
    refine .of_path hpath (fun hmem => ?_) ?_ ?_ hnames (by simp)
    · refine hplain '%' ?_ rfl
      rw [target]
      exact List.mem_append_right _ (List.mem_cons_of_mem _ hmem)
    · rw [hskip hslash hne, segments_name hslash, List.filter_cons_of_pos (by simpa using hne),
        filter_segments hday hname]
    · rw [hskip hslash hne]
      have h := @getLast_behind day name hname (room ++ ['/']) n
      rwa [List.append_assoc] at h

include hday in
/-- Without `record` a path is not one of the recordings. -/
theorem not_record (n : ℕ) (hrecord : day ≠ ['r', 'e', 'c', 'o', 'r', 'd']) :
    isRecord ('/' :: (List.replicate n '/' ++ (day ++ '/' :: name))) = false := by
  rw [Bool.eq_false_iff]
  intro h
  obtain ⟨rest, hrest, hpath⟩ : ∃ rest, (rest = [] ∨ ∃ t, rest = '/' :: t) ∧
      List.replicate n '/' ++ (day ++ '/' :: name) = ['r', 'e', 'c', 'o', 'r', 'd'] ++ rest := by
    rw [isRecord, Bool.or_eq_true, decide_eq_true_eq, List.isPrefixOf_iff_prefix] at h
    rcases h with h | ⟨t, h⟩
    · exact ⟨[], .inl rfl, (List.cons.inj h).2⟩
    · refine ⟨'/' :: t, .inr ⟨t, rfl⟩, ?_⟩
      have htail := (List.cons.inj h).2
      rw [← htail]
      simp
  cases n with
  | zero =>
    rw [List.replicate_zero, List.nil_append] at hpath
    exact hrecord (cut_unique hpath hday.isName.no_slash (.inr ⟨_, rfl⟩) (by decide) hrest).1
  | succ n => exact absurd (List.cons.inj hpath).1 (by decide)

include hne hroom hday hname in
/-- **Where a target is stored.** -/
theorem storedAt_target (root : Resolved) (n : ℕ)
    (hrecord : day ≠ ['r', 'e', 'c', 'o', 'r', 'd']) :
    storedAt root (target room n day name) =
      if room = dot then some (root ++ [day, name])
      else if dotdot <:+: room then none else some (root ++ [room, day, name]) := by
  by_cases hdots : room = dotdot
  · have hpath := urlPathname_target hroom hday hname n
    rw [if_pos hdots] at hpath
    rw [storedAt, hpath, not_record hday n hrecord, if_neg (by decide),
      if_neg (by rw [hdots]; decide), if_pos (by rw [hdots])]
  · have hresolves := resolves_target hne hroom hday hname n hdots
    have hpair : join [day, name] = day ++ '/' :: name := by
      simp [join, List.intercalate_cons_cons]
    have hno : ¬ dotdot <:+: day ++ '/' :: name := by
      rw [dotdot_infix_iff]
      exact not_or.mpr ⟨hday.no_dotdot, hname.no_dotdot⟩
    rw [hresolves.storedAt root]
    by_cases hdot : room = dot
    · rw [if_pos hdot, if_pos hdot, hpair, if_neg hno]
    · have htriple : join [room, day, name] = room ++ '/' :: (day ++ '/' :: name) := by
        simp [join, List.intercalate_cons_cons]
      rw [if_neg hdot, if_neg hdot, htriple]
      refine if_congr ?_ rfl rfl
      rw [dotdot_infix_iff]
      exact or_iff_left hno

end Target

/-! ### What the requests do -/

theorem answer_ended {status : ℕ} {headers : List (String × String)} {body : Body}
    {calls : List FsCall} {r : Response}
    (h : r ∈ (Outcome.answer status headers body calls).ended) :
    r.status = status ∧ r.body = body := by
  obtain rfl := List.mem_singleton.mp h
  exact ⟨rfl, rfl⟩

section Requests

variable {cfg : RecordHttp.Config} {req : Request} {env : FsAnswers} {rel : List Char}
  {file : Resolved} (hrel : rel ≠ []) (hfile : resolveRecordPath cfg.recordDir rel = some file)

include hrel hfile in
/-- An upload that is answered with `201` has put the file in its place. -/
theorem put_stored {r : Response} (hr : r ∈ (put cfg req env rel).ended) (hs : r.status = 201) :
    .rename (part file) file ∈ (put cfg req env rel).calls := by
  -- each check that fails answers with another status
  have hother : ∀ {status : ℕ} {headers : List (String × String)} {body : Body}
      {calls : List FsCall}, status ≠ 201 →
        r ∉ (Outcome.answer status headers body calls).ended :=
    fun hstatus hmem => hstatus ((answer_ended hmem).1.symm.trans hs)
  rw [put, if_neg hrel] at hr ⊢
  split at hr
  · exact absurd hr (hother (by decide))
  next hmime =>
  rw [if_neg hmime]
  rw [hfile] at hr ⊢
  dsimp only at hr ⊢
  split at hr
  · exact absurd hr (hother (by decide))
  next hlength =>
  rw [if_neg hlength]
  split at hr
  · cases hr
  next hdir =>
  rw [if_neg hdir]
  split at hr
  · cases hr
  next hmkdir =>
  rw [if_neg hmkdir]
  split at hr
  · cases hr
  next htmp =>
  rw [if_neg htmp]
  split at hr
  · exact absurd hr (hother (by decide))
  next hwrite =>
  rw [if_neg hwrite]
  split at hr
  · exact absurd hr (hother (by decide))
  next hrename =>
  rw [if_neg hrename]
  simp [Outcome.answer]

include hrel hfile in
/-- An upload of an accepted length begins with the directory of the file. -/
theorem put_reached (hmime : mimeOf (extname rel) ≠ none) (hlength : lengthOk req = true) :
    (put cfg req env rel).calls ≠ [] := by
  rw [put, if_neg hrel, if_neg hmime, hfile]
  dsimp only
  rw [hlength, if_neg (by decide)]
  split
  · simp [Outcome.throw]
  split
  · simp [Outcome.throw]
  split
  · simp [Outcome.throw]
  split
  · simp [Outcome.answer]
  split <;> simp [Outcome.answer]

include hrel hfile in
/-- A removal that is answered with `204` has removed the file. -/
theorem delete_removed {r : Response} (hr : r ∈ (delete cfg env rel).ended)
    (hs : r.status = 204) : .unlink file ∈ (delete cfg env rel).calls ∨
      .rmdir file ∈ (delete cfg env rel).calls := by
  rw [delete, if_neg hrel, hfile] at hr ⊢
  dsimp only at hr ⊢
  split at hr
  · cases hr
  next hnull =>
  rw [if_neg hnull]
  cases hstat : env.stat with
  | missing =>
    rw [hstat] at hr
    exact absurd ((answer_ended hr).1.symm.trans hs) (by decide)
  | directory =>
    dsimp only
    right
    split <;> simp [Outcome.answer]
  | file size =>
    dsimp only
    left
    split <;> simp [Outcome.answer]

include hrel hfile in
theorem delete_reached : (delete cfg env rel).calls ≠ [] := by
  rw [delete, if_neg hrel, hfile]
  dsimp only
  split
  · simp [Outcome.throw]
  cases env.stat with
  | missing => simp [Outcome.answer]
  | directory =>
    dsimp only
    split <;> simp [Outcome.answer]
  | file size =>
    dsimp only
    split <;> simp [Outcome.answer]

include hfile in
/-- What is served is the file. -/
theorem get_read {r : Response} (hr : r ∈ (get cfg req env rel).ended) {path : Resolved} {first : ℕ}
    {last : ℤ} (hb : r.body = .file path first last) : path = file := by
  have hother : ∀ {status : ℕ} {headers : List (String × String)} {body : Body}
      {calls : List FsCall}, (∀ p a b, body ≠ .file p a b) →
        r ∉ (Outcome.answer status headers body calls).ended :=
    fun hbody hmem => hbody _ _ _ ((answer_ended hmem).2.symm.trans hb)
  have hserve : ∀ {status : ℕ} {headers : List (String × String)} {range : ℕ × ℤ},
      r ∈ (serve req env file status headers range).ended → path = file := by
    intro status headers range hmem
    rw [serve] at hmem
    split at hmem
    · exact absurd hmem (hother (by simp))
    · split at hmem
      · exact (Body.file.inj (hb.symm.trans (answer_ended hmem).2)).1
      · cases hmem
      · cases hmem
  rw [RecordHttp.get, hfile] at hr
  -- whatever is not a file is answered without one
  dsimp only at hr
  split at hr
  · cases hr
  cases hstat : env.stat with
  | missing =>
    rw [hstat] at hr
    exact absurd hr (hother (by simp))
  | directory =>
    rw [hstat] at hr
    dsimp only at hr
    split at hr
    · exact absurd hr (hother (by simp))
    · exact absurd hr (hother (by simp))
  | file size =>
    rw [hstat] at hr
    dsimp only at hr
    rw [getFile] at hr
    split at hr
    · exact absurd hr (hother (by simp))
    · split at hr
      · exact hserve hr
      · exact hserve hr

include hfile in
theorem get_reached : (get cfg req env rel).calls ≠ [] := by
  have hserve : ∀ {status : ℕ} {headers : List (String × String)} {range : ℕ × ℤ},
      (serve req env file status headers range).calls ≠ [] := by
    intro status headers range
    rw [serve]
    split
    · simp [Outcome.answer]
    · split <;> simp [Outcome.answer, Outcome.throw]
  rw [RecordHttp.get, hfile]
  dsimp only
  split
  · simp [Outcome.throw]
  cases env.stat with
  | missing => simp [Outcome.answer]
  | directory =>
    dsimp only
    split <;> simp [Outcome.answer]
  | file size =>
    dsimp only
    rw [getFile]
    split
    · simp [Outcome.answer]
    · split
      · exact hserve
      · exact hserve

/-- The answer to an upload or a removal without the token. -/
def unauthorized : Outcome :=
  .answer 401 [("content-type", "text/plain; charset=utf-8")] (.text "unauthorized") []

/-- **The requests for a key act on the file that it resolves to.** -/
theorem acts_on (env : FsAnswers) (hrecord : recordRel req.pathname = .ok (some rel))
    (hrel : rel ≠ []) (hmime : mimeOf (extname rel) ≠ none)
    (hfile : resolveRecordPath cfg.recordDir rel = some file) :
    ActsOn file cfg req env (recordListener cfg req env) := by
  -- each request resolves the key to this file
  have hdest : ∀ {dest : Resolved}, dest ∈ resolveRecordPath cfg.recordDir rel → dest = file :=
    fun hmem => Option.some.inj (hmem.symm.trans hfile)
  have hstrings : ("DELETE" : String) ≠ "PUT" ∧ ("GET" : String) ≠ "PUT" ∧
      ("GET" : String) ≠ "DELETE" ∧ ("PUT" : String) ≠ "OPTIONS" ∧
      ("DELETE" : String) ≠ "OPTIONS" ∧ ("GET" : String) ≠ "OPTIONS" := by decide
  obtain ⟨hdp, hgp, hgd, hpo, hdo, hgo⟩ := hstrings
  have hput : req.method = "PUT" → recordListener cfg req env =
      if tokenOk req cfg.token = true then put cfg req env rel
      else unauthorized := by
    intro hm
    rw [recordListener, handleRecordRequest, hm, if_neg hpo, hrecord]
    cases htoken : tokenOk req cfg.token <;> simp [unauthorized]
  have hdelete : req.method = "DELETE" → recordListener cfg req env =
      if tokenOk req cfg.token = true then delete cfg env rel
      else unauthorized := by
    intro hm
    rw [recordListener, handleRecordRequest, hm, if_neg hdo, hrecord]
    cases htoken : tokenOk req cfg.token <;> simp [unauthorized]
  have hget : req.method = "GET" → recordListener cfg req env = get cfg req env rel := by
    intro hm
    rw [recordListener, handleRecordRequest, hm, if_neg hgo, hrecord]
    simp
  refine ⟨fun hm => ?_, fun hm => ?_, fun hm => ?_, fun hm => ?_, fun hm => ?_, fun hm => ?_, ?_⟩
  -- in each clause a request without the token is answered and touches nothing
  · rw [hput hm]
    split
    · intro call hcall
      obtain ⟨-, -, dest, hmem, hcases⟩ := put_calls hcall
      rwa [hdest hmem] at hcases
    · simp [unauthorized, Outcome.answer]
  · rw [hput hm]
    split
    · exact fun r hr hs => put_stored hrel hfile hr hs
    · exact fun r hr hs => absurd ((answer_ended hr).1.symm.trans hs) (by decide)
  · rw [hdelete hm]
    split
    · intro call hcall
      obtain ⟨-, dest, hmem, hpaths⟩ := delete_calls hcall
      rwa [hdest hmem] at hpaths
    · simp [unauthorized, Outcome.answer]
  · rw [hdelete hm]
    split
    · exact fun r hr hs => delete_removed hrel hfile hr hs
    · exact fun r hr hs => absurd ((answer_ended hr).1.symm.trans hs) (by decide)
  · rw [hget hm]
    intro call hcall
    obtain ⟨dest, hmem, hpaths⟩ := get_calls hcall
    rwa [hdest hmem] at hpaths
  · rw [hget hm]
    exact fun r hr path first last hb => get_read hfile hr hb
  · rintro (⟨hm, hlength⟩ | hm | hm) htoken
    · rw [hput hm, if_pos htoken]
      exact put_reached hrel hfile hmime hlength
    · rw [hdelete hm, if_pos htoken]
      exact delete_reached hrel hfile
    · rw [hget hm]
      exact get_reached hfile

end Requests

/-! ### Devices -/

/-- A device whose upload URL is `http://host[:port]/record/<room>`, perhaps with
slashes behind it. -/
structure Uploader where
  uploadUrl : String
  directory : List Char
  host : String
  port : ℤ
  room : String
  slashes : ℕ
  accepted : Signaling.validIdentifier room 128 = true
  form : HttpForm uploadUrl (host, port,
    String.ofList (record ++ '/' :: (room.toList ++ List.replicate slashes '/')))

/-- A URL of the form is accepted with its path. -/
theorem parse_of_form (platform : Conversion) {url : String} {address : String × ℤ × String}
    (h : HttpForm url address) :
    ∃ t, parseHttpUrl platform url = some t ∧ t.2.2 = address.2.2 := by
  obtain ⟨host, port, rest, path, hurl, hhost, hport, hpath, -, hsnd⟩ := h
  have hslash : '/' ∉ host ++ port := by
    rw [List.mem_append]
    rintro (h | h)
    · exact PlainHost.no_slash hhost h
    · exact hport.no_slash h
  have hrest : rest = [] ∨ ∃ t, rest = '/' :: t := by
    rcases hpath with ⟨rfl, -⟩ | ⟨t, rfl, -⟩
    · exact .inl rfl
    · exact .inr ⟨t, rfl⟩
  have hpath_of : pathOf (host ++ port ++ rest) = path := by
    rw [pathOf_cut hslash hrest]
    rcases hpath with ⟨rfl, rfl⟩ | ⟨t, rfl, rfl⟩
    · exact if_pos rfl
    · exact if_neg (by simp)
  -- the host of the form is plain, or an address in brackets
  have hauthority : HttpAuthority platform (host ++ port) := by
    rcases hhost with ⟨hne, hplain⟩ | ⟨address, -, rfl⟩
    · right
      rcases hport with ⟨rfl, -⟩ | ⟨digits, rfl, -, hdigits, -, hone, hmax⟩
      · rw [List.append_nil]
        exact .inl ⟨hne, fun hmem => hplain ':' hmem (by decide)⟩
      · have hcolon : ':' ∉ digits := fun hmem =>
          absurd (List.all_eq_true.mp hdigits ':' hmem) (by decide)
        refine .inr ⟨host, digits, rfl, hcolon, hne, ?_⟩
        rw [atoi_digits platform hdigits hmax]
        omega
    · exact .inl (by simp)
  have hsome := (accept_httpHostPort_iff platform (host ++ port) path).mpr hauthority
  obtain ⟨t, ht⟩ := Option.isSome_iff_exists.mp hsome
  refine ⟨t, ?_, ?_⟩
  · have hdrop : url.toList.drop 7 = host ++ port ++ rest := by rw [hurl]; rfl
    rw [parseHttpUrl, startsWith_iff.mpr ⟨_, hurl⟩, if_neg (by decide)]
    dsimp only
    rw [hdrop, takeWhile_cut hslash hrest, hpath_of, ht]
  · rw [(accept_eq_some_iff.mp ht).2.2.2, hsnd]

/-- The path of a room and a key are joined with one slash, or with those that
the path has. -/
theorem joinUrlPath_room {room day name : List Char} (hne : room ≠ []) (hslash : '/' ∉ room)
    (hday : Tame day) (n : ℕ) :
    joinUrlPath (record ++ '/' :: (room ++ List.replicate n '/')) (day ++ '/' :: name) =
      target room (n - 1) day name := by
  have hkey : day ++ '/' :: name ≠ [] := by simp
  have hkey_head : (day ++ '/' :: name).head? ≠ some '/' := by
    obtain ⟨c, more, rfl⟩ := List.exists_cons_of_ne_nil hday.isName.ne_nil
    have hc : c ≠ '/' := fun h => hday.isName.no_slash (h ▸ List.mem_cons_self)
    simpa using hc
  have hbase : ¬ (record ++ '/' :: (room ++ List.replicate n '/') = [] ∨
      record ++ '/' :: (room ++ List.replicate n '/') = ['/']) := by
    simp [record]
  rw [joinUrlPath, if_neg hkey, if_neg hbase, if_neg fun h => hkey_head h.2]
  cases n with
  | zero =>
    have hlast : (record ++ '/' :: (room ++ List.replicate 0 '/')).getLast? ≠ some '/' := by
      have happ : record ++ '/' :: (room ++ List.replicate 0 '/') = (record ++ ['/']) ++ room := by
        simp
      rw [happ, List.getLast?_append_of_ne_nil _ hne]
      exact fun h => hslash (List.mem_of_getLast? h)
    rw [if_pos ⟨hlast, hkey_head⟩]
    simp [target]
  | succ n =>
    have hlast : (record ++ '/' :: (room ++ List.replicate (n + 1) '/')).getLast? = some '/' := by
      have happ : record ++ '/' :: (room ++ List.replicate (n + 1) '/') =
          (record ++ '/' :: (room ++ List.replicate n '/')) ++ ['/'] := by
        simp [List.replicate_succ']
      rw [happ, List.getLast?_concat]
    rw [if_neg fun h => h.1 hlast]
    simp [target, List.replicate_succ]

theorem Recorded.day_ne {file : File} (h : Recorded file) :
    file.day.toList ≠ ['r', 'e', 'c', 'o', 'r', 'd'] := by
  obtain ⟨t, ht⟩ : ∃ t : LocalTime, file.day = t.day := by
    rcases h with ⟨t, suffix, rfl⟩ | ⟨t, rfl | rfl⟩
    · exact ⟨t, rfl⟩
    · exact ⟨t, rfl⟩
    · exact ⟨t, rfl⟩
  have hminus : '-' ∈ file.day.toList := by simp [ht, LocalTime.day]
  intro he
  rw [he] at hminus
  exact absurd hminus (by decide)

/-- The target of a device's requests for a file. -/
theorem requestTarget_eq (platform : Conversion) (d : Uploader) {file : File}
    (h : Recorded file) : requestTarget platform d.uploadUrl d.directory file =
      some (target d.room.toList (d.slashes - 1) file.day.toList file.name.toList) := by
  obtain ⟨hne, hchars⟩ := valid_room d.accepted
  obtain ⟨t, ht, hpath⟩ := parse_of_form platform d.form
  rw [requestTarget, ht, Option.map_some, hpath, String.toList_ofList,
    relativeKey_absolutePath d.directory h.tame_day.isName.ne_nil h.tame_day.isName.no_slash,
    joinUrlPath_room hne (fun hmem => hchars '/' hmem (by decide)) h.tame_day]

/-- The file is kept at the path, and the requests of the device for it act on it
there. -/
def Kept (platform : Conversion) (root : Resolved) (d : Uploader) (file : File)
    (path : Resolved) : Prop :=
  ∃ t, requestTarget platform d.uploadUrl d.directory file = some t ∧
    storedAt root t = some path ∧
    ∀ (cfg : RecordHttp.Config) (req : Request) (env : FsAnswers), cfg.recordDir = root →
      req.pathname = urlPathname t → ActsOn path cfg req env (recordListener cfg req env)

/-- Where a file is kept. -/
theorem Kept.path_eq {platform : Conversion} {root : Resolved} {d : Uploader} {file : File}
    {path : Resolved} (hfile : Recorded file) (h : Kept platform root d file path) :
    d.room.toList = dot ∧ path = root ++ [file.day.toList, file.name.toList] ∨
      d.room.toList ≠ dot ∧ ¬ dotdot <:+: d.room.toList ∧
        path = root ++ [d.room.toList, file.day.toList, file.name.toList] := by
  obtain ⟨hne, hchars⟩ := valid_room d.accepted
  obtain ⟨t, ht, hstored, -⟩ := h
  obtain rfl := Option.some.inj (ht.symm.trans (requestTarget_eq platform d hfile))
  rw [storedAt_target hne hchars hfile.tame_day hfile.tame_name root _ hfile.day_ne] at hstored
  split at hstored
  next hdot => exact .inl ⟨hdot, (Option.some.inj hstored).symm⟩
  next hdot =>
  split at hstored
  · cases hstored
  next hdots => exact .inr ⟨hdot, hdots, (Option.some.inj hstored).symm⟩

/-- Names of equal texts are equal files. -/
theorem file_eq {f g : File} (hday : f.day.toList = g.day.toList)
    (hname : f.name.toList = g.name.toList) : f = g := by
  cases f
  cases g
  rw [File.mk.injEq, ← String.toList_inj, ← String.toList_inj]
  exact ⟨hday, hname⟩

/-- **A file of the recorder is kept below the directory of the server as
`room/day/name`**, and `PUT`, `DELETE` and `GET` act on it there, if and only if
the room is not `.` and has no `..`; and whatever the rooms are, two different
files, or files of two rooms, are not kept as one. -/
theorem kept_iff (platform : Conversion) (root : Resolved) (d : Uploader) {file : File}
    (hfile : Recorded file) :
    (Kept platform root d file (root ++ [d.room.toList, file.day.toList, file.name.toList]) ↔
      d.room ≠ "." ∧ ¬ dotdot <:+: d.room.toList) ∧
    ∀ (d' : Uploader) (file' : File) (path : Resolved), Recorded file' →
      Kept platform root d file path → Kept platform root d' file' path →
        d.room = d'.room ∧ file = file' := by
  constructor
  · have hdot_iff : d.room = "." ↔ d.room.toList = dot := by
      rw [← String.toList_inj, show (".").toList = dot by decide +kernel]
    rw [ne_eq, hdot_iff]
    constructor
    · intro h
      -- below `.` the path is shorter by the room
      rcases h.path_eq hfile with ⟨-, hpath⟩ | ⟨hdot, hdots, -⟩
      · have hlen := congrArg List.length (List.append_cancel_left hpath)
        simp at hlen
      · exact ⟨hdot, hdots⟩
    · rintro ⟨hdot, hdots⟩
      obtain ⟨hne, hchars⟩ := valid_room d.accepted
      have hday := hfile.tame_day
      have hname := hfile.tame_name
      refine ⟨_, requestTarget_eq platform d hfile, ?_, ?_⟩
      · rw [storedAt_target hne hchars hday hname root _ hfile.day_ne, if_neg hdot, if_neg hdots]
      · rintro cfg req env rfl hpath
        -- the whole room would be the `..` that it does not have
        have hclimb : d.room.toList ≠ dotdot := fun h => hdots (h ▸ List.infix_rfl)
        have hresolves := resolves_target hne hchars hday hname (d.slashes - 1) hclimb
        rw [if_neg hdot] at hresolves
        have hno : ¬ dotdot <:+: join [d.room.toList, file.day.toList, file.name.toList] := by
          have htriple : join [d.room.toList, file.day.toList, file.name.toList] =
              d.room.toList ++ '/' :: (file.day.toList ++ '/' :: file.name.toList) := by
            simp [join, List.intercalate_cons_cons]
          rw [htriple, dotdot_infix_iff, dotdot_infix_iff]
          exact not_or.mpr ⟨hdots, not_or.mpr ⟨hday.no_dotdot, hname.no_dotdot⟩⟩
        have hrel := hresolves.rel
        rw [if_neg hno, ← hpath] at hrel
        refine acts_on env hrel ?_ ?_ (resolve_names cfg.recordDir hresolves.is_name
          hresolves.ne_nil hno)
        · exact join_ne_nil (fun s hs => (hresolves.is_name s hs).ne_nil) hresolves.ne_nil
        · rw [extname_join hresolves.is_name hresolves.ne_nil]
          exact hfile.mime
  · intro d' file' path hfile' h h'
    -- equal paths are of one length, so both rooms are `.` or neither is
    rcases h.path_eq hfile with ⟨hdot, hpath⟩ | ⟨-, -, hpath⟩
    · rcases h'.path_eq hfile' with ⟨hdot', hpath'⟩ | ⟨-, -, hpath'⟩
      · have heq := List.append_cancel_left (hpath.symm.trans hpath')
        rw [List.cons.injEq, List.cons.injEq] at heq
        exact ⟨String.toList_inj.mp (hdot.trans hdot'.symm), file_eq heq.1 heq.2.1⟩
      · have hlen := congrArg List.length (List.append_cancel_left (hpath.symm.trans hpath'))
        simp at hlen
    · rcases h'.path_eq hfile' with ⟨-, hpath'⟩ | ⟨-, -, hpath'⟩
      · have hlen := congrArg List.length (List.append_cancel_left (hpath.symm.trans hpath'))
        simp at hlen
      · have heq := List.append_cancel_left (hpath.symm.trans hpath')
        rw [List.cons.injEq, List.cons.injEq, List.cons.injEq] at heq
        exact ⟨String.toList_inj.mp heq.1, file_eq heq.2.1 heq.2.2.1⟩

/-- A device of a room at `http://h/record/<room>`. -/
def Uploader.atH (room : String) (h : Signaling.validIdentifier room 128 = true) : Uploader where
  uploadUrl := "http://h/record/" ++ room
  directory := ['/', 'm', 'e', 'd', 'i', 'a']
  host := "h"
  port := 80
  room := room
  slashes := 0
  accepted := h
  form := by
    refine ⟨['h'], [], record ++ '/' :: room.toList, record ++ '/' :: room.toList, ?_,
      .inl ⟨by decide, fun c hc => ?_⟩, .inl ⟨rfl, rfl⟩, .inr ⟨_, rfl, rfl⟩, rfl, ?_⟩
    · rw [String.toList_append]
      have hscheme : ("http://h/record/").toList =
          "http://".toList ++ (['h'] ++ [] ++ (record ++ ['/'])) := by decide +kernel
      rw [hscheme]
      simp
    · obtain rfl := List.mem_singleton.mp hc
      decide
    · simp

/-- The playlist of a day in the room `front.door`. -/
theorem front_door_kept : ∃ d : Uploader, d.room = "front.door" ∧
    Kept ⟨id, fun _ _ _ => rfl⟩ [['r']] d (.index (LocalTime.day ⟨2024, 5, 6, 7, 8, 9⟩))
      ([['r']] ++ [d.room.toList, (File.index (LocalTime.day ⟨2024, 5, 6, 7, 8, 9⟩)).day.toList,
        (File.index (LocalTime.day ⟨2024, 5, 6, 7, 8, 9⟩)).name.toList]) := by
  refine ⟨.atH "front.door" (by decide +kernel), rfl, ?_⟩
  exact (kept_iff ⟨id, fun _ _ _ => rfl⟩ [['r']] (.atH "front.door" (by decide +kernel))
    (.inr ⟨_, .inr rfl⟩)).1.mpr (by decide +kernel)

/-- **Nothing of a room with two dots is kept**, though the signaling server
accepts its name. -/
theorem dotted_room_refused :
    ¬ ∀ (platform : Conversion) (root : Resolved) (d : Uploader) (file : File), Recorded file →
      Kept platform root d file (root ++ [d.room.toList, file.day.toList, file.name.toList]) := by
  intro h
  have hkept := h ⟨id, fun _ _ _ => rfl⟩ [] (.atH "a..b" (by decide +kernel))
    (.init (LocalTime.day ⟨2024, 5, 6, 7, 8, 9⟩)) (.inr ⟨_, .inl rfl⟩)
  rcases hkept.path_eq (.inr ⟨_, .inl rfl⟩) with ⟨hdot, -⟩ | ⟨-, hdots, -⟩
  · exact absurd hdot (by decide +kernel)
  · exact hdots ⟨['a'], ['b'], by decide +kernel⟩

end UploadKeys

end IpcMini
