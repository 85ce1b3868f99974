/-
Where the requests for the recordings reach (`cloud/signaling/record_http.js`).

Of the decoded path only names are left below the recording directory: what
`recordRel` returns is empty, is `./`, or is a list of names.  Everything that
the handler touches is the object of the request, its `.part` file, or an entry
of the directory that the object is in.

* `objectRel_cases` — the three shapes of an object key;
* `put_calls`, `delete_calls`, `get_calls` — the calls of `fs` of each method;
* `Contained` — what a call may touch;
* **`calls_contained`** — every call of every request is contained;
* `top_level_put_touches_root` — an upload makes and lists the directory that
  its object is in, which can be the recording directory itself.
-/
import IpcMini.RecordHttp

namespace IpcMini

open PosixPath

namespace RecordHttp

/-! ### Object keys -/

/-- A name stops the removal of the steps up. -/
theorem stripUp_of_name {seg rest : List Char} (h : IsName seg)
    (hrest : rest = [] ∨ rest.head? = some '/') : stripUp (seg ++ rest) = seg ++ rest := by
  rw [stripUp]
  · intro tail he
    -- a name that begins with two dots goes on with another character
    match seg, h with
    | [], h => exact h.ne_nil rfl
    | [c], h =>
      obtain ⟨rfl, hr⟩ : c = '.' ∧ rest = '.' :: '/' :: tail := by simpa using he
      exact h.ne_dot rfl
    | [c, d], h =>
      obtain ⟨rfl, rfl, -⟩ : c = '.' ∧ d = '.' ∧ rest = '/' :: tail := by simpa using he
      exact h.ne_dotdot rfl
    | c :: d :: e :: more, h =>
      have hslash : e = '/' := by
        have : c = '.' ∧ d = '.' ∧ e = '/' ∧ more ++ rest = tail := by simpa using he
        exact this.2.2.1
      exact h.no_slash (by simp [hslash])
  · intro he
    match seg, h with
    | [], h => exact h.ne_nil rfl
    | [c], h =>
      obtain ⟨rfl, rfl⟩ : c = '.' ∧ rest = ['.'] := by simpa using he
      exact h.ne_dot rfl
    | [c, d], h =>
      obtain ⟨rfl, rfl, -⟩ : c = '.' ∧ d = '.' ∧ rest = [] := by simpa using he
      exact h.ne_dotdot rfl
    | c :: d :: e :: more, h => simp at he

/-- The steps up are removed from a stack. -/
theorem stripUp_climbing {ups : ℕ} {names : List (List Char)} {tail : List Char}
    (h : ∀ s ∈ names, IsName s) (htail : tail = [] ∨ tail = ['/'])
    (hne : Climbing ups names ≠ []) :
    stripUp (join (Climbing ups names) ++ tail) =
      if names = [] then [] else join names ++ tail := by
  induction ups with
  | zero =>
    have hnames : names ≠ [] := hne
    rw [if_neg hnames, show Climbing 0 names = names from rfl]
    obtain ⟨seg, rest, rfl⟩ := List.exists_cons_of_ne_nil hnames
    cases rest with
    | nil =>
      rw [show join [seg] = seg from List.intercalate_singleton]
      refine stripUp_of_name (h seg List.mem_cons_self) ?_
      rcases htail with rfl | rfl
      · exact .inl rfl
      · exact .inr rfl
    | cons next rest =>
      have hjoin : join (seg :: next :: rest) ++ tail =
          seg ++ ('/' :: (join (next :: rest) ++ tail)) := by
        simp [join, List.intercalate_cons_cons]
      rw [hjoin]
      exact stripUp_of_name (h seg List.mem_cons_self) (.inr rfl)
  | succ n ih =>
    by_cases hrest : Climbing n names = []
    · -- the path is a single step up
      obtain ⟨hn, rfl⟩ : n = 0 ∧ names = [] := by simpa [Climbing] using hrest
      subst hn
      rcases htail with rfl | rfl
      · rfl
      · rfl
    · have hjoin : join (Climbing (n + 1) names) ++ tail =
          '.' :: '.' :: '/' :: (join (Climbing n names) ++ tail) := by
        rw [show Climbing (n + 1) names = dotdot :: Climbing n names from rfl]
        obtain ⟨seg, rest, he⟩ := List.exists_cons_of_ne_nil hrest
        rw [he]
        simp [join, List.intercalate_cons_cons, dotdot]
      rw [hjoin, stripUp]
      exact ih hrest

/-- **An object key is empty, is `./`, or is a list of names with the slash
that it ends in.** -/
theorem objectRel_cases (raw : List Char) :
    objectRel raw = [] ∨ objectRel raw = ['.', '/'] ∨
      ∃ names tail, (∀ s ∈ names, IsName s) ∧ names ≠ [] ∧ (tail = [] ∨ tail = ['/']) ∧
        objectRel raw = join names ++ tail := by
  rw [objectRel]
  set path := (raw.drop record.length).dropWhile (· = '/')
  have hhead : path.head? ≠ some '/' := by
    intro h
    have := List.head?_dropWhile_not (· = '/') (raw.drop record.length)
    rw [h] at this
    simp at this
  split
  · exact .inl rfl
  next hrel =>
    rcases normalize_relative hhead with he | he | ⟨ups, names, tail, h, htail, hne, he⟩
    · exact absurd (.inl (by rw [he]; rfl)) hrel
    · exact .inr (.inl (by rw [he]; rfl))
    · rw [he, stripUp_climbing h htail hne]
      split
      · exact .inl rfl
      next hnames => exact .inr (.inr ⟨names, tail, h, hnames, htail, rfl⟩)

/-- The object of a request lies in the recording directory, and below it unless
the key is empty or `./`. -/
theorem resolve_objectRel {root dest : Resolved} {raw : List Char}
    (h : dest ∈ resolveRecordPath root (objectRel raw)) :
    Inside root dest ∧
      (objectRel raw ≠ [] → objectRel raw ≠ ['.', '/'] → StrictlyInside root dest) := by
  have hdest : dest = resolve root (objectRel raw) := by
    rw [resolveRecordPath] at h
    split at h
    · cases h
    · exact (Option.some.inj h).symm
  rcases objectRel_cases raw with he | he | ⟨names, tail, hnames, hne, htail, he⟩
  · rw [he] at hdest ⊢
    obtain rfl : dest = root := hdest.trans (by simp [resolve, segments, push])
    exact ⟨Inside.refl _, fun h => absurd rfl h⟩
  · rw [he] at hdest ⊢
    obtain rfl : dest = root := by
      refine hdest.trans ?_
      rw [resolve, if_neg (by decide), show segments ['.', '/'] = [dot, []] by decide]
      simp [push]
    exact ⟨Inside.refl _, fun _ h => absurd rfl h⟩
  · rw [he, resolve_join hnames hne htail] at hdest
    have hstrict : StrictlyInside root dest := ⟨names, hdest, hnames, hne⟩
    exact ⟨hstrict.inside, fun _ _ => hstrict⟩

/-! ### The calls of a request -/

/-- The paths that are handed to a function of `fs`. -/
def FsCall.paths : FsCall → List Resolved
  | .mkdir path | .writeStream path | .readStream path | .readFile path | .readdir path
  | .stat path | .unlink path | .rmdir path => [path]
  | .rename src dest => [src, dest]

theorem prune_calls {env : FsAnswers} {dest : Resolved} {call : FsCall}
    (h : call ∈ pruneUnlistedSegments env dest) :
    call = .readFile dest ∨ call = .readdir dest.dropLast ∨
      ∃ names ∈ env.names, ∃ name ∈ names, isSegment name = true ∧
        call = .unlink (dest.dropLast ++ [name]) := by
  rw [pruneUnlistedSegments] at h
  split at h
  · simp at h
  split at h
  · exact .inl (List.mem_singleton.mp h)
  rw [List.mem_cons, List.mem_cons] at h
  rcases h with h | h | h
  · exact .inl h
  · exact .inr (.inl h)
  cases hn : env.names with
  | none => simp [hn] at h
  | some names =>
    rw [hn] at h
    obtain ⟨name, hname, rfl⟩ := List.mem_map.mp h
    rw [unlistedSegments, List.mem_filter, isUnlisted, Bool.and_eq_true] at hname
    exact .inr (.inr ⟨names, rfl, name, hname.1, hname.2.1, rfl⟩)

/-- An upload touches its object, the `.part` file, and the directory that they
are in. -/
theorem put_calls {cfg : Config} {req : Request} {env : FsAnswers} {rel : List Char}
    {call : FsCall} (h : call ∈ (put cfg req env rel).calls) :
    rel ≠ [] ∧ mimeOf (extname rel) ≠ none ∧ ∃ dest ∈ resolveRecordPath cfg.recordDir rel,
      call = .mkdir dest.dropLast ∨ call = .writeStream (part dest) ∨
      call = .unlink (part dest) ∨ call = .rename (part dest) dest ∨
      call ∈ pruneUnlistedSegments env dest := by
  rw [put] at h
  split at h
  · simp [Outcome.answer] at h
  next hrel =>
  split at h
  · simp [Outcome.answer] at h
  next hmime =>
  refine ⟨hrel, hmime, ?_⟩
  split at h
  · simp [Outcome.answer] at h
  next dest hdest =>
  -- each failure ends the list of calls at its place
  refine ⟨dest, hdest, ?_⟩
  split at h
  · simp [Outcome.answer] at h
  dsimp only at h
  split at h
  · simp [Outcome.throw] at h
    exact .inl h
  split at h
  · simp [Outcome.throw] at h
    exact .inl h
  split at h
  · simp only [Outcome.throw, List.mem_cons, List.not_mem_nil, or_false] at h
    tauto
  split at h
  · simp only [Outcome.answer, List.mem_cons, List.not_mem_nil, or_false] at h
    tauto
  split at h
  · simp only [Outcome.answer, List.mem_cons, List.not_mem_nil, or_false] at h
    tauto
  · simp only [Outcome.answer, List.mem_append, List.mem_cons, List.not_mem_nil, or_false] at h
    tauto

/-- A removal touches its object. -/
theorem delete_calls {cfg : Config} {env : FsAnswers} {rel : List Char} {call : FsCall}
    (h : call ∈ (delete cfg env rel).calls) :
    rel ≠ [] ∧ ∃ dest ∈ resolveRecordPath cfg.recordDir rel, call.paths = [dest] := by
  -- the answer at the end adds no call
  have hfinish : ∀ calls, (if env.removed then Outcome.answer 204 [] .empty calls
      else .answer 500 [] (.text "delete failed") calls).calls = calls := by
    intro calls
    split <;> rfl
  rw [delete] at h
  -- the calls up to the check that ends the request, for each check in turn
  split at h
  · simp [Outcome.answer] at h
  next hrel =>
  refine ⟨hrel, ?_⟩
  split at h
  · simp [Outcome.answer] at h
  next dest hdest =>
  refine ⟨dest, hdest, ?_⟩
  dsimp only at h
  split at h
  · obtain rfl := List.mem_singleton.mp h
    rfl
  cases hs : env.stat with
  | missing =>
    rw [hs] at h
    obtain rfl := List.mem_singleton.mp h
    rfl
  | directory =>
    simp only [hs, hfinish, List.mem_cons, List.not_mem_nil, or_false] at h
    rcases h with rfl | rfl
    · rfl
    · rfl
  | file size =>
    simp only [hs, hfinish, List.mem_cons, List.not_mem_nil, or_false] at h
    rcases h with rfl | rfl
    · rfl
    · rfl

theorem serve_calls {req : Request} {env : FsAnswers} {dest : Resolved} {status : ℕ}
    {headers : List (String × String)} {range : ℕ × ℤ} {call : FsCall}
    (h : call ∈ (serve req env dest status headers range).calls) : call.paths = [dest] := by
  have hcalls : (serve req env dest status headers range).calls ⊆
      [.stat dest, .readStream dest] := by
    rw [serve]
    split
    · simp [Outcome.answer]
    split <;> simp [Outcome.answer, Outcome.throw]
  rcases List.mem_cons.mp (hcalls h) with rfl | h
  · rfl
  · obtain rfl := List.mem_singleton.mp h
    rfl

/-- A request to read touches its object. -/
theorem get_calls {cfg : Config} {req : Request} {env : FsAnswers} {rel : List Char}
    {call : FsCall} (h : call ∈ (get cfg req env rel).calls) :
    ∃ dest ∈ resolveRecordPath cfg.recordDir rel, call.paths = [dest] := by
  rw [get] at h
  split at h
  · simp [Outcome.answer] at h
  next dest hdest =>
  refine ⟨dest, hdest, ?_⟩
  split at h
  · obtain rfl := List.mem_singleton.mp h
    rfl
  cases hs : env.stat with
  | missing =>
    rw [hs] at h
    obtain rfl := List.mem_singleton.mp h
    rfl
  | directory =>
    rw [hs] at h
    dsimp only at h
    split at h <;>
    · simp only [Outcome.answer, List.mem_cons, List.not_mem_nil, or_false] at h
      rcases h with rfl | rfl
      · rfl
      · rfl
  | file size =>
    rw [hs] at h
    dsimp only at h
    rw [getFile] at h
    split at h
    · obtain rfl := List.mem_singleton.mp h
      rfl
    split at h
    · exact serve_calls h
    · exact serve_calls h

/-! ### Containment -/

/-- Every path of every call lies in the recording directory, and below it when
the request is to store or to remove. -/
def Confined (root : Resolved) (req : Request) (o : Outcome) : Prop :=
  ∀ call ∈ o.calls, ∀ path ∈ call.paths,
    Inside root path ∧ (req.method = "PUT" ∨ req.method = "DELETE" → StrictlyInside root path)

/-- The object of the request is an entry of the recording directory itself. -/
def TopLevel (root : Resolved) (req : Request) : Prop :=
  ∃ raw name, UriComponent.decode req.pathname = some raw ∧
    resolveRecordPath root (objectRel raw) = some (root ++ [name])

/-- The key of the request is `./`. -/
def DotSlash (req : Request) : Prop :=
  ∃ raw, UriComponent.decode req.pathname = some raw ∧ objectRel raw = ['.', '/']

/-- What a call of a request may touch. -/
structure Contained (root : Resolved) (req : Request) (call : FsCall) : Prop where
  inside : ∀ path ∈ call.paths, Inside root path
  /-- the directory of an object is made and listed, also when it is `root` -/
  put : req.method = "PUT" → (∀ path ∈ call.paths, StrictlyInside root path) ∨
    (call = .mkdir root ∨ call = .readdir root) ∧ TopLevel root req
  delete : req.method = "DELETE" → ¬ DotSlash req → ∀ path ∈ call.paths, StrictlyInside root path

theorem strictly_inside_part {root dest : Resolved} (h : StrictlyInside root dest) :
    StrictlyInside root (part dest) := by
  obtain ⟨dir, seg, rfl, hdir, hseg⟩ := h.parent
  have hpart : part (dir ++ [seg]) = dir ++ [seg ++ ['.', 'p', 'a', 'r', 't']] := by
    simp [part]
  rw [hpart]
  refine hdir.child ⟨by simp, fun he => ?_, fun he => ?_, by simp [hseg.no_slash]⟩
  · have := congrArg List.length he
    simp [dot] at this
  · have := congrArg List.length he
    simp [dotdot] at this

/-- A segment that a listing names is an entry of the directory. -/
theorem is_name_of_isSegment {name : List Char} (h : isSegment name = true)
    (hslash : '/' ∉ name) : IsName name where
  ne_nil he := by
    subst he
    exact absurd h (by decide)
  ne_dot he := by
    subst he
    exact absurd h (by decide)
  ne_dotdot he := by
    subst he
    exact absurd h (by decide)
  no_slash := hslash

/-- A call of an upload: below the recording directory, or on the directory of
the object. -/
theorem put_paths {cfg : Config} {req : Request} {env : FsAnswers} {raw : List Char}
    {call : FsCall} (hnames : ∀ names ∈ env.names, ∀ name ∈ names, '/' ∉ name)
    (h : call ∈ (put cfg req env (objectRel raw)).calls) :
    ∃ dest ∈ resolveRecordPath cfg.recordDir (objectRel raw),
      StrictlyInside cfg.recordDir dest ∧
      ((∀ path ∈ call.paths, StrictlyInside cfg.recordDir path) ∨
        call = .mkdir dest.dropLast ∨ call = .readdir dest.dropLast) := by
  obtain ⟨hrel, hmime, dest, hdest, hcall⟩ := put_calls h
  -- `./` has no extension, so that it is refused before
  have hne : objectRel raw ≠ ['.', '/'] := fun he => hmime (by rw [he]; decide)
  have hstrict := (resolve_objectRel hdest).2 hrel hne
  obtain ⟨dir, seg, hsplit, hdir, hseg⟩ := hstrict.parent
  have hdrop : dest.dropLast = dir := by rw [hsplit, List.dropLast_concat]
  refine ⟨dest, hdest, hstrict, ?_⟩
  rcases hcall with rfl | rfl | rfl | rfl | hprune
  · exact .inr (.inl rfl)
  · exact .inl (by simpa [FsCall.paths] using strictly_inside_part hstrict)
  · exact .inl (by simpa [FsCall.paths] using strictly_inside_part hstrict)
  · exact .inl (by simpa [FsCall.paths] using ⟨strictly_inside_part hstrict, hstrict⟩)
  rcases prune_calls hprune with rfl | rfl | ⟨names, hmem, name, hname, hsegment, rfl⟩
  · exact .inl (by simpa [FsCall.paths] using hstrict)
  · exact .inr (.inr rfl)
  · refine .inl fun path hpath => ?_
    obtain rfl := List.mem_singleton.mp hpath
    rw [hdrop]
    exact hdir.child (is_name_of_isSegment hsegment (hnames names hmem name hname))

theorem contained_put {cfg : Config} {req : Request} {env : FsAnswers} {raw : List Char}
    {call : FsCall} (hnames : ∀ names ∈ env.names, ∀ name ∈ names, '/' ∉ name)
    (hraw : UriComponent.decode req.pathname = some raw) (hmethod : req.method = "PUT")
    (h : call ∈ (put cfg req env (objectRel raw)).calls) :
    Contained cfg.recordDir req call := by
  obtain ⟨dest, hdest, hstrict, hpaths⟩ := put_paths hnames h
  have hdelete : req.method = "DELETE" → ¬ DotSlash req →
      ∀ path ∈ call.paths, StrictlyInside cfg.recordDir path :=
    fun he => absurd (hmethod.symm.trans he) (by decide)
  rcases hpaths with hpaths | hcall
  · exact ⟨fun path hpath => (hpaths path hpath).inside, fun _ => .inl hpaths, hdelete⟩
  obtain ⟨dir, seg, hsplit, hdir, -⟩ := hstrict.parent
  have hdrop : dest.dropLast = dir := by rw [hsplit, List.dropLast_concat]
  rw [hdrop] at hcall
  have hone : call.paths = [dir] := by
    rcases hcall with rfl | rfl
    · rfl
    · rfl
  refine ⟨?_, fun _ => ?_, hdelete⟩
  · simpa [hone] using hdir
  · rcases hdir.eq_or_strictly with he | hdir
    · subst he
      exact .inr ⟨hcall, raw, seg, hraw, hsplit ▸ hdest⟩
    · exact .inl (by simpa [hone] using hdir)

theorem contained_delete {cfg : Config} {req : Request} {env : FsAnswers} {raw : List Char}
    {call : FsCall} (hraw : UriComponent.decode req.pathname = some raw)
    (hmethod : req.method = "DELETE") (h : call ∈ (delete cfg env (objectRel raw)).calls) :
    Contained cfg.recordDir req call := by
  obtain ⟨hrel, dest, hdest, hpaths⟩ := delete_calls h
  refine ⟨?_, fun he => absurd (hmethod.symm.trans he) (by decide), fun _ hkey => ?_⟩
  · simpa [hpaths] using (resolve_objectRel hdest).1
  · have hne : objectRel raw ≠ ['.', '/'] := fun he => hkey ⟨raw, hraw, he⟩
    simpa [hpaths] using (resolve_objectRel hdest).2 hrel hne

/-- **Every call of every request is contained.**  The names in a directory have
no slash. -/
theorem calls_contained (cfg : Config) (req : Request) (env : FsAnswers) (o : Outcome)
    (hnames : ∀ names ∈ env.names, ∀ name ∈ names, '/' ∉ name)
    (ho : handleRecordRequest cfg req env = some o) :
    ∀ call ∈ o.calls, Contained cfg.recordDir req call := by
  intro call hcall
  rw [handleRecordRequest] at ho
  split at ho
  · obtain rfl := Option.some.inj ho
    simp [Outcome.answer] at hcall
  cases hrel : recordRel req.pathname with
  | error error =>
    rw [hrel] at ho
    obtain rfl := Option.some.inj ho
    simp [Outcome.throw] at hcall
  | ok key =>
    rw [hrel] at ho
    cases key with
    | none => simp at ho
    | some rel =>
      -- every path is resolved from the decoded key
      obtain ⟨raw, hraw, rfl⟩ : ∃ raw, UriComponent.decode req.pathname = some raw ∧
          rel = objectRel raw := by
        rw [recordRel] at hrel
        split at hrel
        · cases hrel
        next raw hraw =>
          split at hrel
          · exact ⟨raw, hraw, (Option.some.inj (Except.ok.inj hrel)).symm⟩
          · cases hrel
      dsimp only at ho
      split at ho
      · obtain rfl := Option.some.inj ho
        simp [Outcome.answer] at hcall
      split at ho
      next hput =>
        obtain rfl := Option.some.inj ho
        exact contained_put hnames hraw hput hcall
      next hput =>
      split at ho
      next hdelete =>
        obtain rfl := Option.some.inj ho
        exact contained_delete hraw hdelete hcall
      next hdelete =>
      split at ho
      · obtain rfl := Option.some.inj ho
        simp [Outcome.answer] at hcall
      obtain rfl := Option.some.inj ho
      obtain ⟨dest, hdest, hpaths⟩ := get_calls hcall
      refine ⟨?_, fun he => absurd he hput, fun he => absurd he hdelete⟩
      simpa [hpaths] using (resolve_objectRel hdest).1

/-- `PUT` of a playlist of two bytes. -/
def Request.putIndex (pathname : List Char) : Request where
  method := "PUT"
  pathname := pathname
  queryToken := none
  headerToken := none
  contentLength := some 2
  range := none

/-- A directory with a segment that the stored playlist does not list. -/
def FsAnswers.unlisted : FsAnswers where
  mkdir := true
  pipelineFailed := false
  received := 2
  renamed := true
  playlist := some []
  names := some [['a', '.', 'm', '4', 's']]
  stat := .missing
  removed := true
  read := .finished

/-- `PUT /record/d/index.m3u8` unlinks a segment next to the playlist. -/
theorem day_put_contained : ∃ o,
    handleRecordRequest ⟨[['r']], ""⟩ (.putIndex (record ++ ['/', 'd', '/'] ++ indexName))
      .unlisted = some o ∧
    .unlink [['r'], ['d'], ['a', '.', 'm', '4', 's']] ∈ o.calls ∧
    ∀ call ∈ o.calls, Contained [['r']]
      (.putIndex (record ++ ['/', 'd', '/'] ++ indexName)) call := by
  refine ⟨_, rfl, by decide, calls_contained ⟨[['r']], ""⟩ _ .unlisted _ ?_ rfl⟩
  rintro names ⟨⟩ name hname
  obtain rfl := List.mem_singleton.mp hname
  decide

theorem not_strictly_inside_self {root : Resolved} : ¬ StrictlyInside root root := by
  rintro ⟨names, he, -, hne⟩
  exact hne (List.self_eq_append_right.mp he)

/-- `PUT /record/index.m3u8` makes and lists the recording directory, and
`DELETE /record/.%2F` removes it. -/
theorem top_level_put_touches_root :
    (∃ o, handleRecordRequest ⟨[['r']], ""⟩ (.putIndex (record ++ '/' :: indexName))
      .unlisted = some o ∧ .mkdir [['r']] ∈ o.calls ∧ .readdir [['r']] ∈ o.calls ∧
      ¬ Confined [['r']] (.putIndex (record ++ '/' :: indexName)) o) ∧
    ∃ o, handleRecordRequest ⟨[['r']], ""⟩
      { Request.get (record ++ ['/', '.', '%', '2', 'F']) with method := "DELETE" }
      .sample = some o ∧ .rmdir [['r']] ∈ o.calls ∧
      ¬ Confined [['r']]
        { Request.get (record ++ ['/', '.', '%', '2', 'F']) with method := "DELETE" } o := by
  refine ⟨⟨_, rfl, by decide, by decide, fun h => ?_⟩, ⟨_, rfl, by decide, fun h => ?_⟩⟩
  · exact not_strictly_inside_self
      ((h (.mkdir [['r']]) (by decide) [['r']] (by decide)).2 (.inl rfl))
  · exact not_strictly_inside_self
      ((h (.rmdir [['r']]) (by decide) [['r']] (by decide)).2 (.inr rfl))

end RecordHttp

end IpcMini
