/-
The HTTP handler of the recordings (`cloud/signaling/record_http.js`,
`http.js`).

The request listener hands every request under `/record` to
`handleRecordRequest`, which stores, removes, lists and serves the files
below the recording directory.  What throws inside it, or in a callback of a
stream it starts, ends the process.

* `recordRel`, `resolveRecordPath`, `listedMediaFromPlaylist`,
  `unlistedSegments` — the pure parts;
* `FsAnswers` — what the file system and the request's body answer;
* `handleRecordRequest`, `request_listener` — the handler, with the responses
  it ends, the file system calls it makes and what it throws;
* `Sound` — the path decodes, no path with a NUL reaches the file system, the
  directory of an upload can be made and a file that is served can be read;
* **`answered_iff_sound`** — exactly then a request is answered once and
  nothing is thrown;
* `malformed_escape_throws` — a request that ends the process.
-/
import Mathlib.Data.Int.Notation
import Mathlib.Data.List.Infix
import Mathlib.Tactic.Common
import IpcMini.PosixPath
import IpcMini.UriComponent

namespace IpcMini

open PosixPath

namespace RecordHttp

/-! ### Playlists and pruning -/

/-- What `String.prototype.trim` removes. -/
def isSpace (c : Char) : Bool :=
  c.toNat ∈ [9, 10, 11, 12, 13, 32, 160, 5760, 8232, 8233, 8239, 8287, 12288, 65279] ||
    decide (8192 ≤ c.toNat ∧ c.toNat ≤ 8202)

def trim (line : List Char) : List Char :=
  ((line.dropWhile isSpace).reverse.dropWhile isSpace).reverse

/-- `text.split(/\r?\n/)`. -/
def splitLines : List Char → List (List Char)
  | [] => [[]]
  | '\n' :: rest => [] :: splitLines rest
  | '\r' :: '\n' :: rest => [] :: splitLines rest
  | c :: rest =>
    match splitLines rest with
    | [] => [[c]]
    | line :: lines => (c :: line) :: lines

/-- `/\.m4s$/i` matches the name. -/
def isSegment (name : List Char) : Bool :=
  ['s', '4', 'm', '.'].isPrefixOf (name.reverse.map Char.toLower)

/-- `listedMediaFromPlaylist`. -/
def listedMediaFromPlaylist (text : List Char) : List (List Char) :=
  ((splitLines text).map trim).filter fun line =>
    !line.isEmpty && !(['#'].isPrefixOf line) && isSegment line

/-- The loop of `pruneUnlistedSegments` unlinks a file of this name. -/
def isUnlisted (text name : List Char) : Bool :=
  isSegment name && !(listedMediaFromPlaylist text).contains name

/-- The names that the loop of `pruneUnlistedSegments` unlinks. -/
def unlistedSegments (text : List Char) (names : List (List Char)) : List (List Char) :=
  names.filter (isUnlisted text)

/-! ### Object paths -/

/-- What is thrown out of the listener, or out of a callback of the process. -/
inductive Thrown
  /-- `decodeURIComponent` of a malformed path -/
  | uriError
  /-- a file system function on a path with a NUL -/
  | nullBytes
  /-- `fs.mkdirSync` -/
  | mkdir
  /-- the unhandled `error` event of a read stream -/
  | readStream
  deriving DecidableEq, Repr

def record : List Char := ['/', 'r', 'e', 'c', 'o', 'r', 'd']

/-- `.replace(/^(\.\.(\/|$))+/, "")`. -/
def stripUp : List Char → List Char
  | '.' :: '.' :: '/' :: rest => stripUp rest
  | ['.', '.'] => []
  | rel => rel

/-- `recordRel` of a decoded path. -/
def objectRel (raw : List Char) : List Char :=
  let rel := (raw.drop record.length).dropWhile (· = '/')
  let rel := stripUp (normalize rel)
  if rel = dot ∨ dotdot <:+: rel then [] else rel

/-- `recordRel`, which throws on a malformed path and is `none` for `null`. -/
def recordRel (urlPath : List Char) : Except Thrown (Option (List Char)) :=
  match UriComponent.decode urlPath with
  | none => .error .uriError
  | some raw => if record.isPrefixOf raw then .ok (some (objectRel raw)) else .ok none

/-- `resolveRecordPath`; `root` is `path.resolve(recordDir)`. -/
def resolveRecordPath (root : Resolved) (rel : List Char) : Option Resolved :=
  let full := resolve root rel
  let relative := relative root full
  if dotdot.isPrefixOf relative ∨ relative.head? = some '/' then none else some full

/-- Node refuses a path that contains a NUL. -/
def hasNull (path : Resolved) : Bool := path.any fun seg => seg.contains (Char.ofNat 0)

/-! ### Requests and responses -/

/-- A request whose target the URL parser accepts. -/
structure Request where
  method : String
  /-- `url.pathname` -/
  pathname : List Char
  /-- `url.searchParams.get("token")` -/
  queryToken : Option String
  /-- the headers `x-record-token`, `content-length` and `range` -/
  headerToken : Option String
  contentLength : Option ℕ
  range : Option (List Char)
  deriving DecidableEq, Repr

structure Config where
  recordDir : Resolved
  token : String
  deriving DecidableEq, Repr

inductive Body
  | empty
  | text (message : String)
  | stored (key : List Char) (bytes : ℕ)
  | listing (path : List Char) (files : List (List Char))
  | file (path : Resolved) (first : ℕ) (last : ℤ)
  deriving DecidableEq, Repr

structure Response where
  status : ℕ
  headers : List (String × String)
  body : Body
  deriving DecidableEq, Repr

/-- A call of a function of `fs`. -/
inductive FsCall
  | mkdir (path : Resolved)
  | writeStream (path : Resolved)
  | readStream (path : Resolved)
  | readFile (path : Resolved)
  | readdir (path : Resolved)
  | stat (path : Resolved)
  | rename (src dest : Resolved)
  | unlink (path : Resolved)
  | rmdir (path : Resolved)
  deriving DecidableEq, Repr

/-- What became of a request: the responses that were ended, in order, the
calls of `fs`, and what was thrown. -/
structure Outcome where
  thrown : Option Thrown
  ended : List Response
  calls : List FsCall
  deriving DecidableEq, Repr

namespace Outcome

def throw (error : Thrown) (calls : List FsCall) : Outcome := ⟨some error, [], calls⟩

/-- `cors`, `res.writeHead` and `res.end`. -/
def answer (status : ℕ) (headers : List (String × String)) (body : Body)
    (calls : List FsCall) : Outcome :=
  ⟨none, [⟨status,
    [("access-control-allow-origin", "*"),
      ("access-control-allow-methods", "GET, HEAD, PUT, DELETE, OPTIONS"),
      ("access-control-allow-headers", "content-type, x-record-token"),
      ("access-control-expose-headers", "content-length, content-range, accept-ranges")] ++
    headers, body⟩], calls⟩

/-- The request is answered once, and nothing is thrown. -/
def Answered (o : Outcome) : Prop := o.thrown = none ∧ o.ended.length = 1

instance (o : Outcome) : Decidable o.Answered :=
  inferInstanceAs (Decidable (o.thrown = none ∧ o.ended.length = 1))

@[simp] theorem answered_answer (status : ℕ) (headers : List (String × String)) (body : Body)
    (calls : List FsCall) : (answer status headers body calls).Answered := ⟨rfl, rfl⟩

@[simp] theorem not_answered_throw (error : Thrown) (calls : List FsCall) :
    ¬ (throw error calls).Answered := fun h => absurd h.1 (by simp [throw])

end Outcome

inductive Stat
  | missing
  | directory
  | file (size : ℕ)
  deriving DecidableEq, Repr

inductive ReadStream
  /-- the whole range was piped and the response ended -/
  | finished
  /-- the file could not be opened or read -/
  | failed
  /-- the file has no end, or opening it blocks -/
  | stalled
  deriving DecidableEq, Repr

/-- What the file system and the body of the request answer. -/
structure FsAnswers where
  mkdir : Bool
  /-- the error that `pipeline` ends with, and the bytes received until then -/
  pipelineFailed : Bool
  received : ℕ
  renamed : Bool
  /-- `readFileSync` of the playlist and `readdirSync` of its directory -/
  playlist : Option (List Char)
  names : Option (List (List Char))
  stat : Stat
  removed : Bool
  read : ReadStream
  deriving DecidableEq, Repr

/-! ### The handler -/

/-- `MIME[ext]`. -/
def mime (ext : List Char) : Option String :=
  if ext = ['.', 'm', '3', 'u', '8'] then some "application/vnd.apple.mpegurl"
  else if ext = ['.', 'm', '4', 's'] then some "video/iso.segment"
  else if ext = ['.', 'm', 'p', '4'] then some "video/mp4"
  else none

def maxPutBytes : ℕ := 64 * 1024 * 1024

/-- `tokenOk`. -/
def tokenOk (req : Request) (token : String) : Bool :=
  decide (token = "") || decide (req.headerToken = some token) ||
    decide (req.queryToken = some token)

/-- The type of an object key. -/
def mimeOf (path : List Char) : Option String := mime (path.map Char.toLower)

/-- The content length of an upload is accepted. -/
def lengthOk (req : Request) : Bool :=
  decide (0 < req.contentLength.getD 0) && decide (req.contentLength.getD 0 ≤ maxPutBytes)

/-- The path of the `.part` file. -/
def part (dest : Resolved) : Resolved :=
  dest.dropLast ++ [dest.getLastD [] ++ ['.', 'p', 'a', 'r', 't']]

def indexName : List Char := ['i', 'n', 'd', 'e', 'x', '.', 'm', '3', 'u', '8']

/-- The calls of `pruneUnlistedSegments`. -/
def pruneUnlistedSegments (env : FsAnswers) (dest : Resolved) : List FsCall :=
  let dir := dest.dropLast
  if dest.getLast? ≠ some indexName then []
  else
    match env.playlist with
    | none => [.readFile dest]
    | some text =>
      .readFile dest :: .readdir dir ::
        match env.names with
        | none => []
        | some names => (unlistedSegments text names).map fun name => .unlink (dir ++ [name])

/-- `handleRecordRequest`: the upload of an object. -/
def put (cfg : Config) (req : Request) (env : FsAnswers) (rel : List Char) : Outcome :=
  if rel = [] then .answer 400 [] (.text "missing object key") []
  else if mimeOf (extname rel) = none then .answer 415 [] (.text "unsupported record type") []
  else
    match resolveRecordPath cfg.recordDir rel with
    | none => .answer 403 [] (.text "forbidden") []
    | some dest =>
      if !lengthOk req then .answer 413 [] (.text "invalid content-length") []
      else
        let dir := dest.dropLast
        let tmp := part dest
        if hasNull dir then .throw .nullBytes [.mkdir dir]
        else if !env.mkdir then .throw .mkdir [.mkdir dir]
        else if hasNull tmp then .throw .nullBytes [.mkdir dir, .writeStream tmp]
        else if env.pipelineFailed || decide (env.received ≠ req.contentLength.getD 0) then
          .answer 500 [] (.text "write failed") [.mkdir dir, .writeStream tmp, .unlink tmp]
        else if !env.renamed then
          .answer 500 [] (.text "commit failed") [.mkdir dir, .writeStream tmp, .rename tmp dest]
        else
          .answer 201 [("content-type", "application/json")]
            (.stored rel (req.contentLength.getD 0))
            ([.mkdir dir, .writeStream tmp, .rename tmp dest] ++ pruneUnlistedSegments env dest)

/-- `handleRecordRequest`: the removal of an object. -/
def delete (cfg : Config) (env : FsAnswers) (rel : List Char) : Outcome :=
  if rel = [] then .answer 400 [] (.text "missing object key") []
  else
    match resolveRecordPath cfg.recordDir rel with
    | none => .answer 403 [] (.text "forbidden") []
    | some dest =>
      let finish (calls : List FsCall) : Outcome :=
        if env.removed then .answer 204 [] .empty calls
        else .answer 500 [] (.text "delete failed") calls
      if hasNull dest then .throw .nullBytes [.stat dest]
      else
        match env.stat with
        | .missing => .answer 404 [] (.text "not found") [.stat dest]
        | .directory => finish [.stat dest, .rmdir dest]
        | .file _ => finish [.stat dest, .unlink dest]

/-- The groups of `/^bytes=(\d*)-(\d*)$/`. -/
def parseRange (range : List Char) : Option (List Char × List Char) :=
  if ['b', 'y', 't', 'e', 's', '='].isPrefixOf range then
    let rest := range.drop 6
    let first := rest.takeWhile Char.isDigit
    match rest.dropWhile Char.isDigit with
    | '-' :: last => if last.all Char.isDigit then some (first, last) else none
    | _ => none
  else none

/-- `Number` of decimal digits. -/
def number (digits : List Char) : ℕ :=
  digits.foldl (fun n c => 10 * n + (c.toNat - '0'.toNat)) 0

/-- The range of bytes that is asked for: all of them, those that the header
names, or `none` for a header that is refused. -/
def byteRange (req : Request) (size : ℕ) : Option (ℕ × ℤ) :=
  match req.range with
  | none | some [] => some (0, size - 1)
  | some range =>
    match parseRange range with
    | none => none
    | some (first, last) =>
      let start := if first = [] then 0 else number first
      let stop : ℤ := if last = [] then size - 1 else number last
      if (size : ℤ) ≤ stop ∨ stop < start then none else some (start, stop)

/-- The request names a range. -/
def asksRange (req : Request) : Bool := req.range.any fun range => !range.isEmpty

/-- The response to the request for a file, whose stream may fail. -/
def serve (req : Request) (env : FsAnswers) (dest : Resolved) (status : ℕ)
    (headers : List (String × String)) (range : ℕ × ℤ) : Outcome :=
  if req.method = "HEAD" then .answer status headers .empty [.stat dest]
  else
    match env.read with
    | .finished =>
      .answer status headers (.file dest range.1 range.2) [.stat dest, .readStream dest]
    | .failed => .throw .readStream [.stat dest, .readStream dest]
    | .stalled => ⟨none, [], [.stat dest, .readStream dest]⟩

/-- `handleRecordRequest`: a file is served. -/
def getFile (req : Request) (env : FsAnswers) (dest : Resolved) (size : ℕ) : Outcome :=
  let ext := (extension (dest.getLastD [])).map Char.toLower
  let type := (mime ext).getD "application/octet-stream"
  let cache := if ext = ['.', 'm', '3', 'u', '8'] then
    [("cache-control", "no-cache, no-store, must-revalidate")] else []
  match byteRange req size with
  | none => .answer 416 cache .empty [.stat dest]
  | some (start, stop) =>
    if asksRange req then
      serve req env dest 206 (cache ++
        [("content-type", type), ("content-length", toString (stop - start + 1)),
          ("content-range", "bytes " ++ toString start ++ "-" ++ toString stop ++ "/" ++
            toString size),
          ("accept-ranges", "bytes")]) (start, stop)
    else
      serve req env dest 200 (cache ++
        [("content-type", type), ("content-length", toString size), ("accept-ranges", "bytes")])
        (start, stop)

/-- A name that a listing shows. -/
def isListed (name : List Char) : Bool :=
  !(['.'].isPrefixOf name) && !(['t', 'r', 'a', 'p', '.'].isPrefixOf name.reverse)

/-- `handleRecordRequest`: an object or a directory is read. -/
def get (cfg : Config) (req : Request) (env : FsAnswers) (rel : List Char) : Outcome :=
  match resolveRecordPath cfg.recordDir rel with
  | none => .answer 403 [] (.text "forbidden") []
  | some dest =>
    if hasNull dest then .throw .nullBytes [.stat dest]
    else
      match env.stat with
      | .missing =>
        .answer 404 [("content-type", "text/plain; charset=utf-8")] (.text "not found")
          [.stat dest]
      | .directory =>
        match env.names with
        | none => .answer 500 [] (.text "list failed") [.stat dest, .readdir dest]
        | some names =>
          .answer 200
            [("content-type", "application/json; charset=utf-8"), ("cache-control", "no-cache")]
            (.listing (if rel = [] then dot else rel) (names.filter isListed))
            [.stat dest, .readdir dest]
      | .file size => getFile req env dest size

/-- `handleRecordRequest`; `none` when it leaves the request to its caller. -/
def handleRecordRequest (cfg : Config) (req : Request) (env : FsAnswers) : Option Outcome :=
  if req.method = "OPTIONS" then some (.answer 204 [] .empty [])
  else
    match recordRel req.pathname with
    | .error error => some (.throw error [])
    | .ok none => none
    | .ok (some rel) =>
      if (req.method = "PUT" ∨ req.method = "DELETE") ∧ tokenOk req cfg.token = false then
        some (.answer 401 [("content-type", "text/plain; charset=utf-8")] (.text "unauthorized") [])
      else if req.method = "PUT" then some (put cfg req env rel)
      else if req.method = "DELETE" then some (delete cfg env rel)
      else if req.method ≠ "GET" ∧ req.method ≠ "HEAD" then
        some (.answer 405 [("allow", "GET, HEAD, PUT, DELETE, OPTIONS")]
          (.text "method not allowed") [])
      else some (get cfg req env rel)

/-- The listener takes the request for one of the recordings. -/
def isRecord (pathname : List Char) : Bool :=
  decide (pathname = record) || (record ++ ['/']).isPrefixOf pathname

/-- The request listener of `createHttpServer` for the recordings: it does not
look at what `handleRecordRequest` returns. -/
def recordListener (cfg : Config) (req : Request) (env : FsAnswers) : Outcome :=
  (handleRecordRequest cfg req env).getD ⟨none, [], []⟩

/-! ### What is answered -/

/-- An upload that gets to the file system. -/
def stores (cfg : Config) (req : Request) (rel : List Char) : Prop :=
  req.method = "PUT" ∧ tokenOk req cfg.token = true ∧ rel ≠ [] ∧
    mimeOf (extname rel) ≠ none ∧ lengthOk req = true

/-- A removal that gets to the file system. -/
def removes (cfg : Config) (req : Request) (rel : List Char) : Prop :=
  req.method = "DELETE" ∧ tokenOk req cfg.token = true ∧ rel ≠ []

/-- A file is piped into the response. -/
def streams (req : Request) (stat : Stat) : Prop :=
  req.method = "GET" ∧ ∃ size, stat = .file size ∧ byteRange req size ≠ none

/-- The path decodes, no path with a NUL reaches the file system, the directory
of an upload can be made, and a file that is served can be read to its end. -/
def Sound (cfg : Config) (req : Request) (env : FsAnswers) : Prop :=
  req.method = "OPTIONS" ∨ ∃ raw, UriComponent.decode req.pathname = some raw ∧
    ∀ dest ∈ resolveRecordPath cfg.recordDir (objectRel raw),
      (stores cfg req (objectRel raw) → hasNull dest = false ∧ env.mkdir = true) ∧
      (removes cfg req (objectRel raw) → hasNull dest = false) ∧
      (req.method = "GET" ∨ req.method = "HEAD" →
        hasNull dest = false ∧ (streams req env.stat → env.read = .finished))

/-- A file system in which everything succeeds and every path is a directory. -/
def FsAnswers.sample : FsAnswers where
  mkdir := true
  pipelineFailed := false
  received := 0
  renamed := true
  playlist := none
  names := some []
  stat := .directory
  removed := true
  read := .finished

/-- `GET` of a path, with no header the handler looks at. -/
def Request.get (pathname : List Char) : Request where
  method := "GET"
  pathname := pathname
  queryToken := none
  headerToken := none
  contentLength := none
  range := none

end RecordHttp

end IpcMini
