/-
The kept segments of a recorder and their files
(`src/record/segment_recorder.cpp`).

The recorder keeps a list of its closed segments, oldest first, and the
playlist of the current day.  It prunes the list after each new segment: the
oldest segment loses its file, its entry in its day's playlist and its object
on the server.  What this does to the disk and to the upload queue is recorded
in order in `effects`, together with the changes of the list itself and marks
around the places where a playlist is written anew.

* `rememberClosedSegment`, `overRetain`, `pruneRetained`,
  `rewriteDayPlaylist`, `uploadRelative`, `deleteRelative`;
* `closeSegment`, `endPlaylist` — the storage half of `close_current_segment`;
* `beginPlaylist`, `listDay` — the storage half of a session start.
-/
import IpcMini.HlsPlaylist
import IpcMini.RecordConfig

namespace IpcMini

/-- `SegmentRecorder::KeptSegment`; `filename` and `day` are those of the path. -/
structure KeptSegment where
  path : File
  durationSec : ℚ
  bytes : ℕ
  deriving DecidableEq, Repr

namespace KeptSegment

def filename (item : KeptSegment) : String := item.path.name

def day (item : KeptSegment) : String := item.path.day

end KeptSegment

/-- What the recorder does to its list, to the disk and to the upload queue. -/
inductive Effect
  | pushKept (item : KeptSegment)
  | popKept
  /-- the playlist's file gets the playlist's present text -/
  | rewrite (playlist : HlsPlaylist)
  | unlink (file : File)
  | rmdir (day : String)
  /-- `uploader_->enqueue` -/
  | enqueue (file : File)
  /-- `uploader_->enqueue_delete` -/
  | enqueueDelete (file : File)
  /-- the code is about to write the playlist of a day anew, or done with it -/
  | startListing (day : String)
  | endListing
  deriving DecidableEq, Repr

/-- The members of `SegmentRecorder` that concern closed segments. -/
structure Archive where
  config : RecordConfig
  kept : List KeptSegment
  playlist : HlsPlaylist
  currentDay : String
  /-- the media files on the disk -/
  mediaFiles : List File
  effects : List Effect
  deriving DecidableEq, Repr

namespace Archive

def emit (a : Archive) (e : Effect) : Archive := { a with effects := a.effects ++ [e] }

/-- Change the playlist by an operation that may rewrite its file. -/
def updatePlaylist (a : Archive) (op : HlsPlaylist × Bool) : Archive :=
  if op.2 then { a with playlist := op.1 }.emit (.rewrite op.1)
  else { a with playlist := op.1 }

/-- `upload_relative`. -/
def uploadRelative (a : Archive) (file : File) : Archive :=
  if a.config.uploadUrl = "" then a else a.emit (.enqueue file)

/-- `delete_relative`. -/
def deleteRelative (a : Archive) (file : File) : Archive :=
  if a.config.uploadUrl = "" then a else a.emit (.enqueueDelete file)

/-- `remember_closed_segment`; `bytes` is the answer of `stat`, 0 if it fails. -/
def rememberClosedSegment (a : Archive) (path : File) (durationSec : ℚ) (bytes : ℕ) :
    Archive :=
  let item : KeptSegment := ⟨path, durationSec, bytes⟩
  { a with kept := a.kept ++ [item] }.emit (.pushKept item)

/-- `over_retain`. -/
def overRetain (config : RecordConfig) (kept : List KeptSegment) : Bool :=
  if kept.length ≤ 1 then false
  else
    let duration := (kept.map KeptSegment.durationSec).foldl (· + ·) 0
    let bytes := (kept.map KeptSegment.bytes).foldl (· + ·) 0
    let maxBytes := if 0 < config.maxBytesMb then config.maxBytesMb.toNat * 1024 * 1024 else 0
    if 0 < config.retainSec ∧ (config.retainSec : ℚ) < duration then true
    else if 0 < maxBytes ∧ maxBytes < bytes then true
    else false

/-- The kept segments of a day. -/
def ofDay (kept : List KeptSegment) (day : String) : List KeptSegment :=
  kept.filter fun item => item.day = day

/-- The loops that append the kept segments of a day to a playlist, with the
rewrites they make. -/
def appendAll (p : HlsPlaylist) (items : List KeptSegment) : HlsPlaylist × List Effect :=
  items.foldl (fun acc item =>
    let op := acc.1.append item.filename item.durationSec
    (op.1, if op.2 then acc.2 ++ [Effect.rewrite op.1] else acc.2)) (p, [])

/-- `rewrite_day_playlist`: the list is rebuilt entry by entry in a playlist of
its own. -/
def rewriteDayPlaylist (a : Archive) (day : String) (ended : Bool) : Archive :=
  if day = "" ∨ (day = a.currentDay ∧ a.playlist.active) then a
  else
    let start := HlsPlaylist.begin (.index day) a.config.segmentSec
    let (playlist, rewrites) := appendAll start (ofDay a.kept day)
    let last := if ended && playlist.finish.2 then [Effect.rewrite playlist.finish.1] else []
    { a with
      effects := a.effects ++ [Effect.startListing day, .rewrite start] ++ rewrites ++
        [Effect.endListing] ++ last }.uploadRelative (.index day)

/-- One turn of the loop of `prune_retained`, for the oldest segment. -/
def pruneFront (a : Archive) (old : KeptSegment) (rest : List KeptSegment) : Archive :=
  let a := { a with kept := rest }.emit .popKept
  let a := a.updatePlaylist (a.playlist.dropFrontIf old.filename)
  let a := { a with mediaFiles := a.mediaFiles.filter (· ≠ old.path) }.emit (.unlink old.path)
  let a := a.deleteRelative old.path
  if old.day = a.currentDay then a
  else if !a.mediaFiles.any (fun file => file.day = old.day) then
    let a := (a.emit (.unlink (.init old.day))).emit (.unlink (.index old.day))
    let a := (a.deleteRelative (.init old.day)).deleteRelative (.index old.day)
    a.emit (.rmdir old.day)
  else a.rewriteDayPlaylist old.day true

/-- `prune_retained`, on the segments that are left to look at. -/
def pruneLoop (a : Archive) : List KeptSegment → Archive
  | [] => a
  | old :: rest =>
    if overRetain a.config (old :: rest) then pruneLoop (a.pruneFront old rest) rest else a

/-- `prune_retained`. -/
def pruneRetained (a : Archive) : Archive := a.pruneLoop a.kept

/-- What `close_current_segment` does when the muxer has closed a segment. -/
def closeSegment (a : Archive) (path : File) (duration : ℚ) (bytes : ℕ) : Archive :=
  let a := a.updatePlaylist (a.playlist.append path.name duration)
  let a := a.rememberClosedSegment path duration bytes
  let a := a.uploadRelative path
  let a := a.pruneRetained
  match a.playlist.path with
  | some index => a.uploadRelative index
  | none => a

/-- What `close_current_segment` does at the end of a day or session. -/
def endPlaylist (a : Archive) : Archive :=
  match a.playlist.path with
  | some index => (a.updatePlaylist a.playlist.finish).uploadRelative index
  | none => a

/-- `playlist_.begin` for a day, whose rewrite may fail. -/
def beginPlaylist (a : Archive) (day : String) (rewritten : Bool) : Archive :=
  let playlist := HlsPlaylist.begin (.index day) a.config.segmentSec
  if rewritten then
    { a with
      playlist := playlist
      effects := a.effects ++ [Effect.startListing day, .rewrite playlist] }
  else { a with playlist := playlist }

/-- The kept segments of the day are listed again, and the session's files are
uploaded. -/
def listDay (a : Archive) (day : String) : Archive :=
  let (playlist, rewrites) := appendAll a.playlist (ofDay a.kept day)
  let a := { a with
    currentDay := day
    playlist := playlist
    effects := a.effects ++ rewrites ++ [Effect.endListing] }
  match a.playlist.path with
  | some index => (a.uploadRelative (.init day)).uploadRelative index
  | none => a.uploadRelative (.init day)

end Archive

end IpcMini
