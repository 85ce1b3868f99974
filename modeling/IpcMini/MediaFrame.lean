/-
Frames of the media bus (`include/media/media_format.h`, `media_frame.h`).

Frames are shared by pointer: `addr` is the address of the frame object, so
that two distinct objects are distinct values even when their contents agree.
-/
import Mathlib.Data.Int.Notation
import Mathlib.Data.List.Basic

namespace IpcMini

/-- `media::MediaType`. -/
inductive MediaType
  | Video
  | Audio
  deriving DecidableEq, Repr

/-- `media::Codec`. -/
inductive Codec
  | Unknown
  | H264
  | H265
  | AAC
  | G711A
  | G711U
  deriving DecidableEq, Repr

/-- `media::FrameKind`: `Key` is independently decodable, `Inter` is
forward-predicted. -/
inductive FrameKind
  | Unknown
  | Key
  | Inter
  | Audio
  deriving DecidableEq, Repr

/-- `media::MediaFrame`. -/
structure MediaFrame where
  addr : ℕ
  type : MediaType
  codec : Codec
  streamId : ℤ
  kind : FrameKind
  codecConfig : Bool
  ptsMs : ℤ
  dtsMs : ℤ
  payload : List UInt8
  deriving DecidableEq, Repr

namespace MediaFrame

/-- `MediaFrame::keyframe`. -/
def keyframe (f : MediaFrame) : Bool := f.kind = .Key

/-- `MediaFrame::size`. -/
def size (f : MediaFrame) : ℕ := f.payload.length

/-- A video frame of an encoder, for concrete runs: `bytes` bytes captured at
`pts`. -/
def video (addr : ℕ) (kind : FrameKind) (pts : ℤ) (bytes : ℕ) : MediaFrame where
  addr := addr
  type := .Video
  codec := .H264
  streamId := 0
  kind := kind
  codecConfig := false
  ptsMs := pts
  dtsMs := pts
  payload := List.replicate bytes 0

end MediaFrame

end IpcMini
