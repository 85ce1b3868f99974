/-
Deep copies of encoder views (`device_adapter/src/encoded_frame.cpp`,
`src/media/media_frame.cpp`).

An encoder hands out chunks that it owns; `copy_encoded_frame` copies them into a
frame of its own and notes for video where each chunk went.  The largest value of
`size_t` and the outcome of the allocation of the payload are arguments.

* `EncodedChunkView`, `EncodedFrameView` — what the encoder hands out;
* `create`, `addNalu` — the frame, with the views of its NAL units;
* `copyEncodedFrame` — the two loops;
* `totalSize_cases`, `copyChunks_spec` — what a loop does;
* `Tiles` — views that follow each other without a gap;
* **`copied_or_refused`** — a view is refused for the stated reasons alone, and
  otherwise copied as it is.
-/
import IpcMini.Buffers
import IpcMini.MediaFrame

namespace IpcMini

open Buffers

/-- `media::NaluView`. -/
structure NaluView where
  offset : ℕ
  size : ℕ
  deriving DecidableEq, Repr

/-- A `media::MediaFrame` with its `nalus_`. -/
structure NaluFrame extends MediaFrame where
  nalus : List NaluView
  deriving DecidableEq, Repr

/-- `new` throws `std::bad_alloc`, or the vector `std::length_error`. -/
inductive BadAlloc
  | badAlloc
  deriving DecidableEq, Repr

namespace NaluFrame

/-- `MediaFrame::create`, with a payload of zeros. -/
def create (room : Bool) (addr : ℕ) (type : MediaType) (codec : Codec) (streamId : ℤ)
    (payloadSize : ℕ) : Except BadAlloc NaluFrame :=
  if room then
    .ok ⟨⟨addr, type, codec, streamId, .Unknown, false, 0, 0, List.replicate payloadSize 0⟩, []⟩
  else .error .badAlloc

/-- `MediaFrame::add_nalu`. -/
def addNalu (f : NaluFrame) (offset size : ℕ) : NaluFrame :=
  if offset > f.size ∨ size > f.size - offset then f
  else { f with nalus := f.nalus ++ [⟨offset, size⟩] }

end NaluFrame

/-- `EncodedChunkView`: a pointer that is null or points to `size` bytes. -/
structure EncodedChunkView where
  data : Option (List UInt8)
  size : ℕ
  readable : ∀ bytes ∈ data, bytes.length = size
  deriving DecidableEq, Repr

/-- The bytes that the chunk points to. -/
def EncodedChunkView.bytes (chunk : EncodedChunkView) : List UInt8 := chunk.data.getD []

structure EncodedFrameView where
  type : MediaType
  codec : Codec
  kind : FrameKind
  streamId : ℤ
  ptsMs : ℤ
  dtsMs : ℤ
  chunks : List EncodedChunkView
  deriving DecidableEq, Repr

def videoCodec (codec : Codec) : Bool := codec = .H264 || codec = .H265

def audioCodec (codec : Codec) : Bool := codec = .AAC || codec = .G711A || codec = .G711U

/-- The first loop of `copy_encoded_frame`; `none` is its early return. -/
def totalSize (sizeMax : ℕ) : ℕ → List EncodedChunkView → Option ℕ
  | total, [] => some total
  | total, chunk :: chunks =>
    if chunk.data.isNone || chunk.size = 0 || decide (chunk.size > sizeMax - total) then none
    else totalSize sizeMax (total + chunk.size) chunks

/-- The second loop of `copy_encoded_frame`. -/
def copyChunks : NaluFrame → ℕ → List EncodedChunkView → NaluFrame
  | frame, _, [] => frame
  | frame, offset, chunk :: chunks =>
    let frame := { frame with payload := memcpy frame.payload offset chunk.bytes }
    let frame := if frame.type = .Video then frame.addNalu offset chunk.size else frame
    copyChunks frame (offset + chunk.size) chunks

def copyEncodedFrame (sizeMax : ℕ) (room : Bool) (addr : ℕ) (source : EncodedFrameView) :
    Except BadAlloc (Option NaluFrame) :=
  if (source.type = .Video && !videoCodec source.codec) ||
      (source.type = .Audio && !audioCodec source.codec) then .ok none
  else
    match totalSize sizeMax 0 source.chunks with
    | none => .ok none
    | some total =>
      if total = 0 then .ok none
      else do
        let frame ← NaluFrame.create room addr source.type source.codec source.streamId total
        let frame := { frame with
          kind := source.kind, ptsMs := source.ptsMs, dtsMs := source.dtsMs }
        return some (copyChunks frame 0 source.chunks)

/-! ### The loops -/

/-- The sizes of the chunks together. -/
def chunkSizes (chunks : List EncodedChunkView) : ℕ := (chunks.map EncodedChunkView.size).sum

/-- A chunk that is null or empty. -/
def EncodedChunkView.Missing (chunk : EncodedChunkView) : Prop :=
  chunk.data = none ∨ chunk.size = 0

/-- The bytes of the chunks, one behind the other. -/
def EncodedFrameView.bytes (source : EncodedFrameView) : List UInt8 :=
  source.chunks.flatMap EncodedChunkView.bytes

variable {sizeMax : ℕ} {chunk : EncodedChunkView} {chunks : List EncodedChunkView}

theorem length_chunk_bytes (h : ¬ chunk.Missing) : chunk.bytes.length = chunk.size := by
  cases hdata : chunk.data with
  | none => exact absurd (.inl hdata) h
  | some bytes =>
    rw [EncodedChunkView.bytes, hdata]
    exact chunk.readable bytes hdata

theorem length_chunks_bytes (h : ∀ chunk ∈ chunks, ¬ chunk.Missing) :
    (chunks.flatMap EncodedChunkView.bytes).length = chunkSizes chunks := by
  induction chunks with
  | nil => rfl
  | cons chunk chunks ih =>
    rw [List.flatMap_cons, List.length_append, length_chunk_bytes (h _ List.mem_cons_self),
      ih fun c hc => h c (List.mem_cons_of_mem _ hc)]
    simp [chunkSizes]

/-- **The first loop** returns early at a chunk that is missing or does not fit, and
else adds up the sizes. -/
theorem totalSize_cases (chunks : List EncodedChunkView) (total : ℕ) (htotal : total ≤ sizeMax) :
    (totalSize sizeMax total chunks = none ∧
      ((∃ chunk ∈ chunks, chunk.Missing) ∨ sizeMax < total + chunkSizes chunks)) ∨
    (totalSize sizeMax total chunks = some (total + chunkSizes chunks) ∧
      (∀ chunk ∈ chunks, ¬ chunk.Missing) ∧ total + chunkSizes chunks ≤ sizeMax) := by
  induction chunks generalizing total with
  | nil => exact .inr ⟨rfl, nofun, htotal⟩
  | cons chunk chunks ih =>
    have hsum : chunkSizes (chunk :: chunks) = chunk.size + chunkSizes chunks := by
      simp [chunkSizes]
    rw [totalSize, hsum]
    -- the loop looks for a missing chunk first, and then whether there is room for it
    by_cases hmissing : chunk.Missing
    · have hcond : (chunk.data.isNone || decide (chunk.size = 0)) = true := by
        rcases hmissing with hnone | hzero
        · simp [hnone]
        · simp [hzero]
      rw [hcond, Bool.true_or, if_pos rfl]
      exact .inl ⟨rfl, .inl ⟨chunk, List.mem_cons_self, hmissing⟩⟩
    have hcond : (chunk.data.isNone || decide (chunk.size = 0)) = false := by
      rw [EncodedChunkView.Missing, not_or] at hmissing
      simp [hmissing.2, Option.isSome_iff_ne_none.mpr hmissing.1]
    rw [hcond, Bool.false_or]
    by_cases hroom : chunk.size > sizeMax - total
    · rw [if_pos (by simpa using hroom)]
      refine .inl ⟨rfl, .inr ?_⟩
      omega
    rw [if_neg (by simpa using hroom), ← Nat.add_assoc]
    rcases ih (total + chunk.size) (by omega) with ⟨hnone, hwhy⟩ | ⟨hsome, hall, hle⟩
    · refine .inl ⟨hnone, hwhy.imp_left ?_⟩
      rintro ⟨c, hc, hmiss⟩
      exact ⟨c, List.mem_cons_of_mem _ hc, hmiss⟩
    · refine .inr ⟨hsome, fun c hc => ?_, hle⟩
      rcases List.mem_cons.mp hc with rfl | hc
      · exact hmissing
      · exact hall c hc

/-- Views that begin at `start`, follow each other without a gap and end at `stop`. -/
def Tiles : ℕ → ℕ → List NaluView → Prop
  | start, stop, [] => start = stop
  | start, stop, view :: views => view.offset = start ∧ Tiles (start + view.size) stop views

/-- The view of a payload is the chunk. -/
def Shows (payload : List UInt8) (view : NaluView) (chunk : EncodedChunkView) : Prop :=
  view.size = chunk.size ∧ window payload view.offset view.size = chunk.bytes

/-- The views that the loop notes down. -/
def views : ℕ → List EncodedChunkView → List NaluView
  | _, [] => []
  | offset, chunk :: chunks => ⟨offset, chunk.size⟩ :: views (offset + chunk.size) chunks

theorem tiles_views (offset : ℕ) (chunks : List EncodedChunkView) :
    Tiles offset (offset + chunkSizes chunks) (views offset chunks) := by
  induction chunks generalizing offset with
  | nil => rfl
  | cons chunk chunks ih =>
    refine ⟨rfl, ?_⟩
    have hsum : chunkSizes (chunk :: chunks) = chunk.size + chunkSizes chunks := by
      simp [chunkSizes]
    rw [hsum, ← Nat.add_assoc]
    exact ih (offset + chunk.size)

/-- In the bytes of all chunks behind `front` each view is its chunk. -/
theorem shows_views (front : List UInt8) (h : ∀ chunk ∈ chunks, ¬ chunk.Missing) :
    List.Forall₂ (Shows (front ++ chunks.flatMap EncodedChunkView.bytes))
      (views front.length chunks) chunks := by
  induction chunks generalizing front with
  | nil => exact .nil
  | cons chunk chunks ih =>
    have hlen := length_chunk_bytes (h _ List.mem_cons_self)
    refine .cons ⟨rfl, ?_⟩ ?_
    · show window _ front.length chunk.size = chunk.bytes
      rw [List.flatMap_cons, ← hlen]
      exact window_append front chunk.bytes _
    · -- for the later views the chunk is a part of what is in front
      have hrest := ih (front ++ chunk.bytes) fun c hc => h c (List.mem_cons_of_mem _ hc)
      rwa [List.append_assoc, List.length_append, hlen] at hrest

/-- **The second loop** copies the chunks behind `offset`, and every view of a video
frame lies in the payload. -/
theorem copyChunks_spec (frame : NaluFrame) {offset : ℕ}
    (h : ∀ chunk ∈ chunks, ¬ chunk.Missing) (hroom : offset + chunkSizes chunks ≤ frame.size) :
    copyChunks frame offset chunks =
      { frame with
        payload := memcpy frame.payload offset (chunks.flatMap EncodedChunkView.bytes)
        nalus := frame.nalus ++ (if frame.type = .Video then views offset chunks else []) } := by
  induction chunks generalizing frame offset with
  | nil => simp [copyChunks, views]
  | cons chunk chunks ih =>
    have hlen := length_chunk_bytes (h _ List.mem_cons_self)
    have hsum : chunkSizes (chunk :: chunks) = chunk.size + chunkSizes chunks := by
      simp [chunkSizes]
    rw [hsum] at hroom
    have hsize : (memcpy frame.payload offset chunk.bytes).length = frame.size :=
      length_memcpy (by rw [hlen]; exact Nat.le_trans (by omega) hroom)
    have hoffset : offset ≤ frame.payload.length := Nat.le_trans (by omega) hroom
    have hcopy := memcpy_append hoffset chunk.bytes (chunks.flatMap EncodedChunkView.bytes)
    rw [hlen] at hcopy
    rw [copyChunks]
    dsimp only
    by_cases hvideo : frame.type = .Video
    · -- the bounds check of `add_nalu` passes
      rw [if_pos hvideo, if_pos hvideo, NaluFrame.addNalu, if_neg, ih]
      · simp [hcopy, hvideo, views]
      · exact fun c hc => h c (List.mem_cons_of_mem _ hc)
      · show offset + chunk.size + chunkSizes chunks ≤
          (memcpy frame.payload offset chunk.bytes).length
        omega
      · show ¬ (offset > (memcpy frame.payload offset chunk.bytes).length ∨ chunk.size >
          (memcpy frame.payload offset chunk.bytes).length - offset)
        omega
    · rw [if_neg hvideo, if_neg hvideo, ih]
      · simp [hcopy, hvideo]
      · exact fun c hc => h c (List.mem_cons_of_mem _ hc)
      · show offset + chunk.size + chunkSizes chunks ≤
          (memcpy frame.payload offset chunk.bytes).length
        omega

/-! ### The copy -/

/-- Why a view is refused: its codec is none of its type, it has no chunks, a chunk
is null or empty, or the sizes exceed `size_t`. -/
def EncodedFrameView.Refused (source : EncodedFrameView) (sizeMax : ℕ) : Prop :=
  (source.type = .Video ∧ videoCodec source.codec = false) ∨
  (source.type = .Audio ∧ audioCodec source.codec = false) ∨
  source.chunks = [] ∨
  (∃ chunk ∈ source.chunks, chunk.Missing) ∨
  sizeMax < chunkSizes source.chunks

/-- The frame is what the view says it is and has the bytes of the chunks, and for video
one view for each chunk, which shows it. -/
structure Copied (source : EncodedFrameView) (frame : NaluFrame) : Prop where
  described : frame.type = source.type ∧ frame.codec = source.codec ∧ frame.kind = source.kind ∧
    frame.streamId = source.streamId ∧ frame.ptsMs = source.ptsMs ∧
    frame.dtsMs = source.dtsMs
  payload : frame.payload = source.bytes
  tiles : source.type = .Video → Tiles 0 frame.size frame.nalus
  shows : source.type = .Video →
    List.Forall₂ (Shows frame.payload) frame.nalus source.chunks

/-- What is made of a view whose chunks are all there. -/
theorem copy_of_total {source : EncodedFrameView} (room : Bool) (addr : ℕ)
    (hcodec : ((source.type = .Video && !videoCodec source.codec) ||
      (source.type = .Audio && !audioCodec source.codec)) = false)
    (hchunks : source.chunks ≠ []) (hpresent : ∀ chunk ∈ source.chunks, ¬ chunk.Missing)
    (hsizes : chunkSizes source.chunks ≤ sizeMax) :
    copyEncodedFrame sizeMax room addr source =
      if room then .ok (some ⟨⟨addr, source.type, source.codec, source.streamId, source.kind, false,
        source.ptsMs, source.dtsMs, source.bytes⟩,
        if source.type = .Video then views 0 source.chunks else []⟩)
      else .error .badAlloc := by
  have hlen := length_chunks_bytes hpresent
  have hpositive : chunkSizes source.chunks ≠ 0 := by
    obtain ⟨chunk, chunks, heq⟩ := List.exists_cons_of_ne_nil hchunks
    have hsize : ¬ chunk.size = 0 := fun hzero =>
      hpresent chunk (heq ▸ List.mem_cons_self) (.inr hzero)
    rw [heq]
    simp only [chunkSizes, List.map_cons, List.sum_cons]
    omega
  -- of the ways out of the first loop only its end is left
  have htotal : totalSize sizeMax 0 source.chunks = some (chunkSizes source.chunks) := by
    rcases totalSize_cases source.chunks 0 (Nat.zero_le sizeMax) with
      ⟨-, ⟨chunk, hchunk, hmissing⟩ | hover⟩ | ⟨hsome, -⟩
    · exact absurd hmissing (hpresent chunk hchunk)
    · omega
    · rw [hsome, Nat.zero_add]
  rw [copyEncodedFrame, hcodec, if_neg (by decide), htotal]
  dsimp only
  rw [if_neg hpositive, NaluFrame.create]
  cases room with
  | false => rfl
  | true =>
    have hall : memcpy (List.replicate (chunkSizes source.chunks) 0)
        0 (source.chunks.flatMap EncodedChunkView.bytes) = source.bytes :=
      memcpy_all (by rw [hlen, List.length_replicate])
    show Except.ok (some (copyChunks _ 0 source.chunks)) = _
    rw [copyChunks_spec _ hpresent]
    · simp [hall]
    · show 0 + chunkSizes source.chunks ≤ (List.replicate _ _).length
      simp

/-- The codec check of `copy_encoded_frame`. -/
theorem codec_refused_iff {source : EncodedFrameView} :
    ((source.type = .Video && !videoCodec source.codec) ||
      (source.type = .Audio && !audioCodec source.codec)) = true ↔
    (source.type = .Video ∧ videoCodec source.codec = false) ∨
      (source.type = .Audio ∧ audioCodec source.codec = false) := by
  simp

/-- A refused view gives null. -/
theorem copy_of_refused {source : EncodedFrameView} (room : Bool) (addr : ℕ)
    (h : source.Refused sizeMax) : copyEncodedFrame sizeMax room addr source = .ok none := by
  rw [copyEncodedFrame]
  split
  · rfl
  next hcodec =>
    rcases h with hvideo | haudio | hchunks
    · exact absurd (codec_refused_iff.mpr (.inl hvideo)) hcodec
    · exact absurd (codec_refused_iff.mpr (.inr haudio)) hcodec
    rcases totalSize_cases source.chunks 0 (Nat.zero_le sizeMax) with
      ⟨hnone, -⟩ | ⟨hsome, hpresent, hsizes⟩
    · rw [hnone]
    · rw [hsome]
      rcases hchunks with hnil | ⟨chunk, hchunk, hmissing⟩ | hover
      · rw [hnil]
        rfl
      · exact absurd hmissing (hpresent chunk hchunk)
      · omega

/-- **A view is refused** for the stated reasons alone; any other one is copied, with its
chunks in order and views that cover the payload, unless the allocation throws. -/
theorem copied_or_refused (sizeMax : ℕ) (room : Bool) (addr : ℕ) (source : EncodedFrameView) :
    (copyEncodedFrame sizeMax room addr source = .ok none ↔ source.Refused sizeMax) ∧
    (source.Refused sizeMax ∨
      (room = false ∧ copyEncodedFrame sizeMax room addr source = .error .badAlloc) ∨
      ∃ frame, copyEncodedFrame sizeMax room addr source = .ok (some frame) ∧
        Copied source frame) := by
  by_cases h : source.Refused sizeMax
  · exact ⟨iff_of_true (copy_of_refused room addr h) h, .inl h⟩
  obtain ⟨hvideo, haudio, hchunks, hpresent, hsizes⟩ :
      ¬ (source.type = .Video ∧ videoCodec source.codec = false) ∧
      ¬ (source.type = .Audio ∧ audioCodec source.codec = false) ∧ source.chunks ≠ [] ∧
      (∀ chunk ∈ source.chunks, ¬ chunk.Missing) ∧ chunkSizes source.chunks ≤ sizeMax := by
    simpa only [EncodedFrameView.Refused, not_or, not_exists, not_and, Nat.not_lt] using h
  have hcodec : ((source.type = .Video && !videoCodec source.codec) ||
      (source.type = .Audio && !audioCodec source.codec)) = false :=
    Bool.eq_false_iff.mpr fun hc => (codec_refused_iff.mp hc).elim hvideo haudio
  have hcopy := copy_of_total room addr hcodec hchunks hpresent hsizes
  cases room with
  | false => exact ⟨iff_of_false (by simp [hcopy]) h, .inr (.inl ⟨rfl, hcopy⟩)⟩
  | true =>
    refine ⟨iff_of_false (by simp [hcopy]) h, .inr (.inr ⟨_, hcopy, ?_, rfl, fun htype => ?_,
      fun htype => ?_⟩)⟩
    · exact ⟨rfl, rfl, rfl, rfl, rfl, rfl⟩
    · have htiles := tiles_views 0 source.chunks
      rw [Nat.zero_add, ← length_chunks_bytes hpresent] at htiles
      rw [if_pos htype]
      exact htiles
    · rw [if_pos htype]
      exact shows_views [] hpresent

end IpcMini
