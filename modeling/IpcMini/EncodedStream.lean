/-
From the packs of an encoder to the frame on the media bus (`dev_venc.cpp`,
`dev_svp_yolov8.cpp`, `encoded_stream_channel.cpp`, `ai_stream_publisher.cpp`).

The SDK hands out one picture as packs.  `process_video_stream`, of which there
are three, notes the packs that pass its checks in the slots of a `stream_head`;
the observers of the stream find out whether the picture is a keyframe, and copy
the slots into a frame.

* `processPacks` — the loop, with the checks of an encoder as a parameter;
* `VencH264`, `VencH265`, `Yolov8` — the three encoders;
* `kindFromType`, `h264Kind` — the two classifiers;
* `EncodedStreamChannel.onStreamCome` — what is published;
* **`kinds_agree`** — the classifiers agree, and find the accepted IDR slices;
* **`published_front`** — a published frame has the packs that were accepted first,
  and all of them if and only if there were slots for all.
-/
import IpcMini.EncodedFrame

namespace IpcMini

/-! ### Packs and slots -/

/-- `ot_venc_pack`: the memory behind `addr`, and what the SDK says about it. -/
structure VencPack where
  addr : Option (List UInt8)
  len : ℕ
  offset : ℕ
  pts : ℕ
  readable : ∀ bytes ∈ addr, bytes.length = len
  deriving Repr

namespace VencPack

/-- `pack.addr + pack.offset`, unless a check of the two fails. -/
def esBuf (pack : VencPack) : Option (List UInt8) :=
  if pack.offset > pack.len then none else pack.addr.map (·.drop pack.offset)

def esLen (pack : VencPack) : ℕ := pack.len - pack.offset

/-- `es_buf[4] & 0x1f`. -/
def esType (pack : VencPack) : UInt8 := (pack.esBuf.getD []).getD 4 0 &&& 0x1f

theorem length_esBuf {pack : VencPack} {es : List UInt8} (h : es ∈ pack.esBuf) :
    es.length = pack.esLen := by
  rw [esBuf] at h
  split at h
  · cases h
  · obtain ⟨bytes, hbytes, rfl⟩ := Option.map_eq_some_iff.mp h
    rw [List.length_drop, pack.readable bytes hbytes, esLen]

end VencPack

/-- `nalu_t`: a pointer that is null or points to `size` bytes. -/
structure Nalu where
  data : Option (List UInt8)
  size : ℕ
  timeStamp : ℕ
  readable : ∀ bytes ∈ data, bytes.length = size
  deriving Repr

def MAX_STREAM_NALU_COUNT : ℕ := 8

def STREAM_P_FRAME : ℕ := 0
def STREAM_I_FRAME : ℕ := 1
def STREAM_AUDIO_FRAME : ℕ := 2
def STREAM_B_FRAME : ℕ := 3
def STREAM_NALU_SLICE : ℕ := 4

/-- `stream_head`, with the slots in use. -/
structure StreamHead where
  type : ℕ
  timeStamp : ℕ
  nalu : List Nalu
  deriving Repr

/-- The slots that the observers read. -/
def StreamHead.slots (head : StreamHead) : List Nalu :=
  head.nalu.take (min head.nalu.length MAX_STREAM_NALU_COUNT)

/-- The slot of a pack. -/
def VencPack.nalu (pack : VencPack) : Nalu :=
  ⟨pack.esBuf, pack.esLen, pack.pts / 1000 % 2 ^ 32, fun _ h => pack.length_esBuf h⟩

/-- The loop of `process_video_stream`, with the checks of a pack. -/
def processPacks (accepts : VencPack → Bool) : List Nalu → List VencPack → List Nalu
  | nalu, [] => nalu
  | nalu, pack :: packs =>
    if nalu.length < MAX_STREAM_NALU_COUNT then
      processPacks accepts (if accepts pack then nalu ++ [pack.nalu] else nalu) packs
    else nalu

/-- `post_stream_to_observer`, when a slot is in use. -/
def postStream (nalu : List Nalu) : Option StreamHead :=
  if nalu.length > 0 then some ⟨STREAM_NALU_SLICE, 0, nalu⟩ else none

/-- `es_type` is that of a parameter set or of a slice. -/
def VencPack.keptType (pack : VencPack) : Bool :=
  pack.esType = 7 || pack.esType = 8 || pack.esType = 1 || pack.esType = 5

namespace VencH264

/-- The checks of `venc_h264::process_video_stream`. -/
def accepts (pack : VencPack) : Bool :=
  pack.esBuf.isSome && !decide (pack.esLen < 5) && pack.keptType

/-- `venc_h264::process_video_stream`. -/
def processVideoStream (packs : List VencPack) : Option StreamHead :=
  postStream (processPacks accepts [] packs)

end VencH264

namespace VencH265

/-- The checks of `venc_h265::process_video_stream`, which has none of the type. -/
def accepts (pack : VencPack) : Bool := pack.esBuf.isSome && !decide (pack.esLen < 5)

/-- `venc_h265::process_video_stream`. -/
def processVideoStream (packs : List VencPack) : Option StreamHead :=
  postStream (processPacks accepts [] packs)

end VencH265

namespace Yolov8

/-- The checks of `yolov8::process_video_stream`, which has the length in an `int32_t`. -/
def accepts (pack : VencPack) : Bool :=
  pack.esBuf.isSome && !decide ((pack.esLen : ℤ).bmod (2 ^ 32) < 5) && pack.keptType

/-- `yolov8::process_video_stream`. -/
def processVideoStream (packs : List VencPack) : Option StreamHead :=
  postStream (processPacks accepts [] packs)

end Yolov8

/-- **What the loop notes down**: the accepted packs, as long as there are slots. -/
theorem processPacks_eq (accepts : VencPack → Bool) (nalu : List Nalu) (packs : List VencPack) :
    processPacks accepts nalu packs = nalu ++
      ((packs.filter accepts).take (MAX_STREAM_NALU_COUNT - nalu.length)).map VencPack.nalu := by
  induction packs generalizing nalu with
  | nil => simp [processPacks]
  | cons pack packs ih =>
    rw [processPacks]
    by_cases hroom : nalu.length < MAX_STREAM_NALU_COUNT
    · rw [if_pos hroom, ih]
      cases haccepts : accepts pack with
      | false => rw [List.filter_cons_of_neg (by simp [haccepts]), if_neg (by simp)]
      | true =>
        -- the pack takes the first of the free slots
        obtain ⟨n, hn⟩ : ∃ n, MAX_STREAM_NALU_COUNT - nalu.length = n + 1 :=
          ⟨MAX_STREAM_NALU_COUNT - nalu.length - 1, by omega⟩
        have hleft : MAX_STREAM_NALU_COUNT - (nalu.length + 1) = n := by omega
        rw [List.filter_cons_of_pos haccepts, if_pos rfl, List.length_append,
          List.length_singleton, hleft, hn, List.take_succ_cons, List.map_cons, List.append_assoc,
          List.singleton_append]
    · rw [if_neg hroom, Nat.sub_eq_zero_of_le (Nat.le_of_not_lt hroom), List.take_zero,
        List.map_nil, List.append_nil]

/-! ### Keyframes -/

/-- One turn of the loop of `kind_from_type`. -/
def kindFromTypeNalu (codec : Codec) (nalu : Nalu) : Bool :=
  match nalu.data with
  | none => false
  | some data =>
    if nalu.size < 5 then false
    else
      let offset :=
        if nalu.size ≥ 4 ∧ [0, 0, 0, 1].isPrefixOf data then 4
        else if nalu.size ≥ 3 ∧ [0, 0, 1].isPrefixOf data then 3
        else 0
      if nalu.size ≤ offset then false
      else
        let typeValue := if codec = .H265 then (data.getD offset 0 >>> 1) &&& 0x3f
          else data.getD offset 0 &&& 0x1f
        (codec = .H264 && typeValue = 5) ||
          (codec = .H265 && (typeValue = 19 || typeValue = 20 || typeValue = 21))

/-- `kind_from_type`. -/
def kindFromType (type : ℕ) (codec : Codec) (head : StreamHead) : FrameKind :=
  if type = STREAM_AUDIO_FRAME then .Audio
  else if type = STREAM_I_FRAME then .Key
  else if type = STREAM_NALU_SLICE ∧ head.slots.any (kindFromTypeNalu codec) then .Key
  else if type = STREAM_P_FRAME ∨ type = STREAM_B_FRAME ∨ type = STREAM_NALU_SLICE then .Inter
  else .Unknown

/-- One turn of the loop of `h264_kind`. -/
def h264KindNalu (nalu : Nalu) : Bool :=
  match nalu.data with
  | none => false
  | some data =>
    if nalu.size < 4 then false
    else
      let offset :=
        if nalu.size ≥ 5 ∧ [0, 0, 0, 1].isPrefixOf data then 4
        else if [0, 0, 1].isPrefixOf data then 3
        else 0
      decide (offset < nalu.size) && (data.getD offset 0 &&& 0x1f) = 5

/-- `h264_kind`. -/
def h264Kind (head : StreamHead) : FrameKind :=
  if head.slots.any h264KindNalu then .Key else .Inter

/-- What a pack has behind its offset begins with a start code. -/
def VencPack.StartCoded (pack : VencPack) : Prop := ∀ es ∈ pack.esBuf, [0, 0, 0, 1] <+: es

/-- An IDR slice of at least five bytes, with its start code. -/
def VencPack.Idr (pack : VencPack) : Prop :=
  pack.esBuf.isSome ∧ 5 ≤ pack.esLen ∧ pack.esType = 5

variable {pack : VencPack} {packs : List VencPack} {accepts : VencPack → Bool}

/-- **Behind a start code** both loops look at the same byte. -/
theorem kind_nalu_of_coded (hsome : pack.esBuf.isSome = true) (hlen : 5 ≤ pack.esLen)
    (hcode : pack.StartCoded) :
    kindFromTypeNalu .H264 pack.nalu = decide (pack.esType = 5) ∧
      h264KindNalu pack.nalu = decide (pack.esType = 5) := by
  obtain ⟨es, hes⟩ := Option.isSome_iff_exists.mp hsome
  have hcoded : [0, 0, 0, 1].isPrefixOf es = true := List.isPrefixOf_iff_prefix.mpr (hcode es hes)
  have htype : pack.esType = es.getD 4 0 &&& 0x1f := by
    rw [VencPack.esType, hes, Option.getD_some]
  have hsize : 5 ≤ pack.nalu.size := hlen
  constructor
  · rw [kindFromTypeNalu, show pack.nalu.data = some es from hes]
    dsimp only
    have hstart : pack.nalu.size ≥ 4 ∧ [0, 0, 0, 1].isPrefixOf es :=
      ⟨by omega, hcoded⟩
    rw [if_neg (show ¬ pack.nalu.size < 5 by omega), if_pos hstart,
      if_neg (show ¬ pack.nalu.size ≤ 4 by omega), htype]
    simp
  · rw [h264KindNalu, show pack.nalu.data = some es from hes]
    dsimp only
    have hstart : pack.nalu.size ≥ 5 ∧ [0, 0, 0, 1].isPrefixOf es :=
      ⟨hsize, hcoded⟩
    rw [if_neg (show ¬ pack.nalu.size < 4 by omega), if_pos hstart, htype]
    have hin : decide (4 < pack.nalu.size) = true := decide_eq_true (by omega)
    rw [hin, Bool.true_and]

/-- What the classifiers have to find out of the packs that an encoder accepts. -/
structure Classified (accepts : VencPack → Bool) (packs : List VencPack)
    (posted : Option StreamHead) : Prop where
  posted_iff : posted.isSome = true ↔ ∃ pack ∈ packs, accepts pack = true
  agree : ∀ head ∈ posted, kindFromType head.type .H264 head = h264Kind head
  key_iff : ∀ head ∈ posted, h264Kind head = .Key ↔
    ∃ pack ∈ (packs.filter accepts).take MAX_STREAM_NALU_COUNT, pack.Idr

/-- The slots of a head that was posted. -/
theorem posted_cases (accepts : VencPack → Bool) (packs : List VencPack) :
    (packs.filter accepts = [] ∧ postStream (processPacks accepts [] packs) = none) ∨
    ∃ head, postStream (processPacks accepts [] packs) = some head ∧
      packs.filter accepts ≠ [] ∧ head.type = STREAM_NALU_SLICE ∧ head.slots =
        ((packs.filter accepts).take MAX_STREAM_NALU_COUNT).map VencPack.nalu := by
  rw [processPacks_eq, List.nil_append, List.length_nil, Nat.sub_zero]
  rcases hfilter : packs.filter accepts with _ | ⟨first, rest⟩
  · exact .inl ⟨rfl, rfl⟩
  · refine .inr ⟨_, if_pos ?_, List.cons_ne_nil _ _, rfl, ?_⟩
    · simp [MAX_STREAM_NALU_COUNT]
    · rw [StreamHead.slots]
      refine List.take_of_length_le ?_
      rw [List.length_map, List.length_take]
      omega

/-- The classifiers on the packs of an encoder whose checks let through what they can
tell apart. -/
theorem classified_of_coded (hchecks : ∀ pack, accepts pack = true →
      pack.esBuf.isSome = true ∧ 5 ≤ pack.esLen) (h : ∀ pack ∈ packs, pack.StartCoded) :
    Classified accepts packs (postStream (processPacks accepts [] packs)) := by
  rcases posted_cases accepts packs with ⟨hnil, hnone⟩ | ⟨head, hsome, hne, htype, hslots⟩
  · rw [hnone]
    refine ⟨iff_of_false (by simp) ?_, nofun, nofun⟩
    rintro ⟨pack, hpack, haccepts⟩
    exact List.not_mem_nil (hnil ▸ List.mem_filter.mpr ⟨hpack, haccepts⟩)
  rw [hsome]
  -- both loops stop at the first IDR slice in the slots
  have hfound : ∀ keyNalu : Nalu → Bool,
      (∀ pack : VencPack, pack.esBuf.isSome = true → 5 ≤ pack.esLen → pack.StartCoded →
        keyNalu pack.nalu = decide (pack.esType = 5)) →
      (head.slots.any keyNalu = true ↔
        ∃ pack ∈ (packs.filter accepts).take MAX_STREAM_NALU_COUNT, pack.Idr) := by
    intro keyNalu hkey
    rw [hslots, List.any_map, List.any_eq_true]
    refine exists_congr fun pack => and_congr_right fun hpack => ?_
    obtain ⟨hmem, haccepts⟩ := List.mem_filter.mp (List.mem_of_mem_take hpack)
    obtain ⟨hbuf, hlen⟩ := hchecks pack haccepts
    rw [Function.comp_apply, hkey pack hbuf hlen (h pack hmem), decide_eq_true_eq]
    exact ⟨fun htype => ⟨hbuf, hlen, htype⟩, fun hidr => hidr.2.2⟩
  have htyped := hfound (kindFromTypeNalu .H264) fun pack hbuf hlen hcode =>
    (kind_nalu_of_coded hbuf hlen hcode).1
  have hplain := hfound h264KindNalu fun pack hbuf hlen hcode =>
    (kind_nalu_of_coded hbuf hlen hcode).2
  have hkind : h264Kind head = .Key ↔ head.slots.any h264KindNalu = true := by
    rw [h264Kind]
    split <;> simp_all
  refine ⟨iff_of_true rfl ?_, ?_, ?_⟩
  · obtain ⟨pack, hpack⟩ := List.exists_mem_of_ne_nil _ hne
    obtain ⟨hmem, haccepts⟩ := List.mem_filter.mp hpack
    exact ⟨pack, hmem, haccepts⟩
  · intro head' hhead
    obtain rfl := Option.some_inj.mp hhead
    -- the head is neither audio nor marked as a keyframe, so that the slots decide
    have hany := htyped.trans hplain.symm
    rw [kindFromType, htype, if_neg (by decide), if_neg (by decide), h264Kind]
    by_cases hidr : head.slots.any h264KindNalu = true
    · rw [if_pos hidr, if_pos ⟨rfl, hany.mpr hidr⟩]
    · rw [if_neg hidr, if_neg fun hk => hidr (hany.mp hk.2), if_pos (.inr (.inr rfl))]
  · intro head' hhead
    obtain rfl := Option.some_inj.mp hhead
    exact hkind.trans hplain

theorem VencH264.accepts_checks (h : VencH264.accepts pack = true) :
    pack.esBuf.isSome = true ∧ 5 ≤ pack.esLen := by
  simp only [VencH264.accepts, Bool.and_eq_true, Bool.not_eq_true', decide_eq_false_iff_not] at h
  exact ⟨h.1.1, by omega⟩

theorem VencH265.accepts_checks (h : VencH265.accepts pack = true) :
    pack.esBuf.isSome = true ∧ 5 ≤ pack.esLen := by
  simp only [VencH265.accepts, Bool.and_eq_true, Bool.not_eq_true', decide_eq_false_iff_not] at h
  exact ⟨h.1, by omega⟩

/-- A length that is at least five as an `int32_t` is so as a `td_u32`. -/
theorem Yolov8.accepts_checks (h : Yolov8.accepts pack = true) :
    pack.esBuf.isSome = true ∧ 5 ≤ pack.esLen := by
  simp only [Yolov8.accepts, Bool.and_eq_true, Bool.not_eq_true', decide_eq_false_iff_not] at h
  refine ⟨h.1.1, ?_⟩
  have hlen := h.1.2
  have hle : ((pack.esLen : ℕ) : ℤ).bmod (2 ^ 32) ≤ (pack.esLen : ℕ) := by
    rw [Int.bmod_def]
    split <;> omega
  omega

/-- **The two classifiers agree** on what the two encoders post, and find a keyframe if and
only if an IDR slice is among the packs that were accepted first. -/
theorem kinds_agree (h : ∀ pack ∈ packs, pack.StartCoded) :
    Classified VencH264.accepts packs (VencH264.processVideoStream packs) ∧
      Classified Yolov8.accepts packs (Yolov8.processVideoStream packs) :=
  ⟨classified_of_coded (fun _ => VencH264.accepts_checks) h,
    classified_of_coded (fun _ => Yolov8.accepts_checks) h⟩

/-- A pack with a NAL unit behind a start code, at the begin of its memory. -/
def coded (nal : List UInt8) : VencPack :=
  ⟨some (0 :: 0 :: 0 :: 1 :: nal), nal.length + 4, 0, 0, by simp⟩

theorem startCoded_coded (nal : List UInt8) : (coded nal).StartCoded := by
  intro es hes
  rw [VencPack.esBuf, if_neg (by simp [coded])] at hes
  obtain rfl := Option.some_inj.mp hes
  exact ⟨nal, rfl⟩

/-- A keyframe as the encoder hands it out. -/
theorem keyframe_classified :
    Classified VencH264.accepts [coded [0x67, 1], coded [0x68, 2], coded [0x65, 3]]
        (VencH264.processVideoStream [coded [0x67, 1], coded [0x68, 2], coded [0x65, 3]]) ∧
      Classified Yolov8.accepts [coded [0x67, 1], coded [0x68, 2], coded [0x65, 3]]
        (Yolov8.processVideoStream [coded [0x67, 1], coded [0x68, 2], coded [0x65, 3]]) := by
  refine kinds_agree fun pack hpack => ?_
  simp only [List.mem_cons, List.not_mem_nil, or_false] at hpack
  rcases hpack with rfl | rfl | rfl
  · exact startCoded_coded _
  · exact startCoded_coded _
  · exact startCoded_coded _

/-! ### What is published -/

/-- The members of `EncodedStreamChannel` that `on_stream_come` reads; `media_source`
says that there is one. -/
structure EncodedStreamChannel where
  mediaSource : Bool
  encoderMode : String
  audioCodec : Codec
  deriving DecidableEq, Repr

/-- `mode.find("H265")`. -/
def codecFromMode (mode : String) : Codec :=
  if mode.toList.tails.any ("H265".toList.isPrefixOf ·) then .H265 else .H264

/-- The chunk of a slot. -/
def Nalu.chunk (nalu : Nalu) : EncodedChunkView := ⟨nalu.data, nalu.size, nalu.readable⟩

/-- `EncodedStreamChannel::on_stream_come`, and the frame that it publishes.  `buf` is the
audio, with a size of zero where `len` is not positive. -/
def EncodedStreamChannel.onStreamCome (c : EncodedStreamChannel) (sizeMax : ℕ) (room : Bool)
    (addr : ℕ) (sobj : Option ℤ) (head : Option StreamHead) (buf : EncodedChunkView) :
    Except BadAlloc (Option NaluFrame) :=
  match c.mediaSource, sobj, head with
  | true, some streamId, some head =>
    let codec := if head.type = STREAM_AUDIO_FRAME then c.audioCodec
      else codecFromMode c.encoderMode
    let kind := kindFromType head.type codec head
    if kind = .Audio then
      if buf.data.isNone || buf.size = 0 || codec = .Unknown then .ok none
      else copyEncodedFrame sizeMax room addr
        ⟨.Audio, codec, kind, streamId, head.timeStamp, head.timeStamp, [buf]⟩
    else
      match head.slots with
      | [] => .ok none
      | first :: rest =>
        if (first :: rest).any fun nalu => nalu.data.isNone || nalu.size = 0 then .ok none
        else copyEncodedFrame sizeMax room addr
          ⟨.Video, codec, kind, streamId, first.timeStamp, first.timeStamp,
            (first :: rest).map Nalu.chunk⟩
  | _, _, _ => .ok none

/-- The observer of an encoder's stream gets the head if there is one. -/
def EncodedStreamChannel.observe (c : EncodedStreamChannel) (sizeMax : ℕ) (room : Bool)
    (addr : ℕ) (streamId : ℤ) (posted : Option StreamHead) : Except BadAlloc (Option NaluFrame) :=
  match posted with
  | none => .ok none
  | some head => c.onStreamCome sizeMax room addr (some streamId) (some head)
      ⟨none, 0, nofun⟩

/-- The bytes of the packs, one behind the other. -/
def packBytes (packs : List VencPack) : List UInt8 :=
  packs.flatMap fun pack => pack.esBuf.getD []

/-- What is published has the bytes of all accepted packs, in order. -/
def EncodedStreamChannel.Whole (accepts : VencPack → Bool) (packs : List VencPack)
    (published : Except BadAlloc (Option NaluFrame)) : Prop :=
  ∀ frame, published = .ok (some frame) → frame.payload = packBytes (packs.filter accepts)

/-- What is published has the bytes of the packs that were accepted first, in order; these
are all of them if and only if there are slots for all. -/
def EncodedStreamChannel.Front (accepts : VencPack → Bool) (packs : List VencPack)
    (published : Except BadAlloc (Option NaluFrame)) : Prop :=
  ∀ frame, published = .ok (some frame) →
    frame.payload = packBytes ((packs.filter accepts).take MAX_STREAM_NALU_COUNT) ∧
    (frame.payload = packBytes (packs.filter accepts) ↔
      (packs.filter accepts).length ≤ MAX_STREAM_NALU_COUNT)

/-- A copied frame has the bytes of its view. -/
theorem payloadOf_copied {sizeMax : ℕ} {room : Bool} {addr : ℕ} {source : EncodedFrameView}
    {frame : NaluFrame} (h : copyEncodedFrame sizeMax room addr source = .ok (some frame)) :
    frame.payload = source.bytes := by
  obtain ⟨hrefused, hnull | ⟨-, herror⟩ | ⟨copied, hcopied, hspec⟩⟩ :=
    copied_or_refused sizeMax room addr source
  · simp [hrefused.mpr hnull] at h
  · simp [herror] at h
  · obtain rfl : copied = frame := by simpa [hcopied] using h
    exact hspec.payload

theorem kind_ne_audio (codec : Codec) (head : StreamHead) :
    kindFromType STREAM_NALU_SLICE codec head ≠ .Audio := by
  rw [kindFromType, if_neg (by decide), if_neg (by decide)]
  split
  · nofun
  · rw [if_pos (.inr (.inr rfl))]
    nofun

/-- What the channel publishes of the slots of an encoder. -/
theorem payloadOf_observed {c : EncodedStreamChannel} {sizeMax : ℕ} {room : Bool} {addr : ℕ}
    {streamId : ℤ} {head : StreamHead} {frame : NaluFrame} (htype : head.type = STREAM_NALU_SLICE)
    (h : c.observe sizeMax room addr streamId (some head) = .ok (some frame)) :
    frame.payload = head.slots.flatMap fun nalu => nalu.data.getD [] := by
  rw [EncodedStreamChannel.observe, EncodedStreamChannel.onStreamCome.eq_def] at h
  cases hsource : c.mediaSource with
  | false => simp [hsource] at h
  | true =>
    rw [hsource] at h
    dsimp only at h
    rw [htype, if_neg (kind_ne_audio _ head)] at h
    rcases hslots : head.slots with _ | ⟨first, rest⟩
    · simp [hslots] at h
    · rw [hslots] at h
      dsimp only at h
      split at h
      · simp at h
      · rw [payloadOf_copied h, EncodedFrameView.bytes, List.flatMap_map]
        rfl

/-- Bytes are missing where packs are: an accepted pack has at least five. -/
theorem whole_iff (hchecks : ∀ pack, accepts pack = true →
      pack.esBuf.isSome = true ∧ 5 ≤ pack.esLen) (packs : List VencPack) (n : ℕ) :
    packBytes ((packs.filter accepts).take n) = packBytes (packs.filter accepts) ↔
      (packs.filter accepts).length ≤ n := by
  constructor
  · intro h
    by_contra hmore
    obtain ⟨pack, rest, hdrop⟩ := List.exists_cons_of_ne_nil
      (List.ne_nil_of_length_pos (l := (packs.filter accepts).drop n)
        (by rw [List.length_drop]; omega))
    have hmem : pack ∈ packs.filter accepts :=
      List.mem_of_mem_drop (hdrop ▸ List.mem_cons_self)
    obtain ⟨hsome, hlen⟩ := hchecks pack (List.mem_filter.mp hmem).2
    obtain ⟨es, hes⟩ := Option.isSome_iff_exists.mp hsome
    have hbytes : (pack.esBuf.getD []).length = pack.esLen := by
      rw [hes]
      exact pack.length_esBuf hes
    -- the first pack that is cut off
    have hsplit := congrArg packBytes (List.take_append_drop n (packs.filter accepts))
    rw [packBytes, List.flatMap_append, ← packBytes, ← packBytes, hdrop, ← h] at hsplit
    have hlength := congrArg List.length hsplit
    simp only [List.length_append, packBytes, List.flatMap_cons] at hlength
    omega
  · intro h
    rw [List.take_of_length_le h]

theorem front_of_checks (hchecks : ∀ pack, accepts pack = true →
      pack.esBuf.isSome = true ∧ 5 ≤ pack.esLen) (c : EncodedStreamChannel) (sizeMax : ℕ)
    (room : Bool) (addr : ℕ) (streamId : ℤ) (packs : List VencPack) :
    EncodedStreamChannel.Front accepts packs (c.observe sizeMax room addr streamId
      (postStream (processPacks accepts [] packs))) := by
  intro frame hframe
  rcases posted_cases accepts packs with ⟨-, hnone⟩ | ⟨head, hsome, -, htype, hslots⟩
  · rw [hnone] at hframe
    cases hframe
  rw [hsome] at hframe
  have hpayload : frame.payload =
      packBytes ((packs.filter accepts).take MAX_STREAM_NALU_COUNT) := by
    rw [payloadOf_observed htype hframe, hslots, List.flatMap_map]
    rfl
  exact ⟨hpayload, by rw [hpayload]; exact whole_iff hchecks packs _⟩

/-- **A published frame** has the packs that the encoder's checks let through first, in
order, and all of them if and only if there are slots for all. -/
theorem published_front (c : EncodedStreamChannel) (sizeMax : ℕ) (room : Bool) (addr : ℕ)
    (streamId : ℤ) (packs : List VencPack) :
    EncodedStreamChannel.Front VencH264.accepts packs
        (c.observe sizeMax room addr streamId (VencH264.processVideoStream packs)) ∧
      EncodedStreamChannel.Front VencH265.accepts packs
        (c.observe sizeMax room addr streamId (VencH265.processVideoStream packs)) :=
  ⟨front_of_checks (fun _ => VencH264.accepts_checks) c sizeMax room addr streamId packs,
    front_of_checks (fun _ => VencH265.accepts_checks) c sizeMax room addr streamId packs⟩

/-- A picture of nine slices is published without the last one. -/
theorem nine_slices_cut_off :
    ¬ ∀ (c : EncodedStreamChannel) (sizeMax : ℕ) (room : Bool) (addr : ℕ) (streamId : ℤ)
      (packs : List VencPack), EncodedStreamChannel.Whole VencH264.accepts packs
        (c.observe sizeMax room addr streamId (VencH264.processVideoStream packs)) := by
  intro h
  have hwhole := h ⟨true, "H264_CBR", .Unknown⟩ 4294967295 true 1 0
    (List.replicate 9 (coded [0x41]))
  exact absurd (hwhole _ rfl) (by decide +kernel)

end IpcMini
