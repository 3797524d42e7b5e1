import TaniDVR.McParms
import TaniDVR.Lib.Ebml

/-!
# Mkv — the Matroska writer of `mctools.c`

`dtConvertFrameToMkv` is `dt_convert_frame_to_mkv`: it turns the body of a frame into one Cluster,
with the main header before the first.  `mainHeader_eq` takes the main header apart into its
elements.
-/

namespace TaniDVR

open Lib Lib.Ebml

/-- `mcodec_t`. -/
inductive MCodec
  | mpeg4IsoAvc | mpeg4IsoAsp
  deriving DecidableEq, Repr

/-- `WHOLE_MAIN_HEADER_LOAD`. -/
def wholeMainHeaderLoad : ℕ := 416 + 4

/-- `WHOLE_CLUSTER_HEADER_LOAD`. -/
def wholeClusterHeaderLoad : ℕ := 22

/-- `WHOLE_SIMPLEBLOCK_HEADER_LOAD`. -/
def wholeSimpleblockHeaderLoad : ℕ := 13

/-- `mkv_head`. -/
def mkvHead : List UInt8 := [
  -- EBML
  0x1a, 0x45, 0xdf, 0xa3, 0x01, 0x00, 0x00, 0x00, 0x00, 0x00, 0x00, 0x23,
  0x42, 0x86, 0x81, 0x01, 0x42, 0xf7, 0x81, 0x01, 0x42, 0xf2, 0x81, 0x04, 0x42, 0xf3, 0x81, 0x08,
  0x42, 0x82, 0x88, 0x6d, 0x61, 0x74, 0x72, 0x6f, 0x73, 0x6b, 0x61, 0x42, 0x87, 0x81, 0x02, 0x42,
  0x85, 0x81, 0x02,
  -- L0 Segment (all 1s, thus unknown size)
  0x18, 0x53, 0x80, 0x67, 0x01, 0xff, 0xff, 0xff, 0xff, 0xff, 0xff, 0xff,
  -- L1+ Void
  0xec, 0x01, 0x00, 0x00, 0x00, 0x00, 0x00, 0x00, 0x93,
  0x00, 0x00, 0x00, 0x00, 0x00, 0x00, 0x00, 0x00, 0x00, 0x00, 0x00, 0x00, 0x00, 0x00, 0x00, 0x00,
  0x00, 0x00, 0x00, 0x00, 0x00, 0x00, 0x00, 0x00, 0x00, 0x00, 0x00, 0x00, 0x00, 0x00, 0x00, 0x00,
  0x00, 0x00, 0x00, 0x00, 0x00, 0x00, 0x00, 0x00, 0x00, 0x00, 0x00, 0x00, 0x00, 0x00, 0x00, 0x00,
  0x00, 0x00, 0x00, 0x00, 0x00, 0x00, 0x00, 0x00, 0x00, 0x00, 0x00, 0x00, 0x00, 0x00, 0x00, 0x00,
  0x00, 0x00, 0x00, 0x00, 0x00, 0x00, 0x00, 0x00, 0x00, 0x00, 0x00, 0x00, 0x00, 0x00, 0x00, 0x00,
  0x00, 0x00, 0x00, 0x00, 0x00, 0x00, 0x00, 0x00, 0x00, 0x00, 0x00, 0x00, 0x00, 0x00, 0x00, 0x00,
  0x00, 0x00, 0x00, 0x00, 0x00, 0x00, 0x00, 0x00, 0x00, 0x00, 0x00, 0x00, 0x00, 0x00, 0x00, 0x00,
  0x00, 0x00, 0x00, 0x00, 0x00, 0x00, 0x00, 0x00, 0x00, 0x00, 0x00, 0x00, 0x00, 0x00, 0x00, 0x00,
  0x00, 0x00, 0x00, 0x00, 0x00, 0x00, 0x00, 0x00, 0x00, 0x00, 0x00, 0x00, 0x00, 0x00, 0x00, 0x00,
  0x00, 0x00, 0x00,
  -- L1 Info
  0x15, 0x49, 0xa9, 0x66, 0x01, 0x00, 0x00, 0x00, 0x00, 0x00, 0x00, 0x45,
  -- L2 TimecodeScale
  0x2a, 0xd7, 0xb1, 0x83, 0x0f, 0x42, 0x40,
  -- L2 MuxingApp
  0x4d, 0x80, 0x8d, 0x54, 0x61, 0x6e, 0x69, 0x44, 0x56, 0x52, 0x20, 0x30, 0x2e, 0x30, 0x2e, 0x30,
  -- L2 WritingApp
  0x57, 0x41, 0x8d, 0x54, 0x61, 0x6e, 0x69, 0x44, 0x56, 0x52, 0x20, 0x30, 0x2e, 0x30, 0x2e, 0x30,
  -- L2 SegmentUID
  0x73, 0xa4, 0x90, 0x22, 0xd8, 0x7b, 0xf1, 0xe4, 0xc7, 0xff, 0x82,
  0xbe, 0x50, 0x86, 0x0f, 0x12, 0x9e, 0x76, 0xc2,
  -- L2 Duration
  0x44, 0x89, 0x88, 0x41, 0x10, 0x3a, 0x60, 0x00, 0x00, 0x00, 0x00,
  -- L1 Tracks
  0x16, 0x54, 0xae, 0x6b, 0x01, 0x00, 0x00, 0x00, 0x00, 0x00, 0x00, 0x70,
  -- L2 TrackEntry
  0xae, 0x01, 0x00, 0x00, 0x00, 0x00, 0x00, 0x00, 0x67,
  -- L3 TrackNumber
  0xd7, 0x81, 0x01,
  -- L3 TrackUID
  0x73, 0xc5, 0x81, 0x01,
  -- L3 FlagLacing
  0x9c, 0x81, 0x00,
  -- L3 Language
  0x22, 0xb5, 0x9c, 0x83, 0x75, 0x6e, 0x64,
  -- L3 FlagDefault
  0x88, 0x81, 0x00,
  -- L3 CodecID
  0x86, 0x8f, 0x56, 0x5f, 0x4d, 0x50, 0x45, 0x47, 0x34, 0x2f,
  0x49, 0x53, 0x4f, 0x2f, 0x41, 0x56, 0x43,
  -- L3 TrackType
  0x83, 0x81, 0x01,
  -- L3 Video
  0xe0, 0x01, 0x00, 0x00, 0x00, 0x00, 0x00, 0x00, 0x1a,
  -- L4 PixelWidth
  0xb0, 0x82, 0x01, 0x60,
  -- L4 PixelHeight
  0xba, 0x82, 0x00, 0xf0,
  -- L4 DisplayWidth (display aspect)
  0x54, 0xb0, 0x82, 0x00, 0x04,
  -- L4 DisplayHeight (display aspect)
  0x54, 0xba, 0x82, 0x00, 0x03,
  -- L4 FrameRate
  0x23, 0x83, 0xe3, 0x84, 0x3f, 0x80, 0x00, 0x10,
  -- L3 CodecPrivate
  0x63, 0xa2, 0x99, 0x00, 0x00, 0x00, 0x00, 0x00, 0x01, 0x67, 0x42,
  0xe0, 0x14, 0xda, 0x05, 0x82, 0x17, 0x89, 0x40, 0x00, 0x00, 0x00, 0x01, 0x68, 0xce, 0x30, 0xa4,
  0x80]

/-- `tanidvr_sw_str`, without its end: 13 bytes, as many as the fields for it hold. -/
def tanidvrSwStr : List UInt8 :=
  [0x54, 0x61, 0x6e, 0x69, 0x44, 0x56, 0x52, 0x20, 0x31, 0x2e, 0x34, 0x2e, 0x31] -- "TaniDVR 1.4.1"

/-- `str_MCODEC_V_MPEG4_ISO_AVC` and `str_MCODEC_V_MPEG4_ISO_ASP`. -/
def codecStr : MCodec → List UInt8
  | .mpeg4IsoAvc => [0x56, 0x5f, 0x4d, 0x50, 0x45, 0x47, 0x34, 0x2f, 0x49, 0x53, 0x4f, 0x2f, 0x41,
    0x56, 0x43]
  | .mpeg4IsoAsp => [0x56, 0x5f, 0x4d, 0x50, 0x45, 0x47, 0x34, 0x2f, 0x49, 0x53, 0x4f, 0x2f, 0x41,
    0x53, 0x50]

/-- The conversion of `double` to `float`. -/
def floatOfDouble (x : Float.Model) : Float32.Model :=
  .pack (match x.unpack with
    | .finite s m e _ => .round .binary32 s m e
    | y => y)

/-- `transform_fps_to_mkvfps`. -/
def transformFpsToMkvfps (fpsIn : UInt8) (ntscTimings ntscExact60hz : Bool) : UInt32 :=
  (floatOfDouble (.ofUInt8 fpsIn *
    (if ntscTimings = true ∧ ntscExact60hz = true then .ofNat 1 else .ofNat 1000 / .ofNat 1001))).toBits

/-- The main header: `mkv_head` with its fields updated. -/
def mainHeader (mc : McParms) (vcodec : MCodec) : List UInt8 :=
  let dst := mkvHead
  let dst := overwrite dst 0x153 (codecStr vcodec)
  let dst := overwrite dst (0x16e + 2) (btNV2MMU16 mc.vWidth)
  let dst := overwrite dst (0x172 + 2) (btNV2MMU16 mc.vHeight)
  let dst := overwrite dst (0x176 + 3) (btNV2MMU16 mc.vAspectX)
  let dst := overwrite dst (0x17b + 3) (btNV2MMU16 mc.vAspectY)
  let dst := overwrite dst (0x180 + 4)
    (btNV2MMU32 (transformFpsToMkvfps mc.dhavFps mc.ntscTimings mc.ntscExact60hz).toNat)
  let dst := overwrite dst (0x0ea + 3) tanidvrSwStr
  let dst := overwrite dst (0x0fa + 3) tanidvrSwStr
  let dst := overwrite dst (0x147 + 4) [0x75, 0x6e, 0x64]
  overwrite dst (0x0e3 + 4) [0x00, 0x03, 0xe8]

/-- The seven bytes of `mkv_cluster_len` or `mkv_simpleblock_len`. -/
def lenBytes (len : ℕ) : List UInt8 :=
  [UInt8.ofNat (len >>> 48), UInt8.ofNat (len >>> 40), UInt8.ofNat (len >>> 32),
    UInt8.ofNat (len >>> 24), UInt8.ofNat (len >>> 16), UInt8.ofNat (len >>> 8), UInt8.ofNat len]

/-- The Cluster and SimpleBlock headers of a body of `srcLen` bytes. -/
def clusterHeader (timestampUs srcLen : ℕ) (frameType : FrameType) : List UInt8 :=
  ([0x1f, 0x43, 0xb6, 0x75, 0x01] : List UInt8) ++
  (lenBytes (toSizeT (srcLen + wholeClusterHeaderLoad + wholeSimpleblockHeaderLoad - 12)) ++
  (([0xe7, 0x88, UInt8.ofNat (timestampUs >>> 56)] : List UInt8) ++ (lenBytes timestampUs ++
  (([0xa3, 0x01] : List UInt8) ++
  (lenBytes (toSizeT (srcLen + wholeSimpleblockHeaderLoad - 9)) ++
  [0x81, 0x00, 0x00, if frameType = .videoIFrame then 0x01 else 0x00])))))

/-- What `dt_convert_frame_to_mkv` leaves behind. -/
structure Converted where
  ret : ℤ
  dstLen : ℕ
  dst : List UInt8  -- the bytes written at `dst_p`
  deriving DecidableEq

/-- `dt_convert_frame_to_mkv`. -/
def dtConvertFrameToMkv (mc : McParms) (src : Mem) (srcDhavLen maxDstLen : ℕ) (firstFrame : Bool)
    (vcodec : MCodec) : Except Fault Converted :=
  if srcDhavLen = 0 then .ok ⟨3, 0, []⟩
  else if mc.frameType ≠ .videoIFrame ∧ mc.frameType ≠ .videoFrame then .ok ⟨2, 0, []⟩
  else if mc.hasVParms = false then .ok ⟨1, 0, []⟩
  else
    let header := if firstFrame then mainHeader mc vcodec else []
    let load := if firstFrame then wholeMainHeaderLoad else 0
    let wholePayload :=
      toSizeT (wholeClusterHeaderLoad + wholeSimpleblockHeaderLoad + mc.bodyLen + load)
    if wholePayload > maxDstLen then .ok ⟨-4, 0, header⟩
    -- a length that wrapped around passes the check, and the copy does not stop at the buffer's end
    else if wholeClusterHeaderLoad + wholeSimpleblockHeaderLoad + mc.bodyLen + load > maxDstLen then
      .error .overrun
    else do
      let body ← src.readRange mc.bodyP mc.bodyLen
      return ⟨0, wholePayload,
        header ++ clusterHeader (mc.vTimestamp / 1000) mc.bodyLen mc.frameType ++ body⟩

theorem length_mkvHead : mkvHead.length = wholeMainHeaderLoad := by decide +kernel

/-! ### One call -/

section Convert

variable {mc : McParms} {src : Mem} {srcDhavLen maxDstLen : ℕ} {firstFrame : Bool} {vcodec : MCodec}

/-- Other frames write nothing. -/
theorem convert_of_not_usable (src : Mem) (srcDhavLen maxDstLen : ℕ) (firstFrame : Bool)
    (vcodec : MCodec) (h : ¬ Usable mc) :
    ∃ r > 0, dtConvertFrameToMkv mc src srcDhavLen maxDstLen firstFrame vcodec = .ok ⟨r, 0, []⟩ := by
  unfold dtConvertFrameToMkv
  by_cases hlen : srcDhavLen = 0
  · exact ⟨3, by decide, if_pos hlen⟩
  rw [if_neg hlen]
  rcases not_usable_iff.mp h with ht | ⟨ht, hv⟩
  · exact ⟨2, by decide, if_pos ht⟩
  · exact ⟨1, by decide, by rw [if_neg ht, if_pos hv]⟩

/-- The bytes before the body. -/
def headers (mc : McParms) (firstFrame : Bool) (vcodec : MCodec) : List UInt8 :=
  (if firstFrame then mainHeader mc vcodec else []) ++
    clusterHeader (mc.vTimestamp / 1000) mc.bodyLen mc.frameType

theorem length_clusterHeader (timestampUs srcLen : ℕ) (frameType : FrameType) :
    (clusterHeader timestampUs srcLen frameType).length = 35 := by
  simp [clusterHeader, lenBytes]

/-- **A usable frame whose body is there is written whole, or refused.** -/
theorem convert_of_usable {body : List UInt8} (maxDstLen : ℕ) (firstFrame : Bool) (vcodec : MCodec)
    (h : Usable mc) (hlen : srcDhavLen ≠ 0)
    (hbody : src.readRange mc.bodyP mc.bodyLen = .ok body) (hb : mc.bodyLen < 2 ^ 63) :
    let load := 35 + mc.bodyLen + if firstFrame then 420 else 0
    dtConvertFrameToMkv mc src srcDhavLen maxDstLen firstFrame vcodec =
      if load > maxDstLen then .ok ⟨-4, 0, if firstFrame then mainHeader mc vcodec else []⟩
      else .ok ⟨0, load, headers mc firstFrame vcodec ++ body⟩ := by
  intro load
  have hload : wholeClusterHeaderLoad + wholeSimpleblockHeaderLoad + mc.bodyLen +
      (if firstFrame then wholeMainHeaderLoad else 0) = load := rfl
  have hwrap : toSizeT ((wholeClusterHeaderLoad : ℤ) + wholeSimpleblockHeaderLoad + mc.bodyLen +
      ((if firstFrame then wholeMainHeaderLoad else 0 : ℕ) : ℤ)) = load := by
    rw [← hload]
    unfold toSizeT wholeClusterHeaderLoad wholeSimpleblockHeaderLoad wholeMainHeaderLoad
    split_ifs <;> omega
  unfold dtConvertFrameToMkv
  rw [if_neg hlen, if_neg h.video, if_neg (by simp [h.2])]
  simp only [hload, hwrap, hbody]
  split_ifs <;> simp [headers, bind, Except.bind, pure, Except.pure, *]

end Convert

/-! ### The parts of the main header -/

/-- The Info that `dt_convert_frame_to_mkv` writes. -/
def infoParts : List (List UInt8) := [
  element [0x2a, 0xd7, 0xb1] [0x83] [0x00, 0x03, 0xe8],
  element [0x4d, 0x80] [0x8d] tanidvrSwStr,
  element [0x57, 0x41] [0x8d] tanidvrSwStr,
  element [0x73, 0xa4] [0x90] [0x22, 0xd8, 0x7b, 0xf1, 0xe4, 0xc7, 0xff, 0x82,
    0xbe, 0x50, 0x86, 0x0f, 0x12, 0x9e, 0x76, 0xc2],
  element [0x44, 0x89] [0x88] [0x41, 0x10, 0x3a, 0x60, 0x00, 0x00, 0x00, 0x00]]

/-- The Video settings. -/
def videoParts (mc : McParms) : List (List UInt8) := [
  element [0xb0] [0x82] (btNV2MMU16 mc.vWidth),
  element [0xba] [0x82] (btNV2MMU16 mc.vHeight),
  element [0x54, 0xb0] [0x82] (btNV2MMU16 mc.vAspectX),
  element [0x54, 0xba] [0x82] (btNV2MMU16 mc.vAspectY),
  element [0x23, 0x83, 0xe3] [0x84]
    (btNV2MMU32 (transformFpsToMkvfps mc.dhavFps mc.ntscTimings mc.ntscExact60hz).toNat)]

/-- The only TrackEntry. -/
def trackEntryParts (mc : McParms) (vcodec : MCodec) : List (List UInt8) := [
  element [0xd7] [0x81] [0x01],
  element [0x73, 0xc5] [0x81] [0x01],
  element [0x9c] [0x81] [0x00],
  element [0x22, 0xb5, 0x9c] [0x83] [0x75, 0x6e, 0x64],
  element [0x88] [0x81] [0x00],
  element [0x86] [0x8f] (codecStr vcodec),
  element [0x83] [0x81] [0x01],
  element [0xe0] [0x01, 0x00, 0x00, 0x00, 0x00, 0x00, 0x00, 0x1a] (videoParts mc).flatten,
  element [0x63, 0xa2] [0x99] [0x00, 0x00, 0x00, 0x00, 0x00, 0x01, 0x67, 0x42,
    0xe0, 0x14, 0xda, 0x05, 0x82, 0x17, 0x89, 0x40, 0x00, 0x00, 0x00, 0x01, 0x68, 0xce, 0x30, 0xa4,
    0x80]]

/-- The element before the Segment. -/
def ebmlElement : List UInt8 :=
  element [0x1a, 0x45, 0xdf, 0xa3] [0x01, 0x00, 0x00, 0x00, 0x00, 0x00, 0x00, 0x23]
    ((mkvHead.drop 12).take 35)

/-- The Segment up to the first Cluster. -/
def segmentParts (mc : McParms) (vcodec : MCodec) : List (List UInt8) := [
  element [0xec] [0x01, 0x00, 0x00, 0x00, 0x00, 0x00, 0x00, 0x93] (List.replicate 147 0x00),
  element [0x15, 0x49, 0xa9, 0x66] [0x01, 0x00, 0x00, 0x00, 0x00, 0x00, 0x00, 0x45]
    infoParts.flatten,
  element [0x16, 0x54, 0xae, 0x6b] [0x01, 0x00, 0x00, 0x00, 0x00, 0x00, 0x00, 0x70]
    (element [0xae] [0x01, 0x00, 0x00, 0x00, 0x00, 0x00, 0x00, 0x67]
      (trackEntryParts mc vcodec).flatten)]

set_option maxRecDepth 10000 in
/-- **The main header is its parts**: every field is written where its element has it. -/
theorem mainHeader_eq (mc : McParms) (vcodec : MCodec) :
    mainHeader mc vcodec = ebmlElement ++
      element [0x18, 0x53, 0x80, 0x67] [0x01, 0xff, 0xff, 0xff, 0xff, 0xff, 0xff, 0xff]
        (segmentParts mc vcodec).flatten := by
  cases vcodec <;> rfl

theorem length_mainHeader (mc : McParms) (vcodec : MCodec) :
    (mainHeader mc vcodec).length = wholeMainHeaderLoad := by
  have hc : (codecStr vcodec).length = 15 := by cases vcodec <;> rfl
  unfold mainHeader
  iterate 10 refine length_overwrite ?_ ?_
  · exact length_mkvHead
  all_goals simp [wholeMainHeaderLoad, hc, btNV2MMU16, btNV2MMU32, tanidvrSwStr]

theorem length_headers (mc : McParms) (firstFrame : Bool) (vcodec : MCodec) :
    (headers mc firstFrame vcodec).length = 35 + if firstFrame then 420 else 0 := by
  have := length_mainHeader mc vcodec
  cases firstFrame <;> simp [headers, length_clusterHeader, this, wholeMainHeaderLoad]

end TaniDVR
