import TaniDVR.Mkv

/-!
# MkvRead — a Matroska file read back

`decodeMkv` reads a file by its EBML sizes: the picture size of the track, and the time and data of
each Cluster.  `decodeMkv_file` shows that it reads back what the writer of `TaniDVR.Mkv` wrote, and
that the sizes nest at every level.
-/

namespace TaniDVR

open Lib Lib.Ebml

/-! ### The reader -/

/-- The ids of the elements that hold elements. -/
def holdsElements (id : ℕ) : Bool :=
  id ∈ [0x1a45dfa3, 0x18538067, 0x1549a966, 0x1654ae6b, 0xae, 0xe0, 0x1f43b675]

/-- What a reader finds in a file. -/
structure MkvFile where
  pixelWidth : ℕ
  pixelHeight : ℕ
  clusters : List (ℕ × List UInt8)  -- time and data
  deriving DecidableEq

/-- The content of the first element `id`. -/
def child (id : ℕ) (l : List UInt8) : Option (List UInt8) := do
  let es ← elements l
  let e ← es.find? (·.id = id)
  return e.content

/-- A Cluster of one Timecode and one SimpleBlock of track 1 with relative time 0. -/
def decodeCluster (l : List UInt8) : Option (ℕ × List UInt8) :=
  match elements l with
  | some [time, block] =>
    if time.id = 0xe7 ∧ block.id = 0xa3 ∧ 4 ≤ block.content.length ∧
        block.content.take 3 = [0x81, 0x00, 0x00] then
      some (beNat time.content, block.content.drop 4)
    else none
  | _ => none

/-- A file, by its element sizes. -/
def decodeMkv (l : List UInt8) : Option MkvFile := do
  let segment ← child 0x18538067 l
  let tracks ← child 0x1654ae6b segment
  let trackEntry ← child 0xae tracks
  let video ← child 0xe0 trackEntry
  let width ← child 0xb0 video
  let height ← child 0xba video
  let es ← elements segment
  let clusters ← (es.filter (·.id = 0x1f43b675)).mapM (decodeCluster ·.content)
  return ⟨beNat width, beNat height, clusters⟩

/-! ### The main header -/

theorem reads_ebmlElement : Reads ebmlElement ⟨0x1a45dfa3, (mkvHead.drop 12).take 35⟩ :=
  reads_of_header 35 rfl (by decide) (by decide)

/-- What the Segment holds before the first Cluster. -/
def segmentElements (mc : McParms) (vcodec : MCodec) : List Element := [
  ⟨0xec, List.replicate 147 0x00⟩,
  ⟨0x1549a966, infoParts.flatten⟩,
  ⟨0x1654ae6b, element [0xae] [0x01, 0x00, 0x00, 0x00, 0x00, 0x00, 0x00, 0x67]
      (trackEntryParts mc vcodec).flatten⟩]

theorem reads_segmentParts (mc : McParms) (vcodec : MCodec) :
    List.Forall₂ Reads (segmentParts mc vcodec) (segmentElements mc vcodec) := by
  refine .cons ?_ (.cons ?_ (.cons ?_ .nil))
  · exact reads_of_header 147 rfl (by decide) (by simp)
  · exact reads_of_header 69 rfl (by decide) rfl
  · exact reads_of_header 112 rfl (by decide)
      (by cases vcodec <;> rfl)

theorem btNV2MMU16_beNat {n : ℕ} (h : n < 2 ^ 16) : beNat (btNV2MMU16 n) = n := by
  have hb : btNV2MMU16 n = beBytes 2 n := by
    simp [btNV2MMU16, beBytes, Nat.shiftRight_eq_div_pow]
  rw [hb, beNat_beBytes, Nat.mod_eq_of_lt (by omega)]

theorem lenBytes_eq (n : ℕ) : lenBytes n = beBytes 7 n := by
  simp [lenBytes, beBytes, Nat.shiftRight_eq_div_pow]

/-- The elements of the Video settings. -/
def videoElements (mc : McParms) : List Element := [
  ⟨0xb0, btNV2MMU16 mc.vWidth⟩, ⟨0xba, btNV2MMU16 mc.vHeight⟩,
  ⟨0x54b0, btNV2MMU16 mc.vAspectX⟩, ⟨0x54ba, btNV2MMU16 mc.vAspectY⟩,
  ⟨0x2383e3, btNV2MMU32 (transformFpsToMkvfps mc.dhavFps mc.ntscTimings mc.ntscExact60hz).toNat⟩]

theorem elements_videoParts (mc : McParms) :
    elements (videoParts mc).flatten = some (videoElements mc) := by
  refine elements_flatten (.cons ?_ (.cons ?_ (.cons ?_ (.cons ?_ (.cons ?_ .nil)))))
  iterate 4 exact reads_of_header 2 rfl (by decide) rfl
  exact reads_of_header 4 rfl (by decide) rfl

/-- The elements of the TrackEntry. -/
def trackEntryElements (mc : McParms) (vcodec : MCodec) : List Element := [
  ⟨0xd7, [0x01]⟩, ⟨0x73c5, [0x01]⟩, ⟨0x9c, [0x00]⟩, ⟨0x22b59c, [0x75, 0x6e, 0x64]⟩, ⟨0x88, [0x00]⟩,
  ⟨0x86, codecStr vcodec⟩, ⟨0x83, [0x01]⟩, ⟨0xe0, (videoParts mc).flatten⟩,
  ⟨0x63a2, [0x00, 0x00, 0x00, 0x00, 0x00, 0x01, 0x67, 0x42,
    0xe0, 0x14, 0xda, 0x05, 0x82, 0x17, 0x89, 0x40, 0x00, 0x00, 0x00, 0x01, 0x68, 0xce, 0x30, 0xa4,
    0x80]⟩]

theorem elements_trackEntryParts (mc : McParms) (vcodec : MCodec) :
    elements (trackEntryParts mc vcodec).flatten = some (trackEntryElements mc vcodec) := by
  refine elements_flatten (.cons ?_ (.cons ?_ (.cons ?_ (.cons ?_ (.cons ?_ (.cons ?_ (.cons ?_
    (.cons ?_ (.cons ?_ .nil)))))))))
  iterate 3 exact reads_of_header 1 rfl (by decide) rfl
  · exact reads_of_header 3 rfl (by decide) rfl
  · exact reads_of_header 1 rfl (by decide) rfl
  · exact reads_of_header 15 rfl (by decide)
      (by cases vcodec <;> rfl)
  · exact reads_of_header 1 rfl (by decide) rfl
  · exact reads_of_header 26 rfl (by decide) rfl
  · exact reads_of_header 25 rfl (by decide) rfl

theorem elements_tracks (mc : McParms) (vcodec : MCodec) :
    elements (element [0xae] [0x01, 0x00, 0x00, 0x00, 0x00, 0x00, 0x00, 0x67]
      (trackEntryParts mc vcodec).flatten) =
      some [⟨0xae, (trackEntryParts mc vcodec).flatten⟩] := by
  have h : Reads (element [0xae] [0x01, 0x00, 0x00, 0x00, 0x00, 0x00, 0x00, 0x67]
      (trackEntryParts mc vcodec).flatten) ⟨0xae, (trackEntryParts mc vcodec).flatten⟩ :=
    reads_of_header 103 rfl (by decide)
      (by cases vcodec <;> rfl)
  simpa using elements_flatten (.cons h .nil)

/-! ### Clusters read back -/

/-- The Cluster of a frame. -/
def clusterBytes (timestampUs : ℕ) (frameType : FrameType) (body : List UInt8) : List UInt8 :=
  clusterHeader timestampUs body.length frameType ++ body

/-- What the SimpleBlock of a frame holds. -/
def blockContent (frameType : FrameType) (body : List UInt8) : List UInt8 :=
  0x81 :: 0x00 :: 0x00 :: (if frameType = .videoIFrame then 0x01 else 0x00) :: body

/-- The elements of a Cluster. -/
def clusterElements (timestampUs : ℕ) (frameType : FrameType) (body : List UInt8) : List Element :=
  [⟨0xe7, beBytes 8 timestampUs⟩, ⟨0xa3, blockContent frameType body⟩]

/-- What a Cluster holds. -/
def clusterContent (timestampUs : ℕ) (frameType : FrameType) (body : List UInt8) : List UInt8 :=
  [element [0xe7] [0x88] (beBytes 8 timestampUs),
    element [0xa3] (0x01 :: beBytes 7 (body.length + 4)) (blockContent frameType body)].flatten

theorem clusterBytes_eq {timestampUs : ℕ} {frameType : FrameType} {body : List UInt8}
    (h : body.length < 2 ^ 55) :
    clusterBytes timestampUs frameType body =
      element [0x1f, 0x43, 0xb6, 0x75] (0x01 :: beBytes 7 (body.length + 23))
        (clusterContent timestampUs frameType body) := by
  have h1 : toSizeT ((body.length : ℤ) + wholeClusterHeaderLoad + wholeSimpleblockHeaderLoad - 12) =
      body.length + 23 := by
    unfold toSizeT wholeClusterHeaderLoad wholeSimpleblockHeaderLoad
    omega
  have h2 : toSizeT ((body.length : ℤ) + wholeSimpleblockHeaderLoad - 9) = body.length + 4 := by
    unfold toSizeT wholeSimpleblockHeaderLoad
    omega
  have h8 : UInt8.ofNat (timestampUs >>> 56) :: beBytes 7 timestampUs = beBytes 8 timestampUs := by
    simp [beBytes, Nat.shiftRight_eq_div_pow]
  simp [clusterBytes, clusterHeader, h1, h2, lenBytes_eq, clusterContent, element, blockContent, ← h8]

theorem elements_clusterContent {timestampUs : ℕ} {frameType : FrameType} {body : List UInt8}
    (h : body.length < 2 ^ 55) :
    elements (clusterContent timestampUs frameType body) =
      some (clusterElements timestampUs frameType body) := by
  refine elements_flatten (.cons ?_ (.cons ?_ .nil))
  · exact reads_of_header 8 rfl (by decide) (by simp)
  · exact reads_element (idBytes_of rfl) (sizeBytes_long (by omega)) (by simp [blockContent])

theorem reads_clusterBytes {timestampUs : ℕ} {frameType : FrameType} {body : List UInt8}
    (h : body.length < 2 ^ 55) :
    Reads (clusterBytes timestampUs frameType body)
      ⟨0x1f43b675, clusterContent timestampUs frameType body⟩ := by
  rw [clusterBytes_eq h]
  refine reads_element (idBytes_of rfl) (sizeBytes_long (by omega)) ?_
  simp [clusterContent, element, blockContent]
  omega

/-! ### Files -/

/-- A file of the writer. -/
def mkvBytes (mc : McParms) (vcodec : MCodec) (cs : List (ℕ × FrameType × List UInt8)) : List UInt8 :=
  mainHeader mc vcodec ++ (cs.map fun c => clusterBytes c.1 c.2.1 c.2.2).flatten

/-- The elements of the Segment. -/
def allElements (mc : McParms) (vcodec : MCodec) (cs : List (ℕ × FrameType × List UInt8)) :
    List Element :=
  segmentElements mc vcodec ++ cs.map fun c => ⟨0x1f43b675, clusterContent c.1 c.2.1 c.2.2⟩

/-- The content of the Segment. -/
def segmentBytes (mc : McParms) (vcodec : MCodec) (cs : List (ℕ × FrameType × List UInt8)) :
    List UInt8 :=
  (segmentParts mc vcodec).flatten ++ (cs.map fun c => clusterBytes c.1 c.2.1 c.2.2).flatten

variable {mc : McParms} {vcodec : MCodec} {cs : List (ℕ × FrameType × List UInt8)}

theorem elements_mkvBytes :
    elements (mkvBytes mc vcodec cs) =
      some [⟨0x1a45dfa3, (mkvHead.drop 12).take 35⟩, ⟨0x18538067, segmentBytes mc vcodec cs⟩] := by
  have hid : IdBytes [0x18, 0x53, 0x80, 0x67] 0x18538067 := idBytes_of rfl
  have hsize : SizeBytes [0x01, 0xff, 0xff, 0xff, 0xff, 0xff, 0xff, 0xff] none :=
    sizeBytes_of (by decide)
  have hs := readElement_unknown hid hsize (segmentBytes mc vcodec cs)
  have he : mkvBytes mc vcodec cs = ebmlElement ++
      element [0x18, 0x53, 0x80, 0x67] [0x01, 0xff, 0xff, 0xff, 0xff, 0xff, 0xff, 0xff]
        (segmentBytes mc vcodec cs) := by
    simp only [mkvBytes, mainHeader_eq, segmentBytes, element, List.append_assoc]
  rw [he, elements_cons (reads_ebmlElement _), elements_cons hs]
  rfl

theorem elements_segmentBytes (hcs : ∀ c ∈ cs, c.2.2.length < 2 ^ 55) :
    elements (segmentBytes mc vcodec cs) = some (allElements mc vcodec cs) := by
  have hc : List.Forall₂ Reads (cs.map fun c => clusterBytes c.1 c.2.1 c.2.2)
      (cs.map fun c => ⟨0x1f43b675, clusterContent c.1 c.2.1 c.2.2⟩) := by
    rw [List.forall₂_map_left_iff, List.forall₂_map_right_iff, List.forall₂_same]
    exact fun c h => reads_clusterBytes (hcs c h)
  rw [segmentBytes, elements_flatten_append (reads_segmentParts mc vcodec), elements_flatten hc]
  rfl

theorem decodeCluster_of {l body : List UInt8} {t : Element} {flags : UInt8}
    (h : elements l = some [t, ⟨0xa3, 0x81 :: 0x00 :: 0x00 :: flags :: body⟩]) (ht : t.id = 0xe7) :
    decodeCluster l = some (beNat t.content, body) := by
  simp [decodeCluster, h, ht]

theorem decodeCluster_clusterContent {timestampUs : ℕ} {frameType : FrameType} {body : List UInt8}
    (ht : timestampUs < 2 ^ 64) (hb : body.length < 2 ^ 55) :
    decodeCluster (clusterContent timestampUs frameType body) = some (timestampUs, body) := by
  rw [decodeCluster_of (elements_clusterContent hb) rfl, beNat_beBytes, Nat.mod_eq_of_lt (by omega)]

theorem child_eq {l : List UInt8} {es : List Element} {e : Element} {id : ℕ}
    (h : elements l = some es) (he : es.find? (·.id = id) = some e) : child id l = some e.content := by
  simp [child, h, he]

/-- The Clusters are the Segment's. -/
theorem filter_allElements (mc : McParms) (vcodec : MCodec) :
    (allElements mc vcodec cs).filter (·.id = 0x1f43b675) =
      cs.map fun c => ⟨0x1f43b675, clusterContent c.1 c.2.1 c.2.2⟩ := by
  have h1 : (segmentElements mc vcodec).filter (·.id = 0x1f43b675) = [] := by
    rw [List.filter_eq_nil_iff]
    intro e he
    simp only [segmentElements, List.mem_cons, List.not_mem_nil, or_false] at he
    rcases he with rfl | rfl | rfl <;> simp
  rw [allElements, List.filter_append, h1, List.nil_append, List.filter_eq_self]
  intro e he
  obtain ⟨c, -, rfl⟩ := List.mem_map.mp he
  exact decide_eq_true rfl

theorem mapM_decodeCluster (hcs : ∀ c ∈ cs, c.1 < 2 ^ 64 ∧ c.2.2.length < 2 ^ 55) :
    (cs.map fun c => (⟨0x1f43b675, clusterContent c.1 c.2.1 c.2.2⟩ : Element)).mapM
      (decodeCluster ·.content) = some (cs.map fun c => (c.1, c.2.2)) := by
  induction cs with
  | nil => rfl
  | cons c cs ih =>
    have hc := hcs c (by simp)
    have ih := ih fun c' h => hcs c' (List.mem_cons_of_mem _ h)
    rw [List.map_cons, List.mapM_cons, ih, decodeCluster_clusterContent hc.1 hc.2]
    rfl

theorem decodeMkv_of {l segment tracks trackEntry video width height : List UInt8} {es : List Element}
    {clusters : List (ℕ × List UInt8)} (h1 : child 0x18538067 l = some segment)
    (h2 : child 0x1654ae6b segment = some tracks) (h3 : child 0xae tracks = some trackEntry)
    (h4 : child 0xe0 trackEntry = some video) (h5 : child 0xb0 video = some width)
    (h6 : child 0xba video = some height) (h7 : elements segment = some es)
    (h8 : (es.filter (·.id = 0x1f43b675)).mapM (decodeCluster ·.content) = some clusters) :
    decodeMkv l = some ⟨beNat width, beNat height, clusters⟩ := by
  simp [decodeMkv, h1, h2, h3, h4, h5, h6, h7, h8]

/-- **A file of the writer is read back.** -/
theorem decodeMkv_mkvBytes (hw : mc.vWidth < 2 ^ 16) (hh : mc.vHeight < 2 ^ 16)
    (hcs : ∀ c ∈ cs, c.1 < 2 ^ 64 ∧ c.2.2.length < 2 ^ 55) :
    decodeMkv (mkvBytes mc vcodec cs) =
      some ⟨mc.vWidth, mc.vHeight, cs.map fun c => (c.1, c.2.2)⟩ := by
  have hes : elements (segmentBytes mc vcodec cs) = some (allElements mc vcodec cs) :=
    elements_segmentBytes fun c hc => (hcs c hc).2
  have hclusters := mapM_decodeCluster hcs
  rw [← filter_allElements mc vcodec] at hclusters
  rw [decodeMkv_of (child_eq elements_mkvBytes rfl) (child_eq hes rfl)
    (child_eq (elements_tracks mc vcodec) rfl) (child_eq (elements_trackEntryParts mc vcodec) rfl)
    (child_eq (elements_videoParts mc) rfl) (child_eq (elements_videoParts mc) rfl) hes hclusters]
  simp only [btNV2MMU16_beNat hw, btNV2MMU16_beNat hh]

/-- **The sizes nest.** -/
theorem nests_mkvBytes (hcs : ∀ c ∈ cs, c.2.2.length < 2 ^ 55) :
    nests holdsElements 5 (mkvBytes mc vcodec cs) = true := by
  have hvideo : nests holdsElements 1 (videoParts mc).flatten = true := by
    rw [nests_iff (elements_videoParts mc)]
    simp [videoElements, holdsElements]
  have hentry : nests holdsElements 2 (trackEntryParts mc vcodec).flatten = true := by
    rw [nests_iff (elements_trackEntryParts mc vcodec)]
    simp [trackEntryElements, holdsElements, hvideo]
  rw [nests_iff elements_mkvBytes]
  simp only [List.mem_cons, List.not_mem_nil, or_false, forall_eq_or_imp, forall_eq]
  refine ⟨fun _ => by decide, ?_⟩
  intro _
  rw [nests_iff (elements_segmentBytes hcs)]
  intro e he hm
  rcases List.mem_append.mp he with he | he
  · simp only [segmentElements, List.mem_cons, List.not_mem_nil, or_false] at he
    rcases he with rfl | rfl | rfl
    · simp [holdsElements] at hm
    · exact (by decide : nests holdsElements 3 infoParts.flatten = true)
    · rw [nests_iff (elements_tracks mc vcodec)]
      simp [hentry]
  · obtain ⟨c, hc, rfl⟩ := List.mem_map.mp he
    rw [nests_iff (elements_clusterContent (hcs c hc))]
    simp [clusterElements, holdsElements]

end TaniDVR
