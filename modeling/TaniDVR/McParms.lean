import TaniDVR.Bintools

/-!
# McParms — the frame information of `mctools.c`

`McParms` is `t_mc_parms`; `dtCollectDhavFrameInfo` and `dtCollectRawH264FrameInfo` fill it from one
frame.  The frame is read through `Mem`, the bytes that exist at `src_p`; a read where there is none
and a division by zero end the run with a `Fault`.

`collect_eq` is the DHAV function after its reads, which are in the header and the extended header;
`collect_fc`, `collect_fd` and `collect_other` say what each type of frame does to the parameters.
-/

namespace TaniDVR

open Lib

/-- What ends a C program at once. -/
inductive Fault
  | outOfBounds (offset : ℕ)  -- a read where there is no memory
  | overrun                   -- a write past the end of a buffer
  | divZero
  deriving DecidableEq, Repr

/-- A computation that goes on does so from a value. -/
theorem bind_ok {α β : Type} {x : Except Fault α} {f : α → Except Fault β} {b : β}
    (h : x >>= f = .ok b) : ∃ a, x = .ok a ∧ f a = .ok b := by
  cases x with
  | error e => cases h
  | ok a => exact ⟨a, rfl, h⟩

/-- The bytes at a pointer, where they exist. -/
def Mem : Type := ℕ → Option UInt8

namespace Mem

/-- `*(src_p + i)`. -/
def read (src : Mem) (i : ℕ) : Except Fault UInt8 :=
  match src i with
  | some b => .ok b
  | none => .error (.outOfBounds i)

/-- `src_p + n` as a pointer. -/
def plus (src : Mem) (n : ℕ) : Mem := fun i => src (n + i)

/-- `BT_LM2NV_U16(src_p + i)`. -/
def readU16 (src : Mem) (i : ℕ) : Except Fault ℤ := do
  let b0 ← src.read i
  let b1 ← src.read (i + 1)
  return btLM2NVU16 (ofList [b0, b1])

/-- `BT_LM2NV_U32(src_p + i)`. -/
def readU32 (src : Mem) (i : ℕ) : Except Fault ℤ := do
  let b0 ← src.read i
  let b1 ← src.read (i + 1)
  let b2 ← src.read (i + 2)
  let b3 ← src.read (i + 3)
  return btLM2NVU32 (ofList [b0, b1, b2, b3])

/-- `memcpy` of `n` bytes from `src_p + i`. -/
def readRange (src : Mem) (i : ℕ) : ℕ → Except Fault (List UInt8)
  | 0 => .ok []
  | n + 1 => do
    let b ← src.read i
    let bs ← src.readRange (i + 1) n
    return b :: bs

/-- A buffer that reaches as far as anything is read. -/
def ofFn (s : ℕ → UInt8) : Mem := fun i => some (s i)

/-- Exactly the bytes of a frame. -/
def ofFrame (f : List UInt8) : Mem := fun i => f[i]?

end Mem

/-- A frame in the buffer it is read from. -/
structure FrameBuf where
  buf : ℕ → UInt8
  srcLen : ℕ

/-- `t_frame_type`. -/
inductive FrameType
  | undefined | videoFrame | videoIFrame | audioFrame
  deriving DecidableEq, Repr, Inhabited

/-- `t_mc_parms`; the numbers are those of the C types (`body_p` is an offset to `src_p`). -/
structure McParms where
  vFirstFrame : Bool
  ntscExact60hz : Bool
  frameType : FrameType
  hasVParms : Bool
  vWidth : ℕ
  vHeight : ℕ
  vAspectX : ℕ
  vAspectY : ℕ
  dhavEpoch : ℕ
  vTimestamp : ℕ
  vDhavTs : ℕ
  ntscTimings : Bool
  dhavFps : UInt8
  vDhavTsPrev : ℕ
  bodyP : ℕ
  bodyLen : ℕ
  deriving Inhabited

/-- The frames that the corrector and the writer work on. -/
def Usable (mc : McParms) : Prop :=
  (mc.frameType = .videoIFrame ∨ mc.frameType = .videoFrame) ∧ mc.hasVParms = true

instance (mc : McParms) : Decidable (Usable mc) := inferInstanceAs (Decidable (_ ∧ _))

theorem Usable.video {mc : McParms} (h : Usable mc) :
    ¬ (mc.frameType ≠ .videoIFrame ∧ mc.frameType ≠ .videoFrame) := by
  rintro ⟨h1, h2⟩
  rcases h.1 with h | h
  · exact h1 h
  · exact h2 h

theorem not_usable_iff {mc : McParms} : ¬ Usable mc ↔
    (mc.frameType ≠ .videoIFrame ∧ mc.frameType ≠ .videoFrame) ∨
      ¬ (mc.frameType ≠ .videoIFrame ∧ mc.frameType ≠ .videoFrame) ∧ mc.hasVParms = false := by
  unfold Usable
  cases mc.hasVParms <;> simp
  tauto

theorem toNat_pos_of_ne_zero {b : UInt8} (h : b ≠ 0) : 0 < b.toNat := by
  rcases Nat.eq_zero_or_pos b.toNat with h0 | h0
  · exact absurd (UInt8.toNat_inj.mp h0) h
  · exact h0

/-- `mc_init`: the fields it does not set keep what `malloc` left in them. -/
def mcInit (heap : McParms) (ntscExact60hz : Bool) : McParms :=
  { heap with
    frameType := .undefined
    hasVParms := false
    vWidth := 0
    vHeight := 0
    vTimestamp := 0
    dhavEpoch := 0
    ntscExact60hz := ntscExact60hz
    vDhavTsPrev := 0
    vFirstFrame := true }

/-! ### Extended headers -/

/-- `((fn) << 3) + (dn)`, the index of `DHAV_SF_DATA(fn,dn)`. -/
def dhavSfIndex (fn dn : ℕ) : ℕ := (fn <<< 3) + dn

/-- The loop of `dhav_sf_parse_ext_head`, for `hl` more bytes. -/
def extHeadLoop (extHead : Mem) (id : UInt8) (idLen idPos pos : ℕ) (array : ℕ → UInt8) :
    ℕ → Except Fault (ℕ → UInt8)
  | 0 => .ok array
  | hl + 1 =>
    if idLen = 0 then do
      let id ← extHead.read pos
      let b ← extHead.read pos
      extHeadLoop extHead id ((if id = 0x88 then 8 else 4) - 1) 1 (pos + 1)
        (Function.update array (dhavSfIndex id.toNat 0) b) hl
    else do
      let b ← extHead.read pos
      extHeadLoop extHead id (idLen - 1) (idPos + 1) (pos + 1)
        (Function.update array (dhavSfIndex id.toNat idPos) b) hl

/-- `dhav_sf_parse_ext_head`: the subfields array. -/
def dhavSfParseExtHead (extHead : Mem) (extHeadLen : ℕ) : Except Fault (ℕ → UInt8) :=
  extHeadLoop extHead 0 0 0 0 (fun _ => 0) extHeadLen

/-! ### The counter of the headers -/

/-- `t` is the time in msec of the frames with the stamps `stamps`: it never goes back, advances by
less than the 16-bit counter goes round in, and the stamps are what is left of it. -/
structure HasTimes (t : ℕ → ℕ) (stamps : List ℕ) : Prop where
  stamp : ∀ i s, stamps[i]? = some s → s = t i % 2 ^ 16
  gap : ∀ i, i + 1 < stamps.length → t i ≤ t (i + 1) ∧ t (i + 1) < t i + 65536

theorem HasTimes.tail {t : ℕ → ℕ} {s : ℕ} {stamps : List ℕ} (h : HasTimes t (s :: stamps)) :
    HasTimes (fun i => t (i + 1)) stamps :=
  ⟨fun i x hx => h.stamp (i + 1) x hx, fun i hi => h.gap (i + 1) (Nat.succ_lt_succ hi)⟩

theorem getElem?_of_isPrefix {α : Type} {pre l : List α} (h : pre <+: l) {k : ℕ} {x : α}
    (hk : pre[k]? = some x) : l[k]? = some x := by
  obtain ⟨hlt, rfl⟩ := List.getElem?_eq_some_iff.mp hk
  exact List.prefix_iff_getElem?.mp h k hlt

theorem HasTimes.of_prefix {t : ℕ → ℕ} {pre stamps : List ℕ} (h : HasTimes t stamps)
    (hpre : pre <+: stamps) : HasTimes t pre := by
  have hlen := hpre.length_le
  exact ⟨fun i s hs => h.stamp i s (getElem?_of_isPrefix hpre hs), fun i hi => h.gap i (by omega)⟩

/-- The advance of a counter from two readings modulo `w`, less than `w` apart. -/
theorem counter_advance {a b w : ℕ} (hab : a ≤ b) (hb : b < a + w) :
    (((b % w : ℕ) : ℤ) - (a % w : ℕ)) % w = b - a := by
  rw [Int.natCast_mod, Int.natCast_mod, ← Int.sub_emod]
  exact Int.emod_eq_of_lt (by omega) (by omega)

/-! ### What both routines guess -/

/-- The aspect ratio of a picture size. -/
def setAspect (mc : McParms) : McParms :=
  if mc.vWidth * 1000 / mc.vHeight = 1777 then { mc with vAspectX := 16, vAspectY := 9 }
  else { mc with vAspectX := 4, vAspectY := 3 }

/-- "guess aspect-ratio". -/
def guessAspect (mc : McParms) : Except Fault McParms :=
  if mc.vHeight = 0 then .error .divZero else .ok (setAspect mc)

/-- "guesses whether the video came from NTSC source". -/
def guessNtsc (mc : McParms) : McParms :=
  { mc with
    ntscTimings :=
      if mc.vHeight ∈ [60, 120, 160, 240, 480] then true
      else if mc.vHeight ∈ [72, 144, 192, 288, 576] then false
      else decide (mc.dhavFps ∈ [60, 30, 15]) }

/-! ### DHAV -/

/-- `BASE_DHAV_HDR_LEN`. -/
def baseDhavHdrLen : ℕ := 24

/-- `body_offset`. -/
def dhavBodyOffset (extheadLen : UInt8) : ℕ := extheadLen.toNat + baseDhavHdrLen

/-- `body_len`: a `size_t` difference. -/
def dhavBodyLen (srcLen : ℕ) (extheadLen : UInt8) : ℕ :=
  toSizeT ((srcLen : ℤ) - dhavBodyOffset extheadLen - 8)

/-- What an 0xfd frame takes from the subfields. -/
def setGeometry (mc : McParms) (sub : ℕ → UInt8) : McParms :=
  { mc with
    vWidth := (sub (dhavSfIndex 0x80 2)).toNat * 8
    vHeight := (sub (dhavSfIndex 0x80 3)).toNat * 8
    dhavFps := sub (dhavSfIndex 0x81 3) }

/-- "get other data from DHAV" and the "(buggy) v_timestamp calculation". -/
def updateTimes (mc : McParms) (ts epoch : ℤ) : McParms :=
  let mc := { mc with vDhavTs := ts.toNat, dhavEpoch := (epoch % 2 ^ 32).toNat }
  if mc.vFirstFrame then { mc with vFirstFrame := false, vDhavTsPrev := mc.vDhavTs, vTimestamp := 0 }
  else
    let vDhavPeriod : ℤ :=
      if mc.vDhavTs > mc.vDhavTsPrev then (mc.vDhavTs : ℤ) - mc.vDhavTsPrev
      else (mc.vDhavTs : ℤ) + (0 - mc.vDhavTsPrev)
    { mc with
      vTimestamp := (mc.vTimestamp + (vDhavPeriod % 2 ^ 16).toNat * 1000000) % 2 ^ 64
      vDhavTsPrev := mc.vDhavTs }

/-- "video parms and timings", for 0xfd and 0xfc frames, and the body. -/
def collectTimes (mc : McParms) (src : Mem) (bodyOffset bodyLen : ℕ) : Except Fault (ℤ × McParms) := do
  let ts ← src.readU16 20
  let epoch ← src.readU32 16
  return (0, { updateTimes mc ts epoch with bodyP := bodyOffset, bodyLen := bodyLen })

/-- `dt_collect_dhav_frame_info`. -/
def dtCollectDhavFrameInfo (mc : McParms) (src : Mem) (srcLen : ℕ) : Except Fault (ℤ × McParms) := do
  let mc := { mc with frameType := .undefined }
  if srcLen = 0 then return (0, mc)
  let dhavType ← src.read 4
  let extheadLen ← src.read 22
  let bodyOffset := dhavBodyOffset extheadLen
  let bodyLen := dhavBodyLen srcLen extheadLen
  let sub ← dhavSfParseExtHead (src.plus baseDhavHdrLen) extheadLen.toNat
  if dhavType = 0xfc then
    if mc.hasVParms = false then return (0, mc)
    collectTimes { mc with frameType := .videoFrame } src bodyOffset bodyLen
  else if dhavType = 0xfd then
    let mc := setGeometry mc sub
    if mc.dhavFps = 0 then return (-1, mc)
    let mc ← guessAspect mc
    let mc := guessNtsc mc
    collectTimes { mc with hasVParms := true, frameType := .videoIFrame } src bodyOffset bodyLen
  else if dhavType = 0xf0 then return (0, { mc with frameType := .audioFrame })
  else return (0, mc)

/-! ### Raw H.264 -/

/-- "video parms and timings", which every frame that gets there has: the test
`if (NAL_type = 0xb6)` is an assignment. -/
def rawTimes (mc : McParms) : McParms :=
  if mc.vFirstFrame then { mc with vTimestamp := 0, vFirstFrame := false }
  else { mc with vTimestamp := (mc.vTimestamp + 60 * 1000 * 1000) % 2 ^ 64 }

/-- `dt_collect_raw_h264_frame_info`. -/
def dtCollectRawH264FrameInfo (mc : McParms) (src : Mem) (srcLen : ℕ) :
    Except Fault (ℤ × McParms) := do
  let mc := { mc with frameType := .undefined }
  if srcLen = 0 then return (0, mc)
  let nalType ← src.read 3
  let mc := { mc with bodyP := 0, bodyLen := srcLen }
  if nalType = 0xb6 then
    let b ← src.read 4
    let mc := if (b >>> 6) &&& 0x03 = 0 then { mc with frameType := .videoIFrame }
      else { mc with frameType := .videoFrame }
    return (0, rawTimes mc)
  else if nalType = 0xf0 then return (0, { mc with frameType := .audioFrame })
  else if nalType = 0xfb then
    let w ← src.read 6
    let h ← src.read 7
    let mc ← guessAspect { mc with vWidth := w.toNat * 8, vHeight := h.toNat * 8, dhavFps := 20 }
    let mc := guessNtsc mc
    return (0, rawTimes { mc with hasVParms := true })
  else return (0, mc)

/-! ### What is read -/

namespace Mem

variable {src : Mem} {s : ℕ → UInt8}

theorem read_eq {i : ℕ} {b : UInt8} (h : src i = some b) : src.read i = .ok b := by
  simp [read, h]

theorem eq_of_read {i : ℕ} {b : UInt8} (h : src.read i = .ok b) : src i = some b := by
  unfold read at h
  cases hb : src i with
  | none => simp [hb] at h
  | some b' => simpa [hb] using h

theorem readU16_eq {i : ℕ} (h : ∀ k < 2, src (i + k) = some (s (i + k))) :
    src.readU16 i = .ok (btLM2NVU16 (fun k => s (i + k))) := by
  have h0 := read_eq (h 0 (by omega))
  have h1 := read_eq (h 1 (by omega))
  rw [Nat.add_zero] at h0
  simp only [readU16, h0, h1]
  rfl

theorem readU32_eq {i : ℕ} (h : ∀ k < 4, src (i + k) = some (s (i + k))) :
    src.readU32 i = .ok (btLM2NVU32 (fun k => s (i + k))) := by
  have h0 := read_eq (h 0 (by omega))
  have h1 := read_eq (h 1 (by omega))
  have h2 := read_eq (h 2 (by omega))
  have h3 := read_eq (h 3 (by omega))
  rw [Nat.add_zero] at h0
  simp only [readU32, h0, h1, h2, h3]
  rfl

theorem readRange_eq {i n : ℕ} (h : ∀ k < n, src (i + k) = some (s (i + k))) :
    src.readRange i n = .ok (slice s i n) := by
  induction n generalizing i with
  | zero => rfl
  | succ n ih =>
    have h0 := read_eq (h 0 (by omega))
    have hn : ∀ k < n, src (i + 1 + k) = some (s (i + 1 + k)) := by
      intro k hk
      have := h (k + 1) (by omega)
      rwa [show i + (k + 1) = i + 1 + k by omega] at this
    rw [Nat.add_zero] at h0
    simp only [readRange, h0, ih hn]
    rfl

theorem ofFrame_of_lt {f : List UInt8} {i : ℕ} (h : i < f.length) :
    ofFrame f i = some (ofList f i) := by
  simp [ofFrame, ofList, h]

end Mem

/-- The subfields array of an extended header that is there. -/
def extHeadStore (s : ℕ → UInt8) (id : UInt8) (idLen idPos pos : ℕ) (array : ℕ → UInt8) :
    ℕ → ℕ → UInt8
  | 0 => array
  | hl + 1 =>
    if idLen = 0 then
      extHeadStore s (s pos) ((if s pos = 0x88 then 8 else 4) - 1) 1 (pos + 1)
        (Function.update array (dhavSfIndex (s pos).toNat 0) (s pos)) hl
    else
      extHeadStore s id (idLen - 1) (idPos + 1) (pos + 1)
        (Function.update array (dhavSfIndex id.toNat idPos) (s pos)) hl

theorem extHeadLoop_eq {src : Mem} {s : ℕ → UInt8} {hl pos : ℕ} (id : UInt8) (idLen idPos : ℕ)
    (array : ℕ → UInt8) (h : ∀ k < hl, src (pos + k) = some (s (pos + k))) :
    extHeadLoop src id idLen idPos pos array hl =
      .ok (extHeadStore s id idLen idPos pos array hl) := by
  induction hl generalizing id idLen idPos pos array with
  | zero => rfl
  | succ hl ih =>
    have h0 := Mem.read_eq (h 0 (by omega))
    have hn : ∀ k < hl, src (pos + 1 + k) = some (s (pos + 1 + k)) := by
      intro k hk
      have := h (k + 1) (by omega)
      rwa [show pos + (k + 1) = pos + 1 + k by omega] at this
    rw [Nat.add_zero] at h0
    unfold extHeadLoop extHeadStore
    by_cases hid : idLen = 0
    · simp only [if_pos hid, h0, bind, Except.bind, ih _ _ _ _ hn]
    · simp only [if_neg hid, h0, bind, Except.bind, ih _ _ _ _ hn]

/-- The subfields of the extended header of a frame. -/
def subfields (s : ℕ → UInt8) : ℕ → UInt8 :=
  extHeadStore (fun i => s (baseDhavHdrLen + i)) 0 0 0 0 (fun _ => 0) (s 22).toNat

/-- The DHAV header and the extended header are there. -/
def HeaderThere (src : Mem) (s : ℕ → UInt8) : Prop :=
  ∀ i < dhavBodyOffset (s 22), src i = some (s i)

theorem headerThere_ofFn (s : ℕ → UInt8) : HeaderThere (.ofFn s) s := fun _ _ => rfl

/-- **What an accepted video frame does**: the clock moves and the body is found. -/
def withTimes (mc : McParms) (s : ℕ → UInt8) (srcLen : ℕ) : McParms :=
  { updateTimes mc (btLM2NVU16 fun i => s (20 + i)) (btLM2NVU32 fun i => s (16 + i)) with
    bodyP := dhavBodyOffset (s 22), bodyLen := dhavBodyLen srcLen (s 22) }

/-- The frame rate of an 0xfd frame. -/
def fpsOf (s : ℕ → UInt8) : UInt8 := subfields s (dhavSfIndex 0x81 3)

/-- The height byte of an 0xfd frame. -/
def heightOf (s : ℕ → UInt8) : UInt8 := subfields s (dhavSfIndex 0x80 3)

/-- The width byte of an 0xfd frame. -/
def widthOf (s : ℕ → UInt8) : UInt8 := subfields s (dhavSfIndex 0x80 2)

/-- The parameters after an 0xfc frame that is counted. -/
def videoFrameParms (mc : McParms) (s : ℕ → UInt8) (srcLen : ℕ) : McParms :=
  withTimes { mc with frameType := .videoFrame } s srcLen

/-- The parameters after an 0xfd frame that is accepted. -/
def iFrameParms (mc : McParms) (s : ℕ → UInt8) (srcLen : ℕ) : McParms :=
  withTimes { guessNtsc (setAspect (setGeometry mc (subfields s))) with
    hasVParms := true, frameType := .videoIFrame } s srcLen

section Collect

variable {src : Mem} {s : ℕ → UInt8} {mc : McParms} {srcLen : ℕ}

theorem collectTimes_eq (h : HeaderThere src s) :
    collectTimes mc src (dhavBodyOffset (s 22)) (dhavBodyLen srcLen (s 22)) =
      .ok (0, withTimes mc s srcLen) := by
  have hlen : 24 ≤ dhavBodyOffset (s 22) := Nat.le_add_left _ _
  have h1 : src.readU16 20 = _ := Mem.readU16_eq fun k hk => h (20 + k) (by omega)
  have h2 : src.readU32 16 = _ := Mem.readU32_eq fun k hk => h (16 + k) (by omega)
  simp only [collectTimes, h1, h2]
  rfl

theorem dhavSfParseExtHead_eq (h : HeaderThere src s) :
    dhavSfParseExtHead (src.plus baseDhavHdrLen) (s 22).toNat = .ok (subfields s) := by
  refine extHeadLoop_eq _ _ _ _ ?_
  intro k hk
  have := h (baseDhavHdrLen + k) (by unfold dhavBodyOffset; omega)
  simpa [Mem.plus] using this

/-- The function after its reads of the header. -/
theorem collect_eq (h : HeaderThere src s) (hlen : srcLen ≠ 0) :
    dtCollectDhavFrameInfo mc src srcLen =
      let mc := { mc with frameType := .undefined }
      if s 4 = 0xfc then
        if mc.hasVParms = false then .ok (0, mc) else .ok (0, videoFrameParms mc s srcLen)
      else if s 4 = 0xfd then
        if fpsOf s = 0 then .ok (-1, setGeometry mc (subfields s))
        else if heightOf s = 0 then .error .divZero
        else .ok (0, iFrameParms mc s srcLen)
      else if s 4 = 0xf0 then .ok (0, { mc with frameType := .audioFrame })
      else .ok (0, mc) := by
  have hoff : 24 ≤ dhavBodyOffset (s 22) := Nat.le_add_left _ _
  have h4 : src.read 4 = .ok (s 4) := Mem.read_eq (h 4 (by omega))
  have h22 : src.read 22 = .ok (s 22) := Mem.read_eq (h 22 (by omega))
  have hheight : (setGeometry { mc with frameType := .undefined } (subfields s)).vHeight = 0 ↔
      heightOf s = 0 := by
    rw [← UInt8.toNat_inj]
    change (heightOf s).toNat * 8 = 0 ↔ (heightOf s).toNat = 0
    omega
  unfold dtCollectDhavFrameInfo
  simp only [hlen, h4, h22, dhavSfParseExtHead_eq h, collectTimes_eq h, bind, Except.bind, pure,
    Except.pure, if_false]
  by_cases hfc : s 4 = 0xfc
  · simp only [if_pos hfc]
    rfl
  by_cases hfd : s 4 = 0xfd
  · simp only [if_neg hfc, if_pos hfd, guessAspect, hheight]
    by_cases hfps : fpsOf s = 0
    · simp only [if_pos hfps]
      exact if_pos hfps
    · simp only [if_neg hfps]
      refine (if_neg hfps).trans ?_
      split_ifs <;> rfl
  · simp only [if_neg hfc, if_neg hfd]

theorem not_usable_of_frameType {mc : McParms}
    (h : mc.frameType = .undefined ∨ mc.frameType = .audioFrame) : ¬ Usable mc := by
  rintro ⟨h1 | h1, -⟩ <;> simp [h1] at h

/-- An 0xfd frame: an error without a frame rate, a division by zero without a height. -/
theorem collect_fd (h : HeaderThere src s) (hlen : srcLen ≠ 0) (hfd : s 4 = 0xfd) :
    dtCollectDhavFrameInfo mc src srcLen =
      if fpsOf s = 0 then .ok (-1, setGeometry { mc with frameType := .undefined } (subfields s))
      else if heightOf s = 0 then .error .divZero
      else .ok (0, iFrameParms { mc with frameType := .undefined } s srcLen) := by
  have hfc : s 4 ≠ 0xfc := by
    rw [hfd]
    decide
  rw [collect_eq h hlen]
  simp only [if_neg hfc, if_pos hfd]

/-- An 0xfc frame counts once there are video parameters. -/
theorem collect_fc (h : HeaderThere src s) (hlen : srcLen ≠ 0) (hfc : s 4 = 0xfc) :
    dtCollectDhavFrameInfo mc src srcLen =
      if mc.hasVParms = false then .ok (0, { mc with frameType := .undefined })
      else .ok (0, videoFrameParms mc s srcLen) := by
  rw [collect_eq h hlen]
  simp only [if_pos hfc]
  rfl

/-- Other frames only set the frame type. -/
theorem collect_other (mc : McParms) (h : HeaderThere src s) (hlen : srcLen ≠ 0) (hfc : s 4 ≠ 0xfc)
    (hfd : s 4 ≠ 0xfd) :
    ∃ t, (t = .undefined ∨ t = .audioFrame) ∧
      dtCollectDhavFrameInfo mc src srcLen = .ok (0, { mc with frameType := t }) := by
  rw [collect_eq h hlen]
  simp only [if_neg hfc, if_neg hfd]
  split_ifs
  · exact ⟨_, .inr rfl, rfl⟩
  · exact ⟨_, .inl rfl, rfl⟩

/-- The raw H.264 function, on a frame of at least eight bytes. -/
theorem collectRaw_eq (h : ∀ i < 8, src i = some (s i)) (hlen : srcLen ≠ 0) :
    dtCollectRawH264FrameInfo mc src srcLen =
      let mc := { mc with frameType := .undefined, bodyP := 0, bodyLen := srcLen }
      if s 3 = 0xb6 then
        .ok (0, rawTimes { mc with
          frameType := if (s 4 >>> 6) &&& 0x03 = 0 then .videoIFrame else .videoFrame })
      else if s 3 = 0xf0 then .ok (0, { mc with frameType := .audioFrame })
      else if s 3 = 0xfb then
        let mc := { mc with vWidth := (s 6).toNat * 8, vHeight := (s 7).toNat * 8, dhavFps := 20 }
        if mc.vHeight = 0 then .error .divZero
        else .ok (0, rawTimes { guessNtsc (setAspect mc) with hasVParms := true })
      else .ok (0, mc) := by
  have h3 : src.read 3 = .ok (s 3) := Mem.read_eq (h 3 (by omega))
  have h4 : src.read 4 = .ok (s 4) := Mem.read_eq (h 4 (by omega))
  have h6 : src.read 6 = .ok (s 6) := Mem.read_eq (h 6 (by omega))
  have h7 : src.read 7 = .ok (s 7) := Mem.read_eq (h 7 (by omega))
  unfold dtCollectRawH264FrameInfo
  simp only [hlen, h3, h4, h6, h7, bind, Except.bind, pure, Except.pure, if_false]
  by_cases hb6 : s 3 = 0xb6
  · simp only [if_pos hb6]
    split_ifs <;> rfl
  by_cases hf0 : s 3 = 0xf0
  · simp only [if_neg hb6, if_pos hf0]
  by_cases hfb : s 3 = 0xfb
  · simp only [if_neg hb6, if_neg hf0, if_pos hfb, guessAspect]
    split_ifs <;> rfl
  · simp only [if_neg hb6, if_neg hf0, if_neg hfb]

/-! ### The parameters after a video frame -/

theorem withTimes_frameType : (withTimes mc s srcLen).frameType = mc.frameType := by
  unfold withTimes updateTimes
  simp only
  split_ifs <;> rfl

theorem withTimes_hasVParms : (withTimes mc s srcLen).hasVParms = mc.hasVParms := by
  unfold withTimes updateTimes
  simp only
  split_ifs <;> rfl

theorem withTimes_dhavFps : (withTimes mc s srcLen).dhavFps = mc.dhavFps := by
  unfold withTimes updateTimes
  simp only
  split_ifs <;> rfl

theorem withTimes_size :
    (withTimes mc s srcLen).vWidth = mc.vWidth ∧ (withTimes mc s srcLen).vHeight = mc.vHeight := by
  unfold withTimes updateTimes
  simp only
  split_ifs <;> exact ⟨rfl, rfl⟩

theorem withTimes_vTimestamp_lt : (withTimes mc s srcLen).vTimestamp < 2 ^ 64 := by
  unfold withTimes updateTimes
  simp only
  split_ifs
  · exact Nat.two_pow_pos 64
  all_goals exact Nat.mod_lt _ (Nat.two_pow_pos 64)

theorem setAspect_size : (setAspect mc).vWidth = mc.vWidth ∧ (setAspect mc).vHeight = mc.vHeight := by
  unfold setAspect
  split_ifs <;> exact ⟨rfl, rfl⟩

theorem setAspect_dhavFps : (setAspect mc).dhavFps = mc.dhavFps := by
  unfold setAspect
  split_ifs <;> rfl

theorem usable_iFrameParms : Usable (iFrameParms mc s srcLen) :=
  ⟨.inl withTimes_frameType, withTimes_hasVParms⟩

theorem iFrameParms_dhavFps : (iFrameParms mc s srcLen).dhavFps = fpsOf s :=
  withTimes_dhavFps.trans setAspect_dhavFps

theorem usable_videoFrameParms (s : ℕ → UInt8) (srcLen : ℕ) (h : mc.hasVParms = true) :
    Usable (videoFrameParms mc s srcLen) :=
  ⟨.inr withTimes_frameType, withTimes_hasVParms.trans h⟩

theorem videoFrameParms_dhavFps : (videoFrameParms mc s srcLen).dhavFps = mc.dhavFps :=
  withTimes_dhavFps

theorem rawTimes_frameType : (rawTimes mc).frameType = mc.frameType := by
  unfold rawTimes
  split_ifs <;> rfl

theorem rawTimes_hasVParms : (rawTimes mc).hasVParms = mc.hasVParms := by
  unfold rawTimes
  split_ifs <;> rfl

end Collect

end TaniDVR
