import TaniDVR.Conversion

/-!
# IFrameStart — the first frame of a recording

Nothing is written before `has_v_parms` is set.  In DHAV only an I-frame sets it, and that frame is
the first one written.  In raw H.264 a config unit sets it, which is not written itself, and the next
video unit is the first one written whatever its type.

`first_written_iff`: a recording starts at an I-frame exactly when the input is DHAV, or the first
video unit after the first config unit is one.
-/

namespace TaniDVR

/-- The type of the first frame that is written. -/
def firstWritten (outs : List (McParms × Converted)) : Option FrameType :=
  (outs.find? fun o => o.2.ret = 0).map fun o => o.1.frameType

/-- `NAL_type` is 0xfb: a config unit. -/
def isConfigUnit (f : Mem × ℕ) : Bool := f.1 3 = some 0xfb

/-- `NAL_type` is 0xb6: a video unit. -/
def isVideoUnit (f : Mem × ℕ) : Bool := f.1 3 = some 0xb6

/-- The type of a video unit. -/
def videoUnitType (f : Mem × ℕ) : FrameType :=
  match f.1 4 with
  | some b => if (b >>> 6) &&& 0x03 = 0 then .videoIFrame else .videoFrame
  | none => .undefined

/-- The first video unit after the first config unit, if any, is an I-frame. -/
def RawStartsIntra (frames : List (Mem × ℕ)) : Prop :=
  ∀ f, ((frames.dropWhile (!isConfigUnit ·)).find? isVideoUnit) = some f →
    videoUnitType f = .videoIFrame

section Step

variable {fmt : McFormat} {tsproc : Bool} {maxDstLen srcLen : ℕ} {st st' : Conversion} {src : Mem}
  {out : Converted} {r : ℤ} {mc mc' : McParms}

/-- A step by its three calls, backwards. -/
theorem convertFrame_ok (h : convertFrame fmt tsproc maxDstLen st src srcLen = .ok (st', out)) :
    ∃ r mc, collectFrameInfo fmt st.mc src srcLen = .ok (r, mc) ∧
      st'.mc.frameType = mc.frameType ∧ st'.mc.hasVParms = mc.hasVParms ∧
      dtConvertFrameToMkv st'.mc src srcLen maxDstLen st.mainMkvHeaderPending (codecOf fmt) =
        .ok out := by
  obtain ⟨⟨r, mc⟩, hc, h⟩ := bind_ok h
  obtain ⟨⟨tsc, mc'⟩, ht, h⟩ := bind_ok h
  obtain ⟨o, ho, h⟩ := bind_ok h
  cases h
  rcases correctTimestamp_cases fmt tsproc st.tsc mc with ⟨-, -, -, -, he⟩ | ⟨-, tsc', t, he, -⟩
  · rw [he] at ht
    cases ht
  · rw [he] at ht
    cases ht
    exact ⟨r, mc, hc, rfl, rfl, ho⟩

/-- What is written is exactly the usable frames, in a buffer that is large enough. -/
theorem ret_zero_iff {first : Bool} {vcodec : MCodec} (hlen : 0 < srcLen)
    (h : dtConvertFrameToMkv mc src srcLen maxDstLen first vcodec = .ok out) (hbuf : out.ret ≠ -4) :
    out.ret = 0 ↔ Usable mc := by
  by_cases hu : Usable mc
  · refine ⟨fun _ => hu, ?_⟩
    intro _
    unfold dtConvertFrameToMkv at h
    rw [if_neg (by omega), if_neg hu.video, if_neg (by simp [hu.2])] at h
    dsimp only at h
    split_ifs at h
    all_goals first
      | (cases h; exact absurd rfl hbuf)
      | (cases hb : src.readRange mc.bodyP mc.bodyLen with
          | error e => rw [hb] at h; cases h
          | ok body => rw [hb] at h; cases h; rfl)
  · obtain ⟨r, hr, he⟩ := convert_of_not_usable src srcLen maxDstLen first vcodec hu
    rw [h] at he
    cases he
    exact ⟨fun h0 => absurd h0 (by simp only; omega), fun hu' => absurd hu' hu⟩

theorem collectTimes_ok {bodyOffset bodyLen : ℕ}
    (h : collectTimes mc src bodyOffset bodyLen = .ok (r, mc')) :
    mc'.frameType = mc.frameType ∧ mc'.hasVParms = mc.hasVParms := by
  obtain ⟨ts, -, h⟩ := bind_ok h
  obtain ⟨epoch, -, h⟩ := bind_ok h
  cases h
  unfold updateTimes
  simp only
  split_ifs <;> exact ⟨rfl, rfl⟩

/-- In DHAV the parameters come with an I-frame. -/
theorem dhav_gate (h : dtCollectDhavFrameInfo mc src srcLen = .ok (r, mc'))
    (hv : mc.hasVParms = false) :
    mc'.hasVParms = false ∨ mc'.hasVParms = true ∧ mc'.frameType = .videoIFrame := by
  unfold dtCollectDhavFrameInfo at h
  dsimp only at h
  by_cases hlen : srcLen = 0
  · rw [if_pos hlen] at h
    cases h
    exact .inl hv
  rw [if_neg hlen] at h
  obtain ⟨dhavType, -, h⟩ := bind_ok h
  obtain ⟨extheadLen, -, h⟩ := bind_ok h
  obtain ⟨sub, -, h⟩ := bind_ok h
  by_cases hfc : dhavType = 0xfc
  · rw [if_pos hfc, if_pos hv] at h
    cases h
    exact .inl hv
  rw [if_neg hfc] at h
  by_cases hfd : dhavType = 0xfd
  · rw [if_pos hfd] at h
    split_ifs at h with hfps
    · cases h
      exact .inl hv
    · obtain ⟨mc1, -, h⟩ := bind_ok h
      have hk := collectTimes_ok h
      exact .inr ⟨hk.2, hk.1⟩
  · rw [if_neg hfd] at h
    split_ifs at h <;> cases h <;> exact .inl hv

/-- In raw H.264 the parameters come with a config unit, and only video units are video frames. -/
theorem raw_gate (hlen : 0 < srcLen) (h : dtCollectRawH264FrameInfo mc src srcLen = .ok (r, mc')) :
    mc'.hasVParms = (mc.hasVParms || isConfigUnit (src, srcLen)) ∧
      (isVideoUnit (src, srcLen) = true → mc'.frameType = videoUnitType (src, srcLen)) ∧
      ((mc'.frameType = .videoIFrame ∨ mc'.frameType = .videoFrame) ↔
        isVideoUnit (src, srcLen) = true) := by
  unfold dtCollectRawH264FrameInfo at h
  dsimp only at h
  rw [if_neg (by omega)] at h
  obtain ⟨nalType, hn, h⟩ := bind_ok h
  have hn := Mem.eq_of_read hn
  simp only [isConfigUnit, isVideoUnit, videoUnitType, hn, Option.some.injEq, decide_eq_true_eq]
  by_cases hb6 : nalType = 0xb6
  · rw [if_pos hb6] at h
    obtain ⟨b, hb, h⟩ := bind_ok h
    have hb := Mem.eq_of_read hb
    cases h
    rw [hb, hb6, rawTimes_frameType, rawTimes_hasVParms]
    by_cases hi : (b >>> 6) &&& 0x03 = 0
    · simp only [if_pos hi]
      simp
    · simp only [if_neg hi]
      simp
  rw [if_neg hb6] at h
  by_cases hf0 : nalType = 0xf0
  · rw [if_pos hf0] at h
    cases h
    simp [hf0]
  rw [if_neg hf0] at h
  by_cases hfb : nalType = 0xfb
  · rw [if_pos hfb] at h
    obtain ⟨w, -, h⟩ := bind_ok h
    obtain ⟨x, -, h⟩ := bind_ok h
    obtain ⟨mc1, h1, h⟩ := bind_ok h
    cases h
    have hft : mc1.frameType = .undefined := by
      unfold guessAspect setAspect at h1
      split_ifs at h1 <;> cases h1 <;> rfl
    rw [rawTimes_frameType, rawTimes_hasVParms]
    simp [hfb, guessNtsc, hft]
  · rw [if_neg hfb] at h
    cases h
    simp [hb6, hfb]

end Step

section Runs

variable {fmt : McFormat} {tsproc : Bool} {maxDstLen : ℕ} {st : Conversion}
  {frames : List (Mem × ℕ)} {outs : List (McParms × Converted)}

/-- A run by its first step. -/
theorem convertFrames_cons_ok {f : Mem × ℕ}
    (h : convertFrames fmt tsproc maxDstLen st (f :: frames) = .ok outs) :
    ∃ st' out outs', convertFrame fmt tsproc maxDstLen st f.1 f.2 = .ok (st', out) ∧
      convertFrames fmt tsproc maxDstLen st' frames = .ok outs' ∧ outs = (st'.mc, out) :: outs' := by
  obtain ⟨⟨st', out⟩, hstep, h⟩ := bind_ok h
  obtain ⟨outs', hrest, h⟩ := bind_ok h
  cases h
  exact ⟨st', out, outs', hstep, hrest, rfl⟩

theorem firstWritten_cons (mc : McParms) (out : Converted) (outs : List (McParms × Converted)) :
    firstWritten ((mc, out) :: outs) = if out.ret = 0 then some mc.frameType else firstWritten outs := by
  unfold firstWritten
  by_cases h : out.ret = 0 <;> simp [h]

/-- **DHAV**: the first frame written is an I-frame. -/
theorem firstWritten_dhav (hrun : convertFrames .dhav tsproc maxDstLen st frames = .ok outs)
    (hlen : ∀ f ∈ frames, 0 < f.2) (hbuf : ∀ o ∈ outs, o.2.ret ≠ -4) (hv : st.mc.hasVParms = false) :
    ∀ t, firstWritten outs = some t → t = .videoIFrame := by
  induction frames generalizing st outs with
  | nil =>
    cases hrun
    simp [firstWritten]
  | cons f frames ih =>
    obtain ⟨st', out, outs', hstep, hrest, rfl⟩ := convertFrames_cons_ok hrun
    obtain ⟨r, mc, hc, hft, hvp, ho⟩ := convertFrame_ok hstep
    have hret := ret_zero_iff (hlen f (by simp)) ho (hbuf (st'.mc, out) (by simp))
    intro t ht
    rw [firstWritten_cons] at ht
    rcases dhav_gate hc hv with hv' | ⟨hv', hi⟩
    · rw [← hvp] at hv'
      have hn : ¬ out.ret = 0 := fun h => by simp [(hret.mp h).2] at hv'
      rw [if_neg hn] at ht
      exact ih hrest (fun g hg => hlen g (List.mem_cons_of_mem _ hg))
        (fun o hm => hbuf o (List.mem_cons_of_mem _ hm)) hv' t ht
    · have hu : Usable st'.mc := ⟨.inl (hft.trans hi), hvp.trans hv'⟩
      rw [if_pos (hret.mpr hu), hft, hi] at ht
      exact (Option.some.inj ht).symm

/-- **Raw H.264**: the first frame written is the first video unit after the first config unit. -/
theorem firstWritten_raw (hfmt : fmt ≠ .dhav)
    (hrun : convertFrames fmt tsproc maxDstLen st frames = .ok outs) (hlen : ∀ f ∈ frames, 0 < f.2)
    (hbuf : ∀ o ∈ outs, o.2.ret ≠ -4) :
    firstWritten outs =
      ((if st.mc.hasVParms then frames else frames.dropWhile (!isConfigUnit ·)).find?
        isVideoUnit).map videoUnitType := by
  induction frames generalizing st outs with
  | nil =>
    cases hrun
    simp [firstWritten]
  | cons f frames ih =>
    obtain ⟨st', out, outs', hstep, hrest, rfl⟩ := convertFrames_cons_ok hrun
    obtain ⟨r, mc, hc, hft, hvp, ho⟩ := convertFrame_ok hstep
    have hret := ret_zero_iff (hlen f (by simp)) ho (hbuf (st'.mc, out) (by simp))
    have ih := ih hrest (fun g hg => hlen g (List.mem_cons_of_mem _ hg))
      (fun o hm => hbuf o (List.mem_cons_of_mem _ hm))
    have hcr : dtCollectRawH264FrameInfo st.mc f.1 f.2 = .ok (r, mc) := by
      rw [← hc, collectFrameInfo, if_neg hfmt]
    obtain ⟨hgate, htype, hvideo⟩ := raw_gate (hlen f (by simp)) hcr
    rw [← hvp] at hgate
    rw [← hft] at htype hvideo
    have hw : out.ret = 0 ↔ isVideoUnit f = true ∧ st'.mc.hasVParms = true := by
      rw [hret, Usable, hvideo]
    rw [firstWritten_cons, ih]
    -- a config unit is no video unit
    have hne : isConfigUnit f = true → isVideoUnit f = false := by
      simp only [isConfigUnit, isVideoUnit, decide_eq_true_eq]
      intro h
      simp [h]
    cases hv : st.mc.hasVParms with
    | true =>
      rw [hv, Bool.true_or] at hgate
      cases hf : isVideoUnit f with
      | true => simp [hw, hf, hgate, htype hf]
      | false => simp [hw, hf, hgate]
    | false =>
      rw [hv, Bool.false_or] at hgate
      cases hcfg : isConfigUnit f with
      | true => simp [hw, hgate, hcfg, hne hcfg]
      | false => simp [hw, hgate, hcfg]

/-- **When a recording starts at an I-frame**: for all frames of any format in any memory, run by the
callers' loop to its end with an output buffer that is never too short. -/
theorem first_written_iff (heap : McParms) (tscHeap : TsProc) (ntscExact60hz : Bool)
    (hrun : convertFrames fmt tsproc maxDstLen (.start heap tscHeap ntscExact60hz) frames = .ok outs)
    (hlen : ∀ f ∈ frames, 0 < f.2) (hbuf : ∀ o ∈ outs, o.2.ret ≠ -4) :
    (∀ t, firstWritten outs = some t → t = .videoIFrame) ↔ fmt = .dhav ∨ RawStartsIntra frames := by
  by_cases hfmt : fmt = .dhav
  · subst hfmt
    exact ⟨fun _ => .inl rfl, fun _ => firstWritten_dhav hrun hlen hbuf rfl⟩
  have h := firstWritten_raw hfmt hrun hlen hbuf
  rw [if_neg (by simp [Conversion.start, mcInit])] at h
  rw [h]
  simp only [hfmt, false_or, RawStartsIntra]
  constructor
  · intro ht f hf
    exact ht _ (by rw [hf]; rfl)
  · intro hraw t ht
    obtain ⟨f, hf, rfl⟩ := Option.map_eq_some_iff.mp ht
    exact hraw f hf

end Runs

/-- A config unit of 704x576. -/
def configUnit : List UInt8 := [0, 0, 1, 0xfb, 0, 0, 88, 72]

/-- A video unit with the given first byte after its type. -/
def videoUnit (b : UInt8) : List UInt8 := [0, 0, 1, 0xb6, b, 0, 0, 0]

/-- Units in their buffers. -/
def rawUnits (units : List (List UInt8)) : List (Mem × ℕ) := units.map fun u => (.ofFrame u, u.length)

/-- The conversion of units. -/
def convertUnits (units : List (List UInt8)) : Except Fault (List (McParms × Converted)) :=
  convertFrames .rawH264 false 3000000 (.start default default false) (rawUnits units)

theorem first_written_iff_units :
    ∃ outs, convertUnits [configUnit, videoUnit 0x00, videoUnit 0x40] = .ok outs ∧
      ∀ t, firstWritten outs = some t → t = .videoIFrame := by
  have hok : (match convertUnits [configUnit, videoUnit 0x00, videoUnit 0x40] with
      | .ok outs => decide (∀ o ∈ outs, o.2.ret ≠ -4)
      | .error _ => false) = true := by decide +kernel
  cases hrun : convertUnits [configUnit, videoUnit 0x00, videoUnit 0x40] with
  | error e =>
    rw [hrun] at hok
    cases hok
  | ok outs =>
    rw [hrun] at hok
    refine ⟨outs, rfl, (first_written_iff _ _ _ hrun (by decide) (of_decide_eq_true hok)).mpr (.inr ?_)⟩
    intro f hf
    obtain rfl : (Mem.ofFrame (videoUnit 0x00), 8) = f := Option.some.inj hf
    decide

/-- A P-frame after the config unit is the first frame of the recording. -/
theorem starts_at_p_frame :
    ∃ outs, convertUnits [configUnit, videoUnit 0x40, videoUnit 0x00] = .ok outs ∧
      (∀ o ∈ outs, o.2.ret ≠ -4) ∧ firstWritten outs = some .videoFrame := by
  have hok : (match convertUnits [configUnit, videoUnit 0x40, videoUnit 0x00] with
      | .ok outs => decide ((∀ o ∈ outs, o.2.ret ≠ -4) ∧ firstWritten outs = some .videoFrame)
      | .error _ => false) = true := by decide +kernel
  cases hrun : convertUnits [configUnit, videoUnit 0x40, videoUnit 0x00] with
  | error e =>
    rw [hrun] at hok
    cases hok
  | ok outs =>
    rw [hrun] at hok
    exact ⟨outs, rfl, of_decide_eq_true hok⟩

end TaniDVR
