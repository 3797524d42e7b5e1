import TaniDVR.Conversion
import TaniDVR.FrameSizes
import TaniDVR.MkvRead

/-!
# MkvOutput — the file that the conversion writes

A frame is counted if it is an 0xfd frame, or an 0xfc frame after one.  A counted frame is one
Cluster, after the main header if it is the first (`convertFrame_counted`); any other frame writes
nothing and changes only what no counted frame depends on (`convertFrame_skipped`,
`convertFrame_forget`).

`mkv_output`: the file reads back as the pictures of the stream, and frames that are not counted can
be left out.
-/

namespace TaniDVR

open Lib Lib.Ebml Dstf

/-- The frame type byte. -/
def dhavTypeOf (f : List UInt8) : UInt8 := ofList f 4

/-- A frame that the queue takes, whose extended header fits, with a rate and a height if it is an
0xfd frame, and with room for its body in the output buffer. -/
structure WellFormed (maxDstLen : ℕ) (f : List UInt8) : Prop where
  taken : f.length ≤ tMcParmsDhavStf
  fits : ExtHeaderFits f
  rate : dhavTypeOf f = 0xfd → fpsOf (ofList f) ≠ 0
  height : dhavTypeOf f = 0xfd → heightOf (ofList f) ≠ 0
  room : 35 + (frameBody f).length + 420 ≤ maxDstLen

/-- The frames in their buffers. -/
def toConvert (frames : List (List UInt8)) : List (Mem × ℕ) :=
  frames.map fun f => (.ofFrame f, f.length)

/-- The video frames from the first 0xfd frame on. -/
def shown {α : Type} (dhavType : α → UInt8) (frames : List α) : List α :=
  (frames.dropWhile (dhavType · ≠ 0xfd)).filter fun f => dhavType f = 0xfc ∨ dhavType f = 0xfd

/-- The second list is the first without some of the frames that are not video and some of the 0xfc
frames before the first 0xfd frame, which has been `seen` or not. -/
inductive Thinned : Bool → List (List UInt8) → List (List UInt8) → Prop
  | nil {seen : Bool} : Thinned seen [] []
  | keep {seen : Bool} {f : List UInt8} {l l' : List (List UInt8)} :
    Thinned (seen || decide (dhavTypeOf f = 0xfd)) l l' → Thinned seen (f :: l) (f :: l')
  | leave {seen : Bool} {f : List UInt8} {l l' : List (List UInt8)} :
    dhavTypeOf f ≠ 0xfd → (dhavTypeOf f = 0xfc → seen = false) →
    Thinned seen l l' → Thinned seen (f :: l) l'

/-! ### One frame -/

/-- What the loop keeps between frames that are well formed. -/
structure Ready (st : Conversion) : Prop where
  pending : st.mainMkvHeaderPending = !st.mc.hasVParms
  rate : st.mc.hasVParms = true → st.mc.dhavFps ≠ 0

/-- A frame that is written. -/
def Counted (mc : McParms) (f : List UInt8) : Prop :=
  dhavTypeOf f = 0xfd ∨ dhavTypeOf f = 0xfc ∧ mc.hasVParms = true

/-- The parameters after a counted frame. -/
def countedParms (mc : McParms) (f : List UInt8) : McParms :=
  if dhavTypeOf f = 0xfd then iFrameParms { mc with frameType := .undefined } (ofList f) f.length
  else videoFrameParms mc (ofList f) f.length

/-- What no counted frame depends on, forgotten: the type of the last frame, and its time if the
corrector overrides it. -/
def Conversion.forget (tsproc : Bool) (st : Conversion) : Conversion :=
  { st with
    mc := { st.mc with
      frameType := .undefined
      vTimestamp := if tsproc then 0 else st.mc.vTimestamp } }

section Step

variable (tsproc : Bool) {maxDstLen : ℕ} {st st' : Conversion} {mc : McParms} {f : List UInt8}

theorem WellFormed.length_ne (hw : WellFormed maxDstLen f) : f.length ≠ 0 := by
  have := hw.fits
  unfold ExtHeaderFits at this
  omega

theorem WellFormed.lt (hw : WellFormed maxDstLen f) : f.length < 2 ^ 55 := by
  have := hw.taken
  unfold tMcParmsDhavStf at this
  omega

theorem collect_counted (hw : WellFormed maxDstLen f) (h : Counted mc f) :
    collectFrameInfo .dhav mc (.ofFrame f) f.length = .ok (0, countedParms mc f) := by
  have hthere := headerThere_of_fits hw.fits
  unfold countedParms
  by_cases hfd : dhavTypeOf f = 0xfd
  · rw [if_pos hfd]
    refine (collect_fd hthere hw.length_ne hfd).trans ?_
    rw [if_neg (hw.rate hfd), if_neg (hw.height hfd)]
  · obtain ⟨hfc, hv⟩ := h.resolve_left hfd
    rw [if_neg hfd]
    refine (collect_fc hthere hw.length_ne hfc).trans ?_
    rw [if_neg (by simp [hv])]

theorem usable_countedParms (h : Counted mc f) : Usable (countedParms mc f) := by
  unfold countedParms
  by_cases hfd : dhavTypeOf f = 0xfd
  · rw [if_pos hfd]
    exact usable_iFrameParms
  · rw [if_neg hfd]
    exact usable_videoFrameParms _ _ (h.resolve_left hfd).2

theorem countedParms_dhavFps (hw : WellFormed maxDstLen f) (hr : Ready st) (h : Counted st.mc f) :
    (countedParms st.mc f).dhavFps ≠ 0 := by
  unfold countedParms
  by_cases hfd : dhavTypeOf f = 0xfd
  · rw [if_pos hfd, iFrameParms_dhavFps]
    exact hw.rate hfd
  · rw [if_neg hfd, videoFrameParms_dhavFps]
    exact hr.rate (h.resolve_left hfd).2

theorem countedParms_vTimestamp_lt : (countedParms mc f).vTimestamp < 2 ^ 64 := by
  unfold countedParms
  split_ifs
  · exact withTimes_vTimestamp_lt
  · exact withTimes_vTimestamp_lt

theorem countedParms_size (hfd : dhavTypeOf f = 0xfd) :
    (countedParms mc f).vWidth = (widthOf (ofList f)).toNat * 8 ∧
      (countedParms mc f).vHeight = (heightOf (ofList f)).toNat * 8 := by
  unfold countedParms
  rw [if_pos hfd]
  exact ⟨withTimes_size.1.trans setAspect_size.1, withTimes_size.2.trans setAspect_size.2⟩

/-- **A counted frame is written**, with the main header if it is pending. -/
theorem convertFrame_counted (hw : WellFormed maxDstLen f) (hr : Ready st) (h : Counted st.mc f) :
    ∃ mc tsc, convertFrame .dhav tsproc maxDstLen st (.ofFrame f) f.length =
        .ok (⟨mc, tsc, false⟩, ⟨0, 35 + (frameBody f).length + if st.mainMkvHeaderPending then 420 else 0,
          headers mc st.mainMkvHeaderPending .mpeg4IsoAvc ++ frameBody f⟩) ∧
      Ready ⟨mc, tsc, false⟩ ∧ mc.hasVParms = true ∧ mc.bodyLen = (frameBody f).length ∧
      mc.vTimestamp < 2 ^ 64 ∧ mc.vWidth = (countedParms st.mc f).vWidth ∧
      mc.vHeight = (countedParms st.mc f).vHeight := by
  have hc := collect_counted hw h
  have hu := usable_countedParms h
  have hfps := countedParms_dhavFps hw hr h
  obtain ⟨hp, hl⟩ := collect_usable hw.fits hc hu
  rcases correctTimestamp_cases .dhav tsproc st.tsc (countedParms st.mc f) with
    ⟨-, -, -, h0, -⟩ | ⟨-, tsc, t, he, -, hoff, hon⟩
  · exact absurd h0 hfps
  have ht : t < 2 ^ 64 := by
    by_cases hts : tsproc = true
    · exact ((hon ⟨hts, rfl⟩).2 hu).2
    · rw [(hoff fun h => hts h.1).2]
      exact countedParms_vTimestamp_lt
  have hlt := hw.lt
  have hbl := dhavBodyLen_of_fits hw.fits (by omega)
  have hbody : (frameBody f).length = (countedParms st.mc f).bodyLen := by
    rw [hl, hbl]
    simp only [frameBody, List.length_take, List.length_drop]
    omega
  have hread : Mem.readRange (.ofFrame f) (countedParms st.mc f).bodyP (countedParms st.mc f).bodyLen =
      .ok (frameBody f) := by
    rw [hp, hl, readRange_body hw.fits (by omega)]
  have hroom := hw.room
  generalize hmc : ({ countedParms st.mc f with vTimestamp := t } : McParms) = mc at he
  have humc : Usable mc := hmc ▸ hu
  have hlen : mc.bodyLen = (frameBody f).length := by
    rw [← hmc, hbody]
  have hreadmc : Mem.readRange (.ofFrame f) mc.bodyP mc.bodyLen = .ok (frameBody f) := by
    rw [← hmc, hread]
  have ho := convert_of_usable maxDstLen st.mainMkvHeaderPending .mpeg4IsoAvc humc hw.length_ne
    hreadmc (by omega)
  simp only [hlen] at ho
  rw [if_neg (by split_ifs <;> omega)] at ho
  refine ⟨mc, tsc, convertFrame_eq hc he ho, ⟨by simp [humc.2], fun _ => ?_⟩, humc.2, hlen, ?_, ?_, ?_⟩
  · exact hmc ▸ hfps
  · exact hmc ▸ ht
  · exact hmc ▸ rfl
  · exact hmc ▸ rfl

/-- **Any other frame writes nothing**, and what it changes can be forgotten. -/
theorem convertFrame_skipped (hw : WellFormed maxDstLen f) (h : ¬ Counted st.mc f) :
    ∃ st' out, convertFrame .dhav tsproc maxDstLen st (.ofFrame f) f.length = .ok (st', out) ∧
      st'.forget tsproc = st.forget tsproc ∧ out.dst.take out.dstLen = [] ∧ 0 < out.ret := by
  have hthere := headerThere_of_fits hw.fits
  have hc : ∃ t, (t = .undefined ∨ t = .audioFrame) ∧
      collectFrameInfo .dhav st.mc (.ofFrame f) f.length = .ok (0, { st.mc with frameType := t }) := by
    by_cases hfc : ofList f 4 = 0xfc
    · have hv : st.mc.hasVParms = false := by
        by_contra hv
        exact h (.inr ⟨hfc, by simpa using hv⟩)
      exact ⟨.undefined, .inl rfl, (collect_fc hthere hw.length_ne hfc).trans (if_pos hv)⟩
    · exact collect_other _ hthere hw.length_ne hfc fun hfd => h (.inl hfd)
  obtain ⟨t, ht, hc⟩ := hc
  have hu : ¬ Usable { st.mc with frameType := t } := not_usable_of_frameType ht
  rcases correctTimestamp_cases .dhav tsproc st.tsc { st.mc with frameType := t } with
    ⟨-, hu', -⟩ | ⟨-, tsc, v, he, hskip, hoff, -⟩
  · exact absurd hu' hu
  obtain ⟨r, hr, ho⟩ := convert_of_not_usable (.ofFrame f) f.length maxDstLen
    st.mainMkvHeaderPending .mpeg4IsoAvc
    (show ¬ Usable { st.mc with frameType := t, vTimestamp := v } from hu)
  refine ⟨_, _, convertFrame_eq hc he ho, ?_, rfl, hr⟩
  rw [hskip hu, if_neg (by simp only; omega)]
  cases tsproc with
  | true => rfl
  | false =>
    rw [(hoff (by simp)).2]
    rfl

/-! ### What a counted frame does not depend on -/

theorem counted_forget : Counted (st.forget tsproc).mc f ↔ Counted st.mc f := Iff.rfl

theorem withTimes_vTimestamp (mc : McParms) (s : ℕ → UInt8) (srcLen v : ℕ) :
    ∃ v', withTimes { mc with vTimestamp := v } s srcLen =
      { withTimes mc s srcLen with vTimestamp := v' } := by
  unfold withTimes updateTimes
  simp only
  split_ifs <;> exact ⟨_, rfl⟩

theorem setAspect_vTimestamp (mc : McParms) (v : ℕ) :
    setAspect { mc with vTimestamp := v } = { setAspect mc with vTimestamp := v } := by
  unfold setAspect
  split_ifs <;> rfl

theorem iFrameParms_vTimestamp (mc : McParms) (s : ℕ → UInt8) (srcLen v : ℕ) :
    ∃ v', iFrameParms { mc with vTimestamp := v } s srcLen =
      { iFrameParms mc s srcLen with vTimestamp := v' } := by
  have h := setAspect_vTimestamp (setGeometry mc (subfields s)) v
  change setAspect (setGeometry { mc with vTimestamp := v } (subfields s)) = _ at h
  unfold iFrameParms
  rw [h]
  exact withTimes_vTimestamp { guessNtsc (setAspect (setGeometry mc (subfields s))) with
    hasVParms := true, frameType := .videoIFrame } s srcLen v

theorem countedParms_vTimestamp (mc : McParms) (f : List UInt8) (v : ℕ) :
    ∃ v', countedParms { mc with vTimestamp := v } f =
      { countedParms mc f with vTimestamp := v' } := by
  unfold countedParms
  by_cases hfd : dhavTypeOf f = 0xfd
  · rw [if_pos hfd, if_pos hfd]
    exact iFrameParms_vTimestamp { mc with frameType := .undefined } _ _ v
  · rw [if_neg hfd, if_neg hfd]
    exact withTimes_vTimestamp { mc with frameType := .videoFrame } _ _ v

/-- The corrector does not look at the time it overrides. -/
theorem correctTimestamp_vTimestamp (tsc : TsProc) (mc : McParms) (v : ℕ) :
    correctTimestamp .dhav true tsc { mc with vTimestamp := v } = correctTimestamp .dhav true tsc mc :=
  rfl

/-- **A counted frame does not depend on what is forgotten.** -/
theorem convertFrame_forget (hw : WellFormed maxDstLen f) (h : Counted st.mc f) :
    convertFrame .dhav tsproc maxDstLen (st.forget tsproc) (.ofFrame f) f.length =
      convertFrame .dhav tsproc maxDstLen st (.ofFrame f) f.length := by
  have hc := collect_counted hw h
  have hc' := collect_counted hw ((counted_forget tsproc).mpr h)
  have ht : correctTimestamp .dhav tsproc st.tsc (countedParms (st.forget tsproc).mc f) =
      correctTimestamp .dhav tsproc st.tsc (countedParms st.mc f) := by
    cases tsproc with
    | false => rfl
    | true =>
      obtain ⟨v, hv⟩ := countedParms_vTimestamp { st.mc with frameType := .undefined } f 0
      have : countedParms (st.forget true).mc f = { countedParms st.mc f with vTimestamp := v } := hv
      rw [this, correctTimestamp_vTimestamp]
  simp only [convertFrame, hc, hc', bind, Except.bind]
  rw [show (st.forget tsproc).tsc = st.tsc from rfl, ht]
  rfl

end Step

/-! ### Leaving frames out -/

section Runs

variable (tsproc : Bool) {maxDstLen : ℕ} {st st' : Conversion} {f : List UInt8}
  {frames : List (List UInt8)}

/-- What a run writes. -/
def written (tsproc : Bool) (maxDstLen : ℕ) (st : Conversion) (frames : List (List UInt8)) :
    Except Fault (List UInt8) :=
  outfile <$> convertFrames .dhav tsproc maxDstLen st (toConvert frames)

variable {tsproc} in
theorem written_cons {out : Converted}
    (h : convertFrame .dhav tsproc maxDstLen st (.ofFrame f) f.length = .ok (st', out)) :
    written tsproc maxDstLen st (f :: frames) =
      (out.dst.take out.dstLen ++ ·) <$> written tsproc maxDstLen st' frames := by
  simp only [written, toConvert, List.map_cons, convertFrames, h, bind, Except.bind]
  cases convertFrames .dhav tsproc maxDstLen st' (frames.map fun f => (.ofFrame f, f.length)) <;> rfl

variable {tsproc} in
/-- What is not forgotten. -/
theorem forget_keeps (h : st'.forget tsproc = st.forget tsproc) :
    st'.mainMkvHeaderPending = st.mainMkvHeaderPending ∧ st'.mc.hasVParms = st.mc.hasVParms ∧
      st'.mc.dhavFps = st.mc.dhavFps := by
  simp only [Conversion.forget, Conversion.mk.injEq, McParms.mk.injEq] at h
  exact ⟨h.2.2, by tauto⟩

variable {tsproc} in
theorem Ready.of_forget (hr : Ready st) (h : st'.forget tsproc = st.forget tsproc) : Ready st' := by
  obtain ⟨hp, hv, hf⟩ := forget_keeps h
  refine ⟨by rw [hp, hv, hr.pending], ?_⟩
  intro h
  rw [hf]
  exact hr.rate (hv ▸ h)

/-- A frame that is not counted can be left out. -/
theorem written_skipped (hw : WellFormed maxDstLen f) (hr : Ready st) (h : ¬ Counted st.mc f) :
    ∃ st', Ready st' ∧ st'.forget tsproc = st.forget tsproc ∧
      ∀ frames, written tsproc maxDstLen st (f :: frames) = written tsproc maxDstLen st' frames := by
  obtain ⟨st', out, he, hf, ho, -⟩ := convertFrame_skipped tsproc hw h
  refine ⟨st', hr.of_forget hf, hf, ?_⟩
  intro frames
  rw [written_cons he, ho]
  exact id_map _

/-- **A thinned stream is written the same**, from states that differ in what is forgotten. -/
theorem written_thinned {seen : Bool} {frames frames' : List (List UInt8)}
    (h : Thinned seen frames frames') (hw : ∀ f ∈ frames, WellFormed maxDstLen f) (hr : Ready st)
    (hr' : Ready st') (hst : st'.forget tsproc = st.forget tsproc) (hseen : st.mc.hasVParms = seen) :
    written tsproc maxDstLen st' frames' = written tsproc maxDstLen st frames := by
  induction h generalizing st st' with
  | nil => rfl
  | @keep seen f l l' _ ih =>
    have hwf := hw f (by simp)
    have ih := fun {st st'} => @ih st st' fun f hf => hw f (List.mem_cons_of_mem _ hf)
    have hv := (forget_keeps hst).2.1
    have hcounted : Counted st'.mc f ↔ Counted st.mc f := by rw [Counted, Counted, hv]
    by_cases hc : Counted st.mc f
    · obtain ⟨mc, tsc, he, hr1, hv1, -⟩ := convertFrame_counted tsproc hwf hr hc
      have he' := (convertFrame_forget tsproc hwf (hcounted.mpr hc)).symm
      rw [hst, convertFrame_forget tsproc hwf hc, he] at he'
      rw [written_cons he, written_cons he']
      refine congrArg _ (ih hr1 hr1 rfl (hv1.trans ?_))
      rcases hc with hfd | ⟨-, hp⟩
      · simp [hfd]
      · simp [← hseen, hp]
    · obtain ⟨st1, hr1, hf1, he1⟩ := written_skipped tsproc hwf hr hc
      obtain ⟨st2, hr2, hf2, he2⟩ :=
        written_skipped tsproc hwf hr' (mt hcounted.mp hc)
      have hv1 := (forget_keeps hf1).2.1
      rw [he1, he2]
      refine ih hr1 hr2 (hf2.trans (hst.trans hf1.symm)) (hv1.trans ?_)
      simp [hseen, mt Or.inl hc]
  | @leave seen f l l' hfd hfc _ ih =>
    have hc : ¬ Counted st.mc f := by
      rintro (h | ⟨h, hp⟩)
      · exact hfd h
      · simp [hseen, hfc h] at hp
    obtain ⟨st1, hr1, hf1, he1⟩ := written_skipped tsproc (hw f (by simp)) hr hc
    have hv1 := (forget_keeps hf1).2.1
    rw [he1]
    exact ih (fun f hf => hw f (List.mem_cons_of_mem _ hf)) hr1 hr' (hst.trans hf1.symm)
      (hv1.trans hseen)

/-! ### The Clusters -/

/-- The frames with the parameters that they were written with. -/
def withParms (frames : List (List UInt8)) (outs : List (McParms × Converted)) :
    List (List UInt8 × McParms) :=
  frames.zip (outs.map Prod.fst)

/-- The Cluster of a frame with its parameters. -/
def frameCluster (p : List UInt8 × McParms) : List UInt8 :=
  clusterBytes (p.2.vTimestamp / 1000) p.2.frameType (frameBody p.1)

/-- The Clusters of video frames. -/
def clustersOf (ps : List (List UInt8 × McParms)) : List (ℕ × FrameType × List UInt8) :=
  ps.map fun p => (p.2.vTimestamp / 1000, p.2.frameType, frameBody p.1)

theorem shown_cons_fd {α : Type} {dhavType : α → UInt8} {a : α} {l : List α} (h : dhavType a = 0xfd) :
    shown dhavType (a :: l) = a :: l.filter fun f => dhavType f = 0xfc ∨ dhavType f = 0xfd := by
  simp [shown, h]

theorem shown_cons_ne {α : Type} {dhavType : α → UInt8} {a : α} {l : List α} (h : dhavType a ≠ 0xfd) :
    shown dhavType (a :: l) = shown dhavType l := by
  simp [shown, h]

/-- The bytes of Clusters. -/
def clusterBytesOf (cs : List (ℕ × FrameType × List UInt8)) : List UInt8 :=
  (cs.map fun c => clusterBytes c.1 c.2.1 c.2.2).flatten

variable {tsproc} in
theorem convertFrames_cons {out : Converted} {outs : List (McParms × Converted)}
    (h : convertFrame .dhav tsproc maxDstLen st (.ofFrame f) f.length = .ok (st', out))
    (hs : convertFrames .dhav tsproc maxDstLen st' (toConvert frames) = .ok outs) :
    convertFrames .dhav tsproc maxDstLen st (toConvert (f :: frames)) = .ok ((st'.mc, out) :: outs) := by
  simp only [toConvert, List.map_cons, convertFrames, h, bind, Except.bind]
  rw [toConvert] at hs
  rw [hs]
  rfl

/-- **After the main header**: a Cluster for each video frame. -/
theorem run_started (hw : ∀ f ∈ frames, WellFormed maxDstLen f) (hr : Ready st)
    (hv : st.mc.hasVParms = true) :
    ∃ outs, convertFrames .dhav tsproc maxDstLen st (toConvert frames) = .ok outs ∧
      outs.length = frames.length ∧
      outfile outs = clusterBytesOf (clustersOf ((withParms frames outs).filter fun p =>
        dhavTypeOf p.1 = 0xfc ∨ dhavTypeOf p.1 = 0xfd)) ∧
      ∀ p ∈ withParms frames outs, dhavTypeOf p.1 = 0xfc ∨ dhavTypeOf p.1 = 0xfd →
        p.2.vTimestamp < 2 ^ 64 := by
  induction frames generalizing st with
  | nil => exact ⟨[], rfl, rfl, rfl, fun p hp => absurd hp (by simp [withParms])⟩
  | cons f frames ih =>
    have hwf := hw f (by simp)
    have ih := fun {st} => @ih st fun f hf => hw f (List.mem_cons_of_mem _ hf)
    by_cases hc : Counted st.mc f
    · have hvideo : dhavTypeOf f = 0xfc ∨ dhavTypeOf f = 0xfd := hc.symm.imp_left And.left
      obtain ⟨mc, tsc, he, hr1, hv1, hlen, ht, -⟩ :=
        convertFrame_counted tsproc hwf hr hc
      have hpending : st.mainMkvHeaderPending = false := by rw [hr.pending, hv]; rfl
      obtain ⟨outs, hrun, hl, hout, hts⟩ := ih hr1 hv1
      refine ⟨_, convertFrames_cons he hrun, by simp [hl], ?_, ?_⟩
      · rw [hpending]
        simp only [outfile] at hout
        have htake : (headers mc false .mpeg4IsoAvc ++ frameBody f).take (35 + (frameBody f).length) =
            clusterBytes (mc.vTimestamp / 1000) mc.frameType (frameBody f) := by
          rw [List.take_of_length_le (by simp [length_headers])]
          simp [headers, clusterBytes, hlen]
        simp [outfile, withParms, hvideo, clustersOf, clusterBytesOf, htake, hout]
      · simp only [withParms, List.map_cons, List.zip_cons_cons, List.mem_cons, forall_eq_or_imp]
        exact ⟨fun _ => ht, hts⟩
    · obtain ⟨st1, out, he, hf, ho, -⟩ := convertFrame_skipped tsproc hwf hc
      have hvideo : ¬ (dhavTypeOf f = 0xfc ∨ dhavTypeOf f = 0xfd) := fun h =>
        hc (h.symm.imp_right fun h => ⟨h, hv⟩)
      obtain ⟨outs, hrun, hl, hout, hts⟩ :=
        ih (hr.of_forget hf) ((forget_keeps hf).2.1.trans hv)
      refine ⟨_, convertFrames_cons he hrun, by simp [hl], ?_, ?_⟩
      · simp only [outfile, List.flatMap_cons, ho, List.nil_append] at hout ⊢
        rw [hout]
        simp [withParms, hvideo]
      · simp only [withParms, List.map_cons, List.zip_cons_cons, List.mem_cons, forall_eq_or_imp]
        exact ⟨fun h => absurd h hvideo, hts⟩

/-- **Before the main header**: nothing without an 0xfd frame; otherwise a file with the size of the
first. -/
theorem run_pending (hw : ∀ f ∈ frames, WellFormed maxDstLen f) (hr : Ready st)
    (hv : st.mc.hasVParms = false) :
    ∃ outs, convertFrames .dhav tsproc maxDstLen st (toConvert frames) = .ok outs ∧
      outs.length = frames.length ∧
      ((∀ f ∈ frames, dhavTypeOf f ≠ 0xfd) → outfile outs = []) ∧
      (∀ i rest, frames.dropWhile (dhavTypeOf · ≠ 0xfd) = i :: rest →
        ∃ mc, mc.vWidth = (widthOf (ofList i)).toNat * 8 ∧
          mc.vHeight = (heightOf (ofList i)).toNat * 8 ∧
          outfile outs = mkvBytes mc .mpeg4IsoAvc
            (clustersOf (shown (dhavTypeOf ·.1) (withParms frames outs)))) ∧
      ∀ p ∈ shown (dhavTypeOf ·.1) (withParms frames outs), p.2.vTimestamp < 2 ^ 64 := by
  induction frames generalizing st with
  | nil =>
    exact ⟨[], rfl, rfl, fun _ => rfl, fun i rest h => absurd h (by simp),
      fun p hp => absurd hp (by simp [withParms, shown])⟩
  | cons f frames ih =>
    have hwf := hw f (by simp)
    have hws : ∀ f ∈ frames, WellFormed maxDstLen f := fun f hf => hw f (List.mem_cons_of_mem _ hf)
    by_cases hfd : dhavTypeOf f = 0xfd
    · obtain ⟨mc, tsc, he, hr1, hv1, hlen, ht, hsize⟩ :=
        convertFrame_counted tsproc hwf hr (.inl hfd)
      have hpending : st.mainMkvHeaderPending = true := by rw [hr.pending, hv]; rfl
      obtain ⟨outs, hrun, hl, hout, hts⟩ := run_started tsproc hws hr1 hv1
      refine ⟨_, convertFrames_cons he hrun, by simp [hl], fun h => absurd hfd (h f (by simp)), ?_, ?_⟩
      · intro i rest hi
        have hif : f = i ∧ frames = rest := by simpa [hfd] using hi
        rw [(countedParms_size hfd).1, (countedParms_size hfd).2, hif.1] at hsize
        refine ⟨mc, hsize.1, hsize.2, ?_⟩
        rw [hpending]
        have htake : (headers mc true .mpeg4IsoAvc ++ frameBody f).take
            (35 + (frameBody f).length + 420) =
            mainHeader mc .mpeg4IsoAvc ++
              clusterBytes (mc.vTimestamp / 1000) mc.frameType (frameBody f) := by
          rw [List.take_of_length_le (by simp [length_headers]; omega)]
          simp [headers, clusterBytes, hlen]
        simp only [outfile] at hout
        simp only [withParms, List.map_cons, List.zip_cons_cons]
        rw [shown_cons_fd (by exact hfd)]
        simp [outfile, clustersOf, mkvBytes, htake, hout, clusterBytesOf, withParms]
      · simp only [withParms, List.map_cons, List.zip_cons_cons]
        rw [shown_cons_fd (by exact hfd)]
        simp only [List.mem_cons, forall_eq_or_imp, List.mem_filter, decide_eq_true_eq]
        exact ⟨ht, fun p hp => hts p hp.1 hp.2⟩
    · have hc : ¬ Counted st.mc f := by
        rintro (h | ⟨-, h⟩)
        · exact hfd h
        · simp [hv] at h
      obtain ⟨st1, out, he, hf, ho, -⟩ := convertFrame_skipped tsproc hwf hc
      obtain ⟨outs, hrun, hl, hnone, hsome, hts⟩ :=
        ih hws (hr.of_forget hf) ((forget_keeps hf).2.1.trans hv)
      have hfile : outfile ((st1.mc, out) :: outs) = outfile outs := by
        simp only [outfile, List.flatMap_cons, ho, List.nil_append]
      have hshown : shown (dhavTypeOf ·.1) (withParms (f :: frames) ((st1.mc, out) :: outs)) =
          shown (dhavTypeOf ·.1) (withParms frames outs) := by
        simp only [withParms, List.map_cons, List.zip_cons_cons]
        exact shown_cons_ne hfd
      refine ⟨_, convertFrames_cons he hrun, by simp [hl], fun h => ?_, fun i rest hi => ?_, ?_⟩
      · rw [hfile]
        exact hnone fun f hf => h f (List.mem_cons_of_mem _ hf)
      · rw [hfile, hshown]
        exact hsome i rest (by simpa [hfd] using hi)
      · rw [hshown]
        exact hts

end Runs

/-- What a file of the conversion says: after the header, the Cluster of each frame that is shown. -/
structure Decodes (frames : List (List UInt8)) (outs : List (McParms × Converted)) : Prop where
  empty : (∀ f ∈ frames, dhavTypeOf f ≠ 0xfd) → outfile outs = []
  header : ∀ i rest, frames.dropWhile (dhavTypeOf · ≠ 0xfd) = i :: rest →
    ∃ (header : List UInt8) (clusters : List (List UInt8)),
      outfile outs = header ++ clusters.flatten ∧ header.length = 420 ∧
      clusters.length = (shown dhavTypeOf frames).length ∧
      (shown (dhavTypeOf ·.1) (withParms frames outs)).map Prod.fst = shown dhavTypeOf frames ∧
      clusters = (shown (dhavTypeOf ·.1) (withParms frames outs)).map frameCluster ∧
      nests holdsElements 5 header = true ∧ nests holdsElements 5 (outfile outs) = true ∧
      decodeMkv (outfile outs) =
        some ⟨(widthOf (ofList i)).toNat * 8, (heightOf (ofList i)).toNat * 8,
          (shown (dhavTypeOf ·.1) (withParms frames outs)).map fun p =>
            (p.2.vTimestamp / 1000, frameBody p.1)⟩

theorem shown_withParms {frames : List (List UInt8)} {outs : List (McParms × Converted)}
    (h : outs.length = frames.length) :
    (shown (dhavTypeOf ·.1) (withParms frames outs)).map Prod.fst = shown dhavTypeOf frames := by
  induction frames generalizing outs with
  | nil => simp [withParms, shown]
  | cons f frames ih =>
    obtain ⟨o, outs, rfl⟩ := List.exists_cons_of_length_eq_add_one h
    have hl : outs.length = frames.length := by simpa using h
    simp only [withParms, List.map_cons, List.zip_cons_cons]
    by_cases hfd : dhavTypeOf f = 0xfd
    · rw [shown_cons_fd (by exact hfd), shown_cons_fd hfd, List.map_cons]
      refine congrArg _ ?_
      have hfst : frames = (frames.zip (outs.map Prod.fst)).map Prod.fst :=
        (List.map_fst_zip (by simp [hl])).symm
      conv_rhs => rw [hfst, List.filter_map]
      rfl
    · rw [shown_cons_ne (by exact hfd), shown_cons_ne hfd]
      exact ih hl

theorem decodes_of_run (tsproc : Bool) {maxDstLen : ℕ} {st : Conversion} {frames : List (List UInt8)}
    (hw : ∀ f ∈ frames, WellFormed maxDstLen f) (hr : Ready st) (hv : st.mc.hasVParms = false) :
    ∃ outs, convertFrames .dhav tsproc maxDstLen st (toConvert frames) = .ok outs ∧
      outs.length = frames.length ∧ Decodes frames outs := by
  obtain ⟨outs, hrun, hl, hnone, hsome, hts⟩ := run_pending tsproc hw hr hv
  refine ⟨outs, hrun, hl, hnone, ?_⟩
  intro i rest hi
  obtain ⟨mc, hwidth, hheight, hfile⟩ := hsome i rest hi
  set ps := shown (dhavTypeOf ·.1) (withParms frames outs) with hps
  have hw16 : mc.vWidth < 2 ^ 16 := by
    have := (widthOf (ofList i)).toNat_lt
    omega
  have hh16 : mc.vHeight < 2 ^ 16 := by
    have := (heightOf (ofList i)).toNat_lt
    omega
  have hcs : ∀ c ∈ clustersOf ps, c.1 < 2 ^ 64 ∧ c.2.2.length < 2 ^ 55 := by
    intro c hc
    obtain ⟨p, hp, rfl⟩ := List.mem_map.mp hc
    have hmem : p ∈ withParms frames outs :=
      (List.dropWhile_suffix _).subset (List.mem_filter.mp hp).1
    have hlt := (hw p.1 (List.of_mem_zip hmem).1).lt
    have ht := hts p hp
    refine ⟨by simp only; omega, ?_⟩
    simp only [frameBody, List.length_take, List.length_drop]
    omega
  have hclusters : (clustersOf ps).map (fun c => clusterBytes c.1 c.2.1 c.2.2) =
      ps.map frameCluster := by
    rw [clustersOf, List.map_map]
    rfl
  refine ⟨mainHeader mc .mpeg4IsoAvc, _, hfile, length_mainHeader _ _, ?_, shown_withParms hl, hclusters,
    ?_, ?_, ?_⟩
  · rw [List.length_map, clustersOf, List.length_map, ← shown_withParms hl, List.length_map]
  · have hnil : mkvBytes mc .mpeg4IsoAvc [] = mainHeader mc .mpeg4IsoAvc := by simp [mkvBytes]
    rw [← hnil]
    exact nests_mkvBytes (by simp)
  · rw [hfile]
    exact nests_mkvBytes fun c hc => (hcs c hc).2
  · rw [hfile, decodeMkv_mkvBytes hw16 hh16 hcs, hwidth, hheight, clustersOf, List.map_map]
    rfl

theorem Thinned.subset {seen : Bool} {frames frames' : List (List UInt8)}
    (h : Thinned seen frames frames') : frames' ⊆ frames := by
  induction h with
  | nil => exact List.Subset.refl _
  | keep _ ih => exact List.cons_subset_cons _ ih
  | leave _ _ _ ih => exact fun f hf => List.mem_cons_of_mem _ (ih hf)

/-- **The output decodes to exactly the video**, for every list of well formed frames, with or without
the corrector, and frames that are not shown can be left out of the list. -/
theorem mkv_output (heap : McParms) (tscHeap : TsProc) (ntscExact60hz tsproc : Bool) (maxDstLen : ℕ)
    (frames : List (List UInt8)) (hw : ∀ f ∈ frames, WellFormed maxDstLen f) :
    ∃ outs, convertFrames .dhav tsproc maxDstLen (.start heap tscHeap ntscExact60hz)
        (toConvert frames) = .ok outs ∧
      outs.length = frames.length ∧ Decodes frames outs ∧
      ∀ frames', Thinned false frames frames' →
        ∃ outs', convertFrames .dhav tsproc maxDstLen (.start heap tscHeap ntscExact60hz)
          (toConvert frames') = .ok outs' ∧ outfile outs' = outfile outs := by
  have hr : Ready (.start heap tscHeap ntscExact60hz) := ⟨rfl, nofun⟩
  obtain ⟨outs, hrun, hl, hdec⟩ := decodes_of_run tsproc hw hr rfl
  refine ⟨outs, hrun, hl, hdec, ?_⟩
  intro frames' hthin
  obtain ⟨outs', hrun', -⟩ :=
    decodes_of_run tsproc (fun f hf => hw f (hthin.subset hf)) hr rfl
  refine ⟨outs', hrun', ?_⟩
  have h := written_thinned tsproc hthin hw hr hr rfl rfl
  rw [written, written, hrun, hrun'] at h
  exact Except.ok.inj h

/-- An I-frame of 704x576 at 25 frames per second with a body of two bytes. -/
def palIFrame : List UInt8 :=
  [0x44, 0x48, 0x41, 0x56, 0xfd, 0, 0, 0, 0, 0, 0, 0, 42, 0, 0, 0, 0, 0, 0, 0, 0, 0, 8, 0,
    0x80, 0, 88, 72, 0x81, 0, 1, 25, 1, 2, 0x64, 0x68, 0x61, 0x76, 42, 0, 0, 0]

theorem mkv_output_pal :
    ∃ outs, convertFrames .dhav true 3000000 (.start default default false)
        (toConvert [smallFrame, palIFrame, smallFrame]) = .ok outs ∧
      outs.length = 3 ∧ Decodes [smallFrame, palIFrame, smallFrame] outs ∧
      ∀ frames', Thinned false [smallFrame, palIFrame, smallFrame] frames' →
        ∃ outs', convertFrames .dhav true 3000000 (.start default default false)
          (toConvert frames') = .ok outs' ∧ outfile outs' = outfile outs := by
  have hsmall : WellFormed 3000000 smallFrame := by constructor <;> decide
  have hpal : WellFormed 3000000 palIFrame := by constructor <;> decide
  exact mkv_output default default false true 3000000 [smallFrame, palIFrame, smallFrame]
    (by simp [hsmall, hpal])

end TaniDVR
