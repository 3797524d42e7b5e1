import TaniDVR.Divisors

/-!
# DhavInfo — runs of `dt_collect_dhav_frame_info`

`dhavInfoRun` is one call for each frame, from `mc_init` on.

* `rejected_iff`: an 0xfd frame without a frame rate is rejected after its picture size and its rate
  were taken over, so it leaves the parameters alone exactly where these were there before;
* `counter_time`: `v_timestamp` is the time since the first counted frame, unwrapped from the 16-bit
  counter of the headers, modulo `2 ^ 64`.
-/

namespace TaniDVR

open Lib

namespace FrameBuf

/-- An I-frame. -/
def IsDhavI (f : FrameBuf) : Prop := f.srcLen ≠ 0 ∧ f.buf 4 = 0xfd

/-- A P-frame. -/
def IsDhavP (f : FrameBuf) : Prop := f.srcLen ≠ 0 ∧ f.buf 4 = 0xfc

/-- An I-frame that is rejected. -/
def IsRejected (f : FrameBuf) : Prop := f.IsDhavI ∧ fpsOf f.buf = 0

/-- An I-frame that is accepted. -/
def IsAccepted (f : FrameBuf) : Prop := f.IsDhavI ∧ fpsOf f.buf ≠ 0 ∧ heightOf f.buf ≠ 0

/-- The timestamp of the header, in msec. -/
def stamp (f : FrameBuf) : ℕ := (btLM2NVU16 fun i => f.buf (20 + i)).toNat

instance (f : FrameBuf) : Decidable f.IsDhavI := inferInstanceAs (Decidable (_ ∧ _))
instance (f : FrameBuf) : Decidable f.IsDhavP := inferInstanceAs (Decidable (_ ∧ _))
instance (f : FrameBuf) : Decidable f.IsRejected := inferInstanceAs (Decidable (_ ∧ _))
instance (f : FrameBuf) : Decidable f.IsAccepted := inferInstanceAs (Decidable (_ ∧ _))

end FrameBuf

/-- The call on a frame in its buffer. -/
def dhavInfo (mc : McParms) (f : FrameBuf) : Except Fault (ℤ × McParms) :=
  dtCollectDhavFrameInfo mc (.ofFn f.buf) f.srcLen

/-- One call for each frame; the results are not looked at. -/
def dhavInfoRun (mc : McParms) : List FrameBuf → Except Fault McParms
  | [] => .ok mc
  | f :: fs => do
    let (_, mc) ← dhavInfo mc f
    dhavInfoRun mc fs

section OneCall

variable {mc mc' : McParms} {f : FrameBuf} {r : ℤ}

theorem dhavInfoRun_append (mc : McParms) (frames : List FrameBuf) (f : FrameBuf) :
    dhavInfoRun mc (frames ++ [f]) = do
      let mc ← dhavInfoRun mc frames
      let (_, mc) ← dhavInfo mc f
      return mc := by
  induction frames generalizing mc with
  | nil => rfl
  | cons x frames ih =>
    simp only [List.cons_append, dhavInfoRun]
    cases dhavInfo mc x with
    | error e => rfl
    | ok r => exact ih r.2

/-- The frame that comes first. -/
theorem dhavInfoRun_cons (frames : List FrameBuf) (h : dhavInfo mc f = .ok (r, mc')) :
    dhavInfoRun mc (f :: frames) = dhavInfoRun mc' frames := by
  rw [dhavInfoRun, h]
  rfl

/-- A rejected frame takes its size and its rate with it. -/
theorem dhavInfo_rejected (h : f.IsRejected) : dhavInfo mc f =
    .ok (-1, setGeometry { mc with frameType := .undefined } (subfields f.buf)) := by
  rw [dhavInfo, collect_fd (headerThere_ofFn f.buf) h.1.1 h.1.2, if_pos h.2]

theorem dhavInfo_accepted (mc : McParms) (h : f.IsAccepted) : dhavInfo mc f =
    .ok (0, iFrameParms { mc with frameType := .undefined } f.buf f.srcLen) := by
  rw [dhavInfo, collect_fd (headerThere_ofFn f.buf) h.1.1 h.1.2, if_neg h.2.1, if_neg h.2.2]

theorem dhavInfo_video (h : f.IsDhavP) (hv : mc.hasVParms = true) :
    dhavInfo mc f = .ok (0, videoFrameParms mc f.buf f.srcLen) := by
  rw [dhavInfo, collect_fc (headerThere_ofFn f.buf) h.1 h.2, if_neg (by simp [hv])]

/-- A frame that is not counted only sets the frame type. -/
theorem dhavInfo_skipped (mc : McParms) (hi : ¬ f.IsDhavI) (hp : f.IsDhavP → mc.hasVParms = false) :
    ∃ ty, dhavInfo mc f = .ok (0, { mc with frameType := ty }) := by
  by_cases h0 : f.srcLen = 0
  · refine ⟨.undefined, ?_⟩
    rw [dhavInfo, h0]
    rfl
  by_cases hfc : f.buf 4 = 0xfc
  · refine ⟨.undefined, ?_⟩
    rw [dhavInfo, collect_fc (headerThere_ofFn f.buf) h0 hfc, if_pos (hp ⟨h0, hfc⟩)]
  · obtain ⟨ty, -, h⟩ := collect_other mc (headerThere_ofFn f.buf) h0 hfc fun h => hi ⟨h0, h⟩
    exact ⟨ty, h⟩

/-- What one call does that does not divide by zero. -/
inductive DhavInfoCall (mc : McParms) (f : FrameBuf) : ℤ → McParms → Prop
  | rejected : f.IsRejected →
      DhavInfoCall mc f (-1) (setGeometry { mc with frameType := .undefined } (subfields f.buf))
  | accepted : f.IsAccepted →
      DhavInfoCall mc f 0 (iFrameParms { mc with frameType := .undefined } f.buf f.srcLen)
  | video : f.IsDhavP → mc.hasVParms = true →
      DhavInfoCall mc f 0 (videoFrameParms mc f.buf f.srcLen)
  | skipped {t : FrameType} : ¬ f.IsDhavI → (f.IsDhavP → mc.hasVParms = false) →
      DhavInfoCall mc f 0 { mc with frameType := t }

/-- **The call inverted.** -/
theorem dhavInfo_cases (h : dhavInfo mc f = .ok (r, mc')) : DhavInfoCall mc f r mc' := by
  by_cases hi : f.IsDhavI
  · by_cases hfps : fpsOf f.buf = 0
    · rw [dhavInfo_rejected ⟨hi, hfps⟩] at h
      cases h
      exact .rejected ⟨hi, hfps⟩
    by_cases hheight : heightOf f.buf = 0
    · rw [dhavInfo, collect_fd (headerThere_ofFn f.buf) hi.1 hi.2, if_neg hfps, if_pos hheight] at h
      cases h
    · rw [dhavInfo_accepted mc ⟨hi, hfps, hheight⟩] at h
      cases h
      exact .accepted ⟨hi, hfps, hheight⟩
  by_cases hp : f.IsDhavP ∧ mc.hasVParms = true
  · rw [dhavInfo_video hp.1 hp.2] at h
    cases h
    exact .video hp.1 hp.2
  · have hno : f.IsDhavP → mc.hasVParms = false := by
      intro hf
      rw [← Bool.not_eq_true]
      exact fun hv => hp ⟨hf, hv⟩
    obtain ⟨ty, hcall⟩ := dhavInfo_skipped mc hi hno
    rw [hcall] at h
    cases h
    exact .skipped hi hno

end OneCall

/-! ### Rejected frames -/

/-- The fields a rejected frame should leave alone. -/
structure SameParms (mc mc' : McParms) : Prop where
  vWidth : mc'.vWidth = mc.vWidth
  vHeight : mc'.vHeight = mc.vHeight
  vAspectX : mc'.vAspectX = mc.vAspectX
  vAspectY : mc'.vAspectY = mc.vAspectY
  dhavFps : mc'.dhavFps = mc.dhavFps
  ntscTimings : mc'.ntscTimings = mc.ntscTimings
  hasVParms : mc'.hasVParms = mc.hasVParms
  vTimestamp : mc'.vTimestamp = mc.vTimestamp
  dhavEpoch : mc'.dhavEpoch = mc.dhavEpoch
  vDhavTs : mc'.vDhavTs = mc.vDhavTs
  vDhavTsPrev : mc'.vDhavTsPrev = mc.vDhavTsPrev
  vFirstFrame : mc'.vFirstFrame = mc.vFirstFrame

/-- In a run, every call with a negative result leaves the parameters alone, and parameters that are
there have a frame rate. -/
structure RejectsCleanly (mc : McParms) (frames : List FrameBuf) : Prop where
  rejects : ∀ pre f mc₁ r mc₂, pre ++ [f] <+: frames → dhavInfoRun mc pre = .ok mc₁ →
    dhavInfo mc₁ f = .ok (r, mc₂) → r < 0 → SameParms mc₁ mc₂
  rate : ∀ pre mc₁, pre <+: frames → dhavInfoRun mc pre = .ok mc₁ → mc₁.hasVParms = true →
    mc₁.dhavFps ≠ 0

/-- Every rejected frame of a run has the picture size that is there already, and finds no rate. -/
def RejectsNothingNew (mc : McParms) (frames : List FrameBuf) : Prop :=
  ∀ pre f mc₁, pre ++ [f] <+: frames → dhavInfoRun mc pre = .ok mc₁ → f.IsRejected →
    (widthOf f.buf).toNat * 8 = mc₁.vWidth ∧ (heightOf f.buf).toNat * 8 = mc₁.vHeight ∧
      mc₁.dhavFps = 0

section Rejected

variable {mc mc' : McParms} {f : FrameBuf} {frames : List FrameBuf} {r : ℤ}

theorem sameParms_setGeometry (h : f.IsRejected) :
    SameParms mc (setGeometry { mc with frameType := .undefined } (subfields f.buf)) ↔
      (widthOf f.buf).toNat * 8 = mc.vWidth ∧ (heightOf f.buf).toNat * 8 = mc.vHeight ∧
        mc.dhavFps = 0 := by
  constructor
  · intro hs
    exact ⟨hs.vWidth, hs.vHeight, hs.dhavFps.symm.trans h.2⟩
  · rintro ⟨hw, hh, hf⟩
    exact ⟨hw, hh, rfl, rfl, h.2.trans hf.symm, rfl, rfl, rfl, rfl, rfl, rfl, rfl⟩

/-- The rate is there with the parameters, where a rejected frame finds none. -/
theorem DhavInfoCall.rate (h : DhavInfoCall mc f r mc') (hrate : mc.hasVParms = true → mc.dhavFps ≠ 0)
    (hno : f.IsRejected → mc.dhavFps = 0) : mc'.hasVParms = true → mc'.dhavFps ≠ 0 := by
  cases h with
  | rejected hr => exact fun hv => absurd (hno hr) (hrate hv)
  | accepted ha =>
    intro _
    rw [iFrameParms_dhavFps]
    exact ha.2.1
  | video _ hv =>
    intro _
    rw [videoFrameParms_dhavFps]
    exact hrate hv
  | skipped => exact hrate

/-- **A rejected I-frame leaves the decoder parameters alone exactly where it brings nothing new.** -/
theorem rejected_iff (heap : McParms) (exact60 : Bool) (frames : List FrameBuf) :
    RejectsCleanly (mcInit heap exact60) frames ↔ RejectsNothingNew (mcInit heap exact60) frames := by
  constructor
  · intro h pre f mc₁ hpre hrun hr
    exact (sameParms_setGeometry hr).mp (h.rejects pre f mc₁ _ _ hpre hrun (dhavInfo_rejected hr)
      (by decide))
  · intro h
    refine ⟨?_, ?_⟩
    · intro pre f mc₁ r mc₂ hpre hrun hcall hneg
      cases dhavInfo_cases hcall with
      | rejected hr => exact (sameParms_setGeometry hr).mpr (h pre f mc₁ hpre hrun hr)
      | accepted => exact absurd hneg (lt_irrefl _)
      | video => exact absurd hneg (lt_irrefl _)
      | skipped => exact absurd hneg (lt_irrefl _)
    · intro pre
      induction pre using List.reverseRecOn with
      | nil =>
        intro mc₁ _ hrun hv
        cases hrun
        cases hv
      | append_singleton pre f ih =>
        intro mc₂ hpre hrun
        have hpre' : pre <+: frames := (List.prefix_append _ _).trans hpre
        rw [dhavInfoRun_append] at hrun
        obtain ⟨mc₁, hrun₁, hrest⟩ := bind_ok hrun
        obtain ⟨⟨r, mc₃⟩, hcall, hret⟩ := bind_ok hrest
        cases hret
        exact (dhavInfo_cases hcall).rate (ih mc₁ hpre' hrun₁)
          fun hr => (h pre f mc₁ hpre hrun₁ hr).2.2

end Rejected

/-- A DHAV frame in a buffer that is zero behind it. -/
def inBuf (f : List UInt8) : FrameBuf := ⟨ofList f, f.length⟩

/-- 352x288 without a frame rate. -/
def noRateSubfields : List UInt8 := [0x80, 0, 44, 36, 0x81, 0, 1, 0]

/-- After a frame of 704x576 at 25 frames per second, the size and the rate of a rejected one stay. -/
theorem rejected_frame_stays :
    ¬ ∀ (heap : McParms) (exact60 : Bool) (frames : List FrameBuf),
      RejectsCleanly (mcInit heap exact60) frames := by
  intro h
  have hbad : (inBuf (iFrame noRateSubfields)).IsRejected := by decide
  have hclean := h default false [inBuf (iFrame palSubfields), inBuf (iFrame noRateSubfields)]
  have hsame := hclean.rejects [inBuf (iFrame palSubfields)] (inBuf (iFrame noRateSubfields)) _ _ _
    List.prefix_rfl rfl (dhavInfo_rejected hbad) (by decide)
  have hsize := (sameParms_setGeometry hbad).mp hsame
  exact absurd hsize.1 (by decide)

/-! ### The time of the headers -/

/-- The frames that have a time: I-frames, and P-frames once one was `seen`. -/
def countedFrames : Bool → List FrameBuf → List FrameBuf
  | _, [] => []
  | seen, f :: fs =>
    if f.IsDhavI then f :: countedFrames true fs
    else if f.IsDhavP ∧ seen = true then f :: countedFrames seen fs
    else countedFrames seen fs

section Times

variable {mc mc' : McParms} {f : FrameBuf}

/-- The clock is at the time `t₁` of the frame last counted, and started at `t₀`. -/
structure AtTime (mc : McParms) (t₀ t₁ : ℕ) : Prop where
  parms : mc.hasVParms = true
  first : mc.vFirstFrame = false
  prev : mc.vDhavTsPrev = t₁ % 2 ^ 16
  since : t₀ ≤ t₁
  time : mc.vTimestamp = (t₁ - t₀) * 1000000 % 2 ^ 64

/-- The first frame counted starts the clock. -/
theorem withTimes_first (h : mc.vFirstFrame = true) (hv : mc.hasVParms = true) {t₀ : ℕ}
    (hs : f.stamp = t₀ % 2 ^ 16) : AtTime (withTimes mc f.buf f.srcLen) t₀ t₀ := by
  refine ⟨withTimes_hasVParms.trans hv, ?_, ?_, le_rfl, ?_⟩ <;> unfold withTimes updateTimes <;>
    simp only [h, if_true]
  · exact hs
  · rw [Nat.sub_self, Nat.zero_mul, Nat.zero_mod]

/-- A later one moves it by the advance of the counter. -/
theorem withTimes_later {t₀ t₁ t₂ : ℕ} (h : AtTime mc t₀ t₁) (hle : t₁ ≤ t₂) (hlt : t₂ < t₁ + 65536)
    (hs : f.stamp = t₂ % 2 ^ 16) : AtTime (withTimes mc f.buf f.srcLen) t₀ t₂ := by
  have hadv := counter_advance hle hlt
  have hsince := h.since
  have hstamp : (btLM2NVU16 fun i => f.buf (20 + i)).toNat = t₂ % 2 ^ 16 := hs
  refine ⟨withTimes_hasVParms.trans h.parms, ?_, ?_, hsince.trans hle, ?_⟩ <;>
    unfold withTimes updateTimes <;> simp only [h.first, Bool.false_eq_true, if_false]
  · exact hstamp
  · rw [hstamp, h.prev, h.time]
    -- both branches of the source are the difference modulo `2 ^ 16`
    have hperiod : (if t₂ % 2 ^ 16 > t₁ % 2 ^ 16 then
        ((t₂ % 2 ^ 16 : ℕ) : ℤ) - (t₁ % 2 ^ 16 : ℕ)
      else ((t₂ % 2 ^ 16 : ℕ) : ℤ) + (0 - (t₁ % 2 ^ 16 : ℕ))) % 2 ^ 16 = (t₂ - t₁ : ℕ) := by
      rw [Nat.cast_sub hle]
      split_ifs
      · exact hadv
      · rw [zero_sub, ← sub_eq_add_neg]
        exact hadv
    rw [hperiod, Int.toNat_natCast]
    omega

/-- Only the four fields of the clock count. -/
theorem AtTime.congr {t₀ t₁ : ℕ} (h : AtTime mc t₀ t₁) (hparms : mc'.hasVParms = true)
    (hfirst : mc'.vFirstFrame = mc.vFirstFrame) (hprev : mc'.vDhavTsPrev = mc.vDhavTsPrev)
    (htime : mc'.vTimestamp = mc.vTimestamp) : AtTime mc' t₀ t₁ :=
  ⟨hparms, hfirst.trans h.first, hprev.trans h.prev, h.since, htime.trans h.time⟩

end Times

section TimedRun

variable {mc : McParms} {f : FrameBuf} {frames : List FrameBuf} {t : ℕ → ℕ}

/-- What an I-frame brings but the time. -/
theorem setAspect_clock (mc : McParms) : (setAspect mc).vFirstFrame = mc.vFirstFrame ∧
    (setAspect mc).vDhavTsPrev = mc.vDhavTsPrev ∧ (setAspect mc).vTimestamp = mc.vTimestamp := by
  unfold setAspect
  split_ifs <;> exact ⟨rfl, rfl, rfl⟩

theorem iFrameParms_first (mc : McParms) (h : mc.vFirstFrame = true) {t₀ : ℕ}
    (hs : f.stamp = t₀ % 2 ^ 16) :
    AtTime (iFrameParms mc f.buf f.srcLen) t₀ t₀ := by
  unfold iFrameParms
  refine withTimes_first ?_ rfl hs
  exact (setAspect_clock (setGeometry mc (subfields f.buf))).1.trans h

theorem iFrameParms_later {t₀ t₁ t₂ : ℕ} (h : AtTime mc t₀ t₁) (hle : t₁ ≤ t₂)
    (hlt : t₂ < t₁ + 65536) (hs : f.stamp = t₂ % 2 ^ 16) :
    AtTime (iFrameParms mc f.buf f.srcLen) t₀ t₂ := by
  obtain ⟨hfirst, hprev, htime⟩ := setAspect_clock (setGeometry mc (subfields f.buf))
  exact withTimes_later (h.congr rfl hfirst hprev htime) hle hlt hs

/-- Once a frame was counted, every counted one moves the clock to its time. -/
theorem counted_run {t₀ : ℕ} {f₀ : FrameBuf} (hat : AtTime mc t₀ (t 0))
    (ht : HasTimes t ((f₀ :: countedFrames true frames).map FrameBuf.stamp))
    (hacc : ∀ f ∈ frames, f.IsDhavI → f.IsAccepted) :
    ∃ mc', dhavInfoRun mc frames = .ok mc' ∧
      AtTime mc' t₀ (t (countedFrames true frames).length) := by
  induction frames generalizing mc t f₀ with
  | nil => exact ⟨mc, rfl, hat⟩
  | cons f frames ih =>
    have hrest : ∀ g ∈ frames, g.IsDhavI → g.IsAccepted :=
      fun g hg => hacc g (List.mem_cons_of_mem _ hg)
    by_cases hi : f.IsDhavI
    · simp only [countedFrames, if_pos hi, List.length_cons] at ht ⊢
      obtain ⟨hle, hlt⟩ := ht.gap 0 (by simp)
      have hcall : AtTime { mc with frameType := .undefined } t₀ (t 0) :=
        hat.congr hat.parms rfl rfl rfl
      have hnext := iFrameParms_later hcall hle hlt (ht.stamp 1 f.stamp rfl)
      obtain ⟨mc', hrun, hend⟩ := ih hnext ht.tail hrest
      have hfirst := dhavInfo_accepted mc (hacc f List.mem_cons_self hi)
      exact ⟨mc', (dhavInfoRun_cons frames hfirst).trans hrun, hend⟩
    by_cases hp : f.IsDhavP
    · have hcons : countedFrames true (f :: frames) = f :: countedFrames true frames := by
        rw [countedFrames, if_neg hi, if_pos ⟨hp, rfl⟩]
      rw [hcons] at ht ⊢
      obtain ⟨hle, hlt⟩ := ht.gap 0 (by simp)
      have hcall : AtTime { mc with frameType := .videoFrame } t₀ (t 0) :=
        hat.congr hat.parms rfl rfl rfl
      have hnext := withTimes_later hcall hle hlt (ht.stamp 1 f.stamp rfl)
      obtain ⟨mc', hrun, hend⟩ := ih hnext ht.tail hrest
      have hfirst := dhavInfo_video hp hat.parms
      exact ⟨mc', (dhavInfoRun_cons frames hfirst).trans hrun, hend⟩
    · have hskip : countedFrames true (f :: frames) = countedFrames true frames := by
        rw [countedFrames, if_neg hi, if_neg fun h => hp h.1]
      rw [hskip] at ht ⊢
      obtain ⟨ty, hcall⟩ := dhavInfo_skipped mc hi fun h => absurd h hp
      have hnext : AtTime { mc with frameType := ty } t₀ (t 0) := hat.congr hat.parms rfl rfl rfl
      obtain ⟨mc', hrun, hend⟩ := ih hnext ht hrest
      exact ⟨mc', (dhavInfoRun_cons frames hcall).trans hrun, hend⟩

/-- Before, every frame up to the first I-frame is passed over. -/
theorem first_run (mc : McParms) (hfirst : mc.vFirstFrame = true) (hparms : mc.hasVParms = false)
    (ht : HasTimes t ((countedFrames false frames).map FrameBuf.stamp))
    (hne : countedFrames false frames ≠ []) (hacc : ∀ f ∈ frames, f.IsDhavI → f.IsAccepted) :
    ∃ mc', dhavInfoRun mc frames = .ok mc' ∧
      AtTime mc' (t 0) (t ((countedFrames false frames).length - 1)) := by
  induction frames generalizing mc with
  | nil => exact absurd rfl hne
  | cons f frames ih =>
    have hrest : ∀ g ∈ frames, g.IsDhavI → g.IsAccepted :=
      fun g hg => hacc g (List.mem_cons_of_mem _ hg)
    by_cases hi : f.IsDhavI
    · simp only [countedFrames, if_pos hi, List.length_cons, Nat.add_sub_cancel] at ht ⊢
      have hstart := iFrameParms_first { mc with frameType := .undefined } hfirst
        (ht.stamp 0 f.stamp rfl)
      obtain ⟨mc', hrun, hend⟩ := counted_run hstart ht hrest
      have hcall := dhavInfo_accepted mc (hacc f List.mem_cons_self hi)
      exact ⟨mc', (dhavInfoRun_cons frames hcall).trans hrun, hend⟩
    · have hskip : countedFrames false (f :: frames) = countedFrames false frames := by
        rw [countedFrames, if_neg hi, if_neg fun h => Bool.false_ne_true h.2]
      rw [hskip] at ht hne ⊢
      obtain ⟨ty, hcall⟩ := dhavInfo_skipped mc hi fun _ => hparms
      obtain ⟨mc', hrun, hend⟩ := ih { mc with frameType := ty } hfirst hparms ht hne hrest
      exact ⟨mc', (dhavInfoRun_cons frames hcall).trans hrun, hend⟩

/-- **The time of the headers is unwrapped**: behind the last counted frame `v_timestamp` is its time
since the first one, in nsec, in the 64 bits there are. -/
theorem counter_time (heap : McParms) (exact60 : Bool)
    (ht : HasTimes t ((countedFrames false frames).map FrameBuf.stamp))
    (hne : countedFrames false frames ≠ []) (hacc : ∀ f ∈ frames, f.IsDhavI → f.IsAccepted) :
    ∃ mc, dhavInfoRun (mcInit heap exact60) frames = .ok mc ∧
      mc.vTimestamp = (t ((countedFrames false frames).length - 1) - t 0) * 1000000 % 2 ^ 64 := by
  obtain ⟨mc, hrun, hend⟩ := first_run (mcInit heap exact60) rfl rfl ht hne hacc
  exact ⟨mc, hrun, hend.time⟩

/-- An I-frame with the high byte `b` of the counter. -/
def stampedFrame (b : UInt8) : FrameBuf := inBuf ((iFrame palSubfields).set 21 b)

theorem counter_time_wraps :
    ∃ mc, dhavInfoRun (mcInit default false)
        [inBuf pFrame, stampedFrame 0x80, inBuf [], stampedFrame 0x00] = .ok mc ∧
      mc.vTimestamp = (65536 - 32768) * 1000000 % 2 ^ 64 := by
  have hcounted : countedFrames false [inBuf pFrame, stampedFrame 0x80, inBuf [],
      stampedFrame 0x00] = [stampedFrame 0x80, stampedFrame 0x00] := rfl
  have ht : HasTimes (fun i => 32768 * (i + 1))
      ([stampedFrame 0x80, stampedFrame 0x00].map FrameBuf.stamp) := by
    refine ⟨?_, fun i _ => by omega⟩
    intro i s hs
    match i, hs with
    | 0, rfl => rfl
    | 1, rfl => rfl
  rw [← hcounted] at ht
  obtain ⟨mc, hrun, htime⟩ := counter_time default false ht (by simp [hcounted]) (by decide)
  refine ⟨mc, hrun, htime.trans ?_⟩
  rw [hcounted]
  rfl

/-- Frames `32768` msec apart. -/
def slowFrames (n : ℕ) : List FrameBuf :=
  (List.range n).map fun k => stampedFrame (if k % 2 = 0 then 0x00 else 0x80)

theorem slowFrames_isAccepted {n : ℕ} : ∀ f ∈ slowFrames n, f.IsAccepted := by
  intro f hf
  obtain ⟨k, -, rfl⟩ := List.mem_map.mp hf
  split_ifs <;> decide

theorem countedFrames_of_isDhavI (h : ∀ f ∈ frames, f.IsDhavI) (seen : Bool) :
    countedFrames seen frames = frames := by
  induction frames generalizing seen with
  | nil => rfl
  | cons f frames ih =>
    rw [countedFrames, if_pos (h f List.mem_cons_self),
      ih fun g hg => h g (List.mem_cons_of_mem _ hg)]

theorem hasTimes_slowFrames (n : ℕ) :
    HasTimes (fun i => 32768 * i) ((slowFrames n).map FrameBuf.stamp) := by
  refine ⟨?_, fun i _ => by omega⟩
  intro i s hs
  rw [slowFrames, List.map_map] at hs
  obtain ⟨k, hk, rfl⟩ := Option.map_eq_some_iff.mp ((List.getElem?_map ..).symm.trans hs)
  obtain ⟨hlt, rfl⟩ := List.getElem?_eq_some_iff.mp hk
  rw [List.getElem_range]
  rcases Nat.mod_two_eq_zero_or_one i with h | h
  · rw [Function.comp_apply, if_pos h, show (stampedFrame 0x00).stamp = 0 from rfl]
    omega
  · rw [Function.comp_apply, if_neg (by omega), show (stampedFrame 0x80).stamp = 32768 from rfl]
    omega

/-- After 2 ^ 64 nsec, 584 years, the time is back at zero. -/
theorem counter_time_overflows :
    ¬ ∀ (heap : McParms) (exact60 : Bool) (frames : List FrameBuf) (t : ℕ → ℕ),
      HasTimes t ((countedFrames false frames).map FrameBuf.stamp) → countedFrames false frames ≠ [] →
      (∀ f ∈ frames, f.IsDhavI → f.IsAccepted) →
      ∃ mc, dhavInfoRun (mcInit heap exact60) frames = .ok mc ∧
        mc.vTimestamp = (t ((countedFrames false frames).length - 1) - t 0) * 1000000 := by
  intro h
  obtain ⟨n, hn⟩ : ∃ n, n = 562949955 := ⟨_, rfl⟩
  have hacc : ∀ f ∈ slowFrames n, f.IsAccepted := slowFrames_isAccepted
  have hcounted := countedFrames_of_isDhavI (fun f hf => (hacc f hf).1) false
  have hlen : (slowFrames n).length = n := by
    rw [slowFrames, List.length_map, List.length_range]
  have ht := hasTimes_slowFrames n
  have hne : slowFrames n ≠ [] := by
    rw [← List.length_pos_iff, hlen]
    omega
  rw [← hcounted] at ht hne
  obtain ⟨mc, hrun, htime⟩ := h default false _ _ ht hne fun f hf _ => hacc f hf
  obtain ⟨mc', hrun', hend⟩ := first_run (mcInit default false) rfl rfl ht hne
    fun f hf _ => hacc f hf
  obtain rfl := Except.ok.inj (hrun.symm.trans hrun')
  have hwrapped := hend.time
  rw [htime, hcounted, hlen] at hwrapped
  omega

end TimedRun

end TaniDVR
