import TaniDVR.Conversion

/-!
# Uninitialised — what `malloc` left never gets to the file

`mc_init` and `dt_tsproc_init` set some fields of what they allocate.  The rest is not all written
before it is read: the corrector's time is copied to the parameters even when the corrector has not
run yet.  `Alike` relates two conversions that began with different contents of the heap: they agree
on a field from the moment on where something may depend on it.

`uninitialised_unseen`: the output of every run, and the fault that may end it, is the same.
-/

namespace TaniDVR

open Lib

/-- Parameters that agree on what may be looked at later. -/
structure McAlike (fmt : McFormat) (a b : McParms) : Prop where
  frameType : a.frameType = b.frameType
  hasVParms : a.hasVParms = b.hasVParms
  ntscExact60hz : a.ntscExact60hz = b.ntscExact60hz
  vFirstFrame : a.vFirstFrame = b.vFirstFrame
  dhavEpoch : a.dhavEpoch = b.dhavEpoch
  vDhavTsPrev : a.vDhavTsPrev = b.vDhavTsPrev
  /-- The picture, once there are video parameters. -/
  picture : a.hasVParms = true → a.vWidth = b.vWidth ∧ a.vHeight = b.vHeight ∧
    a.vAspectX = b.vAspectX ∧ a.vAspectY = b.vAspectY ∧ a.ntscTimings = b.ntscTimings ∧
    a.dhavFps = b.dhavFps
  /-- The clock, once it runs. -/
  clock : a.vFirstFrame = false → a.vTimestamp = b.vTimestamp
  stamp : fmt = .dhav → a.vFirstFrame = false → a.vDhavTs = b.vDhavTs

/-- A frame for the corrector and the writer: the clock runs, and the body is the same. -/
def Framed (a b : McParms) : Prop :=
  Usable a → a.vFirstFrame = false ∧ a.bodyP = b.bodyP ∧ a.bodyLen = b.bodyLen

/-- What the parsers return; the DHAV parser starts the clock, `first`, only with a frame for the
corrector. -/
structure Collected (fmt : McFormat) (first : Bool) (p q : ℤ × McParms) : Prop where
  ret : p.1 = q.1
  alike : McAlike fmt p.2 q.2
  framed : Framed p.2 q.2
  clock : fmt = .dhav → Usable p.2 ∨ p.2.vFirstFrame = first

/-- Corrector states that agree on what is looked at. -/
structure TscAlike (a b : TsProc) : Prop where
  vFirstFrame : a.vFirstFrame = b.vFirstFrame
  rest : a.vFirstFrame = false → a.vDhavTimestamp = b.vDhavTimestamp ∧ a.vTimestamp = b.vTimestamp ∧
    a.sdcTDhav = b.sdcTDhav ∧ a.sdcTRef = b.sdcTRef ∧ a.sdcTEff = b.sdcTEff ∧
    a.sdcTFrames = b.sdcTFrames ∧ a.vDhavTs = b.vDhavTs ∧ a.dhavEpoch = b.dhavEpoch

/-- Two results of a call: the same fault, or values in relation. -/
def AlikeResult {α : Type} (R : α → α → Prop) : Except Fault α → Except Fault α → Prop
  | .error e, .error e' => e = e'
  | .ok x, .ok y => R x y
  | _, _ => False

theorem AlikeResult.bind {α β : Type} {R : α → α → Prop} {S : β → β → Prop} {x y : Except Fault α}
    {f g : α → Except Fault β} (h : AlikeResult R x y)
    (hfg : ∀ a b, R a b → AlikeResult S (f a) (g b)) : AlikeResult S (x >>= f) (y >>= g) := by
  cases x with
  | error e =>
    cases y with
    | error e' => exact h
    | ok b => exact h.elim
  | ok a =>
    cases y with
    | error e' => exact h.elim
    | ok b => exact hfg a b h

theorem AlikeResult.refl {α : Type} {R : α → α → Prop} (hR : ∀ a, R a a) (x : Except Fault α) :
    AlikeResult R x x := by
  cases x with
  | error e => rfl
  | ok a => exact hR a

/-- The same call on both sides. -/
theorem AlikeResult.same {α β : Type} {S : β → β → Prop} (x : Except Fault α)
    {f g : α → Except Fault β} (hfg : ∀ a, AlikeResult S (f a) (g a)) :
    AlikeResult S (x >>= f) (x >>= g) :=
  (AlikeResult.refl (R := Eq) (fun _ => rfl) x).bind fun a _ h => h ▸ hfg a

/-- The same branch on both sides. -/
theorem AlikeResult.ite {α : Type} {R : α → α → Prop} {p q : Prop} [Decidable p] [Decidable q]
    {x x' y y' : Except Fault α} (hpq : p ↔ q) (h : p → AlikeResult R x y)
    (h' : ¬ p → AlikeResult R x' y') : AlikeResult R (if p then x else x') (if q then y else y') := by
  by_cases hp : p
  · rw [if_pos hp, if_pos (hpq.mp hp)]
    exact h hp
  · rw [if_neg hp, if_neg fun hq => hp (hpq.mpr hq)]
    exact h' hp

/-! ### The parsers -/

variable {fmt : McFormat} {a b : McParms}

theorem McAlike.withType (h : McAlike fmt a b) (t : FrameType) :
    McAlike fmt { a with frameType := t } { b with frameType := t } :=
  ⟨rfl, h.hasVParms, h.ntscExact60hz, h.vFirstFrame, h.dhavEpoch, h.vDhavTsPrev,
    h.picture, h.clock, h.stamp⟩

theorem McAlike.withBody (h : McAlike fmt a b) (bodyP bodyLen : ℕ) :
    McAlike fmt { a with bodyP := bodyP, bodyLen := bodyLen }
      { b with bodyP := bodyP, bodyLen := bodyLen } :=
  ⟨h.frameType, h.hasVParms, h.ntscExact60hz, h.vFirstFrame, h.dhavEpoch, h.vDhavTsPrev,
    h.picture, h.clock, h.stamp⟩

theorem McAlike.updateTimes (h : McAlike fmt a b) (ts epoch : ℤ) :
    McAlike fmt (updateTimes a ts epoch) (updateTimes b ts epoch) ∧
      (TaniDVR.updateTimes a ts epoch).vFirstFrame = false ∧
      (Usable a → Usable (TaniDVR.updateTimes a ts epoch)) := by
  have hfirst := h.vFirstFrame
  unfold TaniDVR.updateTimes
  dsimp only
  rw [← hfirst]
  cases hf : a.vFirstFrame with
  | true =>
    exact ⟨⟨h.frameType, h.hasVParms, h.ntscExact60hz, rfl, rfl, rfl, h.picture, fun _ => rfl,
      fun _ _ => rfl⟩, rfl, id⟩
  | false =>
    simp only [Bool.false_eq_true, if_false, h.clock hf, h.vDhavTsPrev]
    exact ⟨⟨h.frameType, h.hasVParms, h.ntscExact60hz, rfl, rfl, rfl, h.picture, fun _ => rfl,
      fun _ _ => rfl⟩, trivial, id⟩

theorem Collected.of_type (h : McAlike fmt a b) (r : ℤ) {t : FrameType}
    (ht : t = .undefined ∨ t = .audioFrame) :
    Collected fmt a.vFirstFrame (r, { a with frameType := t }) (r, { b with frameType := t }) :=
  ⟨rfl, h.withType t, fun hu => absurd hu (not_usable_of_frameType ht), fun _ => .inr rfl⟩

theorem collectTimes_alike {first : Bool} (h : McAlike fmt a b) (hu : Usable a) (src : Mem)
    (bodyOffset bodyLen : ℕ) : AlikeResult (Collected fmt first)
      (collectTimes a src bodyOffset bodyLen) (collectTimes b src bodyOffset bodyLen) := by
  refine .same _ fun ts => .same _ fun epoch => ?_
  obtain ⟨h1, h2, h3⟩ := h.updateTimes ts epoch
  exact ⟨rfl, h1.withBody bodyOffset bodyLen, fun _ => ⟨h2, rfl, rfl⟩, fun _ => .inl (h3 hu)⟩

theorem McAlike.withSize (h : McAlike fmt a b) (wd ht : ℕ) (fps : UInt8) :
    McAlike fmt { a with vWidth := wd, vHeight := ht, dhavFps := fps }
      { b with vWidth := wd, vHeight := ht, dhavFps := fps } := by
  refine ⟨h.frameType, h.hasVParms, h.ntscExact60hz, h.vFirstFrame, h.dhavEpoch, h.vDhavTsPrev,
    fun hv => ?_, h.clock, h.stamp⟩
  obtain ⟨-, -, h1, h2, h3, -⟩ := h.picture hv
  exact ⟨rfl, rfl, h1, h2, h3, rfl⟩

/-- A new picture of the same size and rate. -/
theorem McAlike.newPicture (h : McAlike fmt a b) (hw : a.vWidth = b.vWidth)
    (hh : a.vHeight = b.vHeight) (hfps : a.dhavFps = b.dhavFps) :
    McAlike fmt { guessNtsc (setAspect a) with hasVParms := true }
      { guessNtsc (setAspect b) with hasVParms := true } := by
  unfold setAspect
  rw [hw, hh]
  split_ifs <;>
    exact ⟨h.frameType, rfl, h.ntscExact60hz, h.vFirstFrame, h.dhavEpoch, h.vDhavTsPrev,
      fun _ => ⟨rfl, rfl, rfl, rfl, by simp only [guessNtsc, hfps], hfps⟩, h.clock, h.stamp⟩

/-- The aspect ratio is guessed of the same height. -/
theorem guessAspect_alike {first : Bool} {f g : McParms → Except Fault (ℤ × McParms)}
    (hh : a.vHeight = b.vHeight)
    (h : AlikeResult (Collected fmt first) (f (setAspect a)) (g (setAspect b))) :
    AlikeResult (Collected fmt first) (guessAspect a >>= f) (guessAspect b >>= g) := by
  unfold guessAspect
  rw [← hh]
  by_cases h0 : a.vHeight = 0
  · rw [if_pos h0, if_pos h0]
    rfl
  · rw [if_neg h0, if_neg h0]
    exact h

/-- **The DHAV parser** on parameters that agree. -/
theorem collectDhav_alike (h : McAlike fmt a b) (src : Mem) (srcLen : ℕ) :
    AlikeResult (Collected fmt a.vFirstFrame) (dtCollectDhavFrameInfo a src srcLen)
      (dtCollectDhavFrameInfo b src srcLen) := by
  have hundef := Collected.of_type h 0 (.inl rfl)
  unfold dtCollectDhavFrameInfo
  dsimp only
  refine .ite Iff.rfl (fun _ => hundef) fun _ => ?_
  refine .same _ fun dhavType => .same _ fun extheadLen => .same _ fun sub => ?_
  refine .ite Iff.rfl (fun _ => .ite (by rw [h.hasVParms]) (fun _ => hundef) fun hv =>
    collectTimes_alike (h.withType .videoFrame) ⟨.inr rfl, Bool.of_not_eq_false hv⟩ src _ _) fun _ => ?_
  refine .ite Iff.rfl (fun _ => ?_) fun _ => ?_
  · have hg := (h.withType .undefined).withSize ((sub (dhavSfIndex 0x80 2)).toNat * 8)
      ((sub (dhavSfIndex 0x80 3)).toNat * 8) (sub (dhavSfIndex 0x81 3))
    refine .ite Iff.rfl (fun _ => .of_type hg (-1) (.inl rfl)) fun _ => ?_
    exact guessAspect_alike rfl (collectTimes_alike
      ((hg.newPicture rfl rfl rfl).withType .videoIFrame) ⟨.inl rfl, rfl⟩ src _ _)
  · exact .ite Iff.rfl (fun _ => .of_type h 0 (.inr rfl)) fun _ => hundef

theorem McAlike.rawTimes (h : McAlike fmt a b) (hne : fmt ≠ .dhav) :
    McAlike fmt (rawTimes a) (rawTimes b) ∧ (TaniDVR.rawTimes a).vFirstFrame = false := by
  have hfirst := h.vFirstFrame
  unfold TaniDVR.rawTimes
  rw [← hfirst]
  cases hf : a.vFirstFrame with
  | true =>
    exact ⟨⟨h.frameType, h.hasVParms, h.ntscExact60hz, rfl, h.dhavEpoch, h.vDhavTsPrev, h.picture,
      fun _ => rfl, fun hd => absurd hd hne⟩, rfl⟩
  | false =>
    simp only [Bool.false_eq_true, if_false, h.clock hf]
    exact ⟨⟨h.frameType, h.hasVParms, h.ntscExact60hz, rfl, h.dhavEpoch, h.vDhavTsPrev, h.picture,
      fun _ => rfl, fun hd => absurd hd hne⟩, trivial⟩

theorem rawTimes_body (m : McParms) :
    (rawTimes m).bodyP = m.bodyP ∧ (rawTimes m).bodyLen = m.bodyLen := by
  unfold rawTimes
  split_ifs <;> exact ⟨rfl, rfl⟩

theorem setAspect_body (m : McParms) :
    (guessNtsc (setAspect m)).bodyP = m.bodyP ∧ (guessNtsc (setAspect m)).bodyLen = m.bodyLen := by
  unfold setAspect
  split_ifs <;> exact ⟨rfl, rfl⟩

/-- **The raw H.264 parser** on parameters that agree. -/
theorem collectRaw_alike (h : McAlike fmt a b) (hne : fmt ≠ .dhav) (src : Mem) (srcLen : ℕ) :
    AlikeResult (Collected fmt a.vFirstFrame) (dtCollectRawH264FrameInfo a src srcLen)
      (dtCollectRawH264FrameInfo b src srcLen) := by
  have hb := (h.withType .undefined).withBody 0 srcLen
  have htimes : ∀ {a b : McParms}, McAlike fmt a b → a.bodyP = b.bodyP → a.bodyLen = b.bodyLen →
      ∀ first, Collected fmt first (0, rawTimes a) (0, rawTimes b) := by
    intro a b h hp hl first
    obtain ⟨h1, h2⟩ := h.rawTimes hne
    obtain ⟨ha1, ha2⟩ := rawTimes_body a
    obtain ⟨hb1, hb2⟩ := rawTimes_body b
    exact ⟨rfl, h1, fun _ => ⟨h2, ha1.trans (hp.trans hb1.symm), ha2.trans (hl.trans hb2.symm)⟩,
      fun hd => absurd hd hne⟩
  unfold dtCollectRawH264FrameInfo
  dsimp only
  refine .ite Iff.rfl (fun _ => .of_type h 0 (.inl rfl)) fun _ => .same _ fun nalType => ?_
  refine .ite Iff.rfl (fun _ => .same _ fun x => ?_) fun _ => ?_
  · split_ifs
    · exact htimes (hb.withType .videoIFrame) rfl rfl _
    · exact htimes (hb.withType .videoFrame) rfl rfl _
  refine .ite Iff.rfl (fun _ => .of_type hb 0 (.inr rfl)) fun _ => ?_
  refine .ite Iff.rfl (fun _ => .same _ fun wd => .same _ fun ht => ?_) fun _ =>
    .of_type hb 0 (.inl rfl)
  have hnew : ∀ {x y : McParms}, McAlike fmt x y → x.vWidth = y.vWidth → x.vHeight = y.vHeight →
      x.dhavFps = y.dhavFps → x.bodyP = y.bodyP → x.bodyLen = y.bodyLen →
      ∀ first, Collected fmt first (0, rawTimes { guessNtsc (setAspect x) with hasVParms := true })
        (0, rawTimes { guessNtsc (setAspect y) with hasVParms := true }) := by
    intro x y h hw hh hfps hp hl first
    obtain ⟨hx1, hx2⟩ := setAspect_body x
    obtain ⟨hy1, hy2⟩ := setAspect_body y
    exact htimes (h.newPicture hw hh hfps) (hx1.trans (hp.trans hy1.symm))
      (hx2.trans (hl.trans hy2.symm)) first
  exact guessAspect_alike rfl (hnew (hb.withSize (wd.toNat * 8) (ht.toNat * 8) 20) rfl rfl rfl
    rfl rfl _)

/-! ### The corrector -/

variable {s t : TsProc}

/-- **The corrector** on states that agree; after a frame it works on, its clock runs. -/
theorem tsprocProcess_alike (h : TscAlike s t) (ha : McAlike .dhav a b) (hf : Framed a b) :
    AlikeResult (fun p q => p.1 = q.1 ∧ TscAlike p.2 q.2 ∧
      (¬ Usable a → p.2 = s) ∧ (Usable a → p.2.vFirstFrame = false))
      (dtTsprocProcess s a) (dtTsprocProcess t b) := by
  unfold dtTsprocProcess
  refine .ite (by rw [ha.frameType]) (fun hv => ?_) fun hv => .ite (by rw [ha.hasVParms])
    (fun hp => ?_) fun hp => .ite (by rw [h.vFirstFrame]) (fun hfirst => ?_) fun hfirst => ?_
  · exact ⟨rfl, h, fun _ => rfl, fun hu => absurd hv hu.video⟩
  · exact ⟨rfl, h, fun _ => rfl, fun hu => absurd (hp.symm.trans hu.2) nofun⟩
  all_goals
    have hu : Usable a := by
      by_contra hu
      rcases not_usable_iff.mp hu with hv' | ⟨-, hp'⟩
      · exact hv hv'
      · exact hp hp'
    have hstamp := ha.stamp rfl (hf hu).1
  · exact ⟨rfl, ⟨rfl, fun _ => ⟨rfl, rfl, rfl, rfl, rfl, rfl, hstamp, ha.dhavEpoch⟩⟩,
      fun hn => absurd hu hn, fun _ => rfl⟩
  · obtain ⟨-, -, -, -, hntsc, hfps⟩ := ha.picture hu.2
    have hff : s.vFirstFrame = false := by simpa using hfirst
    obtain ⟨h1, h2, h3, h4, h5, h6, h7, h8⟩ := h.rest hff
    have heq : ({ s with
        dhavEpochPrev := s.dhavEpoch, dhavEpoch := a.dhavEpoch, vDhavTsPrev := s.vDhavTs
        vDhavTs := a.vDhavTs } : TsProc) = { t with
        dhavEpochPrev := t.dhavEpoch, dhavEpoch := b.dhavEpoch, vDhavTsPrev := t.vDhavTs
        vDhavTs := b.vDhavTs } := by
      rw [hstamp, ha.dhavEpoch, TsProc.mk.injEq]
      exact ⟨h.vFirstFrame, h1, h2, h3, h4, h5, h6, rfl, h7, rfl, h8⟩
    dsimp only
    rw [heq, hfps, hntsc, ha.ntscExact60hz, hstamp, h7]
    refine .ite Iff.rfl (fun _ => rfl) fun _ => ⟨rfl, ⟨rfl, fun _ => ⟨rfl, rfl, rfl, rfl, rfl, rfl, rfl,
      rfl⟩⟩, fun hn => absurd hu hn, fun _ => ?_⟩
    exact (adjust_vFirstFrame _ _ _).trans (h.vFirstFrame.symm.trans hff)

/-! ### A run -/

variable {tsproc : Bool}

/-- Conversions that agree on what may be looked at later; the corrector's clock runs when the other
one does. -/
structure Alike (fmt : McFormat) (tsproc : Bool) (x y : Conversion) : Prop where
  mc : McAlike fmt x.mc y.mc
  tsc : TscAlike x.tsc y.tsc
  pending : x.mainMkvHeaderPending = y.mainMkvHeaderPending
  started : tsproc = true → fmt = .dhav → x.mc.vFirstFrame = false → x.tsc.vFirstFrame = false

/-- The overridden time agrees when the clock runs. -/
theorem correctTimestamp_alike {first : Bool} {r : ℤ} (hs : TscAlike s t)
    (hc : Collected fmt first (r, a) (r, b))
    (hstart : tsproc = true → fmt = .dhav → first = false → s.vFirstFrame = false) :
    AlikeResult (fun p q => TscAlike p.1 q.1 ∧ McAlike fmt p.2 q.2 ∧ Framed p.2 q.2 ∧
      (tsproc = true → fmt = .dhav → p.2.vFirstFrame = false → p.1.vFirstFrame = false))
      (correctTimestamp fmt tsproc s a) (correctTimestamp fmt tsproc t b) := by
  have ha := hc.alike
  unfold correctTimestamp
  refine .ite Iff.rfl (fun ht => ?_) fun ht => ⟨hs, ha, hc.framed, fun h1 h2 => absurd ⟨h1, h2⟩ ht⟩
  obtain ⟨hts, rfl⟩ := ht
  refine (tsprocProcess_alike hs ha hc.framed).bind ?_
  rintro p q ⟨-, hpq, hskip, huse⟩
  have hrun : a.vFirstFrame = false → p.2.vFirstFrame = false := by
    intro hf
    by_cases hu : Usable a
    · exact huse hu
    · rw [hskip hu]
      exact hstart hts rfl (((hc.clock rfl).resolve_left hu).symm.trans hf)
  refine ⟨hpq, ⟨ha.frameType, ha.hasVParms, ha.ntscExact60hz, ha.vFirstFrame, ha.dhavEpoch,
    ha.vDhavTsPrev, ha.picture, fun hf => ?_, ha.stamp⟩, hc.framed, fun _ _ => hrun⟩
  exact (hpq.rest (hrun hf)).2.1

theorem mainHeader_alike (h : McAlike fmt a b) (hv : a.hasVParms = true) (vcodec : MCodec) :
    mainHeader a vcodec = mainHeader b vcodec := by
  obtain ⟨h1, h2, h3, h4, h5, h6⟩ := h.picture hv
  simp only [mainHeader, h1, h2, h3, h4, h5, h6, h.ntscExact60hz]

/-- **The writer** looks at nothing else. -/
theorem convert_alike (ha : McAlike fmt a b) (hf : Framed a b) (src : Mem)
    (srcLen maxDstLen : ℕ) (firstFrame : Bool) (vcodec : MCodec) :
    dtConvertFrameToMkv a src srcLen maxDstLen firstFrame vcodec =
      dtConvertFrameToMkv b src srcLen maxDstLen firstFrame vcodec := by
  unfold dtConvertFrameToMkv
  refine ite_congr rfl (fun _ => rfl) fun _ => ite_congr (by rw [ha.frameType]) (fun _ => rfl)
    fun hvideo => ite_congr (by rw [ha.hasVParms]) (fun _ => rfl) fun hparms => ?_
  have hv : a.hasVParms = true := by
    rw [ha.hasVParms]
    exact Bool.of_not_eq_false hparms
  have hu : Usable a := by
    by_contra hu
    rcases not_usable_iff.mp hu with h | ⟨-, h⟩
    · exact hvideo (by rwa [← ha.frameType])
    · exact absurd (hv.symm.trans h) nofun
  obtain ⟨hclock, hp, hl⟩ := hf hu
  rw [mainHeader_alike ha hv, hp, hl, ha.clock hclock, ha.frameType]

variable {x y : Conversion}

/-- **One frame.** -/
theorem convertFrame_alike (h : Alike fmt tsproc x y) (maxDstLen : ℕ) (src : Mem) (srcLen : ℕ) :
    AlikeResult (fun p q => Alike fmt tsproc p.1 q.1 ∧ p.2 = q.2)
      (convertFrame fmt tsproc maxDstLen x src srcLen)
      (convertFrame fmt tsproc maxDstLen y src srcLen) := by
  have hcollect : AlikeResult (Collected fmt x.mc.vFirstFrame)
      (collectFrameInfo fmt x.mc src srcLen) (collectFrameInfo fmt y.mc src srcLen) := by
    unfold collectFrameInfo
    by_cases hfmt : fmt = .dhav
    · rw [if_pos hfmt]
      exact collectDhav_alike h.mc src srcLen
    · rw [if_neg hfmt]
      exact collectRaw_alike h.mc hfmt src srcLen
  unfold convertFrame
  refine hcollect.bind ?_
  rintro ⟨r, m⟩ ⟨r', m'⟩ hc
  obtain rfl : r = r' := hc.ret
  refine (correctTimestamp_alike h.tsc hc h.started).bind ?_
  rintro ⟨s, m⟩ ⟨t, m'⟩ ⟨hs, hm, hf, hrun⟩
  dsimp only at hs hm hf hrun ⊢
  rw [convert_alike hm hf, h.pending]
  exact .same _ fun out => ⟨⟨hm, hs, rfl, hrun⟩, rfl⟩

/-- **All frames.** -/
theorem convertFrames_alike (maxDstLen : ℕ) (frames : List (Mem × ℕ)) :
    ∀ {x y : Conversion}, Alike fmt tsproc x y →
      AlikeResult (fun p q => p.map Prod.snd = q.map Prod.snd)
        (convertFrames fmt tsproc maxDstLen x frames)
        (convertFrames fmt tsproc maxDstLen y frames) := by
  induction frames with
  | nil => exact fun _ => rfl
  | cons f frames ih =>
    intro x y h
    refine (convertFrame_alike h maxDstLen f.1 f.2).bind ?_
    rintro ⟨x', out⟩ ⟨y', out'⟩ ⟨hxy, rfl⟩
    refine (ih hxy).bind fun p q hpq => ?_
    show (out :: p.map Prod.snd) = out :: q.map Prod.snd
    rw [hpq]

/-- What `mc_init` and `dt_tsproc_init` set is enough. -/
theorem Alike.start (heap heap' : McParms) (tscHeap tscHeap' : TsProc) (ntscExact60hz : Bool) :
    Alike fmt tsproc (.start heap tscHeap ntscExact60hz) (.start heap' tscHeap' ntscExact60hz) :=
  ⟨⟨rfl, rfl, rfl, rfl, rfl, rfl, nofun, nofun, fun _ => nofun⟩, ⟨rfl, nofun⟩, rfl,
    fun _ _ => nofun⟩

/-- **Nothing that `malloc` left gets to the file**: whatever it was, every run has the same outputs,
or the same fault. -/
theorem uninitialised_unseen (fmt : McFormat) (tsproc : Bool) (maxDstLen : ℕ)
    (frames : List (Mem × ℕ)) (heap heap' : McParms) (tscHeap tscHeap' : TsProc)
    (ntscExact60hz : Bool) :
    (convertFrames fmt tsproc maxDstLen (.start heap tscHeap ntscExact60hz) frames).map
        (·.map Prod.snd) =
      (convertFrames fmt tsproc maxDstLen (.start heap' tscHeap' ntscExact60hz) frames).map
        (·.map Prod.snd) := by
  have hstart : Alike fmt tsproc (.start heap tscHeap ntscExact60hz)
      (.start heap' tscHeap' ntscExact60hz) :=
    Alike.start heap heap' tscHeap tscHeap' ntscExact60hz
  have h := convertFrames_alike maxDstLen frames hstart
  cases hx : convertFrames fmt tsproc maxDstLen (.start heap tscHeap ntscExact60hz) frames <;>
    cases hy : convertFrames fmt tsproc maxDstLen (.start heap' tscHeap' ntscExact60hz) frames <;>
    rw [hx, hy] at h
  · exact congrArg Except.error h
  · exact h.elim
  · exact h.elim
  · exact congrArg Except.ok h

end TaniDVR
