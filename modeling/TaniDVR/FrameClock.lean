import Mathlib.Data.Rat.Floor
import TaniDVR.Divisors

/-!
# FrameClock — the two clocks of one file

The MKV header has the frame rate that `transform_fps_to_mkvfps` computes, and the Clusters have the
time that `dt_tsproc_process` advances by its reference period.  `mkvFps` is the exact rate before it
is rounded to a float.

`clocks_agree_iff`: the two agree exactly for sources that are taken for NTSC, while the time fits in
64 bits; for PAL the header still has 1000/1001 of the frame rate.
-/

namespace TaniDVR

open Lib

/-- What `transform_fps_to_mkvfps` computes, before rounding. -/
def mkvFps (fpsIn : UInt8) (ntscTimings ntscExact60hz : Bool) : ℚ :=
  fpsIn.toNat * (if ntscTimings = true ∧ ntscExact60hz = true then 1 else 1000 / 1001)

/-- An 0xfd frame that is taken for NTSC. -/
def NtscSource (s : ℕ → UInt8) : Prop :=
  (heightOf s).toNat * 8 ∈ [60, 120, 160, 240, 480] ∨
    (heightOf s).toNat * 8 ∉ [72, 144, 192, 288, 576] ∧ fpsOf s ∈ ([60, 30, 15] : List UInt8)

instance (s : ℕ → UInt8) : Decidable (NtscSource s) := inferInstanceAs (Decidable (_ ∨ _))

/-- No correction fires at a frame. -/
structure NoCorrection (tsc : TsProc) (p d : ℤ) : Prop where
  notBack : ¬ tsc.dhavEpoch < tsc.dhavEpochPrev
  noJump : ¬ toSizeT ((tsc.dhavEpoch : ℤ) - tsc.dhavEpochPrev) > epochMaxForwardJump
  noDrift : ¬ absInt64 (toInt64 (((tsc.vDhavTimestamp : ℤ) + d) - (tsc.vTimestamp + p))) >
    timestampJitterDampingLimit * p
  noSlowDrift : ¬ (absInt64 (toInt64 ((updateStats tsc p d).sdcTDhav - (updateStats tsc p d).sdcTEff)) >
    p * 2 ∧ (updateStats tsc p d).sdcTFrames ≥ slowDriftEvalMinSamples)

/-- No correction fires in a run. -/
def JitterFree (tsc : TsProc) (frames : List McParms) : Prop :=
  ∀ pre mcp t, pre ++ [mcp] <+: frames → tsprocRun tsc pre = .ok t →
    NoCorrection (t.sync mcp) (refPeriodOf mcp) (dhavPeriod mcp.vDhavTs t.vDhavTs)

/-- The time advances by the frame period of the rate `fps` at every frame, and frame `k` is within
`k` ns of `k / fps`. -/
structure ClocksAgree (fps : ℚ) (tsc : TsProc) (frames : List McParms) : Prop where
  step : ∀ pre mcp t t', pre ++ [mcp] <+: frames → tsprocRun tsc pre = .ok t →
    tsprocRun tsc (pre ++ [mcp]) = .ok t' →
    (t'.vTimestamp : ℤ) = t.vTimestamp + ⌊10 ^ 9 / fps⌋
  close : ∀ pre t, pre <+: frames → tsprocRun tsc pre = .ok t →
    |(t.vTimestamp : ℚ) - tsc.vTimestamp - pre.length * (10 ^ 9 / fps)| ≤ (pre.length : ℚ)

/-! ### The two formulas -/

section Formulas

variable {fps : UInt8} {ntsc exact60 : Bool}

/-- The frame period of the header's rate. -/
theorem period_mkvFps (h : fps ≠ 0) :
    10 ^ 9 / mkvFps fps ntsc exact60 =
      ((if ntsc = true ∧ exact60 = true then 1000000000 else 1001000000 : ℕ) : ℚ) / fps.toNat := by
  have hpos : (fps.toNat : ℚ) ≠ 0 := by exact_mod_cast (toNat_pos_of_ne_zero h).ne'
  unfold mkvFps
  split_ifs
  · norm_num
  · field_simp
    norm_num

theorem floor_mkvFps (h : fps ≠ 0) :
    ⌊10 ^ 9 / mkvFps fps ntsc exact60⌋ =
      ((if ntsc = true ∧ exact60 = true then 1000000000 else 1001000000) / fps.toNat : ℕ) := by
  rw [period_mkvFps h]
  exact Rat.floor_natCast_div_natCast _ _

theorem floor_mkvFps_bounds (h : fps ≠ 0) :
    0 ≤ ⌊10 ^ 9 / mkvFps fps ntsc exact60⌋ ∧ ⌊10 ^ 9 / mkvFps fps ntsc exact60⌋ < 2 ^ 63 := by
  rw [floor_mkvFps h]
  refine ⟨Int.natCast_nonneg _, ?_⟩
  exact_mod_cast lt_of_le_of_lt (Nat.div_le_self _ _) (by split_ifs <;> norm_num)

/-- One thousandth more is more, for every frame rate of a byte. -/
theorem period_gap {n : ℕ} (hpos : 0 < n) (hlt : n < 256) :
    1000000000 / n < 1001000000 / n := by
  have h1 : 1000000000 / n * n ≤ 1000000000 := Nat.div_mul_le_self _ _
  have h2 : (1000000000 / n + 1) * n ≤ 1001000000 := by
    rw [Nat.add_mul]
    omega
  exact (Nat.le_div_iff_mul_le hpos).mpr h2

/-- **The formulas agree exactly for NTSC.** -/
theorem floor_mkvFps_eq_iff (h : fps ≠ 0) :
    ⌊10 ^ 9 / mkvFps fps ntsc exact60⌋ = refPeriod ntsc exact60 fps ↔ ntsc = true := by
  have hgap := period_gap (toNat_pos_of_ne_zero h) fps.toNat_lt
  rw [floor_mkvFps h, refPeriod, Nat.cast_inj]
  cases ntsc with
  | true => cases exact60 <;> simp
  | false =>
    simp only [Bool.false_eq_true, false_and, if_false, iff_false]
    exact hgap.ne'

end Formulas

/-! ### The source -/

/-- Whether an accepted I-frame is taken for NTSC depends on its bytes alone. -/
theorem iFrameParms_ntscTimings (mc : McParms) (s : ℕ → UInt8) (srcLen : ℕ) :
    (iFrameParms mc s srcLen).ntscTimings = decide (NtscSource s) := by
  have h1 : (iFrameParms mc s srcLen).ntscTimings =
      (guessNtsc (setAspect (setGeometry mc (subfields s)))).ntscTimings := by
    unfold iFrameParms withTimes updateTimes
    simp only
    split_ifs <;> rfl
  have h2 : (setAspect (setGeometry mc (subfields s))).vHeight = (heightOf s).toNat * 8 :=
    setAspect_size.2
  have h3 : (setAspect (setGeometry mc (subfields s))).dhavFps = fpsOf s := setAspect_dhavFps
  rw [h1, guessNtsc, h2, h3, Bool.eq_iff_iff]
  simp only [NtscSource]
  split_ifs with ha hb
  · simp [ha]
  · simp [ha, hb]
  · simp [ha, hb]

/-! ### Jitter-free runs -/

section Runs

variable {tsc : TsProc} {mcp : McParms} {p d : ℤ}

/-- Without a correction a call counts the frame and advances by one period. -/
theorem adjust_of_noCorrection (h : NoCorrection tsc p d) :
    adjust tsc p d = lastActions (updateStats tsc p d) false p d := by
  unfold adjust slowDrift
  simp only [if_neg h.notBack, if_neg h.noJump, if_neg h.noDrift, if_neg h.noSlowDrift]

/-- One jitter-free call. -/
theorem dtTsprocProcess_noCorrection (hu : Usable mcp) (hf : tsc.vFirstFrame = false)
    (hfps : mcp.dhavFps ≠ 0)
    (h : NoCorrection (tsc.sync mcp) (refPeriodOf mcp) (dhavPeriod mcp.vDhavTs tsc.vDhavTs)) :
    ∃ tsc', dtTsprocProcess tsc mcp = .ok (none, tsc') ∧ tsc'.vFirstFrame = false ∧
      (tsc'.vTimestamp : ℤ) = (tsc.vTimestamp + refPeriodOf mcp) % 2 ^ 64 := by
  refine ⟨_, dtTsprocProcess_adjust hu hf hfps, ?_, ?_⟩
  · rw [adjust_vFirstFrame]
    exact hf
  · rw [adjust_of_noCorrection h]
    simp only [lastActions, updateStats, Bool.false_eq_true, if_false]
    exact toSizeT_cast _

/-- The frames of a run have the settings of `i`. -/
def SameSettings (i : McParms) (frames : List McParms) : Prop :=
  ∀ mcp ∈ frames, Usable mcp ∧ mcp.dhavFps = i.dhavFps ∧ mcp.ntscTimings = i.ntscTimings ∧
    mcp.ntscExact60hz = i.ntscExact60hz

theorem SameSettings.refPeriodOf_eq {i : McParms} {frames : List McParms}
    (h : SameSettings i frames) (hm : mcp ∈ frames) : refPeriodOf mcp = refPeriodOf i := by
  obtain ⟨-, h1, h2, h3⟩ := h mcp hm
  rw [refPeriodOf, refPeriodOf, h1, h2, h3]

/-- A jitter-free run goes through and its clock is exact modulo `2 ^ 64`. -/
theorem tsprocRun_jitterFree {i : McParms} {frames : List McParms} (hf : tsc.vFirstFrame = false)
    (hfps : i.dhavFps ≠ 0) (hs : SameSettings i frames) (hj : JitterFree tsc frames) :
    ∃ t, tsprocRun tsc frames = .ok t ∧ t.vFirstFrame = false ∧
      (frames = [] ∧ t = tsc ∨
        (t.vTimestamp : ℤ) = (tsc.vTimestamp + frames.length * refPeriodOf i) % 2 ^ 64) := by
  induction frames using List.reverseRecOn with
  | nil => exact ⟨tsc, rfl, hf, .inl ⟨rfl, rfl⟩⟩
  | append_singleton frames mcp ih =>
    have hpre : frames <+: frames ++ [mcp] := List.prefix_append _ _
    obtain ⟨t, hrun, htf, ht⟩ := ih (fun m hm => hs m (List.mem_append_left _ hm))
      (fun pre m t h => hj pre m t (h.trans hpre))
    have hm : mcp ∈ frames ++ [mcp] := by simp
    obtain ⟨hu, hfe, -, -⟩ := hs mcp hm
    obtain ⟨t', hcall, htf', ht'⟩ := dtTsprocProcess_noCorrection hu htf (hfe ▸ hfps)
      (hj frames mcp t List.prefix_rfl hrun)
    refine ⟨t', tsprocRun_concat hrun hcall, htf', .inr ?_⟩
    · rw [ht', hs.refPeriodOf_eq hm, List.length_append, List.length_singleton, Nat.cast_add,
        Nat.cast_one, add_mul, one_mul]
      rcases ht with ⟨rfl, rfl⟩ | ht
      · simp
      · rw [ht]
        omega

/-- Steps of one size add up. -/
theorem tsprocRun_of_steps {q : ℤ} {frames : List McParms} {t : TsProc}
    (hstep : ∀ pre mcp t t', pre ++ [mcp] <+: frames → tsprocRun tsc pre = .ok t →
      tsprocRun tsc (pre ++ [mcp]) = .ok t' → (t'.vTimestamp : ℤ) = t.vTimestamp + q)
    (hrun : tsprocRun tsc frames = .ok t) :
    (t.vTimestamp : ℤ) = tsc.vTimestamp + frames.length * q := by
  induction frames using List.reverseRecOn generalizing t with
  | nil =>
    cases hrun
    simp
  | append_singleton frames mcp ih =>
    have hrun' := hrun
    rw [tsprocRun_append] at hrun'
    obtain ⟨t0, h0, -⟩ := bind_ok hrun'
    have hpre : frames <+: frames ++ [mcp] := List.prefix_append _ _
    have hi := ih (fun pre m a b h => hstep pre m a b (h.trans hpre)) h0
    rw [hstep frames mcp t0 t List.prefix_rfl h0 hrun, hi, List.length_append, List.length_singleton,
      Nat.cast_add, Nat.cast_one]
    ring

/-- A whole number of periods rounded down is close to the exact time. -/
theorem close_of_floor (x : ℚ) (k : ℕ) : |(k * (⌊x⌋ : ℚ)) - k * x| ≤ k := by
  have h1 := Int.floor_le x
  have h2 := (Int.lt_floor_add_one x).le
  have hk : (0 : ℚ) ≤ k := Nat.cast_nonneg k
  rw [← mul_sub, abs_mul, abs_of_nonneg hk]
  refine mul_le_of_le_one_right hk (abs_le.mpr ⟨?_, ?_⟩) <;> linarith

theorem JitterFree.of_prefix {pre frames : List McParms} (h : JitterFree tsc frames)
    (hpre : pre <+: frames) : JitterFree tsc pre :=
  fun a m t ha => h a m t (ha.trans hpre)

theorem SameSettings.of_prefix {i : McParms} {pre frames : List McParms} (h : SameSettings i frames)
    (hpre : pre <+: frames) : SameSettings i pre :=
  fun m hm => h m (hpre.subset hm)

/-- Without an overflow the time is a multiple of the reference period. -/
theorem tsprocRun_exact {i : McParms} {frames : List McParms} (hf : tsc.vFirstFrame = false)
    (hfps : i.dhavFps ≠ 0) (hs : SameSettings i frames) (hj : JitterFree tsc frames)
    (hfits : tsc.vTimestamp + frames.length * refPeriodOf i < 2 ^ 64) {pre : List McParms}
    {t : TsProc} (hpre : pre <+: frames) (hrun : tsprocRun tsc pre = .ok t) :
    (t.vTimestamp : ℤ) = tsc.vTimestamp + pre.length * refPeriodOf i := by
  have hp := refPeriodOf_bounds hfps
  obtain ⟨t', hrun', -, ht⟩ := tsprocRun_jitterFree hf hfps (hs.of_prefix hpre) (hj.of_prefix hpre)
  obtain rfl : t' = t := Except.ok.inj (hrun'.symm.trans hrun)
  rcases ht with ⟨rfl, rfl⟩ | ht
  · simp
  · have hle : (pre.length : ℤ) * refPeriodOf i ≤ frames.length * refPeriodOf i :=
      mul_le_mul_of_nonneg_right (by exact_mod_cast hpre.length_le) hp.1.le
    have hnn : (0 : ℤ) ≤ pre.length * refPeriodOf i :=
      mul_nonneg (Nat.cast_nonneg _) hp.1.le
    rw [ht]
    exact Int.emod_eq_of_lt (by omega) (by omega)

/-- The first frame shows the two periods. -/
theorem period_of_clocksAgree {i : McParms} {frames : List McParms} (hf : tsc.vFirstFrame = false)
    (hfps : i.dhavFps ≠ 0) (hs : SameSettings i frames) (hj : JitterFree tsc frames)
    (hne : frames ≠ [])
    (h : ClocksAgree (mkvFps i.dhavFps i.ntscTimings i.ntscExact60hz) tsc frames) :
    ⌊10 ^ 9 / mkvFps i.dhavFps i.ntscTimings i.ntscExact60hz⌋ = refPeriodOf i := by
  have hp := refPeriodOf_bounds hfps
  have hq := @floor_mkvFps_bounds i.dhavFps i.ntscTimings i.ntscExact60hz hfps
  have hfirst : frames.take 1 <+: frames := List.take_prefix _ _
  have hlen : (frames.take 1).length = 1 := by
    rw [List.length_take]
    have := List.length_pos_iff.mpr hne
    omega
  obtain ⟨t1, hrun1, -, ⟨h0, -⟩ | ht1⟩ :=
    tsprocRun_jitterFree hf hfps (hs.of_prefix hfirst) (hj.of_prefix hfirst)
  · simp [h0] at hlen
  have hsum1 := tsprocRun_of_steps (fun a m t t' ha => h.step a m t t' (ha.trans hfirst)) hrun1
  rw [hlen, Nat.cast_one, one_mul] at ht1 hsum1
  omega

/-- The clocks agree in a jitter-free run exactly when the formulas do and the time fits. -/
theorem clocksAgree_iff {i : McParms} {frames : List McParms} (hf : tsc.vFirstFrame = false)
    (hfps : i.dhavFps ≠ 0) (hs : SameSettings i frames) (hj : JitterFree tsc frames)
    (hne : frames ≠ []) :
    ClocksAgree (mkvFps i.dhavFps i.ntscTimings i.ntscExact60hz) tsc frames ↔
      i.ntscTimings = true ∧ tsc.vTimestamp + frames.length * refPeriodOf i < 2 ^ 64 := by
  have hfloor : ⌊10 ^ 9 / mkvFps i.dhavFps i.ntscTimings i.ntscExact60hz⌋ = refPeriodOf i ↔
      i.ntscTimings = true := floor_mkvFps_eq_iff hfps
  constructor
  · intro h
    have heq := period_of_clocksAgree hf hfps hs hj hne h
    refine ⟨hfloor.mp heq, ?_⟩
    -- the whole run shows that there is no overflow
    obtain ⟨t, hrun, -, ⟨h0, -⟩ | ht⟩ := tsprocRun_jitterFree hf hfps hs hj
    · exact absurd h0 hne
    have hsum := tsprocRun_of_steps h.step hrun
    rw [heq] at hsum
    rw [← hsum, ht]
    exact Int.emod_lt_of_pos _ (by norm_num)
  · rintro ⟨hn, hfits⟩
    have heq := hfloor.mpr hn
    have hexact : ∀ pre t, pre <+: frames → tsprocRun tsc pre = .ok t →
        (t.vTimestamp : ℤ) = tsc.vTimestamp + pre.length * refPeriodOf i :=
      fun pre t hpre hrun => tsprocRun_exact hf hfps hs hj hfits hpre hrun
    refine ⟨fun pre mcp t t' hpre hrun hrun' => ?_, fun pre t hpre hrun => ?_⟩
    · rw [hexact _ _ hpre hrun', hexact _ _ ((List.prefix_append _ _).trans hpre) hrun, heq,
        List.length_append, List.length_singleton, Nat.cast_add, Nat.cast_one]
      ring
    · have hx := hexact pre t hpre hrun
      rw [← heq] at hx
      have hxq : (t.vTimestamp : ℚ) = tsc.vTimestamp + pre.length *
          (⌊10 ^ 9 / mkvFps i.dhavFps i.ntscTimings i.ntscExact60hz⌋ : ℚ) := by exact_mod_cast hx
      rw [hxq, add_sub_cancel_left]
      exact close_of_floor _ _

end Runs

instance (tsc : TsProc) (p d : ℤ) : Decidable (NoCorrection tsc p d) :=
  decidable_of_iff (_ ∧ _ ∧ _ ∧ _)
    ⟨fun ⟨h1, h2, h3, h4⟩ => ⟨h1, h2, h3, h4⟩, fun ⟨h1, h2, h3, h4⟩ => ⟨h1, h2, h3, h4⟩⟩

/-- A run is free of corrections when its first frame is and what follows it is. -/
theorem jitterFree_cons {tsc : TsProc} {mcp : McParms} {frames : List McParms} :
    JitterFree tsc (mcp :: frames) ↔
      NoCorrection (tsc.sync mcp) (refPeriodOf mcp) (dhavPeriod mcp.vDhavTs tsc.vDhavTs) ∧
        ∀ r t, dtTsprocProcess tsc mcp = .ok (r, t) → JitterFree t frames := by
  constructor
  · intro h
    refine ⟨h [] mcp tsc (by simp) rfl, fun r t ht pre m t' hpre hrun => ?_⟩
    exact h (mcp :: pre) m t' (by simpa using hpre) (by rw [tsprocRun_cons pre ht, hrun])
  · rintro ⟨hfirst, hmore⟩ pre m t hpre hrun
    cases pre with
    | nil =>
      obtain ⟨rfl, -⟩ := List.cons_prefix_cons.mp hpre
      cases hrun
      exact hfirst
    | cons x pre =>
      obtain ⟨rfl, hpre'⟩ : x = mcp ∧ pre ++ [m] <+: frames := by simpa using hpre
      rw [tsprocRun] at hrun
      obtain ⟨⟨r, t'⟩, ht, hrun⟩ := bind_ok hrun
      exact hmore r t' ht pre m t hpre' hrun

theorem jitterFree_nil (tsc : TsProc) : JitterFree tsc [] := by
  intro pre mcp t hpre
  simp at hpre

theorem jitterFree_cons_of_ok {tsc t : TsProc} {mcp : McParms} {frames : List McParms} {r : Option ℤ}
    (h : dtTsprocProcess tsc mcp = .ok (r, t)) :
    JitterFree tsc (mcp :: frames) ↔
      NoCorrection (tsc.sync mcp) (refPeriodOf mcp) (dhavPeriod mcp.vDhavTs tsc.vDhavTs) ∧
        JitterFree t frames := by
  refine jitterFree_cons.trans (and_congr_right' ⟨fun hall => hall r t h, fun ht r' t' h' => ?_⟩)
  cases h.symm.trans h'
  exact ht

theorem jitterFree_cons_of_error {tsc : TsProc} {mcp : McParms} {frames : List McParms} {e : Fault}
    (h : dtTsprocProcess tsc mcp = .error e) :
    JitterFree tsc (mcp :: frames) ↔
      NoCorrection (tsc.sync mcp) (refPeriodOf mcp) (dhavPeriod mcp.vDhavTs tsc.vDhavTs) := by
  refine jitterFree_cons.trans ⟨And.left, fun hn => ⟨hn, fun r t h' => ?_⟩⟩
  cases h.symm.trans h'

instance decidableJitterFree :
    (tsc : TsProc) → (frames : List McParms) → Decidable (JitterFree tsc frames)
  | tsc, [] => .isTrue (jitterFree_nil tsc)
  | tsc, mcp :: frames =>
    match h : dtTsprocProcess tsc mcp with
    | .error _ => decidable_of_iff _ (jitterFree_cons_of_error h).symm
    | .ok (_, t) =>
      have := decidableJitterFree t frames
      decidable_of_iff _ (jitterFree_cons_of_ok h).symm

/-! ### From the I-frame -/

/-- **The two clocks of a file agree exactly for sources taken for NTSC, while the time fits in
64 bits.** -/
theorem clocks_agree_iff {src : Mem} {s : ℕ → UInt8} {srcLen : ℕ} {mc i : McParms} {tsc : TsProc}
    {frames : List McParms} (hthere : HeaderThere src s) (hlen : srcLen ≠ 0) (hfd : s 4 = 0xfd)
    (hfps : fpsOf s ≠ 0) (hheight : heightOf s ≠ 0)
    (hi : dtCollectDhavFrameInfo mc src srcLen = .ok (0, i)) (hf : tsc.vFirstFrame = false)
    (hne : frames ≠ []) (hs : SameSettings i frames) (hj : JitterFree tsc frames) :
    ClocksAgree (mkvFps i.dhavFps i.ntscTimings i.ntscExact60hz) tsc frames ↔
      NtscSource s ∧ tsc.vTimestamp + frames.length * refPeriodOf i < 2 ^ 64 := by
  rw [collect_fd hthere hlen hfd, if_neg hfps, if_neg hheight] at hi
  obtain rfl : iFrameParms { mc with frameType := .undefined } s srcLen = i := by
    injection hi with hi
    exact (Prod.mk.inj hi).2
  rw [clocksAgree_iff hf (by rwa [iFrameParms_dhavFps]) hs hj hne, iFrameParms_ntscTimings,
    decide_eq_true_iff]

/-- The parameters after the I-frame with the subfields of `ext`. -/
def iFrameOf (ext : List UInt8) : McParms :=
  iFrameParms { mcInit default false with frameType := .undefined } (ofList (iFrame ext))
    (iFrame ext).length

/-- The P-frame that follows it `ts` msec later. -/
def frameAfter (ext : List UInt8) (ts : ℕ) : McParms :=
  { iFrameOf ext with frameType := .videoFrame, vDhavTs := ts }

/-- An I-frame in a buffer of its length. -/
theorem headerThere_iFrame {ext : List UInt8}
    (h : dhavBodyOffset (ofList (iFrame ext) 22) ≤ (iFrame ext).length) :
    HeaderThere (.ofFrame (iFrame ext)) (ofList (iFrame ext)) :=
  fun _ hi => Mem.ofFrame_of_lt (lt_of_lt_of_le hi h)

theorem collect_iFrame {ext : List UInt8}
    (h : dhavBodyOffset (ofList (iFrame ext) 22) ≤ (iFrame ext).length)
    (hfps : fpsOf (ofList (iFrame ext)) ≠ 0) (hheight : heightOf (ofList (iFrame ext)) ≠ 0) :
    dtCollectDhavFrameInfo (mcInit default false) (.ofFrame (iFrame ext)) (iFrame ext).length =
      .ok (0, iFrameOf ext) := by
  rw [collect_fd (headerThere_iFrame h) (by simp [iFrame]) rfl, if_neg hfps, if_neg hheight]
  rfl

/-- 704x480 at 30 frames per second. -/
def ntscSubfields : List UInt8 := [0x80, 0, 88, 60, 0x81, 0, 1, 30]

/-- The P-frames of the first tenth of a second. -/
def ntscFrames : List McParms := [33, 67, 100].map (frameAfter ntscSubfields)

theorem clocks_agree_iff_ntsc :
    ClocksAgree (mkvFps (iFrameOf ntscSubfields).dhavFps (iFrameOf ntscSubfields).ntscTimings
        (iFrameOf ntscSubfields).ntscExact60hz) default ntscFrames := by
  have hlen : dhavBodyOffset (ofList (iFrame ntscSubfields) 22) ≤ (iFrame ntscSubfields).length := by
    decide +kernel
  have hfps : fpsOf (ofList (iFrame ntscSubfields)) ≠ 0 := by decide +kernel
  have hheight : heightOf (ofList (iFrame ntscSubfields)) ≠ 0 := by decide +kernel
  have hsame : SameSettings (iFrameOf ntscSubfields) ntscFrames := by
    unfold SameSettings
    decide +kernel
  have hfree : JitterFree default ntscFrames := by decide +kernel
  have hf : (default : TsProc).vFirstFrame = false := rfl
  exact (clocks_agree_iff (headerThere_iFrame hlen) (by simp [iFrame]) rfl hfps hheight
    (collect_iFrame hlen hfps hheight) hf (by decide) hsame hfree).mpr
    ⟨by decide +kernel, by decide +kernel⟩

/-- A PAL recording: 25 frames per second, but the header has 1000/1001 of that. -/
theorem pal_clocks_differ :
    ∃ (src : Mem) (s : ℕ → UInt8) (srcLen : ℕ) (mc i : McParms) (tsc : TsProc)
      (frames : List McParms),
      HeaderThere src s ∧ srcLen ≠ 0 ∧ s 4 = 0xfd ∧ fpsOf s ≠ 0 ∧ heightOf s ≠ 0 ∧
      dtCollectDhavFrameInfo mc src srcLen = .ok (0, i) ∧ tsc.vFirstFrame = false ∧
      SameSettings i frames ∧ JitterFree tsc frames ∧
      ¬ ClocksAgree (mkvFps i.dhavFps i.ntscTimings i.ntscExact60hz) tsc frames := by
  have hlen : dhavBodyOffset (ofList (iFrame palSubfields) 22) ≤ (iFrame palSubfields).length := by
    decide +kernel
  have hfps : fpsOf (ofList (iFrame palSubfields)) ≠ 0 := by decide +kernel
  have hheight : heightOf (ofList (iFrame palSubfields)) ≠ 0 := by decide +kernel
  have hsame : SameSettings (iFrameOf palSubfields) [frameAfter palSubfields 40] := by
    intro m hm
    obtain rfl := List.mem_singleton.mp hm
    decide +kernel
  have hfree : JitterFree default [frameAfter palSubfields 40] := by decide +kernel
  refine ⟨.ofFrame (iFrame palSubfields), ofList (iFrame palSubfields), (iFrame palSubfields).length,
    mcInit default false, iFrameOf palSubfields, default, [frameAfter palSubfields 40],
    headerThere_iFrame hlen, by decide, by decide, hfps, hheight, collect_iFrame hlen hfps hheight,
    rfl, hsame, hfree, fun h => ?_⟩
  -- 40 msec in the Clusters, 40.04 msec in the header
  rw [clocksAgree_iff rfl hfps hsame hfree (by simp)] at h
  exact absurd h.1 (by decide +kernel)

end TaniDVR
