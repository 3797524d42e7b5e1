import TaniDVR.McParms
import TaniDVR.Lib.PhaseLock

/-!
# TsProc — the timestamp corrector of `mctools.c`

`dtTsprocProcess` is `dt_tsproc_process` with its 64-bit arithmetic.  `adjust_move` shows that from
the second frame on a call is one `Clocks.Move` of `Lib.PhaseLock` on exact clocks, and
`clock_locked` that the corrected clock stays locked to the DVR's.
-/

namespace TaniDVR

open Lib

/-- Conversion to `int64_t`. -/
def toInt64 (x : ℤ) : ℤ := Int.bmod x (2 ^ 64)

/-- `(x >= 0) ? x : (0 - x)` on `int64_t`. -/
def absInt64 (x : ℤ) : ℤ := if 0 ≤ x then x else toInt64 (0 - x)

/-- `t_mc_tsproc`. -/
structure TsProc where
  vFirstFrame : Bool
  vDhavTimestamp : ℕ
  vTimestamp : ℕ
  sdcTDhav : ℤ
  sdcTRef : ℤ
  sdcTEff : ℤ
  sdcTFrames : ℤ
  vDhavTs : ℕ
  vDhavTsPrev : ℕ
  dhavEpoch : ℕ
  dhavEpochPrev : ℕ
  deriving Inhabited

/-- `dt_tsproc_init`: all but `v_first_frame` is what `malloc` left. -/
def dtTsprocInit (heap : TsProc) : TsProc := { heap with vFirstFrame := true }

/-- `TIMESTAMP_JITTER_DAMPING_LIMIT`. -/
def timestampJitterDampingLimit : ℤ := 4

/-- `SLOW_DRIFT_EVAL_MIN_SAMPLES`. -/
def slowDriftEvalMinSamples : ℤ := 1000

/-- `EPOCH_MAX_FORWARD_JUMP`. -/
def epochMaxForwardJump : ℕ := 30

/-- `MAX_EPOCH_PEDANTRY_TOWARDS_TIMESTAMP`. -/
def maxEpochPedantryTowardsTimestamp : ℕ := 5

/-- `ref_period`, in nsec. -/
def refPeriod (ntscTimings ntscExact60hz : Bool) (dhavFps : UInt8) : ℤ :=
  ((if ntscTimings = true ∧ ntscExact60hz = false then 1001000000 else 1000000000) /
    dhavFps.toNat : ℕ)

/-- `last_actions:`. -/
def lastActions (tsc : TsProc) (pResetSf : Bool) (periodToUse dhavPeriod : ℤ) : TsProc :=
  let tsc := if pResetSf then { tsc with sdcTDhav := 0, sdcTRef := 0, sdcTEff := 0, sdcTFrames := 0 }
    else tsc
  { tsc with
    vTimestamp := toSizeT (tsc.vTimestamp + periodToUse)
    vDhavTimestamp := toSizeT (tsc.vDhavTimestamp + dhavPeriod) }

/-- "update stats". -/
def updateStats (tsc : TsProc) (refPeriod dhavPeriod : ℤ) : TsProc :=
  { tsc with
    sdcTDhav := toInt64 (tsc.sdcTDhav + dhavPeriod)
    sdcTRef := toInt64 (tsc.sdcTRef + refPeriod)
    sdcTEff := toInt64 (tsc.sdcTEff + refPeriod)
    sdcTFrames := toInt64 (tsc.sdcTFrames + 1) }

/-- "timestamp slow drift detection", after the statistics are updated. -/
def slowDrift (tsc : TsProc) (refPeriod dhavPeriod : ℤ) : TsProc :=
  let totPeriodDiffEff := toInt64 (tsc.sdcTDhav - tsc.sdcTEff)
  if absInt64 totPeriodDiffEff > refPeriod * 2 ∧ tsc.sdcTFrames ≥ slowDriftEvalMinSamples then
    let j := totPeriodDiffEff.tdiv refPeriod
    if absInt64 j > 2 then lastActions tsc true (toInt64 (refPeriod + j * refPeriod)) dhavPeriod
    else
      let periodToUse := refPeriod + 1 * refPeriod
      lastActions { tsc with sdcTEff := toInt64 (tsc.sdcTEff + periodToUse - refPeriod) } false
        periodToUse dhavPeriod
  else lastActions tsc false refPeriod dhavPeriod

/-- What `dt_tsproc_process` does from the second frame on, once `tsc` has the frame's data. -/
def adjust (tsc : TsProc) (refPeriod dhavPeriod : ℤ) : TsProc :=
  let dhavEpochDiff := toSizeT ((tsc.dhavEpoch : ℤ) - tsc.dhavEpochPrev)
  let resynced := { tsc with vDhavTimestamp := tsc.vTimestamp }
  if tsc.dhavEpoch < tsc.dhavEpochPrev then lastActions resynced true refPeriod refPeriod
  else if dhavEpochDiff > epochMaxForwardJump then
    if dhavEpochDiff > maxEpochPedantryTowardsTimestamp then
      lastActions resynced true refPeriod refPeriod
    else
      let j : ℤ := (dhavEpochDiff * 1000000000 : ℕ) / refPeriod
      lastActions resynced true ((j + 1) * refPeriod) ((j + 1) * refPeriod)
  else
    let timestampDrift :=
      toInt64 (((tsc.vDhavTimestamp : ℤ) + dhavPeriod) - (tsc.vTimestamp + refPeriod))
    if absInt64 timestampDrift > timestampJitterDampingLimit * refPeriod then
      let j := timestampDrift.tdiv refPeriod
      lastActions tsc true (toInt64 (refPeriod + j * refPeriod)) dhavPeriod
    else slowDrift (updateStats tsc refPeriod dhavPeriod) refPeriod dhavPeriod

/-- `dhav_period`, in nsec. -/
def dhavPeriod (dhavTsCur dhavTsPrev : ℕ) : ℤ :=
  (((dhavTsCur : ℤ) - dhavTsPrev) % 2 ^ 16) * 1000000

/-- `dt_tsproc_process`; no value is returned at its end. -/
def dtTsprocProcess (tsc : TsProc) (mcp : McParms) : Except Fault (Option ℤ × TsProc) :=
  if mcp.frameType ≠ .videoIFrame ∧ mcp.frameType ≠ .videoFrame then .ok (some 2, tsc)
  else if mcp.hasVParms = false then .ok (some 1, tsc)
  else if tsc.vFirstFrame = true then
    .ok (some 0,
      { tsc with
        vFirstFrame := false
        vDhavTimestamp := 0
        vTimestamp := 0
        sdcTDhav := 0
        sdcTRef := 0
        sdcTEff := 0
        sdcTFrames := 0
        dhavEpoch := mcp.dhavEpoch
        vDhavTs := mcp.vDhavTs })
  else
    let tsc :=
      { tsc with
        dhavEpochPrev := tsc.dhavEpoch
        dhavEpoch := mcp.dhavEpoch
        vDhavTsPrev := tsc.vDhavTs
        vDhavTs := mcp.vDhavTs }
    if mcp.dhavFps = 0 then .error .divZero
    else .ok (none, adjust tsc (refPeriod mcp.ntscTimings mcp.ntscExact60hz mcp.dhavFps)
      (dhavPeriod tsc.vDhavTs tsc.vDhavTsPrev))

/-! ### 64-bit arithmetic -/

theorem toSizeT_cast (x : ℤ) : (toSizeT x : ℤ) = x % 2 ^ 64 := by
  unfold toSizeT
  omega

theorem toInt64_emod (x : ℤ) : toInt64 x % 2 ^ 64 = x % 2 ^ 64 := by
  unfold toInt64
  rw [Int.bmod_def]
  omega

theorem toInt64_eq {x y : ℤ} (h : x % 2 ^ 64 = y % 2 ^ 64) (hy : -2 ^ 63 < y ∧ y < 2 ^ 63) :
    toInt64 x = y := by
  unfold toInt64
  rw [Int.bmod_def]
  omega

theorem absInt64_eq {x : ℤ} (hx : -2 ^ 63 < x ∧ x < 2 ^ 63) : absInt64 x = |x| := by
  unfold absInt64
  split_ifs with h
  · exact (abs_of_nonneg h).symm
  · rw [abs_of_neg (by omega), toInt64_eq (y := -x) (by omega) (by omega)]

theorem dhavPeriod_bounds (cur prev : ℕ) :
    0 ≤ dhavPeriod cur prev ∧ dhavPeriod cur prev < 2 ^ 36 := by
  unfold dhavPeriod
  omega

theorem refPeriod_bounds (ntsc exact : Bool) {fps : UInt8} (h : fps ≠ 0) :
    0 < refPeriod ntsc exact fps ∧ refPeriod ntsc exact fps < 2 ^ 30 := by
  have hlt := fps.toNat_lt
  have hpos := toNat_pos_of_ne_zero h
  unfold refPeriod
  split_ifs
  all_goals
    refine ⟨by exact_mod_cast Nat.div_pos (by omega) hpos, ?_⟩
    have := Nat.div_le_self 1001000000 fps.toNat
    have := Nat.div_le_self 1000000000 fps.toNat
    omega

/-! ### The exact clocks -/

/-- `tsc` holds the clocks `c` modulo `2 ^ 64`. -/
structure Tracks (tsc : TsProc) (c : Clocks) : Prop where
  source : (tsc.vDhavTimestamp : ℤ) = c.source % 2 ^ 64
  output : (tsc.vTimestamp : ℤ) = c.output % 2 ^ 64
  sourceSum : tsc.sdcTDhav % 2 ^ 64 = c.sourceSum % 2 ^ 64
  outputSum : tsc.sdcTEff % 2 ^ 64 = c.outputSum % 2 ^ 64

variable {tsc : TsProc} {c : Clocks} {p d : ℤ}

/-- `timestamp_drift`. -/
def timestampDrift (tsc : TsProc) (p d : ℤ) : ℤ :=
  toInt64 (((tsc.vDhavTimestamp : ℤ) + d) - (tsc.vTimestamp + p))

/-- `tot_period_diff_eff`, after the statistics are updated. -/
def totPeriodDiffEff (tsc : TsProc) (p d : ℤ) : ℤ :=
  toInt64 ((updateStats tsc p d).sdcTDhav - (updateStats tsc p d).sdcTEff)

/-- The slow-drift correction takes the clock back. -/
def SlowStepsBack (tsc : TsProc) (p d : ℤ) : Prop :=
  slowDriftEvalMinSamples ≤ (updateStats tsc p d).sdcTFrames ∧ totPeriodDiffEff tsc p d ≤ -3 * p

/-- **A correction takes the clock back**: without a jump of the epoch, the DVR clock is more than
four frames behind, or three or more in the statistics of at least 1000 frames. -/
structure StepsBack (tsc : TsProc) (p d : ℤ) : Prop where
  epochNotBack : ¬ tsc.dhavEpoch < tsc.dhavEpochPrev
  epochNoJump : ¬ toSizeT ((tsc.dhavEpoch : ℤ) - tsc.dhavEpochPrev) > epochMaxForwardJump
  behind : timestampDrift tsc p d < -timestampJitterDampingLimit * p ∨
    |timestampDrift tsc p d| ≤ timestampJitterDampingLimit * p ∧ SlowStepsBack tsc p d

theorem Tracks.resync (h : Tracks tsc c) :
    Tracks (lastActions { tsc with vDhavTimestamp := tsc.vTimestamp } true p p)
      ⟨c.output + p, c.output + p, 0, 0⟩ := by
  have ho := h.output
  constructor <;> simp only [lastActions, if_true, toSizeT_cast] <;> omega

theorem Tracks.correct (h : Tracks tsc c) (k : ℤ) :
    Tracks (lastActions tsc true (toInt64 (p + k * p)) d) (c.correct p d k) := by
  have hs := h.source
  have ho := h.output
  have hk := toInt64_emod (p + k * p)
  constructor <;> simp only [lastActions, if_true, toSizeT_cast, Clocks.correct] <;> omega

/-- A frame that is not corrected. -/
theorem Tracks.tick (h : Tracks tsc c) :
    Tracks (lastActions (updateStats tsc p d) false p d) (c.tick p d) := by
  have hs := h.source
  have ho := h.output
  have hss := h.sourceSum
  have hos := h.outputSum
  have hd := toInt64_emod (tsc.sdcTDhav + d)
  have he := toInt64_emod (tsc.sdcTEff + p)
  constructor <;>
    simp only [lastActions, updateStats, Clocks.tick, toSizeT_cast, Bool.false_eq_true, if_false] <;>
    omega

/-- `timestamp_drift` is the gap of the exact clocks. -/
theorem Tracks.timestampDrift_eq (h : Tracks tsc c) (hgap : |(c.tick p d).gap| < 2 ^ 62) :
    timestampDrift tsc p d = (c.tick p d).gap := by
  have hs := h.source
  have ho := h.output
  have hg : (c.tick p d).gap = (c.source + d) - (c.output + p) := rfl
  have hb := abs_lt.mp hgap
  exact toInt64_eq (by omega) (by omega)

/-- `tot_period_diff_eff` is their lag. -/
theorem Tracks.totPeriodDiffEff_eq (h : Tracks tsc c) (hlag : |(c.tick p d).lag| < 2 ^ 62) :
    totPeriodDiffEff tsc p d = (c.tick p d).lag := by
  have hss := h.sourceSum
  have hos := h.outputSum
  have hd := toInt64_emod (tsc.sdcTDhav + d)
  have he := toInt64_emod (tsc.sdcTEff + p)
  have hl : (c.tick p d).lag = (c.sourceSum + d) - (c.outputSum + p) := rfl
  have hb := abs_lt.mp hlag
  refine toInt64_eq ?_ (by omega)
  simp only [updateStats]
  omega

theorem abs_tdiv_le (x p : ℤ) : |x.tdiv p| ≤ |x| := by
  rw [Int.abs_eq_natAbs, Int.abs_eq_natAbs]
  exact_mod_cast Int.natAbs_tdiv_le_natAbs x p

/-- Slow drift is a tick, a slip or a settling of the exact clocks. -/
theorem Tracks.slowDrift (hp : 0 < p) (h : Tracks tsc c)
    (hlag : |(c.tick p d).lag| < 2 ^ 62) (hgap : |(c.tick p d).gap| ≤ (2 + 2) * p) :
    ∃ c', Clocks.Move p 2 d c c' ∧ Tracks (slowDrift (updateStats tsc p d) p d) c' ∧
      Clocks.Steps p (SlowStepsBack tsc p d) c c' := by
  have hs := h.source
  have ho := h.output
  have hss := h.sourceSum
  have hos := h.outputSum
  have hd' := toInt64_emod (tsc.sdcTDhav + d)
  have he' := toInt64_emod (tsc.sdcTEff + p)
  have hb := abs_lt.mp hlag
  have hjb := abs_lt.mp (lt_of_le_of_lt (abs_tdiv_le (c.tick p d).lag p) hlag)
  have htot : toInt64 ((updateStats tsc p d).sdcTDhav - (updateStats tsc p d).sdcTEff) =
      (c.tick p d).lag := h.totPeriodDiffEff_eq hlag
  have habs : absInt64 ((c.tick p d).lag.tdiv p) = |(c.tick p d).lag.tdiv p| :=
    absInt64_eq (by omega)
  have hback : SlowStepsBack tsc p d ↔ slowDriftEvalMinSamples ≤ (updateStats tsc p d).sdcTFrames ∧
      (c.tick p d).lag.tdiv p ≤ -3 := by
    rw [SlowStepsBack, totPeriodDiffEff, htot, Clocks.tdiv_le_neg_iff hp (by decide)]
  unfold TaniDVR.slowDrift
  simp only [htot, habs]
  split_ifs with hbig hj
  · refine ⟨_, .settle hgap hj, h.correct _, fun hb => ?_, fun hb => ?_⟩
    · exact Clocks.correct_back hp (by linarith [(hback.mp hb).2])
    · refine Clocks.correct_forth hp ?_
      rw [hback] at hb
      rcases lt_abs.mp hj with hj | hj
      · omega
      · exact absurd ⟨hbig.2, by omega⟩ hb
  · refine ⟨_, .slip hgap (not_lt.mp hj), ?_, fun hb => ?_, fun _ => ?_⟩
    · have he2 := toInt64_emod ((updateStats tsc p d).sdcTEff + (p + 1 * p) - p)
      simp only [updateStats] at he2
      constructor <;>
        simp only [lastActions, updateStats, Clocks.slip, toSizeT_cast, Bool.false_eq_true, if_false] <;>
        omega
    · have := (abs_le.mp (not_lt.mp hj)).1
      have := (hback.mp hb).2
      omega
    · simp only [Clocks.slip]
      omega
  · refine ⟨_, .tick hgap, h.tick, fun hb => ?_, fun _ => le_rfl⟩
    obtain ⟨hn, hle⟩ := hb
    rw [totPeriodDiffEff, htot] at hle
    refine absurd ⟨?_, hn⟩ hbig
    rw [absInt64_eq (by omega), gt_iff_lt, lt_abs]
    right
    linarith

/-- **From the second frame on a call is a move of the exact clocks**, backwards exactly where a
correction takes them back. -/
theorem Tracks.adjust {m : ℤ} (hp : 0 < p ∧ p ≤ m) (hm : m < 2 ^ 30) (hd : 0 ≤ d ∧ d < 2 ^ 36)
    (h : Tracks tsc c) (hL : c.Near m 2) :
    ∃ c', Clocks.Move p 2 d c c' ∧ Tracks (adjust tsc p d) c' ∧
      Clocks.Steps p (StepsBack tsc p d) c c' := by
  have hs := h.source
  have ho := h.output
  have hr := abs_le.mp hL.residue
  have hg := abs_lt.mp hL.close
  have hgap : (c.tick p d).gap = c.gap + d - p := by simp only [Clocks.tick, Clocks.gap]; ring
  have hlag : (c.tick p d).lag = c.lag + d - p := by simp only [Clocks.tick, Clocks.lag]; ring
  have hgd : c.gap = c.source - c.output := rfl
  have hdrift : toInt64 (((tsc.vDhavTimestamp : ℤ) + d) - (tsc.vTimestamp + p)) =
      (c.tick p d).gap := h.timestampDrift_eq (abs_lt.mpr (by omega))
  have habs : absInt64 (c.tick p d).gap = |(c.tick p d).gap| := absInt64_eq (by omega)
  have hresync : Clocks.Steps p (StepsBack tsc p d) c ⟨c.output + p, c.output + p, 0, 0⟩ ↔
      ¬ StepsBack tsc p d :=
    ⟨fun hst hb => by have := hst.backwards hb; simp only at this; omega,
      fun hb => ⟨fun h => absurd h hb, fun _ => le_rfl⟩⟩
  unfold TaniDVR.adjust
  simp only [hdrift, habs]
  by_cases hback : tsc.dhavEpoch < tsc.dhavEpochPrev
  · rw [if_pos hback]
    exact ⟨_, .resync, h.resync, hresync.mpr fun hb => hb.epochNotBack hback⟩
  rw [if_neg hback]
  by_cases hfar : toSizeT ((tsc.dhavEpoch : ℤ) - tsc.dhavEpochPrev) > epochMaxForwardJump
  · -- the branch that would use the epochs comes after a test that is always true here
    rw [if_pos hfar, if_pos (lt_trans (by decide) hfar)]
    exact ⟨_, .resync, h.resync, hresync.mpr fun hb => hb.epochNoJump hfar⟩
  rw [if_neg hfar]
  split_ifs with hjump
  · refine ⟨_, .jump hjump, h.correct _, fun hb => ?_, fun hb => ?_⟩
    · have hneg : (c.tick p d).gap < -4 * p := by
        rcases hb.behind with h4 | ⟨h4, -⟩ <;> rw [timestampDrift, hdrift] at h4
        · exact h4
        · exact absurd hjump (not_lt.mpr h4)
      have := (Clocks.tdiv_le_neg_iff hp.1 (by decide : (0 : ℤ) < 4) _).mpr hneg.le
      exact Clocks.correct_back hp.1 (by omega)
    · refine Clocks.correct_forth hp.1 ?_
      rcases lt_abs.mp hjump with h4 | h4
      · exact Int.tdiv_nonneg (lt_trans (mul_pos (by decide) hp.1) h4).le hp.1.le
      · refine absurd ⟨hback, hfar, .inl ?_⟩ hb
        rw [timestampDrift, hdrift, neg_mul]
        exact lt_neg.mp h4
  · obtain ⟨c', hm, ht, hst⟩ := h.slowDrift hp.1 (d := d) (abs_lt.mpr (by omega)) (not_lt.mp hjump)
    refine ⟨c', hm, ht, fun hb => hst.backwards ?_, fun hb => hst.forwards fun hs => hb ?_⟩
    · rcases hb.behind with h4 | ⟨-, hs⟩
      · rw [timestampDrift, hdrift, neg_mul] at h4
        exact absurd (lt_abs.mpr (.inr (lt_neg.mp h4))) hjump
      · exact hs
    · exact ⟨hback, hfar, .inr ⟨by rw [timestampDrift, hdrift]; exact not_lt.mp hjump, hs⟩⟩

/-! ### Runs -/

/-- One call for each frame. -/
def tsprocRun (tsc : TsProc) : List McParms → Except Fault TsProc
  | [] => .ok tsc
  | mcp :: frames => do
    let (_, tsc) ← dtTsprocProcess tsc mcp
    tsprocRun tsc frames

theorem tsprocRun_append (tsc : TsProc) (frames : List McParms) (mcp : McParms) :
    tsprocRun tsc (frames ++ [mcp]) = do
      let tsc ← tsprocRun tsc frames
      let (_, tsc) ← dtTsprocProcess tsc mcp
      return tsc := by
  induction frames generalizing tsc with
  | nil => rfl
  | cons m frames ih =>
    simp only [List.cons_append, tsprocRun]
    cases dtTsprocProcess tsc m with
    | error e => rfl
    | ok r => exact ih r.2

/-- The frame that comes first. -/
theorem tsprocRun_cons {mcp : McParms} {r : Option ℤ} {tsc' : TsProc} (frames : List McParms)
    (h : dtTsprocProcess tsc mcp = .ok (r, tsc')) :
    tsprocRun tsc (mcp :: frames) = tsprocRun tsc' frames := by
  rw [tsprocRun, h]
  rfl

/-- The frame that comes last. -/
theorem tsprocRun_concat {mcp : McParms} {frames : List McParms} {r : Option ℤ} {t t' : TsProc}
    (hrun : tsprocRun tsc frames = .ok t) (h : dtTsprocProcess t mcp = .ok (r, t')) :
    tsprocRun tsc (frames ++ [mcp]) = .ok t' := by
  rw [tsprocRun_append, hrun]
  simp only [bind, Except.bind, h]
  rfl

/-- Other frames change nothing. -/
theorem dtTsprocProcess_of_not_usable (tsc : TsProc) {mcp : McParms} (h : ¬ Usable mcp) :
    ∃ r, dtTsprocProcess tsc mcp = .ok (some r, tsc) := by
  unfold dtTsprocProcess
  rcases not_usable_iff.mp h with ht | ⟨ht, hv⟩
  · exact ⟨2, if_pos ht⟩
  · exact ⟨1, by rw [if_neg ht, if_pos hv]⟩

/-- The first usable frame starts both clocks at zero. -/
theorem dtTsprocProcess_first {mcp : McParms} (h : Usable mcp) (hf : tsc.vFirstFrame = true) :
    ∃ r tsc', dtTsprocProcess tsc mcp = .ok (r, tsc') ∧ tsc'.vFirstFrame = false ∧
      Tracks tsc' ⟨0, 0, 0, 0⟩ := by
  unfold dtTsprocProcess
  rw [if_neg h.video, if_neg (by simp [h.2]), if_pos hf]
  exact ⟨_, _, rfl, rfl, rfl, rfl, rfl, rfl⟩

theorem adjust_vFirstFrame (tsc : TsProc) (p d : ℤ) :
    (adjust tsc p d).vFirstFrame = tsc.vFirstFrame := by
  unfold adjust slowDrift
  simp only
  split_ifs <;> rfl

theorem lastActions_vTimestamp_lt (tsc : TsProc) (reset : Bool) (q d : ℤ) :
    (lastActions tsc reset q d).vTimestamp < 2 ^ 64 := by
  have h : ∀ x : ℤ, toSizeT x < 2 ^ 64 := by
    intro x
    unfold toSizeT
    omega
  exact h _

theorem adjust_vTimestamp_lt (tsc : TsProc) (p d : ℤ) : (adjust tsc p d).vTimestamp < 2 ^ 64 := by
  unfold adjust slowDrift
  simp only
  split_ifs <;> exact lastActions_vTimestamp_lt _ _ _ _

/-- **One call**: it divides by zero on a usable frame without a rate that is not the first, leaves
other frames alone, and keeps its clock in 64 bits. -/
theorem dtTsprocProcess_cases (tsc : TsProc) (mcp : McParms) :
    (Usable mcp ∧ tsc.vFirstFrame = false ∧ mcp.dhavFps = 0 ∧
      dtTsprocProcess tsc mcp = .error .divZero) ∨
    (¬ (Usable mcp ∧ tsc.vFirstFrame = false ∧ mcp.dhavFps = 0) ∧
      ∃ r tsc', dtTsprocProcess tsc mcp = .ok (r, tsc') ∧ (¬ Usable mcp → tsc' = tsc) ∧
        (Usable mcp → tsc'.vFirstFrame = false ∧ tsc'.vTimestamp < 2 ^ 64)) := by
  by_cases hu : Usable mcp
  swap
  · obtain ⟨r, hr⟩ := dtTsprocProcess_of_not_usable tsc hu
    exact .inr ⟨fun h => hu h.1, some r, tsc, hr, fun _ => rfl, fun h => absurd h hu⟩
  unfold dtTsprocProcess
  rw [if_neg hu.video, if_neg (by simp [hu.2])]
  cases hf : tsc.vFirstFrame with
  | true =>
    refine .inr ⟨by simp, _, _, if_pos rfl, fun h => absurd hu h, fun _ => ⟨rfl, ?_⟩⟩
    exact Nat.two_pow_pos 64
  | false =>
    simp only [Bool.false_eq_true, if_false]
    by_cases hfps : mcp.dhavFps = 0
    · exact .inl ⟨hu, trivial, hfps, if_pos hfps⟩
    · refine .inr ⟨fun h => hfps h.2.2, _, _, if_neg hfps, fun h => absurd hu h, fun _ => ⟨?_, ?_⟩⟩
      · rw [adjust_vFirstFrame]
      · exact adjust_vTimestamp_lt _ _ _

/-- "synchronizes tsc data from mcp". -/
def TsProc.sync (tsc : TsProc) (mcp : McParms) : TsProc :=
  { tsc with
    dhavEpochPrev := tsc.dhavEpoch
    dhavEpoch := mcp.dhavEpoch
    vDhavTsPrev := tsc.vDhavTs
    vDhavTs := mcp.vDhavTs }

/-- The reference period at a frame. -/
def refPeriodOf (mcp : McParms) : ℤ := refPeriod mcp.ntscTimings mcp.ntscExact60hz mcp.dhavFps

theorem refPeriodOf_bounds {mcp : McParms} (h : mcp.dhavFps ≠ 0) :
    0 < refPeriodOf mcp ∧ refPeriodOf mcp < 2 ^ 30 :=
  refPeriod_bounds mcp.ntscTimings mcp.ntscExact60hz h

/-- The clocks are the same with the data of the next frame. -/
theorem Tracks.sync (h : Tracks tsc c) (mcp : McParms) : Tracks (tsc.sync mcp) c :=
  ⟨h.source, h.output, h.sourceSum, h.outputSum⟩

/-- A later usable frame is adjusted. -/
theorem dtTsprocProcess_adjust {mcp : McParms} (h : Usable mcp) (hf : tsc.vFirstFrame = false)
    (hfps : mcp.dhavFps ≠ 0) :
    dtTsprocProcess tsc mcp =
      .ok (none, adjust (tsc.sync mcp) (refPeriodOf mcp) (dhavPeriod mcp.vDhavTs tsc.vDhavTs)) := by
  unfold dtTsprocProcess
  rw [if_neg h.video, if_neg (by simp [h.2]), if_neg (by simp [hf])]
  simp only [if_neg hfps]
  rfl

/-- It moves the clocks. -/
theorem dtTsprocProcess_later {m : ℤ} {mcp : McParms} (h : Usable mcp) (hf : tsc.vFirstFrame = false)
    (hfps : mcp.dhavFps ≠ 0) (ht : Tracks tsc c) (hpm : refPeriodOf mcp ≤ m) (hm : m < 2 ^ 30)
    (hL : c.Near m 2) :
    ∃ tsc' c', dtTsprocProcess tsc mcp = .ok (none, tsc') ∧ tsc'.vFirstFrame = false ∧
      Tracks tsc' c' ∧
      Clocks.Move (refPeriodOf mcp) 2 (dhavPeriod mcp.vDhavTs tsc.vDhavTs) c c' ∧
      Clocks.Steps (refPeriodOf mcp)
        (StepsBack (tsc.sync mcp) (refPeriodOf mcp) (dhavPeriod mcp.vDhavTs tsc.vDhavTs)) c c' := by
  have hp := refPeriodOf_bounds hfps
  have hd := dhavPeriod_bounds mcp.vDhavTs tsc.vDhavTs
  obtain ⟨c', hmv, ht', hst⟩ := (ht.sync mcp).adjust ⟨hp.1, hpm⟩ hm hd hL
  refine ⟨_, c', dtTsprocProcess_adjust h hf hfps, ?_, ht', hmv, hst⟩
  rw [adjust_vFirstFrame]
  exact hf

/-- The invariant of a run: nothing usable was seen, or the clocks are locked and exact. -/
def ClockInv (p : ℤ) (seen : Prop) (tsc : TsProc) : Prop :=
  (¬ seen ∧ tsc.vFirstFrame = true) ∨
    (seen ∧ tsc.vFirstFrame = false ∧
      ∃ c : Clocks, (tsc.vDhavTimestamp : ℤ) = c.source ∧ (tsc.vTimestamp : ℤ) = c.output ∧
        Tracks tsc c ∧ c.Locked p 2)

section Constant

variable {fps : UInt8} {ntsc exact60 : Bool}

/-- One call keeps the invariant. -/
theorem ClockInv.step {seen : Prop} {mcp : McParms} (hfps : fps ≠ 0)
    (hi : ClockInv (refPeriod ntsc exact60 fps) seen tsc)
    (hacc : seen → tsc.vTimestamp < 2 ^ 63 ∧ tsc.vDhavTimestamp < 2 ^ 63)
    (hc : Usable mcp → mcp.dhavFps = fps ∧ mcp.ntscTimings = ntsc ∧ mcp.ntscExact60hz = exact60) :
    ∃ r tsc', dtTsprocProcess tsc mcp = .ok (r, tsc') ∧
      ClockInv (refPeriod ntsc exact60 fps) (seen ∨ Usable mcp) tsc' := by
  by_cases hu : Usable mcp
  swap
  · obtain ⟨r, hr⟩ := dtTsprocProcess_of_not_usable tsc hu
    exact ⟨some r, tsc, hr, by simpa [hu] using hi⟩
  have hp := refPeriod_bounds ntsc exact60 hfps
  obtain ⟨rfl, rfl, rfl⟩ := hc hu
  rcases hi with ⟨-, hf⟩ | ⟨hs, hf, c, hsrc, hout, ht, hL⟩
  · obtain ⟨r, tsc', hr, hf', ht'⟩ := dtTsprocProcess_first hu hf
    refine ⟨r, tsc', hr, .inr ⟨.inr hu, hf', ⟨0, 0, 0, 0⟩, ?_, ?_, ht', ?_⟩⟩
    · simpa using ht'.source
    · simpa using ht'.output
    · exact Clocks.locked_zero hp.1 (by decide)
  · have hd := dhavPeriod_bounds mcp.vDhavTs tsc.vDhavTs
    have hb := hacc hs
    obtain ⟨tsc', c', hr, hf', ht', hm, -⟩ :=
      dtTsprocProcess_later hu hf hfps ht le_rfl hp.2 hL.near
    have hL' := hL.move hp.1 (by decide) hd.1 hm
    have hle := hL.near.output_bounds hp.1 le_rfl (by decide) hd.1 hm
    have h1 := hL'.source_nonneg
    have h2 := hL'.source_le
    have h3 := hL'.output_nonneg
    have h4 := hL'.output_le
    have h5 := ht'.source
    have h6 := ht'.output
    have hmax := le_max_iff.mp hm.source_le
    rw [refPeriodOf] at hmax
    exact ⟨none, tsc', hr, .inr ⟨.inl hs, hf', c', by omega, by omega, ht', hL'⟩⟩

/-- Every run keeps it. -/
theorem ClockInv.run (hfps : fps ≠ 0) (heap : TsProc) (frames : List McParms)
    (hc : ∀ mcp ∈ frames, Usable mcp →
      mcp.dhavFps = fps ∧ mcp.ntscTimings = ntsc ∧ mcp.ntscExact60hz = exact60)
    (hacc : ∀ pre tsc, pre <+: frames → (∃ mcp ∈ pre, Usable mcp) →
      tsprocRun (dtTsprocInit heap) pre = .ok tsc →
      tsc.vTimestamp < 2 ^ 63 ∧ tsc.vDhavTimestamp < 2 ^ 63) :
    ∃ tsc, tsprocRun (dtTsprocInit heap) frames = .ok tsc ∧
      ClockInv (refPeriod ntsc exact60 fps) (∃ mcp ∈ frames, Usable mcp) tsc := by
  induction frames using List.reverseRecOn with
  | nil => exact ⟨_, rfl, .inl ⟨by simp, rfl⟩⟩
  | append_singleton frames mcp ih =>
    obtain ⟨tsc, hrun, hi⟩ := ih (fun m hm => hc m (List.mem_append_left _ hm))
      (fun pre t hpre => hacc pre t (hpre.trans (List.prefix_append _ _)))
    obtain ⟨r, tsc', hr, hi'⟩ := hi.step hfps
      (fun hs => hacc frames tsc (List.prefix_append _ _) hs hrun)
      (hc mcp (by simp))
    refine ⟨tsc', tsprocRun_concat hrun hr, ?_⟩
    · have hex : (∃ m ∈ frames ++ [mcp], Usable m) ↔ (∃ m ∈ frames, Usable m) ∨ Usable mcp := by
        simp [or_and_right, exists_or]
      rwa [hex]

/-- **The corrected clock stays locked to the DVR clock and keeps its frame phase**: with constant
settings and arbitrary timestamps and epochs, while the two accumulated clocks stay below `2 ^ 63`. -/
theorem clock_locked (hfps : fps ≠ 0) (heap : TsProc) (frames : List McParms)
    (hc : ∀ mcp ∈ frames, Usable mcp →
      mcp.dhavFps = fps ∧ mcp.ntscTimings = ntsc ∧ mcp.ntscExact60hz = exact60)
    (hu : ∃ mcp ∈ frames, Usable mcp)
    (hacc : ∀ pre tsc, pre <+: frames → (∃ mcp ∈ pre, Usable mcp) →
      tsprocRun (dtTsprocInit heap) pre = .ok tsc →
      tsc.vTimestamp < 2 ^ 63 ∧ tsc.vDhavTimestamp < 2 ^ 63) :
    ∃ tsc, tsprocRun (dtTsprocInit heap) frames = .ok tsc ∧
      refPeriod ntsc exact60 fps ∣ (tsc.vTimestamp : ℤ) ∧
      |(tsc.vDhavTimestamp : ℤ) - tsc.vTimestamp| <
        (timestampJitterDampingLimit + 1) * refPeriod ntsc exact60 fps := by
  obtain ⟨tsc, hrun, ⟨hn, -⟩ | ⟨-, -, c, hsrc, hout, -, hL⟩⟩ := ClockInv.run hfps heap frames hc hacc
  · exact absurd hu hn
  · refine ⟨tsc, hrun, ?_, ?_⟩
    · rw [hout]
      exact hL.phase
    · rw [hsrc, hout]
      exact hL.close

end Constant

/-- A 25 fps PAL frame at `ts` msec. -/
def palFrame (ts : ℕ) : McParms where
  vFirstFrame := false
  ntscExact60hz := false
  frameType := .videoFrame
  hasVParms := true
  vWidth := 704
  vHeight := 576
  vAspectX := 4
  vAspectY := 3
  dhavEpoch := 1300000000
  vTimestamp := 0
  vDhavTs := ts
  ntscTimings := false
  dhavFps := 25
  vDhavTsPrev := 0
  bodyP := 24
  bodyLen := 0

theorem clock_locked_dropped_frames :
    ∃ tsc, tsprocRun (dtTsprocInit ⟨false, 7, 7, 7, 7, 7, 7, 7, 7, 7, 7⟩)
        [palFrame 65500, palFrame 4, palFrame 404] = .ok tsc ∧
      refPeriod false false 25 ∣ (tsc.vTimestamp : ℤ) ∧
      |(tsc.vDhavTimestamp : ℤ) - tsc.vTimestamp| <
        (timestampJitterDampingLimit + 1) * refPeriod false false 25 := by
  refine clock_locked (by decide) _ _ ?_ ⟨palFrame 4, by simp, by decide⟩ ?_
  · intro mcp hm _
    simp only [List.mem_cons, List.not_mem_nil, or_false] at hm
    rcases hm with rfl | rfl | rfl <;> exact ⟨rfl, rfl, rfl⟩
  · intro pre tsc hpre _ hrun
    rw [← List.mem_inits] at hpre
    simp only [List.inits, List.map, List.mem_cons, List.not_mem_nil, or_false] at hpre
    rcases hpre with rfl | rfl | rfl | rfl <;> cases hrun <;> decide

end TaniDVR
