import TaniDVR.Backwards
import TaniDVR.Jitter

/-!
# Corrections — what the corrections of `dt_tsproc_process` add to the clock

`periodToUse` is the period that a call adds to `v_timestamp`.  All statements are about any run, with
settings, timestamps and epochs that may change at every frame.

* `timestamp_exact`: `v_timestamp` is the sum of the periods, which is never negative;
* `corrections_iff`: a correction has the side and at most the size of the gap it is for, and closes
  the clocks up, unless slow drift steps forward where the DVR clock is less than three periods behind
  (`Slips`), or the clocks themselves are not apart as their statistics say (`Overshoots`), which
  constant settings exclude (`not_overshoots_of_sameSettings`).
-/

namespace TaniDVR

open Lib

/-- `period_to_use` at `last_actions:`. -/
def periodToUse (tsc : TsProc) (p d : ℤ) : ℤ :=
  let dhavEpochDiff := toSizeT ((tsc.dhavEpoch : ℤ) - tsc.dhavEpochPrev)
  if tsc.dhavEpoch < tsc.dhavEpochPrev then p
  else if dhavEpochDiff > epochMaxForwardJump then
    if dhavEpochDiff > maxEpochPedantryTowardsTimestamp then p
    else ((dhavEpochDiff * 1000000000 : ℕ) / p + 1) * p
  else if absInt64 (timestampDrift tsc p d) > timestampJitterDampingLimit * p then
    toInt64 (p + (timestampDrift tsc p d).tdiv p * p)
  else if absInt64 (totPeriodDiffEff tsc p d) > p * 2 ∧
      (updateStats tsc p d).sdcTFrames ≥ slowDriftEvalMinSamples then
    if absInt64 ((totPeriodDiffEff tsc p d).tdiv p) > 2 then
      toInt64 (p + (totPeriodDiffEff tsc p d).tdiv p * p)
    else p + 1 * p
  else p

/-- The correction. -/
def correction (tsc : TsProc) (p d : ℤ) : ℤ := periodToUse tsc p d - p

/-- How far the DVR clock is ahead of the corrected one. -/
def clockGap (tsc : TsProc) : ℤ := toInt64 ((tsc.vDhavTimestamp : ℤ) - tsc.vTimestamp)

/-- The call takes the branch "Timestamp drift detected". -/
structure LargeDriftFires (tsc : TsProc) (p d : ℤ) : Prop where
  epoch : EpochSteady tsc
  drift : absInt64 (timestampDrift tsc p d) > timestampJitterDampingLimit * p

/-- The call takes the branch "Timestamp slow drift detected". -/
structure SlowDriftFires (tsc : TsProc) (p d : ℤ) : Prop where
  epoch : EpochSteady tsc
  noDrift : ¬ absInt64 (timestampDrift tsc p d) > timestampJitterDampingLimit * p
  drift : absInt64 (totPeriodDiffEff tsc p d) > p * 2
  samples : (updateStats tsc p d).sdcTFrames ≥ slowDriftEvalMinSamples

/-- The correction for `gap` has its side and at most its size, and closes the clocks up. -/
structure Corrects (tsc : TsProc) (p d gap : ℤ) : Prop where
  side : (correction tsc p d).sign = gap.sign
  size : |correction tsc p d| ≤ |gap|
  closer : |clockGap (adjust tsc p d)| < |timestampDrift tsc p d|

/-- Both corrections do so when they fire. -/
structure CorrectsGaps (tsc : TsProc) (p d : ℤ) : Prop where
  large : LargeDriftFires tsc p d → Corrects tsc p d (timestampDrift tsc p d)
  slow : SlowDriftFires tsc p d → Corrects tsc p d (totPeriodDiffEff tsc p d)

/-- Slow drift corrects forwards, with the DVR clock two periods behind: the case that the comment
"here, j == 2 always" leaves out. -/
structure Slips (tsc : TsProc) (p d : ℤ) : Prop where
  fires : SlowDriftFires tsc p d
  behind : totPeriodDiffEff tsc p d < 0
  less : -3 * p < totPeriodDiffEff tsc p d

/-- The periods that slow drift corrects for a gap, in its direction. -/
def wholePeriods (p gap : ℤ) : ℤ := if |gap| < 3 * p then 1 else gap.tdiv p

/-- Slow drift is corrected by twice the gap of the clocks themselves or more. -/
structure Overshoots (tsc : TsProc) (p d : ℤ) : Prop where
  fires : SlowDriftFires tsc p d
  short : if 0 < totPeriodDiffEff tsc p d then
      2 * timestampDrift tsc p d ≤ wholePeriods p (totPeriodDiffEff tsc p d) * p
    else wholePeriods p (totPeriodDiffEff tsc p d) * p ≤ 2 * timestampDrift tsc p d

section OneCall

variable {tsc : TsProc} {p d : ℤ}

theorem adjust_vTimestamp (tsc : TsProc) (p d : ℤ) :
    (adjust tsc p d).vTimestamp = toSizeT (tsc.vTimestamp + periodToUse tsc p d) := by
  unfold adjust slowDrift periodToUse timestampDrift totPeriodDiffEff
  simp only
  split_ifs <;> rfl

theorem EpochSteady.adjust_vDhavTimestamp (h : EpochSteady tsc) :
    (adjust tsc p d).vDhavTimestamp = toSizeT (tsc.vDhavTimestamp + d) := by
  unfold adjust slowDrift
  simp only [if_neg h.notBack, if_neg h.noJump]
  split_ifs <;> rfl

/-- The gap that a correction leaves. -/
theorem EpochSteady.clockGap_adjust (h : EpochSteady tsc)
    (hb : |timestampDrift tsc p d - correction tsc p d| < 2 ^ 63) :
    clockGap (adjust tsc p d) = timestampDrift tsc p d - correction tsc p d := by
  have hdrift := toInt64_emod (((tsc.vDhavTimestamp : ℤ) + d) - (tsc.vTimestamp + p))
  rw [← timestampDrift] at hdrift
  have hsource := toSizeT_cast (tsc.vDhavTimestamp + d)
  have houtput := toSizeT_cast (tsc.vTimestamp + periodToUse tsc p d)
  have hc : correction tsc p d = periodToUse tsc p d - p := rfl
  rw [clockGap, h.adjust_vDhavTimestamp, adjust_vTimestamp]
  exact toInt64_eq (by omega) (abs_lt.mp hb)

/-- All there is to a correction of `k` on the side of the gap. -/
theorem EpochSteady.corrects_iff {gap k : ℤ} (h : EpochSteady tsc) (hk : correction tsc p d = k)
    (hside : k.sign = gap.sign) (hsize : |k| ≤ |gap|) (hgap : |gap| < 2 ^ 62)
    (hdrift : |timestampDrift tsc p d| < 2 ^ 62) :
    Corrects tsc p d gap ↔ |timestampDrift tsc p d - k| < |timestampDrift tsc p d| := by
  have hb : |timestampDrift tsc p d - correction tsc p d| < 2 ^ 63 := by
    rw [hk]
    have := abs_sub (timestampDrift tsc p d) k
    omega
  have hleft := h.clockGap_adjust hb
  rw [hk] at hleft
  constructor
  · intro hc
    rw [← hleft]
    exact hc.closer
  · intro hlt
    exact ⟨hk ▸ hside, hk ▸ hsize, hleft ▸ hlt⟩

theorem LargeDriftFires.periodToUse_eq (h : LargeDriftFires tsc p d) :
    periodToUse tsc p d = toInt64 (p + (timestampDrift tsc p d).tdiv p * p) := by
  unfold periodToUse
  simp only [if_neg h.epoch.notBack, if_neg h.epoch.noJump, if_pos h.drift]

theorem SlowDriftFires.periodToUse_eq (h : SlowDriftFires tsc p d) :
    periodToUse tsc p d = if absInt64 ((totPeriodDiffEff tsc p d).tdiv p) > 2 then
      toInt64 (p + (totPeriodDiffEff tsc p d).tdiv p * p) else p + 1 * p := by
  unfold periodToUse
  simp only [if_neg h.epoch.notBack, if_neg h.epoch.noJump, if_neg h.noDrift,
    if_pos (And.intro h.drift h.samples)]

/-- **A large drift is corrected.** -/
theorem LargeDriftFires.corrects (h : LargeDriftFires tsc p d) (hp : 0 < p ∧ p < 2 ^ 30)
    (hdrift : |timestampDrift tsc p d| < 2 ^ 62) : Corrects tsc p d (timestampDrift tsc p d) := by
  have hfires := h.drift
  have hb := abs_lt.mp hdrift
  rw [absInt64_eq (by omega), timestampJitterDampingLimit] at hfires
  obtain ⟨hside, hsize⟩ := Clocks.tdiv_mul hp.1 (x := timestampDrift tsc p d) (by omega)
  obtain ⟨r, hx, hr, -, -⟩ := Clocks.tdiv_split hp.1 (timestampDrift tsc p d)
  have hs := abs_le.mp hsize
  have hk : correction tsc p d = (timestampDrift tsc p d).tdiv p * p := by
    rw [correction, h.periodToUse_eq, toInt64_eq rfl (by omega)]
    ring
  rw [h.epoch.corrects_iff hk hside hsize hdrift hdrift]
  -- less than a period is left
  have hleft : timestampDrift tsc p d - (timestampDrift tsc p d).tdiv p * p = r := by linarith
  rw [hleft]
  omega

/-- Three or more periods of slow drift are corrected at once. -/
theorem SlowDriftFires.corrects_far (h : SlowDriftFires tsc p d) (hp : 0 < p ∧ p < 2 ^ 30)
    (hdrift : |timestampDrift tsc p d| < 2 ^ 62) (htot : |totPeriodDiffEff tsc p d| < 2 ^ 62)
    (hfar : 3 * p ≤ |totPeriodDiffEff tsc p d|) :
    Corrects tsc p d (totPeriodDiffEff tsc p d) ↔ ¬ Overshoots tsc p d := by
  have hb := abs_lt.mp htot
  obtain ⟨hside, hsize⟩ := Clocks.tdiv_mul hp.1 (x := totPeriodDiffEff tsc p d) (by omega)
  have hj := (Clocks.le_abs_tdiv_iff hp.1 (by decide : (0 : ℤ) < 3) _).mpr hfar
  have hjb := abs_lt.mp (lt_of_le_of_lt (abs_tdiv_le (totPeriodDiffEff tsc p d) p) htot)
  have hs := abs_le.mp hsize
  have hwhole : wholePeriods p (totPeriodDiffEff tsc p d) = (totPeriodDiffEff tsc p d).tdiv p :=
    if_neg (not_lt.mpr hfar)
  have hk : correction tsc p d = (totPeriodDiffEff tsc p d).tdiv p * p := by
    rw [correction, h.periodToUse_eq, absInt64_eq (by omega), if_pos (by omega),
      toInt64_eq rfl (by omega)]
    ring
  rw [h.epoch.corrects_iff hk hside hsize htot hdrift]
  by_cases hpos : 0 < totPeriodDiffEff tsc p d
  · have hk0 := Int.sign_eq_one_iff_pos.mp (hside.trans (Int.sign_eq_one_of_pos hpos))
    rw [Clocks.abs_sub_lt_iff_of_pos hk0, ← not_le, not_iff_not]
    constructor
    · intro hle
      exact ⟨h, by rw [if_pos hpos, hwhole]; exact hle⟩
    · intro ho
      have hshort := ho.short
      rwa [if_pos hpos, hwhole] at hshort
  · have hneg : totPeriodDiffEff tsc p d < 0 := by
      rcases lt_abs.mp (lt_of_lt_of_le (by omega : 0 < 3 * p) hfar) with h0 | h0 <;> omega
    have hk0 := Int.sign_eq_neg_one_iff_neg.mp (hside.trans (Int.sign_eq_neg_one_of_neg hneg))
    rw [Clocks.abs_sub_lt_iff_of_neg hk0, ← not_le, not_iff_not]
    constructor
    · intro hle
      exact ⟨h, by rw [if_neg hpos, hwhole]; exact hle⟩
    · intro ho
      have hshort := ho.short
      rwa [if_neg hpos, hwhole] at hshort

/-- Two periods of slow drift are corrected by one, forwards. -/
theorem SlowDriftFires.corrects_near (h : SlowDriftFires tsc p d) (hp : 0 < p ∧ p < 2 ^ 30)
    (hdrift : |timestampDrift tsc p d| < 2 ^ 62) (htot : |totPeriodDiffEff tsc p d| < 2 ^ 62)
    (hnear : |totPeriodDiffEff tsc p d| < 3 * p) :
    Corrects tsc p d (totPeriodDiffEff tsc p d) ↔ ¬ Slips tsc p d ∧ ¬ Overshoots tsc p d := by
  have hb := abs_lt.mp htot
  have hn := abs_lt.mp hnear
  have hfires := h.drift
  rw [absInt64_eq (by omega)] at hfires
  have hj : |(totPeriodDiffEff tsc p d).tdiv p| < 3 := by
    rw [← not_le, Clocks.le_abs_tdiv_iff hp.1 (by decide)]
    exact not_le.mpr hnear
  have hjb := abs_lt.mp hj
  have hwhole : wholePeriods p (totPeriodDiffEff tsc p d) = 1 := if_pos hnear
  have hk : correction tsc p d = p := by
    rw [correction, h.periodToUse_eq, absInt64_eq (by omega), if_neg (by omega)]
    ring
  by_cases hpos : 0 < totPeriodDiffEff tsc p d
  · have hside : p.sign = (totPeriodDiffEff tsc p d).sign := by
      rw [Int.sign_eq_one_of_pos hp.1, Int.sign_eq_one_of_pos hpos]
    have hsize : |p| ≤ |totPeriodDiffEff tsc p d| := by
      rw [abs_of_pos hp.1]
      omega
    rw [h.epoch.corrects_iff hk hside hsize htot hdrift, Clocks.abs_sub_lt_iff_of_pos hp.1]
    constructor
    · intro hlt
      refine ⟨fun hs => lt_asymm hpos hs.behind, fun ho => ?_⟩
      have hshort := ho.short
      rw [if_pos hpos, hwhole, one_mul] at hshort
      omega
    · rintro ⟨-, ho⟩
      by_contra hle
      exact ho ⟨h, by rw [if_pos hpos, hwhole, one_mul]; exact not_lt.mp hle⟩
  · have hneg : totPeriodDiffEff tsc p d < 0 := by
      rcases lt_abs.mp (lt_of_le_of_lt (by omega : 0 ≤ p * 2) hfires) with h0 | h0 <;> omega
    refine iff_of_false ?_ ?_
    · intro hc
      have hside := hc.side
      rw [hk, Int.sign_eq_one_of_pos hp.1, Int.sign_eq_neg_one_of_neg hneg] at hside
      exact absurd hside (by decide)
    · intro hno
      exact hno.1 ⟨h, hneg, by omega⟩

/-- **One call corrects its gap exactly if it neither slips nor overshoots.** -/
theorem correctsGaps_iff (hp : 0 < p ∧ p < 2 ^ 30) (hdrift : |timestampDrift tsc p d| < 2 ^ 62)
    (htot : |totPeriodDiffEff tsc p d| < 2 ^ 62) :
    CorrectsGaps tsc p d ↔ ¬ Slips tsc p d ∧ ¬ Overshoots tsc p d := by
  have hslow : SlowDriftFires tsc p d →
      (Corrects tsc p d (totPeriodDiffEff tsc p d) ↔ ¬ Slips tsc p d ∧ ¬ Overshoots tsc p d) := by
    intro h
    by_cases hfar : 3 * p ≤ |totPeriodDiffEff tsc p d|
    · have hno : ¬ Slips tsc p d := by
        intro hs
        rw [abs_of_neg hs.behind] at hfar
        have := hs.less
        omega
      rw [h.corrects_far hp hdrift htot hfar]
      exact (and_iff_right hno).symm
    · exact h.corrects_near hp hdrift htot (not_le.mp hfar)
  constructor
  · intro hc
    exact ⟨fun hs => ((hslow hs.fires).mp (hc.slow hs.fires)).1 hs,
      fun ho => ((hslow ho.fires).mp (hc.slow ho.fires)).2 ho⟩
  · intro hno
    exact ⟨fun h => h.corrects hp hdrift, fun h => (hslow h).mpr hno⟩

end OneCall

/-! ### Runs -/

/-- The periods that a run adds to `v_timestamp`, which is zero after the first frame. -/
def periodsApplied (tsc : TsProc) : List McParms → List ℤ
  | [] => []
  | mcp :: frames =>
    match dtTsprocProcess tsc mcp with
    | .error _ => []
    | .ok (_, tsc') =>
      if Usable mcp ∧ tsc.vFirstFrame = false then
        periodToUse (tsc.sync mcp) (refPeriodOf mcp) (dhavPeriod mcp.vDhavTs tsc.vDhavTs) ::
          periodsApplied tsc' frames
      else periodsApplied tsc' frames

/-- `P` holds at every frame of a run that is adjusted. -/
def AtEveryCall (P : TsProc → ℤ → ℤ → Prop) (tsc : TsProc) (frames : List McParms) : Prop :=
  ∀ pre mcp t, pre ++ [mcp] <+: frames → tsprocRun tsc pre = .ok t → Usable mcp →
    t.vFirstFrame = false → P (t.sync mcp) (refPeriodOf mcp) (dhavPeriod mcp.vDhavTs t.vDhavTs)

/-- The clocks of a state from the second frame on. -/
structure Follows (tsc : TsProc) (c : Clocks) : Prop where
  started : tsc.vFirstFrame = false
  tracks : Tracks tsc c
  near : c.Near maxPeriod 2

section Runs

variable {tsc : TsProc} {c : Clocks} {mcp : McParms} {frames : List McParms}

theorem toInt64_bounds (x : ℤ) : -2 ^ 63 ≤ toInt64 x ∧ toInt64 x < 2 ^ 63 := by
  unfold toInt64
  rw [Int.bmod_def]
  omega

theorem periodToUse_bounds {p d : ℤ} (hp : 0 < p ∧ p < 2 ^ 30) :
    -2 ^ 63 ≤ periodToUse tsc p d ∧ periodToUse tsc p d < 2 ^ 63 := by
  unfold periodToUse
  simp only
  split_ifs with h1 h2 h3
  · omega
  · omega
  · -- a jump of the epoch is always longer than that
    exact absurd (lt_trans (by decide) h2) h3
  · exact toInt64_bounds _
  · exact toInt64_bounds _
  · omega
  · omega

/-- The gap of the clocks and of the statistics at the next frame. -/
theorem Follows.small (h : Follows tsc c) (hfps : mcp.dhavFps ≠ 0) :
    |timestampDrift (tsc.sync mcp) (refPeriodOf mcp) (dhavPeriod mcp.vDhavTs tsc.vDhavTs)| < 2 ^ 62 ∧
      |totPeriodDiffEff (tsc.sync mcp) (refPeriodOf mcp) (dhavPeriod mcp.vDhavTs tsc.vDhavTs)| <
        2 ^ 62 := by
  have ht := h.tracks.sync mcp
  have hp := refPeriodOf_bounds hfps
  have hd := dhavPeriod_bounds mcp.vDhavTs tsc.vDhavTs
  have hg := abs_lt.mp h.near.close
  have hr := abs_le.mp h.near.residue
  have hm : maxPeriod = 1001000000 := rfl
  have hgap : |(c.tick (refPeriodOf mcp) (dhavPeriod mcp.vDhavTs tsc.vDhavTs)).gap| < 2 ^ 62 := by
    rw [Clocks.gap_tick, abs_lt]
    omega
  have hlag : |(c.tick (refPeriodOf mcp) (dhavPeriod mcp.vDhavTs tsc.vDhavTs)).lag| < 2 ^ 62 := by
    rw [Clocks.lag_tick, abs_lt]
    omega
  rw [ht.timestampDrift_eq hgap, ht.totPeriodDiffEff_eq hlag]
  exact ⟨hgap, hlag⟩

/-- **One call moves the exact clock by `period_to_use`.** -/
theorem Follows.step (h : Follows tsc c) (hu : Usable mcp) (hfps : mcp.dhavFps ≠ 0) :
    ∃ tsc' c', dtTsprocProcess tsc mcp = .ok (none, tsc') ∧ Follows tsc' c' ∧
      c'.output = c.output +
        periodToUse (tsc.sync mcp) (refPeriodOf mcp) (dhavPeriod mcp.vDhavTs tsc.vDhavTs) := by
  have hp := refPeriodOf_bounds hfps
  have hpm := refPeriodOf_le mcp
  have hd := dhavPeriod_bounds mcp.vDhavTs tsc.vDhavTs
  obtain ⟨tsc', c', hcall, hf', ht', hmove, -⟩ :=
    dtTsprocProcess_later hu h.started hfps h.tracks hpm (by decide) h.near
  refine ⟨tsc', c', hcall, ⟨hf', ht', h.near.move hp.1 hpm (by decide) hd.1 hmove⟩, ?_⟩
  have hbounds := h.near.output_bounds hp.1 hpm (by decide) hd.1 hmove
  have hperiod := @periodToUse_bounds (tsc.sync mcp) _ (dhavPeriod mcp.vDhavTs tsc.vDhavTs) hp
  have hm : maxPeriod = 1001000000 := rfl
  -- the 64-bit sums agree, and neither is moved far
  have hsum : (tsc'.vTimestamp : ℤ) = (tsc.vTimestamp +
      periodToUse (tsc.sync mcp) (refPeriodOf mcp) (dhavPeriod mcp.vDhavTs tsc.vDhavTs)) % 2 ^ 64 := by
    have heq := hcall.symm.trans (dtTsprocProcess_adjust hu h.started hfps)
    obtain rfl := (Prod.mk.inj (Except.ok.inj heq)).2
    rw [adjust_vTimestamp]
    exact toSizeT_cast _
  have hold := h.tracks.output
  have hnew := ht'.output
  omega

/-- **A run moves it by the sum of the periods.** -/
theorem Follows.run (h : Follows tsc c) (hfps : ∀ mcp ∈ frames, Usable mcp → mcp.dhavFps ≠ 0) :
    ∃ tsc' c', tsprocRun tsc frames = .ok tsc' ∧ Follows tsc' c' ∧
      c'.output = c.output + (periodsApplied tsc frames).sum := by
  induction frames generalizing tsc c with
  | nil => exact ⟨tsc, c, rfl, h, (add_zero _).symm⟩
  | cons mcp frames ih =>
    have hrest : ∀ m ∈ frames, Usable m → m.dhavFps ≠ 0 :=
      fun m hm => hfps m (List.mem_cons_of_mem _ hm)
    by_cases hu : Usable mcp
    · obtain ⟨tsc₁, c₁, hcall, h₁, hout₁⟩ := h.step hu (hfps mcp List.mem_cons_self hu)
      obtain ⟨tsc', c', hrun, h', hout'⟩ := ih h₁ hrest
      refine ⟨tsc', c', (tsprocRun_cons frames hcall).trans hrun, h', ?_⟩
      · simp only [periodsApplied, hcall, if_pos (And.intro hu h.started), List.sum_cons]
        rw [hout', hout₁, add_assoc]
    · obtain ⟨r, hcall⟩ := dtTsprocProcess_of_not_usable tsc hu
      obtain ⟨tsc', c', hrun, h', hout'⟩ := ih h hrest
      refine ⟨tsc', c', (tsprocRun_cons frames hcall).trans hrun, h', ?_⟩
      · simp only [periodsApplied, hcall, if_neg fun hc => hu (And.left hc)]
        exact hout'

/-- From `dt_tsproc_init` on: nothing usable comes, or the exact clock is the sum of the periods. -/
theorem start_run (hf : tsc.vFirstFrame = true)
    (hfps : ∀ mcp ∈ frames, Usable mcp → mcp.dhavFps ≠ 0) :
    ((∀ mcp ∈ frames, ¬ Usable mcp) ∧ tsprocRun tsc frames = .ok tsc) ∨
      ∃ tsc' c', tsprocRun tsc frames = .ok tsc' ∧ Follows tsc' c' ∧
        c'.output = (periodsApplied tsc frames).sum := by
  induction frames with
  | nil => exact .inl ⟨by simp, rfl⟩
  | cons mcp frames ih =>
    have hrest : ∀ m ∈ frames, Usable m → m.dhavFps ≠ 0 :=
      fun m hm => hfps m (List.mem_cons_of_mem _ hm)
    have hskip : ¬ (Usable mcp ∧ tsc.vFirstFrame = false) := by simp [hf]
    by_cases hu : Usable mcp
    · obtain ⟨r, tsc₁, hcall, hf₁, ht₁⟩ := dtTsprocProcess_first hu hf
      have h₁ : Follows tsc₁ ⟨0, 0, 0, 0⟩ :=
        ⟨hf₁, ht₁, (Clocks.locked_zero (by decide) (by decide)).near⟩
      obtain ⟨tsc', c', hrun, h', hout'⟩ := h₁.run hrest
      refine .inr ⟨tsc', c', (tsprocRun_cons frames hcall).trans hrun, h', ?_⟩
      · simp only [periodsApplied, hcall, if_neg hskip]
        rw [hout', zero_add]
    · obtain ⟨r, hcall⟩ := dtTsprocProcess_of_not_usable tsc hu
      have hrun := tsprocRun_cons frames hcall
      have hsum : periodsApplied tsc (mcp :: frames) = periodsApplied tsc frames := by
        simp only [periodsApplied, hcall, if_neg hskip]
      rw [hrun, hsum]
      refine (ih hrest).imp_left fun hno => ⟨?_, hno.2⟩
      exact List.forall_mem_cons.mpr ⟨hu, hno.1⟩

/-- **The corrected clock never wraps below zero**: it is the exact sum of the periods applied, which
is never negative, while that is less than `2 ^ 64`. -/
theorem timestamp_exact (heap : TsProc) (hfps : ∀ mcp ∈ frames, Usable mcp → mcp.dhavFps ≠ 0)
    (hseen : ∃ mcp ∈ frames, Usable mcp) :
    ∃ tsc, tsprocRun (dtTsprocInit heap) frames = .ok tsc ∧
      0 ≤ (periodsApplied (dtTsprocInit heap) frames).sum ∧
      ((periodsApplied (dtTsprocInit heap) frames).sum < 2 ^ 64 →
        (tsc.vTimestamp : ℤ) = (periodsApplied (dtTsprocInit heap) frames).sum) := by
  have hf : (dtTsprocInit heap).vFirstFrame = true := rfl
  obtain ⟨hno, -⟩ | ⟨tsc, c, hrun, h, hout⟩ := start_run hf hfps
  · obtain ⟨mcp, hmem, hu⟩ := hseen
    exact absurd hu (hno mcp hmem)
  · have hnonneg : 0 ≤ c.output := h.near.output_nonneg.trans h.near.output_le
    rw [← hout]
    refine ⟨tsc, hrun, hnonneg, fun hlt => ?_⟩
    rw [h.tracks.output]
    exact Int.emod_eq_of_lt hnonneg hlt

theorem timestamp_exact_dropped_frames :
    ∃ tsc, tsprocRun (dtTsprocInit default) [palFrame 0, palFrame 40, palFrame 400] = .ok tsc ∧
      0 ≤ (periodsApplied (dtTsprocInit default) [palFrame 0, palFrame 40, palFrame 400]).sum ∧
      ((periodsApplied (dtTsprocInit default) [palFrame 0, palFrame 40, palFrame 400]).sum < 2 ^ 64 →
        (tsc.vTimestamp : ℤ) =
          (periodsApplied (dtTsprocInit default) [palFrame 0, palFrame 40, palFrame 400]).sum) :=
  timestamp_exact default (by decide) (by decide)

/-- **The corrections of a run are right exactly if none slips or overshoots.** -/
theorem corrections_iff (heap : TsProc) (frames : List McParms)
    (hfps : ∀ mcp ∈ frames, Usable mcp → mcp.dhavFps ≠ 0) :
    (∃ tsc, tsprocRun (dtTsprocInit heap) frames = .ok tsc) ∧
    (AtEveryCall CorrectsGaps (dtTsprocInit heap) frames ↔
      AtEveryCall (fun tsc p d => ¬ Slips tsc p d ∧ ¬ Overshoots tsc p d) (dtTsprocInit heap)
        frames) := by
  have hf : (dtTsprocInit heap).vFirstFrame = true := rfl
  constructor
  · obtain ⟨-, hrun⟩ | ⟨tsc, -, hrun, -⟩ := start_run hf hfps
    · exact ⟨_, hrun⟩
    · exact ⟨tsc, hrun⟩
  have hcall : ∀ pre mcp t, pre ++ [mcp] <+: frames → tsprocRun (dtTsprocInit heap) pre = .ok t →
      Usable mcp → t.vFirstFrame = false →
      (CorrectsGaps (t.sync mcp) (refPeriodOf mcp) (dhavPeriod mcp.vDhavTs t.vDhavTs) ↔
        ¬ Slips (t.sync mcp) (refPeriodOf mcp) (dhavPeriod mcp.vDhavTs t.vDhavTs) ∧
          ¬ Overshoots (t.sync mcp) (refPeriodOf mcp) (dhavPeriod mcp.vDhavTs t.vDhavTs)) := by
    intro pre mcp t hpre hrun hu ht
    have hfps' := hfps mcp (hpre.subset (by simp)) hu
    have hrest : ∀ m ∈ pre, Usable m → m.dhavFps ≠ 0 :=
      fun m hm => hfps m (hpre.subset (List.mem_append_left _ hm))
    obtain ⟨-, hrun'⟩ | ⟨tsc, c, hrun', h, -⟩ := start_run hf hrest
    · obtain rfl := Except.ok.inj (hrun'.symm.trans hrun)
      cases hf.symm.trans ht
    · obtain rfl := Except.ok.inj (hrun'.symm.trans hrun)
      obtain ⟨hdrift, htot⟩ := h.small hfps'
      exact correctsGaps_iff (refPeriodOf_bounds hfps') hdrift htot
  constructor
  · intro h pre mcp t hpre hrun hu ht
    exact (hcall pre mcp t hpre hrun hu ht).mp (h pre mcp t hpre hrun hu ht)
  · intro h pre mcp t hpre hrun hu ht
    exact (hcall pre mcp t hpre hrun hu ht).mpr (h pre mcp t hpre hrun hu ht)

theorem corrections_iff_dropped_frames :
    (∃ tsc, tsprocRun (dtTsprocInit default) [palFrame 0, palFrame 40, palFrame 400] = .ok tsc) ∧
    (AtEveryCall CorrectsGaps (dtTsprocInit default) [palFrame 0, palFrame 40, palFrame 400] ↔
      AtEveryCall (fun tsc p d => ¬ Slips tsc p d ∧ ¬ Overshoots tsc p d) (dtTsprocInit default)
        [palFrame 0, palFrame 40, palFrame 400]) :=
  corrections_iff default _ (by decide)

end Runs

/-! ### Constant settings -/

section Constant

variable {tsc : TsProc} {c : Clocks} {p d : ℤ} {i mcp : McParms} {frames : List McParms}

/-- The correction of slow drift is no longer than its gap. -/
theorem wholePeriods_mul_bounds (hp : 0 < p) {x : ℤ} (hx : p * 2 < |x|) :
    (0 < x → wholePeriods p x * p ≤ x) ∧ (x < 0 → x ≤ wholePeriods p x * p) := by
  obtain ⟨-, hsize⟩ := Clocks.tdiv_mul hp (x := x) (by omega)
  have hs := abs_le.mp hsize
  unfold wholePeriods
  refine ⟨fun h0 => ?_, fun h0 => ?_⟩
  · rw [abs_of_pos h0] at hx hs ⊢
    split_ifs <;> omega
  · rw [abs_of_neg h0] at hx hs ⊢
    split_ifs <;> omega

/-- **Locked clocks do not overshoot**: their gap and that of the statistics are a period apart. -/
theorem Tracks.not_overshoots (ht : Tracks tsc c) (hL : c.Locked p 2) (hp : 0 < p ∧ p < 2 ^ 30)
    (hd : 0 ≤ d ∧ d < 2 ^ 36) : ¬ Overshoots tsc p d := by
  intro ho
  have hg := abs_lt.mp hL.close
  have hr := abs_le.mp hL.residue
  have hgap : (c.tick p d).gap = c.gap + d - p := Clocks.gap_tick
  have hlag : (c.tick p d).lag = c.lag + d - p := Clocks.lag_tick
  have hdrift := ht.timestampDrift_eq (p := p) (d := d) (abs_lt.mpr (by omega))
  have htot := ht.totPeriodDiffEff_eq (p := p) (d := d) (abs_lt.mpr (by omega))
  have hfires := ho.fires.drift
  have hshort := ho.short
  rw [htot, absInt64_eq (by omega)] at hfires
  rw [hdrift, htot] at hshort
  obtain ⟨hpos, hneg⟩ := wholePeriods_mul_bounds hp.1 hfires
  split_ifs at hshort with h0
  · have := hpos h0
    rw [abs_of_pos h0] at hfires
    omega
  · have h0' : (c.tick p d).lag < 0 := by
      rcases lt_abs.mp hfires with h | h <;> omega
    have := hneg h0'
    rw [abs_of_neg h0'] at hfires
    omega

/-- What holds initially and is kept by every call gives what holds at every call. -/
theorem atEveryCall_of_invariant {I : TsProc → Prop} {P : TsProc → ℤ → ℤ → Prop} (hI : I tsc)
    (hstep : ∀ t mcp r t', mcp ∈ frames → I t → dtTsprocProcess t mcp = .ok (r, t') → I t')
    (hP : ∀ t mcp, mcp ∈ frames → I t → Usable mcp → t.vFirstFrame = false →
      P (t.sync mcp) (refPeriodOf mcp) (dhavPeriod mcp.vDhavTs t.vDhavTs)) :
    AtEveryCall P tsc frames := by
  intro pre mcp t hpre hrun hu hf
  refine hP t mcp (hpre.subset (by simp)) ?_ hu hf
  have hmem : ∀ m ∈ pre, m ∈ frames := fun m hm => hpre.subset (List.mem_append_left _ hm)
  clear hpre hu hf
  induction pre generalizing tsc with
  | nil =>
    cases hrun
    exact hI
  | cons m pre ih =>
    rw [tsprocRun] at hrun
    obtain ⟨⟨r, t₁⟩, hcall, hrest⟩ := bind_ok hrun
    exact ih (hstep tsc m r t₁ (hmem m List.mem_cons_self) hI hcall) hrest
      fun x hx => hmem x (List.mem_cons_of_mem _ hx)

/-- **With constant settings nothing overshoots.** -/
theorem not_overshoots_of_sameSettings (heap : TsProc) (hfps : i.dhavFps ≠ 0)
    (hs : SameSettings i frames) :
    AtEveryCall (fun tsc p d => ¬ Overshoots tsc p d) (dtTsprocInit heap) frames := by
  have hp := refPeriodOf_bounds hfps
  refine atEveryCall_of_invariant (I := fun t => t.vFirstFrame = true ∨
    t.vFirstFrame = false ∧ ∃ c, Tracks t c ∧ c.Locked (refPeriodOf i) 2) (.inl rfl) ?_ ?_
  · intro t mcp r t' hm hI hcall
    obtain ⟨hu, hfe, -, -⟩ := hs mcp hm
    rcases hI with hf | ⟨hf, c, ht, hL⟩
    · obtain ⟨r', t₁, hcall', hf', ht'⟩ := dtTsprocProcess_first hu hf
      obtain rfl := (Prod.mk.inj (Except.ok.inj (hcall'.symm.trans hcall))).2
      exact .inr ⟨hf', ⟨0, 0, 0, 0⟩, ht', Clocks.locked_zero hp.1 (by decide)⟩
    · have hd := dhavPeriod_bounds mcp.vDhavTs t.vDhavTs
      have hpe := hs.refPeriodOf_eq hm
      obtain ⟨t₁, c', hcall', hf', ht', hmove, -⟩ :=
        dtTsprocProcess_later hu hf (hfe ▸ hfps) ht hpe.le hp.2 hL.near
      obtain rfl := (Prod.mk.inj (Except.ok.inj (hcall'.symm.trans hcall))).2
      rw [hpe] at hmove
      exact .inr ⟨hf', c', ht', hL.move hp.1 (by decide) hd.1 hmove⟩
  · intro t mcp hm hI _ hf
    rcases hI with hf' | ⟨-, c, ht, hL⟩
    · cases hf.symm.trans hf'
    · rw [hs.refPeriodOf_eq hm]
      exact (ht.sync mcp).not_overshoots hL hp (dhavPeriod_bounds mcp.vDhavTs t.vDhavTs)

end Constant

/-! ### Slow drift backwards -/

/-- **A frame that is between two and three periods early slips**, after 999 others in time. -/
theorem OnTime.slips {t : ℕ → ℕ} {p : ℤ} {n : ℕ} {f g : McParms} {tsc : TsProc}
    (h : OnTime t p n f tsc) (hp : 0 < p ∧ p < 2 ^ 30) (hn : 999 ≤ n) (hmax : n + 1 < 2 ^ 63)
    (hstamp : g.vDhavTs = t (n + 1) % 2 ^ 16) (hle : t n ≤ t (n + 1))
    (hlt : t (n + 1) < t n + 65536) (hepoch : f.dhavEpoch ≤ g.dhavEpoch)
    (hjump : g.dhavEpoch ≤ f.dhavEpoch + epochMaxForwardJump)
    (hless : -3 * p < timeSince t (n + 1) - (n + 1 : ℕ) * p)
    (hbehind : timeSince t (n + 1) - (n + 1 : ℕ) * p < -2 * p) :
    Slips (tsc.sync g) p (dhavPeriod g.vDhavTs tsc.vDhavTs) := by
  obtain ⟨hdrift, htot⟩ := h.drift hstamp hle hlt (abs_lt.mpr (by omega))
  have habs : absInt64 (timeSince t (n + 1) - (n + 1 : ℕ) * p) =
      -(timeSince t (n + 1) - (n + 1 : ℕ) * p) := by
    rw [absInt64_eq (by omega), abs_of_neg (by omega)]
  have hcount := h.counted
  refine ⟨⟨h.epochSteady hepoch hjump, ?_, ?_, ?_⟩, ?_, ?_⟩
  · rw [hdrift, habs, timestampJitterDampingLimit]
    omega
  · rw [htot, habs]
    omega
  · have hframes : (updateStats (tsc.sync g) p (dhavPeriod g.vDhavTs tsc.vDhavTs)).sdcTFrames =
        (n + 1 : ℕ) := by
      show toInt64 (tsc.sdcTFrames + 1) = (n + 1 : ℕ)
      exact toInt64_eq (by omega) (by omega)
    rw [hframes, slowDriftEvalMinSamples]
    omega
  · rw [htot]
    omega
  · rw [htot]
    exact hless

/-- A camera that is a little fast: it gains two frames in a thousand, and one msec. -/
def fastTimes (k : ℕ) : ℕ := 40 * k - min k 80 - k / 1000

/-- At the frame 1000 the DVR clock is 81 msec behind, and the corrected one is taken 40 msec further
ahead. -/
theorem fast_camera_slips :
    ¬ ∀ (heap : TsProc) (frames : List McParms),
      (∀ mcp ∈ frames, Usable mcp → mcp.dhavFps ≠ 0) →
      AtEveryCall CorrectsGaps (dtTsprocInit heap) frames := by
  intro h
  obtain ⟨n, hn⟩ : ∃ n, n = 999 := ⟨_, rfl⟩
  have hp : ∀ k, refPeriodOf (frameAt 25 fastTimes k) = 40000000 := by
    intro k
    show refPeriod false false 25 = 40000000
    decide
  have hgaps : ∀ k, fastTimes k ≤ fastTimes (k + 1) ∧ fastTimes (k + 1) < fastTimes k + 65536 := by
    intro k
    unfold fastTimes
    omega
  have hin : ∀ k ≤ n, InTime fastTimes (refPeriodOf (frameAt 25 fastTimes 0)) k := by
    intro k hk
    rw [InTime, timeSince, hp, abs_le]
    unfold fastTimes
    omega
  obtain ⟨f, t, hf, hrun, hon⟩ := OnTime.run default (by decide) sameSettings_framesAt
    (hasTimes_framesAt hgaps) steadyEpochs_framesAt length_framesAt hin
  obtain rfl := eq_frameAt hf
  have hnext : framesAt 25 fastTimes (n + 1) ++ [frameAt 25 fastTimes (n + 1)] <+:
      framesAt 25 fastTimes (n + 1 + 1) := by
    rw [framesAt, framesAt, @List.range_succ (n + 1), List.map_append, List.map_singleton]
  have hfps : ∀ mcp ∈ framesAt 25 fastTimes (n + 1 + 1), Usable mcp → mcp.dhavFps ≠ 0 := by
    intro mcp hmem _
    rw [(sameSettings_framesAt mcp hmem).2.1]
    decide
  have hcall := h default _ hfps _ _ t hnext hrun ⟨.inr rfl, rfl⟩ hon.started
  have hoff : timeSince fastTimes (n + 1) - (n + 1 : ℕ) * 40000000 = -81000000 := by
    rw [hn, timeSince]
    unfold fastTimes
    omega
  rw [hp] at hcall hon
  have hp40 : (0 : ℤ) < 40000000 ∧ (40000000 : ℤ) < 2 ^ 30 := by decide
  have hslips := hon.slips (g := frameAt 25 fastTimes (n + 1)) hp40 hn.ge (by omega) rfl
    (hgaps n).1 (hgaps n).2 le_rfl (Nat.le_add_right _ _) (by omega) (by omega)
  obtain ⟨hdrift, htot⟩ := hon.drift (g := frameAt 25 fastTimes (n + 1)) rfl (hgaps n).1 (hgaps n).2
    (by rw [hoff]; decide)
  rw [hoff] at hdrift htot
  have hgap := correctsGaps_iff hp40 (by rw [hdrift]; decide) (by rw [htot]; decide)
  exact (hgap.mp hcall).1 hslips

end TaniDVR
