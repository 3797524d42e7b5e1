import TaniDVR.FrameClock

/-!
# Jitter — frames that are on time but for a jitter

The frames of a DVR come at the times `t` of its clock, of which the headers have 16 bits and the
epoch.  While every frame is within two reference periods of its due time, none of the corrections of
`dt_tsproc_process` fires: the corrected clock counts periods, and the DVR clock is the unwrapped
counter (`jitter_removed`).  Both are exact modulo `2 ^ 64`.
-/

namespace TaniDVR

open Lib

/-- The epochs never go back, and never more than 30 sec forward. -/
def SteadyEpochs (frames : List McParms) : Prop :=
  ∀ k f g, frames[k]? = some f → frames[k + 1]? = some g →
    f.dhavEpoch ≤ g.dhavEpoch ∧ g.dhavEpoch ≤ f.dhavEpoch + epochMaxForwardJump

/-- The epoch of the frame at hand neither went back nor jumped. -/
structure EpochSteady (tsc : TsProc) : Prop where
  notBack : ¬ tsc.dhavEpoch < tsc.dhavEpochPrev
  noJump : ¬ toSizeT ((tsc.dhavEpoch : ℤ) - tsc.dhavEpochPrev) > epochMaxForwardJump

/-- The time of the frame `k` since the first one, in nsec. -/
def timeSince (t : ℕ → ℕ) (k : ℕ) : ℤ := ((t k : ℤ) - t 0) * 1000000

/-- The frame `k` is within two periods of its due time. -/
def InTime (t : ℕ → ℕ) (p : ℤ) (k : ℕ) : Prop := |timeSince t k - k * p| ≤ 2 * p

/-- After the frame `f`, the frame `n`, both clocks and their statistics are exact. -/
structure OnTime (t : ℕ → ℕ) (p : ℤ) (n : ℕ) (f : McParms) (tsc : TsProc) : Prop where
  started : tsc.vFirstFrame = false
  stamp : tsc.vDhavTs = t n % 2 ^ 16
  epoch : tsc.dhavEpoch = f.dhavEpoch
  clocks : Tracks tsc ⟨timeSince t n, n * p, timeSince t n, n * p⟩
  counted : tsc.sdcTFrames % 2 ^ 64 = (n : ℤ) % 2 ^ 64

section Frames

variable {t : ℕ → ℕ} {p : ℤ} {n : ℕ} {f g : McParms} {tsc : TsProc}

/-- The first frame. -/
theorem OnTime.first (hu : Usable f) (hstamp : f.vDhavTs = t 0 % 2 ^ 16)
    (hf : tsc.vFirstFrame = true) :
    ∃ r tsc', dtTsprocProcess tsc f = .ok (r, tsc') ∧ OnTime t p 0 f tsc' := by
  unfold dtTsprocProcess
  rw [if_neg hu.video, if_neg (by simp [hu.2]), if_pos hf]
  refine ⟨_, _, rfl, rfl, hstamp, rfl, ?_, rfl⟩
  have h0 : timeSince t 0 = 0 := by rw [timeSince, sub_self, zero_mul]
  rw [h0]
  constructor <;> simp

/-- The period of the headers is the one of the clock. -/
theorem dhavPeriod_of_times (hle : t n ≤ t (n + 1)) (hlt : t (n + 1) < t n + 65536) :
    dhavPeriod (t (n + 1) % 2 ^ 16) (t n % 2 ^ 16) = timeSince t (n + 1) - timeSince t n := by
  have hadv : (((t (n + 1) % 2 ^ 16 : ℕ) : ℤ) - (t n % 2 ^ 16 : ℕ)) % 2 ^ 16 = t (n + 1) - t n :=
    counter_advance hle hlt
  rw [dhavPeriod, hadv, timeSince, timeSince]
  ring

/-- The clocks of a frame on time, after the next one. -/
theorem tick_of_times {d : ℤ} (hd : d = timeSince t (n + 1) - timeSince t n) :
    (⟨timeSince t n, n * p, timeSince t n, n * p⟩ : Clocks).tick p d =
      ⟨timeSince t (n + 1), (n + 1 : ℕ) * p, timeSince t (n + 1), (n + 1 : ℕ) * p⟩ := by
  have hp : (n : ℤ) * p + p = (n + 1 : ℕ) * p := by
    push_cast
    ring
  rw [Clocks.tick, hp, hd, add_sub_cancel]

/-- The gap of the clocks and of the statistics is what the next frame is off. -/
theorem OnTime.drift (h : OnTime t p n f tsc) (hstamp : g.vDhavTs = t (n + 1) % 2 ^ 16)
    (hle : t n ≤ t (n + 1)) (hlt : t (n + 1) < t n + 65536)
    (hsmall : |timeSince t (n + 1) - (n + 1 : ℕ) * p| < 2 ^ 62) :
    timestampDrift (tsc.sync g) p (dhavPeriod g.vDhavTs tsc.vDhavTs) =
        timeSince t (n + 1) - (n + 1 : ℕ) * p ∧
      totPeriodDiffEff (tsc.sync g) p (dhavPeriod g.vDhavTs tsc.vDhavTs) =
        timeSince t (n + 1) - (n + 1 : ℕ) * p := by
  have ht := h.clocks.sync g
  have hd : dhavPeriod g.vDhavTs tsc.vDhavTs = timeSince t (n + 1) - timeSince t n := by
    rw [hstamp, h.stamp]
    exact dhavPeriod_of_times hle hlt
  have hgap := ht.timestampDrift_eq (p := p) (d := dhavPeriod g.vDhavTs tsc.vDhavTs)
  have hlag := ht.totPeriodDiffEff_eq (p := p) (d := dhavPeriod g.vDhavTs tsc.vDhavTs)
  rw [tick_of_times hd] at hgap hlag
  exact ⟨hgap hsmall, hlag hsmall⟩

/-- The epoch is taken over. -/
theorem OnTime.epochSteady (h : OnTime t p n f tsc) (hepoch : f.dhavEpoch ≤ g.dhavEpoch)
    (hjump : g.dhavEpoch ≤ f.dhavEpoch + epochMaxForwardJump) : EpochSteady (tsc.sync g) := by
  constructor
  · show ¬ g.dhavEpoch < tsc.dhavEpoch
    rw [h.epoch]
    exact not_lt.mpr hepoch
  · show ¬ toSizeT ((g.dhavEpoch : ℤ) - tsc.dhavEpoch) > epochMaxForwardJump
    rw [h.epoch, toSizeT]
    unfold epochMaxForwardJump at hjump ⊢
    omega

/-- **A frame in time is not corrected.** -/
theorem OnTime.noCorrection (h : OnTime t p n f tsc) (hp : 0 < p ∧ p < 2 ^ 30)
    (hstamp : g.vDhavTs = t (n + 1) % 2 ^ 16) (hle : t n ≤ t (n + 1))
    (hlt : t (n + 1) < t n + 65536) (hepoch : f.dhavEpoch ≤ g.dhavEpoch)
    (hjump : g.dhavEpoch ≤ f.dhavEpoch + epochMaxForwardJump) (hin : InTime t p (n + 1)) :
    NoCorrection (tsc.sync g) p (dhavPeriod g.vDhavTs tsc.vDhavTs) := by
  have hbounds := abs_le.mp hin
  obtain ⟨hdrift, htot⟩ := h.drift hstamp hle hlt (abs_lt.mpr (by omega))
  have habs : absInt64 (timeSince t (n + 1) - (n + 1 : ℕ) * p) ≤ 2 * p := by
    rw [absInt64_eq (by omega)]
    exact hin
  have hsteady := h.epochSteady hepoch hjump
  refine ⟨hsteady.notBack, hsteady.noJump, ?_, ?_⟩
  · rw [timestampDrift] at hdrift
    rw [hdrift]
    unfold timestampJitterDampingLimit
    omega
  · rw [totPeriodDiffEff] at htot
    rw [htot]
    omega

/-- **One more frame.** -/
theorem OnTime.step (h : OnTime t p n f tsc) (hu : Usable g) (hfps : g.dhavFps ≠ 0)
    (hp : refPeriodOf g = p) (hstamp : g.vDhavTs = t (n + 1) % 2 ^ 16) (hle : t n ≤ t (n + 1))
    (hlt : t (n + 1) < t n + 65536) (hepoch : f.dhavEpoch ≤ g.dhavEpoch)
    (hjump : g.dhavEpoch ≤ f.dhavEpoch + epochMaxForwardJump) (hin : InTime t p (n + 1)) :
    ∃ tsc', dtTsprocProcess tsc g = .ok (none, tsc') ∧ OnTime t p (n + 1) g tsc' := by
  subst hp
  have hno := h.noCorrection (refPeriodOf_bounds hfps) hstamp hle hlt hepoch hjump hin
  have hd : dhavPeriod g.vDhavTs tsc.vDhavTs = timeSince t (n + 1) - timeSince t n := by
    rw [hstamp, h.stamp]
    exact dhavPeriod_of_times hle hlt
  refine ⟨_, dtTsprocProcess_adjust hu h.started hfps, ?_⟩
  rw [adjust_of_noCorrection hno]
  refine ⟨h.started, hstamp, rfl, ?_, ?_⟩
  · rw [← tick_of_times hd]
    exact (h.clocks.sync g).tick
  · have hcount := h.counted
    show toInt64 (tsc.sdcTFrames + 1) % 2 ^ 64 = ((n + 1 : ℕ) : ℤ) % 2 ^ 64
    rw [toInt64_emod]
    omega

end Frames

/-! ### Runs -/

theorem SteadyEpochs.of_prefix {pre frames : List McParms} (h : SteadyEpochs frames)
    (hpre : pre <+: frames) : SteadyEpochs pre :=
  fun k f g hf hg => h k f g (getElem?_of_isPrefix hpre hf) (getElem?_of_isPrefix hpre hg)

section Runs

variable {t : ℕ → ℕ} {n : ℕ} {i : McParms} {frames : List McParms}

/-- **Every run of frames in time ends on time.** -/
theorem OnTime.run (heap : TsProc) (hfps : i.dhavFps ≠ 0) (hs : SameSettings i frames)
    (ht : HasTimes t (frames.map McParms.vDhavTs)) (he : SteadyEpochs frames)
    (hlen : frames.length = n + 1) (hin : ∀ k ≤ n, InTime t (refPeriodOf i) k) :
    ∃ f tsc, frames[n]? = some f ∧ tsprocRun (dtTsprocInit heap) frames = .ok tsc ∧
      OnTime t (refPeriodOf i) n f tsc := by
  induction n generalizing frames with
  | zero =>
    obtain ⟨f, rfl⟩ := List.length_eq_one_iff.mp hlen
    have hu := (hs f (by simp)).1
    have hstart : (dtTsprocInit heap).vFirstFrame = true := rfl
    obtain ⟨r, tsc, hcall, hon⟩ := OnTime.first hu (ht.stamp 0 f.vDhavTs rfl) hstart
    exact ⟨f, tsc, rfl, tsprocRun_cons [] hcall, hon⟩
  | succ n ih =>
    obtain ⟨pre, g, rfl⟩ : ∃ pre g, frames = pre ++ [g] := by
      refine ⟨frames.dropLast, frames.getLast ?_, (List.dropLast_concat_getLast _).symm⟩
      rw [← List.length_pos_iff]
      omega
    have hpre : pre <+: pre ++ [g] := List.prefix_append _ _
    have hlen' : pre.length = n + 1 := by simpa using hlen
    obtain ⟨f, tsc, hf, hrun, hon⟩ := ih (hs.of_prefix hpre) (ht.of_prefix (hpre.map _))
      (he.of_prefix hpre) hlen' fun k hk => hin k (hk.trans (Nat.le_succ n))
    have hg : (pre ++ [g])[n + 1]? = some g := by
      rw [← hlen', List.getElem?_concat_length]
    have hstamp := ht.stamp (n + 1) g.vDhavTs (by rw [List.getElem?_map, hg, Option.map_some])
    obtain ⟨hle, hlt⟩ := ht.gap n (by rw [List.length_map]; omega)
    obtain ⟨hepoch, hjump⟩ := he n f g (getElem?_of_isPrefix hpre hf) hg
    have hmem : g ∈ pre ++ [g] := by simp
    obtain ⟨hu, hfe, -, -⟩ := hs g hmem
    obtain ⟨tsc', hcall, hon'⟩ := hon.step hu (hfe ▸ hfps) (hs.refPeriodOf_eq hmem) hstamp hle hlt
      hepoch hjump (hin (n + 1) le_rfl)
    exact ⟨g, tsc', hg, tsprocRun_concat hrun hcall, hon'⟩

/-- **Jitter is removed**: while every frame is within two periods of its due time, the corrected clock
counts periods, and the clock of the DVR is exact, in the 64 bits they have. -/
theorem jitter_removed (heap : TsProc) (hfps : i.dhavFps ≠ 0) (hs : SameSettings i frames)
    (ht : HasTimes t (frames.map McParms.vDhavTs)) (he : SteadyEpochs frames)
    (hlen : frames.length = n + 1) (hin : ∀ k ≤ n, InTime t (refPeriodOf i) k) :
    ∃ tsc, tsprocRun (dtTsprocInit heap) frames = .ok tsc ∧
      (tsc.vTimestamp : ℤ) = n * refPeriodOf i % 2 ^ 64 ∧
      (tsc.vDhavTimestamp : ℤ) = timeSince t n % 2 ^ 64 := by
  obtain ⟨f, tsc, -, hrun, hon⟩ := OnTime.run heap hfps hs ht he hlen hin
  exact ⟨tsc, hrun, hon.clocks.output, hon.clocks.source⟩

end Runs

/-- The frame at `t k`, `fps` a second. -/
def frameAt (fps : UInt8) (t : ℕ → ℕ) (k : ℕ) : McParms :=
  { palFrame (t k % 2 ^ 16) with dhavFps := fps }

/-- The first `n` frames. -/
def framesAt (fps : UInt8) (t : ℕ → ℕ) (n : ℕ) : List McParms := (List.range n).map (frameAt fps t)

section FramesAt

variable {fps : UInt8} {t : ℕ → ℕ} {n : ℕ}

theorem length_framesAt : (framesAt fps t n).length = n := by
  rw [framesAt, List.length_map, List.length_range]

theorem eq_frameAt {k : ℕ} {f : McParms} (h : (framesAt fps t n)[k]? = some f) :
    f = frameAt fps t k := by
  obtain ⟨j, hj, rfl⟩ := Option.map_eq_some_iff.mp ((List.getElem?_map ..).symm.trans h)
  obtain ⟨hlt, rfl⟩ := List.getElem?_eq_some_iff.mp hj
  rw [List.getElem_range]

theorem sameSettings_framesAt : SameSettings (frameAt fps t 0) (framesAt fps t n) := by
  intro f hf
  obtain ⟨k, -, rfl⟩ := List.mem_map.mp hf
  exact ⟨⟨.inr rfl, rfl⟩, rfl, rfl, rfl⟩

theorem hasTimes_framesAt (h : ∀ k, t k ≤ t (k + 1) ∧ t (k + 1) < t k + 65536) :
    HasTimes t ((framesAt fps t n).map McParms.vDhavTs) := by
  refine ⟨?_, fun k _ => h k⟩
  intro k s hs
  obtain ⟨f, hf, rfl⟩ := Option.map_eq_some_iff.mp ((List.getElem?_map ..).symm.trans hs)
  rw [eq_frameAt hf]
  rfl

theorem steadyEpochs_framesAt : SteadyEpochs (framesAt fps t n) := by
  intro k f g hf hg
  rw [eq_frameAt hf, eq_frameAt hg]
  exact ⟨le_rfl, Nat.le_add_right _ _⟩

end FramesAt

/-- Every other frame 15 msec late, while the counter of the headers goes round. -/
theorem jitter_removed_late :
    ∃ tsc, tsprocRun (dtTsprocInit default)
        (framesAt 25 (fun k => 65500 + 40 * k + 15 * (k % 2)) 3) = .ok tsc ∧
      (tsc.vTimestamp : ℤ) =
        (2 : ℕ) * refPeriodOf (frameAt 25 (fun k => 65500 + 40 * k + 15 * (k % 2)) 0) % 2 ^ 64 ∧
      (tsc.vDhavTimestamp : ℤ) =
        timeSince (fun k => 65500 + 40 * k + 15 * (k % 2)) 2 % 2 ^ 64 := by
  refine jitter_removed default (by decide) sameSettings_framesAt (hasTimes_framesAt ?_)
    steadyEpochs_framesAt length_framesAt ?_
  · intro k
    omega
  · intro k hk
    have hp : refPeriodOf (frameAt 25 (fun k => 65500 + 40 * k + 15 * (k % 2)) 0) = 40000000 := by
      decide
    rw [InTime, timeSince, hp, abs_le]
    push_cast
    omega

/-- After 2 ^ 64 nsec, 584 years, the time is back at zero. -/
theorem corrected_clock_overflows :
    ¬ ∀ (heap : TsProc) (i : McParms) (frames : List McParms) (t : ℕ → ℕ) (n : ℕ), i.dhavFps ≠ 0 →
      SameSettings i frames → HasTimes t (frames.map McParms.vDhavTs) → SteadyEpochs frames →
      frames.length = n + 1 → (∀ k ≤ n, InTime t (refPeriodOf i) k) →
      ∃ tsc, tsprocRun (dtTsprocInit heap) frames = .ok tsc ∧
        (tsc.vTimestamp : ℤ) = n * refPeriodOf i ∧ (tsc.vDhavTimestamp : ℤ) = timeSince t n := by
  intro h
  obtain ⟨n, hn⟩ : ∃ n, n = 18446744074 := ⟨_, rfl⟩
  have hp : refPeriodOf (frameAt 1 (fun k => 1000 * k) 0) = 1000000000 := by decide
  have hfps : (frameAt 1 (fun k => 1000 * k) 0).dhavFps ≠ 0 := by decide
  have hin : ∀ k ≤ n, InTime (fun k => 1000 * k) (refPeriodOf (frameAt 1 (fun k => 1000 * k) 0)) k := by
    intro k _
    rw [InTime, timeSince, hp, abs_le]
    push_cast
    omega
  have htimes : HasTimes (fun k => 1000 * k)
      ((framesAt 1 (fun k => 1000 * k) (n + 1)).map McParms.vDhavTs) :=
    hasTimes_framesAt fun k => ⟨by omega, by omega⟩
  obtain ⟨tsc, hrun, htime, -⟩ := h default _ _ _ n hfps sameSettings_framesAt htimes
    steadyEpochs_framesAt length_framesAt hin
  obtain ⟨f, tsc', -, hrun', hon⟩ := OnTime.run default hfps sameSettings_framesAt htimes
    steadyEpochs_framesAt length_framesAt hin
  obtain rfl := Except.ok.inj (hrun.symm.trans hrun')
  have hwrapped := hon.clocks.output
  rw [htime, hp] at hwrapped
  dsimp only at hwrapped
  omega

end TaniDVR
