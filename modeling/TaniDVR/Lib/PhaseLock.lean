import Mathlib.Algebra.Order.Ring.Int
import Mathlib.Algebra.Ring.Divisibility.Basic
import Mathlib.Tactic.Linarith
import Mathlib.Tactic.Ring

/-!
# Lib.PhaseLock — an output clock that follows a source clock in whole periods

`Clocks` holds two clocks and what each has advanced since the statistics were last cleared.  A
`Move` is one frame: the source advances by some `d`, the output by a whole number of periods `p`,
which is one period and a correction.  A gap of more than `s + 2` periods is closed at once
(`jump`), a lag of the statistics of more than `s` periods by one period (`slip`) or at once
(`settle`).

`Clocks.Near` is the invariant, for periods up to `m`: the gap of the clocks differs from the gap of
the statistics by at most `m` (the residue a correction left behind), and stays below `(s + 3) * m`.
`Clocks.Locked` is the same with one period, which the output keeps the phase of.
-/

namespace Lib

/-- Two clocks, and their advance since the statistics were cleared. -/
structure Clocks where
  source : ℤ
  output : ℤ
  sourceSum : ℤ
  outputSum : ℤ

namespace Clocks

variable {p m s d : ℤ} {c c' : Clocks}

/-- How far the source is ahead. -/
def gap (c : Clocks) : ℤ := c.source - c.output

/-- How far the source is ahead in the statistics. -/
def lag (c : Clocks) : ℤ := c.sourceSum - c.outputSum

/-- One frame on each clock. -/
def tick (p d : ℤ) (c : Clocks) : Clocks :=
  ⟨c.source + d, c.output + p, c.sourceSum + d, c.outputSum + p⟩

/-- The output makes one frame and `k` periods more; the statistics are cleared. -/
def correct (p d k : ℤ) (c : Clocks) : Clocks := ⟨c.source + d, c.output + (p + k * p), 0, 0⟩

/-- One frame and one period more. -/
def slip (p d : ℤ) (c : Clocks) : Clocks :=
  ⟨c.source + d, c.output + (p + p), c.sourceSum + d, c.outputSum + p + p⟩

/-- What one frame does; `s` is the lag tolerated, in periods. -/
inductive Move (p s d : ℤ) (c : Clocks) : Clocks → Prop
  | resync : Move p s d c ⟨c.output + p, c.output + p, 0, 0⟩
  | jump (h : (s + 2) * p < |(c.tick p d).gap|) :
      Move p s d c (c.correct p d ((c.tick p d).gap.tdiv p))
  | tick (h : |(c.tick p d).gap| ≤ (s + 2) * p) : Move p s d c (c.tick p d)
  | slip (h : |(c.tick p d).gap| ≤ (s + 2) * p) (hj : |(c.tick p d).lag.tdiv p| ≤ s) :
      Move p s d c (c.slip p d)
  | settle (h : |(c.tick p d).gap| ≤ (s + 2) * p) (hj : s < |(c.tick p d).lag.tdiv p|) :
      Move p s d c (c.correct p d ((c.tick p d).lag.tdiv p))

/-- The invariant. -/
structure Locked (p s : ℤ) (c : Clocks) : Prop where
  phase : p ∣ c.output
  residue : |c.gap - c.lag| ≤ p
  close : |c.gap| < (s + 3) * p
  source_nonneg : 0 ≤ c.sourceSum
  source_le : c.sourceSum ≤ c.source
  output_nonneg : 0 ≤ c.outputSum
  output_le : c.outputSum ≤ c.output

/-- The invariant when the period may change, up to `m`. -/
structure Near (m s : ℤ) (c : Clocks) : Prop where
  residue : |c.gap - c.lag| ≤ m
  close : |c.gap| < (s + 3) * m
  source_nonneg : 0 ≤ c.sourceSum
  source_le : c.sourceSum ≤ c.source
  output_nonneg : 0 ≤ c.outputSum
  output_le : c.outputSum ≤ c.output

theorem Locked.near (h : c.Locked p s) : c.Near p s :=
  ⟨h.residue, h.close, h.source_nonneg, h.source_le, h.output_nonneg, h.output_le⟩

/-- Two clocks that start together. -/
theorem locked_zero (hp : 0 < p) (hs : 0 ≤ s) : (⟨0, 0, 0, 0⟩ : Clocks).Locked p s := by
  refine ⟨dvd_zero p, ?_, ?_, le_rfl, le_rfl, le_rfl, le_rfl⟩
  · simpa [gap, lag] using hp.le
  · have hlim : 0 < (s + 3) * p := mul_pos (by omega) hp
    simpa [gap] using hlim

/-- Truncated division: the remainder is short and on the same side. -/
theorem tdiv_split (hp : 0 < p) (x : ℤ) :
    ∃ r, x = x.tdiv p * p + r ∧ |r| < p ∧ (0 ≤ x → 0 ≤ r ∧ 0 ≤ x.tdiv p) ∧
      (x ≤ 0 → r ≤ 0 ∧ x.tdiv p ≤ 0) := by
  refine ⟨x.tmod p, (Int.tdiv_mul_add_tmod x p).symm,
    abs_lt.mpr ⟨Int.lt_tmod_of_pos x hp, Int.tmod_lt_of_pos x hp⟩, fun h => ?_, fun h => ?_⟩
  · exact ⟨Int.tmod_nonneg p h, Int.tdiv_nonneg h hp.le⟩
  · have hm := Int.tmod_nonneg p (Int.neg_nonneg.mpr h)
    have hq := Int.tdiv_nonneg (Int.neg_nonneg.mpr h) hp.le
    rw [Int.neg_tmod] at hm
    rw [Int.neg_tdiv] at hq
    omega

/-- Truncated division reaches `-k` with the whole periods. -/
theorem tdiv_le_neg_iff {k : ℤ} (hp : 0 < p) (hk : 0 < k) (x : ℤ) :
    x.tdiv p ≤ -k ↔ x ≤ -k * p := by
  obtain ⟨r, hx, hr, hpos, hneg⟩ := tdiv_split hp x
  obtain ⟨hr1, hr2⟩ := abs_lt.mp hr
  constructor
  · intro h
    have := mul_le_mul_of_nonneg_right h hp.le
    have := (hneg (by by_contra h0; have := (hpos (not_le.mp h0).le).2; omega)).1
    linarith
  · intro h
    by_contra hc
    have := mul_le_mul_of_nonneg_right (Int.add_one_le_iff.mpr (not_le.mp hc)) hp.le
    linarith

/-- `k` whole periods. -/
theorem le_abs_tdiv_iff {k : ℤ} (hp : 0 < p) (hk : 0 < k) (x : ℤ) :
    k ≤ |x.tdiv p| ↔ k * p ≤ |x| := by
  rcases le_total 0 x with h0 | h0
  · rw [abs_of_nonneg h0, abs_of_nonneg (Int.tdiv_nonneg h0 hp.le), Int.tdiv_eq_ediv_of_nonneg h0]
    exact Int.le_ediv_iff_mul_le hp
  · obtain ⟨r, -, -, -, hneg⟩ := tdiv_split hp x
    rw [abs_of_nonpos h0, abs_of_nonpos (hneg h0).2, le_neg, tdiv_le_neg_iff hp hk, neg_mul, le_neg]

/-- The whole periods of a length of at least one are on its side, and no longer. -/
theorem tdiv_mul (hp : 0 < p) {x : ℤ} (hx : p ≤ |x|) :
    (x.tdiv p * p).sign = x.sign ∧ |x.tdiv p * p| ≤ |x| := by
  obtain ⟨r, heq, hr, hpos, hneg⟩ := tdiv_split hp x
  obtain ⟨hr1, hr2⟩ := abs_lt.mp hr
  rcases le_total 0 x with h0 | h0
  · have := (hpos h0).1
    rw [abs_of_nonneg h0] at hx ⊢
    have hq : 0 < x.tdiv p * p := by linarith
    rw [Int.sign_eq_one_of_pos hq, Int.sign_eq_one_of_pos (by linarith), abs_of_pos hq]
    exact ⟨rfl, by linarith⟩
  · have := (hneg h0).1
    rw [abs_of_nonpos h0] at hx ⊢
    have hq : x.tdiv p * p < 0 := by linarith
    rw [Int.sign_eq_neg_one_of_neg hq, Int.sign_eq_neg_one_of_neg (by linarith), abs_of_neg hq]
    exact ⟨rfl, by linarith⟩

/-- A step forwards shortens `x` exactly when it is less than twice as long. -/
theorem abs_sub_lt_iff_of_pos {x k : ℤ} (hk : 0 < k) : |x - k| < |x| ↔ k < 2 * x := by
  constructor
  · intro h
    rcases abs_cases x with ⟨hx, hx0⟩ | ⟨hx, hx0⟩ <;>
      rcases abs_cases (x - k) with ⟨hy, hy0⟩ | ⟨hy, hy0⟩ <;> linarith
  · intro h
    rw [abs_of_pos (by linarith : 0 < x), abs_lt]
    exact ⟨by linarith, by linarith⟩

/-- A step backwards. -/
theorem abs_sub_lt_iff_of_neg {x k : ℤ} (hk : k < 0) : |x - k| < |x| ↔ 2 * x < k := by
  have h := @abs_sub_lt_iff_of_pos (-x) (-k) (by linarith)
  rw [← abs_neg x, ← abs_neg (x - k), neg_sub', h]
  constructor <;> intro hx <;> linarith

theorem gap_tick : (c.tick p d).gap = c.gap + d - p := by
  simp only [Clocks.tick, gap]
  ring

theorem lag_tick : (c.tick p d).lag = c.lag + d - p := by
  simp only [Clocks.tick, lag]
  ring

theorem gap_slip : (c.slip p d).gap = (c.tick p d).gap - p := by
  simp only [Clocks.slip, Clocks.tick, gap]
  ring

theorem lag_slip : (c.slip p d).lag = (c.tick p d).lag - p := by
  simp only [Clocks.slip, Clocks.tick, lag]
  ring

theorem gap_correct {k : ℤ} : (c.correct p d k).gap = (c.tick p d).gap - k * p := by
  simp only [Clocks.correct, Clocks.tick, gap]
  ring

/-- Smaller periods give tighter bounds. -/
theorem mul_bounds (hp : 0 < p) (hpm : p ≤ m) (hs : 0 ≤ s) : 0 ≤ s * m ∧ s * p ≤ s * m :=
  ⟨mul_nonneg hs (hp.le.trans hpm), mul_le_mul_of_nonneg_left hpm hs⟩

/-! ### One frame -/

theorem Near.resync (hp : 0 < p) (hpm : p ≤ m) (hs : 0 ≤ s) (h : c.Near m s) :
    (⟨c.output + p, c.output + p, 0, 0⟩ : Clocks).Near m s := by
  obtain ⟨hsm, -⟩ := mul_bounds hp hpm hs
  have hlim : 0 < (s + 3) * m := by linarith
  have hout := h.output_nonneg.trans h.output_le
  refine ⟨?_, ?_, le_rfl, ?_, le_rfl, ?_⟩
  · simpa [gap, lag] using hp.le.trans hpm
  · simpa [gap] using hlim
  all_goals
    simp only
    linarith

theorem Near.tick (hp : 0 < p) (hpm : p ≤ m) (hs : 0 ≤ s) (hd : 0 ≤ d) (h : c.Near m s)
    (hj : |(c.tick p d).gap| ≤ (s + 2) * p) : (c.tick p d).Near m s := by
  obtain ⟨hsm, hsp⟩ := mul_bounds hp hpm hs
  obtain ⟨hj1, hj2⟩ := abs_le.mp hj
  have h1 := h.source_nonneg
  have h2 := h.source_le
  have h3 := h.output_nonneg
  have h4 := h.output_le
  refine ⟨?_, ?_, ?_, ?_, ?_, ?_⟩
  · rw [gap_tick, lag_tick, show c.gap + d - p - (c.lag + d - p) = c.gap - c.lag by ring]
    exact h.residue
  · exact abs_lt.mpr ⟨by linarith, by linarith⟩
  all_goals
    simp only [Clocks.tick]
    linarith

theorem Near.slip (hp : 0 < p) (hpm : p ≤ m) (hs : 0 ≤ s) (hd : 0 ≤ d) (h : c.Near m s)
    (hj : |(c.tick p d).gap| ≤ (s + 2) * p) (hk : |(c.tick p d).lag.tdiv p| ≤ s) :
    (c.slip p d).Near m s := by
  obtain ⟨hsm, hsp⟩ := mul_bounds hp hpm hs
  have hgap := gap_tick (c := c) (p := p) (d := d)
  have hlag := lag_tick (c := c) (p := p) (d := d)
  obtain ⟨hr1, hr2⟩ := abs_le.mp h.residue
  obtain ⟨r, hx, hr, -, -⟩ := tdiv_split hp (c.tick p d).lag
  obtain ⟨hm1, hm2⟩ := abs_lt.mp hr
  obtain ⟨hj1, hj2⟩ := abs_le.mp hj
  obtain ⟨hk1, hk2⟩ := abs_le.mp hk
  have hk1' := mul_le_mul_of_nonneg_right hk1 hp.le
  have h1 := h.source_nonneg
  have h2 := h.source_le
  have h3 := h.output_nonneg
  have h4 := h.output_le
  refine ⟨?_, ?_, ?_, ?_, ?_, ?_⟩
  · rw [gap_slip, lag_slip, gap_tick, lag_tick,
      show c.gap + d - p - p - (c.lag + d - p - p) = c.gap - c.lag by ring]
    exact h.residue
  · rw [gap_slip]
    exact abs_lt.mpr ⟨by linarith, by linarith⟩
  all_goals
    simp only [Clocks.slip]
    linarith

/-- A correction by `k` periods leaves the clocks near when what is left is at most `m`. -/
theorem Near.correct {k : ℤ} (hm : 0 < m) (hs : 0 ≤ s) (h : c.Near m s) (hd : 0 ≤ d)
    (hgap : |(c.tick p d).gap - k * p| ≤ m) (hout : 0 ≤ c.output + (p + k * p)) :
    (c.correct p d k).Near m s := by
  have hsm : 0 ≤ s * m := mul_nonneg hs hm.le
  refine ⟨?_, ?_, le_rfl, ?_, le_rfl, hout⟩
  · rw [gap_correct]
    simpa [Clocks.correct, lag] using hgap
  · rw [gap_correct]
    calc _ ≤ m := hgap
      _ < (s + 3) * m := by linarith
  · have := h.source_le
    have := h.source_nonneg
    simp only [Clocks.correct]
    omega

theorem Near.jump (hp : 0 < p) (hpm : p ≤ m) (hs : 0 ≤ s) (hd : 0 ≤ d) (h : c.Near m s) :
    (c.correct p d ((c.tick p d).gap.tdiv p)).Near m s := by
  have hgap := gap_tick (c := c) (p := p) (d := d)
  have hgd : c.gap = c.source - c.output := rfl
  have h1 := h.source_nonneg.trans h.source_le
  have h2 := h.output_nonneg.trans h.output_le
  obtain ⟨r, hx, hr, hpos, hneg⟩ := tdiv_split hp (c.tick p d).gap
  obtain ⟨hm1, hm2⟩ := abs_lt.mp hr
  refine h.correct (hp.trans_le hpm) hs hd (abs_le.mpr ⟨by linarith, by linarith⟩) ?_
  -- the output never passes the source downwards
  rcases le_total 0 (c.tick p d).gap with hx0 | hx0
  · have := mul_nonneg (hpos hx0).2 hp.le
    linarith
  · have := (hneg hx0).1
    linarith

theorem Near.settle (hp : 0 < p) (hpm : p ≤ m) (hs : 0 ≤ s) (hd : 0 ≤ d) (h : c.Near m s)
    (hj : |(c.tick p d).gap| ≤ (s + 2) * p) (hk : s < |(c.tick p d).lag.tdiv p|) :
    (c.correct p d ((c.tick p d).lag.tdiv p)).Near m s := by
  have hgap := gap_tick (c := c) (p := p) (d := d)
  have hlag := lag_tick (c := c) (p := p) (d := d)
  have hld : c.lag = c.sourceSum - c.outputSum := rfl
  have h1 := h.source_nonneg
  have h3 := h.output_nonneg
  have h4 := h.output_le
  obtain ⟨hr1, hr2⟩ := abs_le.mp h.residue
  obtain ⟨r, hx, hr, hpos, hneg⟩ := tdiv_split hp (c.tick p d).lag
  obtain ⟨hm1, hm2⟩ := abs_lt.mp hr
  obtain ⟨hj1, hj2⟩ := abs_le.mp hj
  -- more than `s` periods of lag, so what is left of the gap is on the residue's side
  rcases le_total 0 (c.tick p d).lag with hx0 | hx0
  · obtain ⟨hm0, hq0⟩ := hpos hx0
    rw [abs_of_nonneg hq0] at hk
    have hk' := mul_le_mul_of_nonneg_right (Int.add_one_le_iff.mpr hk) hp.le
    exact h.correct (hp.trans_le hpm) hs hd (abs_le.mpr ⟨by linarith, by linarith⟩) (by linarith)
  · obtain ⟨hm0, hq0⟩ := hneg hx0
    rw [abs_of_nonpos hq0] at hk
    have hk' := mul_le_mul_of_nonneg_right (Int.add_one_le_iff.mpr hk) hp.le
    exact h.correct (hp.trans_le hpm) hs hd (abs_le.mpr ⟨by linarith, by linarith⟩) (by linarith)

/-- **One frame keeps the clocks near.** -/
theorem Near.move (hp : 0 < p) (hpm : p ≤ m) (hs : 0 ≤ s) (hd : 0 ≤ d) (h : c.Near m s)
    (hmv : Move p s d c c') : c'.Near m s := by
  cases hmv with
  | resync => exact h.resync hp hpm hs
  | jump _ => exact h.jump hp hpm hs hd
  | tick hj => exact h.tick hp hpm hs hd hj
  | slip hj hk => exact h.slip hp hpm hs hd hj hk
  | settle hj hk => exact h.settle hp hpm hs hd hj hk

/-- The source makes its advance, or takes the output's place. -/
theorem Move.source_le (hmv : Move p s d c c') : c'.source ≤ max (c.source + d) (c.output + p) := by
  cases hmv with
  | resync => exact le_max_right _ _
  | jump hj => exact le_max_left _ _
  | tick hj => exact le_max_left _ _
  | slip hj hk => exact le_max_left _ _
  | settle hj hk => exact le_max_left _ _

/-- One frame moves the output only so far, either way. -/
theorem Near.output_bounds (hp : 0 < p) (hpm : p ≤ m) (hs : 0 ≤ s) (hd : 0 ≤ d) (h : c.Near m s)
    (hmv : Move p s d c c') :
    c.output ≤ c'.output + (s + 5) * m ∧ c'.output ≤ c.output + d + (s + 5) * m := by
  obtain ⟨hsm, hsp⟩ := mul_bounds hp hpm hs
  obtain ⟨hr1, hr2⟩ := abs_le.mp h.residue
  obtain ⟨hg1, hg2⟩ := abs_lt.mp h.close
  have hgap := gap_tick (c := c) (p := p) (d := d)
  have hlag := lag_tick (c := c) (p := p) (d := d)
  cases hmv with
  | resync =>
    simp only
    exact ⟨by linarith, by linarith⟩
  | jump hj =>
    obtain ⟨r, hx, hr, -, -⟩ := tdiv_split hp (c.tick p d).gap
    obtain ⟨hm1, hm2⟩ := abs_lt.mp hr
    simp only [Clocks.correct]
    exact ⟨by linarith, by linarith⟩
  | tick hj =>
    simp only [Clocks.tick]
    exact ⟨by linarith, by linarith⟩
  | slip hj hk =>
    simp only [Clocks.slip]
    exact ⟨by linarith, by linarith⟩
  | settle hj hk =>
    obtain ⟨r, hx, hr, -, -⟩ := tdiv_split hp (c.tick p d).lag
    obtain ⟨hm1, hm2⟩ := abs_lt.mp hr
    simp only [Clocks.correct]
    exact ⟨by linarith, by linarith⟩

/-- Every move is a whole number of periods. -/
theorem Move.phase (hmv : Move p s d c c') (h : p ∣ c.output) : p ∣ c'.output := by
  cases hmv with
  | resync => exact dvd_add h dvd_rfl
  | jump hj => exact dvd_add h (dvd_add dvd_rfl (Dvd.intro_left _ rfl))
  | tick hj => exact dvd_add h dvd_rfl
  | slip hj hk => exact dvd_add h (dvd_add dvd_rfl dvd_rfl)
  | settle hj hk => exact dvd_add h (dvd_add dvd_rfl (Dvd.intro_left _ rfl))

/-- **One frame keeps the lock.** -/
theorem Locked.move (hp : 0 < p) (hs : 0 ≤ s) (hd : 0 ≤ d) (h : c.Locked p s)
    (hmv : Move p s d c c') : c'.Locked p s := by
  have hn := h.near.move hp le_rfl hs hd hmv
  exact ⟨hmv.phase h.phase, hn.residue, hn.close, hn.source_nonneg, hn.source_le, hn.output_nonneg,
    hn.output_le⟩

/-- The output moves by a period or more, backwards exactly if `back`. -/
structure Steps (p : ℤ) (back : Prop) (c c' : Clocks) : Prop where
  backwards : back → c'.output + p ≤ c.output
  forwards : ¬ back → c.output + p ≤ c'.output

/-- A correction forwards. -/
theorem correct_forth {k : ℤ} (hp : 0 < p) (hk : 0 ≤ k) : c.output + p ≤ (c.correct p d k).output := by
  have := mul_nonneg hk hp.le
  simp only [Clocks.correct]
  linarith

/-- A correction backwards by two periods takes one back. -/
theorem correct_back {k : ℤ} (hp : 0 < p) (hk : k ≤ -2) : (c.correct p d k).output + p ≤ c.output := by
  have := mul_le_mul_of_nonneg_right hk hp.le
  simp only [Clocks.correct]
  linarith

end Clocks

end Lib
