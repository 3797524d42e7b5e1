import TaniDVR.TsProc

/-!
# Backwards — when the corrected clock goes back

The corrections of `dt_tsproc_process` go both ways.  `backwards_iff`: over any run, with settings that
may change at every frame, the clock goes back exactly at the frames where a correction takes it
(`StepsBack`), and advances by a reference period or more at all others.

The clocks are kept `Near` for the longest reference period, `maxPeriod`.
-/

namespace TaniDVR

open Lib

/-- The longest reference period: one frame per second from an NTSC source. -/
def maxPeriod : ℤ := 1001000000

theorem refPeriodOf_le (mcp : McParms) : refPeriodOf mcp ≤ maxPeriod := by
  unfold refPeriodOf refPeriod maxPeriod
  have h1 := Nat.div_le_self 1001000000 mcp.dhavFps.toNat
  have h2 := Nat.div_le_self 1000000000 mcp.dhavFps.toNat
  split_ifs <;> omega

/-- A frame is more than a msec. -/
theorem le_refPeriodOf {mcp : McParms} (h : mcp.dhavFps ≠ 0) : 1000000 ≤ refPeriodOf mcp := by
  have hpos := toNat_pos_of_ne_zero h
  have hlt := mcp.dhavFps.toNat_lt
  have h1 : 1000000 ≤ 1001000000 / mcp.dhavFps.toNat :=
    (Nat.le_div_iff_mul_le hpos).mpr (by omega)
  have h2 : 1000000 ≤ 1000000000 / mcp.dhavFps.toNat :=
    (Nat.le_div_iff_mul_le hpos).mpr (by omega)
  unfold refPeriodOf refPeriod
  split_ifs
  · exact_mod_cast h1
  · exact_mod_cast h2

/-- The invariant of a run: nothing usable was seen, or the clocks are near and exact. -/
def NearInv (seen : Prop) (tsc : TsProc) : Prop :=
  (¬ seen ∧ tsc.vFirstFrame = true) ∨
    (seen ∧ tsc.vFirstFrame = false ∧
      ∃ c : Clocks, (tsc.vDhavTimestamp : ℤ) = c.source ∧ (tsc.vTimestamp : ℤ) = c.output ∧
        Tracks tsc c ∧ c.Near maxPeriod 2)

/-- The clock of a state is this far from its end, longer than any frame moves it. -/
def FarFromEnd (tsc : TsProc) : Prop := tsc.vTimestamp < 2 ^ 64 - 2 ^ 37

/-- The clock at the frame `mcp` goes back. -/
def GoesBack (tsc : TsProc) (mcp : McParms) : Prop :=
  Usable mcp ∧ StepsBack (tsc.sync mcp) (refPeriodOf mcp) (dhavPeriod mcp.vDhavTs tsc.vDhavTs)

section Step

variable {seen : Prop} {tsc : TsProc} {mcp : McParms}

/-- The first usable frame starts the clocks near. -/
theorem NearInv.first (hu : Usable mcp) (hf : tsc.vFirstFrame = true) :
    ∃ r tsc', dtTsprocProcess tsc mcp = .ok (r, tsc') ∧ NearInv (seen ∨ Usable mcp) tsc' := by
  obtain ⟨r, tsc', hr, hf', ht'⟩ := dtTsprocProcess_first hu hf
  refine ⟨r, tsc', hr, .inr ⟨.inr hu, hf', ⟨0, 0, 0, 0⟩, ?_, ?_, ht', ?_⟩⟩
  · simpa using ht'.source
  · simpa using ht'.output
  · exact (Clocks.locked_zero (by decide) (by decide)).near

/-- A later one keeps them near, and moves them as `GoesBack` says. -/
theorem NearInv.later (hu : Usable mcp) (hfps : mcp.dhavFps ≠ 0) (hs : seen)
    (hi : NearInv seen tsc) (hfar : FarFromEnd tsc) :
    ∃ tsc', dtTsprocProcess tsc mcp = .ok (none, tsc') ∧ NearInv (seen ∨ Usable mcp) tsc' ∧
      (GoesBack tsc mcp → (tsc'.vTimestamp : ℤ) + refPeriodOf mcp ≤ tsc.vTimestamp) ∧
      (¬ GoesBack tsc mcp → (tsc.vTimestamp : ℤ) + refPeriodOf mcp ≤ tsc'.vTimestamp) := by
  rcases hi with ⟨hn, -⟩ | ⟨-, hf, c, hsrc, hout, ht, hL⟩
  · exact absurd hs hn
  have hp := refPeriodOf_bounds hfps
  have hpm := refPeriodOf_le mcp
  have hd := dhavPeriod_bounds mcp.vDhavTs tsc.vDhavTs
  obtain ⟨tsc', c', hr, hf', ht', hm, hst⟩ :=
    dtTsprocProcess_later hu hf hfps ht hpm (by decide) hL
  have hL' := hL.move hp.1 hpm (by decide) hd.1 hm
  have hle := hL.output_bounds hp.1 hpm (by decide) hd.1 hm
  have hclose := abs_lt.mp hL.close
  have hgap : c.gap = c.source - c.output := rfl
  have hmax : maxPeriod = 1001000000 := rfl
  have hsource := le_max_iff.mp hm.source_le
  have h1 := hL'.source_nonneg
  have h2 := hL'.source_le
  have h3 := hL'.output_nonneg
  have h4 := hL'.output_le
  have h5 := ht'.source
  have h6 := ht'.output
  unfold FarFromEnd at hfar
  have hsrc' : (tsc'.vDhavTimestamp : ℤ) = c'.source := by omega
  have hout' : (tsc'.vTimestamp : ℤ) = c'.output := by omega
  refine ⟨tsc', hr, .inr ⟨.inl hs, hf', c', hsrc', hout', ht', hL'⟩, fun hb => ?_, fun hb => ?_⟩
  · rw [hout, hout']
    exact hst.backwards hb.2
  · rw [hout, hout']
    exact hst.forwards fun h => hb ⟨hu, h⟩

/-- One call keeps the invariant. -/
theorem NearInv.step (hfps : Usable mcp → mcp.dhavFps ≠ 0) (hi : NearInv seen tsc)
    (hfar : seen → FarFromEnd tsc) :
    ∃ r tsc', dtTsprocProcess tsc mcp = .ok (r, tsc') ∧ NearInv (seen ∨ Usable mcp) tsc' := by
  by_cases hu : Usable mcp
  · rcases hi with ⟨-, hf⟩ | ⟨hs, hi⟩
    · exact NearInv.first hu hf
    · obtain ⟨tsc', hr, hi', -⟩ := NearInv.later hu (hfps hu) hs (.inr ⟨hs, hi⟩) (hfar hs)
      exact ⟨none, tsc', hr, hi'⟩
  · obtain ⟨r, hr⟩ := dtTsprocProcess_of_not_usable tsc hu
    exact ⟨some r, tsc, hr, by simpa [hu] using hi⟩

end Step

/-- Every run keeps it. -/
theorem NearInv.run (heap : TsProc) (frames : List McParms)
    (hfps : ∀ mcp ∈ frames, Usable mcp → mcp.dhavFps ≠ 0)
    (hfar : ∀ pre tsc, pre <+: frames → (∃ mcp ∈ pre, Usable mcp) →
      tsprocRun (dtTsprocInit heap) pre = .ok tsc → FarFromEnd tsc) :
    ∃ tsc, tsprocRun (dtTsprocInit heap) frames = .ok tsc ∧
      NearInv (∃ mcp ∈ frames, Usable mcp) tsc := by
  induction frames using List.reverseRecOn with
  | nil => exact ⟨_, rfl, .inl ⟨by simp, rfl⟩⟩
  | append_singleton frames mcp ih =>
    have hpre : frames <+: frames ++ [mcp] := List.prefix_append _ _
    obtain ⟨tsc, hrun, hi⟩ := ih (fun m hm => hfps m (List.mem_append_left _ hm))
      (fun pre t h => hfar pre t (h.trans hpre))
    obtain ⟨r, tsc', hr, hi'⟩ := hi.step (hfps mcp (by simp)) fun hs => hfar frames tsc hpre hs hrun
    refine ⟨tsc', tsprocRun_concat hrun hr, ?_⟩
    · have hex : (∃ m ∈ frames ++ [mcp], Usable m) ↔ (∃ m ∈ frames, Usable m) ∨ Usable mcp := by
        simp [or_and_right, exists_or]
      rwa [hex]

/-- **The corrected clock goes back exactly where a correction takes it back**, and the times of the
Clusters with it; at every other video frame it advances by a reference period or more. -/
theorem backwards_iff (heap : TsProc) (frames : List McParms) (mcp : McParms)
    (hfps : ∀ m ∈ frames ++ [mcp], Usable m → m.dhavFps ≠ 0) (hseen : ∃ m ∈ frames, Usable m)
    (hfar : ∀ pre tsc, pre <+: frames → (∃ m ∈ pre, Usable m) →
      tsprocRun (dtTsprocInit heap) pre = .ok tsc → FarFromEnd tsc) :
    ∃ t t', tsprocRun (dtTsprocInit heap) frames = .ok t ∧
      tsprocRun (dtTsprocInit heap) (frames ++ [mcp]) = .ok t' ∧
      (t'.vTimestamp < t.vTimestamp ↔ GoesBack t mcp) ∧
      (t'.vTimestamp / 1000 < t.vTimestamp / 1000 ↔ GoesBack t mcp) ∧
      (Usable mcp → ¬ GoesBack t mcp → t.vTimestamp + refPeriodOf mcp ≤ t'.vTimestamp) := by
  obtain ⟨t, hrun, hi⟩ := NearInv.run heap frames
    (fun m hm => hfps m (List.mem_append_left _ hm)) hfar
  have hrun' : ∀ r t', dtTsprocProcess t mcp = .ok (r, t') →
      tsprocRun (dtTsprocInit heap) (frames ++ [mcp]) = .ok t' :=
    fun _ _ hr => tsprocRun_concat hrun hr
  by_cases hu : Usable mcp
  · have hne := hfps mcp (by simp) hu
    obtain ⟨t', hr, -, hback, hforth⟩ :=
      NearInv.later hu hne hseen hi (hfar frames t List.prefix_rfl hseen hrun)
    have hp := le_refPeriodOf hne
    refine ⟨t, t', hrun, hrun' none t' hr, ?_, ?_, fun _ => hforth⟩
    all_goals
      by_cases hb : GoesBack t mcp
      · have := hback hb
        simp only [hb, iff_true]
        omega
      · have := hforth hb
        simp only [hb, iff_false]
        omega
  · obtain ⟨r, hr⟩ := dtTsprocProcess_of_not_usable t hu
    have hb : ¬ GoesBack t mcp := fun h => hu h.1
    exact ⟨t, t, hrun, hrun' _ t hr, by simp [hb], by simp [hb], fun h => absurd h hu⟩

theorem backwards_iff_dropped_frames :
    ∃ t t', tsprocRun (dtTsprocInit default) [palFrame 0, palFrame 40] = .ok t ∧
      tsprocRun (dtTsprocInit default) ([palFrame 0, palFrame 40] ++ [palFrame 400]) = .ok t' ∧
      (t'.vTimestamp < t.vTimestamp ↔ GoesBack t (palFrame 400)) ∧
      (t'.vTimestamp / 1000 < t.vTimestamp / 1000 ↔ GoesBack t (palFrame 400)) ∧
      (Usable (palFrame 400) → ¬ GoesBack t (palFrame 400) →
        t.vTimestamp + refPeriodOf (palFrame 400) ≤ t'.vTimestamp) := by
  refine backwards_iff default _ (palFrame 400) ?_ ⟨palFrame 0, by simp, by decide⟩ ?_
  · intro m hm _
    simp only [List.cons_append, List.nil_append, List.mem_cons, List.not_mem_nil, or_false] at hm
    rcases hm with rfl | rfl | rfl <;> decide
  · intro pre t hpre _ hrun
    rw [← List.mem_inits] at hpre
    simp only [List.inits, List.map, List.mem_cons, List.not_mem_nil, or_false] at hpre
    rcases hpre with rfl | rfl | rfl <;> cases hrun <;> unfold FarFromEnd <;> decide

/-- Six frames with the same timestamp: the sixth takes the clock from 160 msec back to zero. -/
theorem frozen_timestamp_goes_back :
    ¬ ∀ (heap : TsProc) (frames : List McParms) (mcp : McParms) (t t' : TsProc), frames ≠ [] →
      (∀ m ∈ frames ++ [mcp], Usable m ∧ m.dhavFps ≠ 0) →
      tsprocRun (dtTsprocInit heap) frames = .ok t →
      tsprocRun (dtTsprocInit heap) (frames ++ [mcp]) = .ok t' → t.vTimestamp ≤ t'.vTimestamp := by
  intro h
  have hmem : ∀ m ∈ List.replicate 5 (palFrame 0) ++ [palFrame 0], Usable m ∧ m.dhavFps ≠ 0 := by
    intro m hm
    rw [← List.replicate_succ'] at hm
    obtain rfl := List.eq_of_mem_replicate hm
    decide
  have hle := h default (List.replicate 5 (palFrame 0)) (palFrame 0) _ _ (by decide) hmem rfl rfl
  exact absurd hle (by decide)

end TaniDVR
