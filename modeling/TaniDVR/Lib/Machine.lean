import Mathlib.Logic.Relation
import Mathlib.Tactic.Common

/-!
# Lib.Machine — deterministic machines that may stop

A machine is a partial step function `step : σ → Option σ`; it stops in the states where `step` is
`none`.  `Reach` is its run relation, `Halts step s t` says that the run from `s` ends in `t`, and
`runFor n s` executes at most `n` steps.  The rules: an invariant holds along a run
(`Reach.invariant`), runs of two machines match when their steps do (`Reach.simulated`), an
invariant with a decreasing measure gives a halting run (`halts_of_measure`), a set of states that
the machine cannot leave and in which it always steps gives none (`not_halts`).
-/

namespace Lib

variable {σ : Type*} {step : σ → Option σ}

/-- `t` is reached from `s` by zero or more steps. -/
def Reach (step : σ → Option σ) : σ → σ → Prop := Relation.ReflTransGen (fun s t => step s = some t)

/-- The run from `s` ends in `t`. -/
def Halts (step : σ → Option σ) (s t : σ) : Prop := Reach step s t ∧ step t = none

/-- At most `n` steps. -/
def runFor (step : σ → Option σ) : ℕ → σ → σ
  | 0, s => s
  | n + 1, s => match step s with
    | none => s
    | some t => runFor step n t

theorem Reach.refl (s : σ) : Reach step s s := Relation.ReflTransGen.refl

theorem Reach.trans {s t u : σ} (h : Reach step s t) (h' : Reach step t u) : Reach step s u :=
  Relation.ReflTransGen.trans h h'

theorem Reach.tail {s t u : σ} (h : Reach step s t) (h' : step t = some u) : Reach step s u :=
  Relation.ReflTransGen.tail h h'

theorem Reach.head {s t u : σ} (h : step s = some t) (h' : Reach step t u) : Reach step s u :=
  Relation.ReflTransGen.head h h'

theorem reach_runFor (n : ℕ) (s : σ) : Reach step s (runFor step n s) := by
  induction n generalizing s with
  | zero => exact .refl s
  | succ n ih =>
    unfold runFor
    cases h : step s with
    | none => exact .refl s
    | some t => exact .head h (ih t)

/-- **Invariant rule.** -/
theorem Reach.invariant {P : σ → Prop} (hstep : ∀ s t, P s → step s = some t → P t) {s t : σ}
    (h : Reach step s t) (hs : P s) : P t := by
  induction h with
  | refl => exact hs
  | tail _ hst ih => exact hstep _ _ ih hst

/-- Runs are linear: of two states reached from `s` one is reached from the other. -/
theorem Reach.total {s t u : σ} (h : Reach step s t) (h' : Reach step s u) :
    Reach step t u ∨ Reach step u t :=
  Relation.ReflTransGen.total_of_right_unique
    (fun _ _ _ h1 h2 => Option.some.inj (h1.symm.trans h2)) h h'

/-- **Simulation rule**: where a run of another machine matches each step, one matches each run. -/
theorem Reach.simulated {τ : Type*} {f : τ → Option τ} {R : σ → τ → Prop}
    (hstep : ∀ s t a, R s a → step s = some t → ∃ b, Reach f a b ∧ R t b) {s t : σ} {a : τ}
    (h : Reach step s t) (hs : R s a) : ∃ b, Reach f a b ∧ R t b := by
  induction h with
  | refl => exact ⟨a, .refl a, hs⟩
  | tail _ hst ih =>
    obtain ⟨b, hab, hb⟩ := ih
    obtain ⟨c, hbc, hc⟩ := hstep _ _ _ hb hst
    exact ⟨c, hab.trans hbc, hc⟩

/-- A stopped machine goes nowhere. -/
theorem Reach.eq_of_stopped {s t : σ} (hs : step s = none) (h : Reach step s t) : t = s := by
  rcases Relation.ReflTransGen.cases_head h with h | ⟨c, hc, -⟩
  · exact h.symm
  · rw [hs] at hc
    cases hc

/-- A halting run passes through every state reached. -/
theorem Halts.of_reach {s t u : σ} (h : Halts step s t) (h' : Reach step s u) : Halts step u t := by
  rcases h'.total h.1 with hu | hu
  · exact ⟨hu, h.2⟩
  · have := Reach.eq_of_stopped h.2 hu
    subst this
    exact ⟨.refl _, h.2⟩

/-- The final state is unique. -/
theorem Halts.unique {s t u : σ} (h : Halts step s t) (h' : Halts step s u) : t = u := by
  have h2 := h.of_reach h'.1
  exact Reach.eq_of_stopped h'.2 h2.1

/-- **Termination rule**: an invariant under which every step decreases a measure. -/
theorem halts_of_measure {P : σ → Prop} (μ : σ → ℕ)
    (hstep : ∀ s t, P s → step s = some t → P t ∧ μ t < μ s) {s : σ} (hs : P s) :
    ∃ t, Halts step s t ∧ P t := by
  induction hn : μ s using Nat.strongRecOn generalizing s with
  | _ n ih =>
    cases h : step s with
    | none => exact ⟨s, ⟨.refl s, h⟩, hs⟩
    | some u =>
      obtain ⟨hu, hlt⟩ := hstep s u hs h
      obtain ⟨t, ⟨hr, ht⟩, hPt⟩ := ih (μ u) (by omega) hu rfl
      exact ⟨t, ⟨.head h hr, ht⟩, hPt⟩

/-- **Non-termination rule**: states that always step and never leave. -/
theorem not_halts {P : σ → Prop} (hstep : ∀ s, P s → ∃ t, step s = some t ∧ P t) {s : σ}
    (hs : P s) : ¬ ∃ t, Halts step s t := by
  rintro ⟨t, hr, ht⟩
  have hP : P t := hr.invariant (fun a b ha hab => by
    obtain ⟨c, hc, hPc⟩ := hstep a ha
    rw [hc] at hab
    cases hab
    exact hPc) hs
  obtain ⟨u, hu, -⟩ := hstep t hP
  rw [ht] at hu
  cases hu

end Lib
