import Mathlib.Data.List.Induction
import Mathlib.Tactic.Common

/-!
# Lib.LastWrite — commands of which the last write counts

A list of commands is carried out by a fold that may fail.  It keeps what each command keeps
(`foldlM_invariant`).  Where each command, carried out in the state that the ones before it mean,
succeeds exactly if it is well formed, and leads to the state that all of them mean, so does the
list (`foldlM_eq_ok`).  In such a meaning a register holds what the last command of its kind wrote,
`lastOf kind l`.
-/

namespace Lib

variable {σ α ε : Type*}

/-- The last command of a kind. -/
def lastOf (kind : α → Bool) (l : List α) : Option α := (l.filter kind).getLast?

@[simp] theorem lastOf_nil (kind : α → Bool) : lastOf kind [] = none := rfl

@[simp] theorem lastOf_concat (kind : α → Bool) (l : List α) (a : α) :
    lastOf kind (l ++ [a]) = if kind a then some a else lastOf kind l := by
  unfold lastOf
  rw [List.filter_append]
  by_cases h : kind a = true
  · simp [h]
  · simp [h]

variable {step : σ → α → Except ε σ}

/-- **What each command keeps**; `done` are the commands carried out so far. -/
theorem foldlM_invariant {I : List α → σ → Prop}
    (hstep : ∀ {done s a t}, I done s → step s a = .ok t → I (done ++ [a]) t) {l done : List α}
    {s t : σ} (hI : I done s) (h : l.foldlM step s = .ok t) : I (done ++ l) t := by
  induction l generalizing done s with
  | nil =>
    cases h
    rwa [List.append_nil]
  | cons a l ih =>
    rw [List.foldlM_cons] at h
    cases hs : step s a with
    | error e =>
      rw [hs] at h
      cases h
    | ok u =>
      rw [hs] at h
      have := ih (hstep hI hs) h
      rwa [List.append_assoc] at this

/-- **The meaning of the commands**: the list succeeds exactly if each is well formed, and leads to
the state that it means. -/
theorem foldlM_eq_ok {Ok : α → Prop} {meaning : List α → σ} {l : List α}
    (h : ∀ a ∈ l, ∀ done t, step (meaning done) a = .ok t ↔ Ok a ∧ t = meaning (done ++ [a]))
    (done : List α) (t : σ) :
    l.foldlM step (meaning done) = .ok t ↔ (∀ a ∈ l, Ok a) ∧ t = meaning (done ++ l) := by
  induction l generalizing done with
  | nil =>
    show Except.ok (meaning done) = Except.ok t ↔ _
    simp [eq_comm]
  | cons a l ih =>
    have ha := h a List.mem_cons_self done
    rw [List.foldlM_cons]
    cases hs : step (meaning done) a with
    | error e =>
      refine ⟨fun hbad => (by cases hbad), fun hall => ?_⟩
      have := (ha _).mpr ⟨hall.1 a List.mem_cons_self, rfl⟩
      rw [hs] at this
      cases this
    | ok u =>
      obtain ⟨hok, rfl⟩ := (ha u).mp hs
      show l.foldlM step (meaning (done ++ [a])) = .ok t ↔ _
      rw [ih fun b hb => h b (List.mem_cons_of_mem a hb), List.forall_mem_cons, List.append_assoc]
      simp [hok]

end Lib
