import Mathlib.Data.List.Infix
import Mathlib.Tactic.Common

/-!
# Lib.Relay — what is relayed of sessions that break off

A relay serves one session after the other.  Each has a payload, and breaks off somewhere in it:
`Relayed payload n l` says that `l` is what came of the first `n` sessions, of each in turn a prefix
of its payload.  So nothing is duplicated or reordered, and what is lost is the end of a payload.

The relation is closed under prefixes (`Relayed.of_prefix`), and passes to another reading of the
payloads where it does for one session (`Relayed.lift`).
-/

namespace Lib

variable {α β γ : Type*} {payload : ℕ → List α} {n : ℕ} {l l' : List α}

/-- Of each of the first `n` payloads in turn a prefix. -/
inductive Relayed (payload : ℕ → List α) : ℕ → List α → Prop
  | none : Relayed payload 0 []
  | session {n : ℕ} {l part : List α} (h : Relayed payload n l) (hpart : part <+: payload n) :
      Relayed payload (n + 1) (l ++ part)

namespace Relayed

/-- A session of which nothing came. -/
theorem silent (h : Relayed payload n l) : Relayed payload (n + 1) l := by
  have h' := h.session List.nil_prefix
  rwa [List.append_nil] at h'

/-- What is relayed first. -/
theorem of_prefix (h : Relayed payload n l) (hl : l' <+: l) : Relayed payload n l' := by
  induction h generalizing l' with
  | none =>
    rw [List.prefix_nil.mp hl]
    exact .none
  | @session n l part h hpart ih =>
    rcases List.prefix_or_prefix_of_prefix hl (List.prefix_append l part) with hle | ⟨part', rfl⟩
    · exact (ih hle).silent
    · exact h.session (((List.prefix_append_right_inj l).mp hl).trans hpart)

/-- Longer payloads. -/
theorem mono {payload' : ℕ → List α} (hp : ∀ i, payload i <+: payload' i)
    (h : Relayed payload n l) : Relayed payload' n l := by
  induction h with
  | none => exact .none
  | session _ hpart ih => exact ih.session (hpart.trans (hp _))

/-- Nothing is made up. -/
theorem mem {x : α} (h : Relayed payload n l) (hx : x ∈ l) : ∃ i < n, x ∈ payload i := by
  induction h with
  | none => cases hx
  | @session n l part h hpart ih =>
    rcases List.mem_append.mp hx with hx | hx
    · obtain ⟨i, hi, hmem⟩ := ih hx
      exact ⟨i, by omega, hmem⟩
    · exact ⟨n, by omega, hpart.subset hx⟩

/-- **Another reading of the payloads**: items `γ` that stand for elements of both kinds, where those
of a prefix of one payload stand for a prefix of the other. -/
theorem lift {f : List γ → List α} {g : List γ → List β} {payload' : ℕ → List β} (hf : f [] = [])
    (hg : g [] = []) (hfa : ∀ xs ys, f (xs ++ ys) = f xs ++ f ys)
    (hga : ∀ xs ys, g (xs ++ ys) = g xs ++ g ys)
    (hpart : ∀ i < n, ∀ part, part <+: payload i → ∃ qs, f qs = part ∧ g qs <+: payload' i)
    (h : Relayed payload n l) : ∃ qs, f qs = l ∧ Relayed payload' n (g qs) := by
  induction h with
  | none => exact ⟨[], hf, hg ▸ .none⟩
  | @session n l part h hp ih =>
    obtain ⟨qs, rfl, hqs⟩ := ih fun i hi => hpart i (by omega)
    obtain ⟨rs, rfl, hrs⟩ := hpart n (by omega) _ hp
    refine ⟨qs ++ rs, hfa qs rs, ?_⟩
    rw [hga]
    exact hqs.session hrs

end Relayed

end Lib
