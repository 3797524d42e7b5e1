import Mathlib.Data.List.Basic
import Mathlib.Data.List.GetD
import Mathlib.Logic.Function.Basic
import Mathlib.Tactic.Common

/-!
# Lib.Slice — finite pieces of an unbounded array

An array is a function `ℕ → α`; `slice m a n` is the list of its `n` cells from `a` on and
`blit m a xs` overwrites the cells from `a` on by `xs`.  A list is read as an array with `ofList`.
-/

namespace Lib

variable {α : Type*}

/-- A search goes on behind its first place. -/
theorem forall_between_succ {P : ℕ → Prop} {i n : ℕ} :
    (∀ j, i ≤ j → j < i + (n + 1) → P j) ↔ P i ∧ ∀ j, i + 1 ≤ j → j < i + 1 + n → P j := by
  constructor
  · intro h
    exact ⟨h i (Nat.le_refl i) (by omega), fun j h1 h2 => h j (by omega) (by omega)⟩
  · rintro ⟨hi, h⟩ j h1 h2
    rcases Nat.eq_or_lt_of_le h1 with rfl | hlt
    · exact hi
    · exact h j hlt (by omega)

/-- The `n` cells of `m` from `a` on. -/
def slice (m : ℕ → α) (a : ℕ) : ℕ → List α
  | 0 => []
  | n + 1 => m a :: slice m (a + 1) n

/-- `m` with the cells from `a` on overwritten by `xs`. -/
def blit (m : ℕ → α) (a : ℕ) (xs : List α) : ℕ → α :=
  fun i => if a ≤ i then xs.getD (i - a) (m i) else m i

/-- A list as an array (`default` past its end). -/
def ofList [Inhabited α] (xs : List α) : ℕ → α := fun i => xs.getD i default

/-- A list with the cells from `a` on overwritten by `xs`. -/
def overwrite : List α → ℕ → List α → List α
  | l, 0, xs => xs ++ l.drop xs.length
  | [], _ + 1, _ => []
  | b :: l, a + 1, xs => b :: overwrite l a xs

theorem length_overwrite {l : List α} {n a : ℕ} {xs : List α} (hl : l.length = n)
    (h : a + xs.length ≤ n) : (overwrite l a xs).length = n := by
  induction a generalizing l n with
  | zero =>
    simp only [overwrite, List.length_append, List.length_drop]
    omega
  | succ a ih =>
    cases l with
    | nil => exact hl
    | cons b l =>
      simp only [List.length_cons] at hl
      simp only [overwrite, List.length_cons]
      rw [ih (n := n - 1) (by omega) (by omega)]
      omega

/-! ### Slices -/

@[simp] theorem slice_zero (m : ℕ → α) (a : ℕ) : slice m a 0 = [] := rfl

theorem slice_succ (m : ℕ → α) (a n : ℕ) : slice m a (n + 1) = m a :: slice m (a + 1) n := rfl

@[simp] theorem length_slice (m : ℕ → α) (a n : ℕ) : (slice m a n).length = n := by
  induction n generalizing a with
  | zero => rfl
  | succ n ih => simp [slice_succ, ih]

@[simp] theorem getElem_slice (m : ℕ → α) (a n i : ℕ) (h : i < (slice m a n).length) :
    (slice m a n)[i] = m (a + i) := by
  induction n generalizing a i with
  | zero => simp at h
  | succ n ih =>
    cases i with
    | zero => simp [slice_succ]
    | succ i =>
      simp only [slice_succ, List.getElem_cons_succ]
      rw [ih]
      congr 1
      omega

theorem slice_append (m : ℕ → α) (a n k : ℕ) :
    slice m a n ++ slice m (a + n) k = slice m a (n + k) := by
  induction n generalizing a with
  | zero => simp
  | succ n ih =>
    rw [show n + 1 + k = (n + k) + 1 by omega, slice_succ, slice_succ, List.cons_append, ← ih (a + 1),
      show a + 1 + n = a + (n + 1) by omega]

theorem slice_congr {m m' : ℕ → α} {a b n : ℕ} (h : ∀ i < n, m (a + i) = m' (b + i)) :
    slice m a n = slice m' b n :=
  List.ext_getElem (by simp) (fun i h1 _ => by
    rw [getElem_slice, getElem_slice]
    exact h i (by simpa using h1))

theorem slice_eq_iff {m m' : ℕ → α} {a b n : ℕ} :
    slice m a n = slice m' b n ↔ ∀ i < n, m (a + i) = m' (b + i) := by
  refine ⟨fun h i hi => ?_, slice_congr⟩
  have := congrArg (fun l => l[i]?) h
  simpa [hi] using this

theorem take_slice (m : ℕ → α) (a n k : ℕ) (h : k ≤ n) : (slice m a n).take k = slice m a k :=
  List.ext_getElem (by simp [h]) (fun i _ _ => by simp)

theorem drop_slice (m : ℕ → α) (a n k : ℕ) : (slice m a n).drop k = slice m (a + k) (n - k) :=
  List.ext_getElem (by simp) (fun i _ _ => by simp [Nat.add_assoc])

/-! ### Overwriting -/

theorem blit_of_lt {m : ℕ → α} {a i : ℕ} {xs : List α} (h : i < a) : blit m a xs i = m i := by
  simp [blit, Nat.not_le.mpr h]

theorem blit_of_ge {m : ℕ → α} {a i : ℕ} {xs : List α} (h : a + xs.length ≤ i) :
    blit m a xs i = m i := by
  unfold blit
  split_ifs with hai
  · exact List.getD_eq_default _ _ (by omega)
  · rfl

theorem blit_add {m : ℕ → α} {a i : ℕ} {xs : List α} (h : i < xs.length) :
    blit m a xs (a + i) = xs[i] := by
  simp [blit, h]

/-- Overwriting cell after cell. -/
theorem blit_cons (m : ℕ → α) (a : ℕ) (x : α) (xs : List α) :
    blit m a (x :: xs) = blit (Function.update m a x) (a + 1) xs := by
  ext i
  rcases Nat.lt_trichotomy i a with hlt | rfl | hgt
  · rw [blit_of_lt hlt, blit_of_lt (by omega), Function.update_of_ne (by omega)]
  · rw [blit_of_lt (Nat.lt_succ_self i), Function.update_self, ← Nat.add_zero i]
    exact blit_add (by simp)
  · obtain ⟨j, rfl⟩ : ∃ j, i = a + 1 + j := ⟨i - (a + 1), by omega⟩
    have hne : a + 1 + j ≠ a := by omega
    simp [blit, Function.update_of_ne hne, show a + 1 + j - a = j + 1 by omega,
      show a ≤ a + 1 + j by omega]

@[simp] theorem blit_nil (m : ℕ → α) (a : ℕ) : blit m a [] = m := by
  ext i
  by_cases h : i < a
  · exact blit_of_lt h
  · exact blit_of_ge (by rw [List.length_nil]; omega)

/-- The overwritten cells read back. -/
@[simp] theorem slice_blit (m : ℕ → α) (a : ℕ) (xs : List α) :
    slice (blit m a xs) a xs.length = xs :=
  List.ext_getElem (by simp) (fun i _ h => by rw [getElem_slice, blit_add h])

/-- Cells outside the overwritten region are kept. -/
theorem slice_blit_of_disjoint {m : ℕ → α} {a b n : ℕ} {xs : List α}
    (h : b + n ≤ a ∨ a + xs.length ≤ b) : slice (blit m a xs) b n = slice m b n := by
  refine slice_congr ?_
  intro i hi
  rcases h with h | h
  · exact blit_of_lt (by omega)
  · exact blit_of_ge (by omega)

/-! ### Lists as arrays -/

variable [Inhabited α]

theorem ofList_of_lt {xs : List α} {i : ℕ} (h : i < xs.length) : ofList xs i = xs[i] := by
  simp [ofList, h]

theorem slice_ofList {xs : List α} {a n : ℕ} (h : a + n ≤ xs.length) :
    slice (ofList xs) a n = (xs.drop a).take n :=
  List.ext_getElem (by simp; omega) (fun i h1 h2 => by
    simp only [length_slice] at h1
    rw [getElem_slice, ofList_of_lt (by omega)]
    simp)

@[simp] theorem slice_ofList_self (xs : List α) : slice (ofList xs) 0 xs.length = xs := by
  rw [slice_ofList (by omega)]
  simp

theorem ofList_slice {m : ℕ → α} {a n i : ℕ} (h : i < n) : ofList (slice m a n) i = m (a + i) := by
  rw [ofList_of_lt (by rwa [length_slice]), getElem_slice]

theorem ofList_append_left {xs ys : List α} {i : ℕ} (h : i < xs.length) :
    ofList (xs ++ ys) i = ofList xs i := by
  rw [ofList_of_lt (by simp; omega), ofList_of_lt h, List.getElem_append_left h]

theorem ofList_append_right {xs ys : List α} {i : ℕ} :
    ofList (xs ++ ys) (xs.length + i) = ofList ys i := by
  simp [ofList, List.getD, List.getElem?_append_right]

theorem ofList_drop {xs : List α} {k i : ℕ} : ofList (xs.drop k) i = ofList xs (k + i) := by
  simp [ofList, List.getD]

theorem ofList_take {xs : List α} {k i : ℕ} (h : i < k) : ofList (xs.take k) i = ofList xs i := by
  simp [ofList, List.getD, h]

/-- Occurrences of a pattern are slices. -/
theorem isInfix_iff_slice {p xs : List α} :
    p <:+: xs ↔ ∃ i, i + p.length ≤ xs.length ∧ slice (ofList xs) i p.length = p := by
  constructor
  · rintro ⟨s, t, rfl⟩
    refine ⟨s.length, by simp, ?_⟩
    rw [slice_ofList (by simp), List.append_assoc, List.drop_left, List.take_left]
  · rintro ⟨i, hi, h⟩
    rw [slice_ofList hi] at h
    rw [← h]
    exact (List.take_prefix _ _).isInfix.trans (List.drop_suffix _ _).isInfix

end Lib
