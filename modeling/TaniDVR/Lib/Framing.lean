import Mathlib.Data.List.Infix
import Mathlib.Tactic.Common

/-!
# Lib.Framing — a stream of self-delimiting records

A record `m` is sent as `enc m`, a list of records as `encode enc ms`; the stream may end in the
middle of a record, in a remainder `tail`.  A reader is `AtBoundary` when its unread input begins
with a record of the list, and `Inside` the record `m` when `k` elements of `enc m` are consumed.
-/

namespace Lib

variable {α β : Type*}

/-- The records `ms` one after the other. -/
def encode (enc : α → List β) (ms : List α) : List β := ms.flatMap enc

/-- No encoding continues to another one. -/
def Delimited (enc : α → List β) : Prop := ∀ m m' r r', enc m ++ r = enc m' ++ r' → m = m'

/-- The unread input begins at one of the records `ms`, or behind all of them. -/
def AtBoundary (enc : α → List β) (ms : List α) (tail rest : List β) : Prop :=
  ∃ post, post <:+ ms ∧ rest = encode enc post ++ tail

/-- The record `m` of `ms` is read up to its first `k` elements. -/
def Inside (enc : α → List β) (ms : List α) (tail : List β) (m : α) (k : ℕ) (rest : List β) : Prop :=
  ∃ post, m :: post <:+ ms ∧ rest = (enc m).drop k ++ (encode enc post ++ tail)

variable {enc : α → List β} {ms : List α} {tail rest : List β} {m : α} {k : ℕ}

@[simp] theorem encode_nil : encode enc [] = [] := rfl

@[simp] theorem encode_cons (m : α) (ms : List α) : encode enc (m :: ms) = enc m ++ encode enc ms :=
  rfl

@[simp] theorem encode_append (xs ys : List α) :
    encode enc (xs ++ ys) = encode enc xs ++ encode enc ys := List.flatMap_append

/-- Streams of delimited records have one reading. -/
theorem encode_append_eq (hd : Delimited enc) (hne : ∀ m, enc m ≠ []) {xs ys : List α}
    {more : List β} (h : encode enc xs ++ more = encode enc ys) :
    ∃ zs, ys = xs ++ zs ∧ more = encode enc zs := by
  induction xs generalizing ys with
  | nil => exact ⟨ys, rfl, h⟩
  | cons x xs ih =>
    cases ys with
    | nil => simp [hne x] at h
    | cons y ys =>
      rw [encode_cons, encode_cons, List.append_assoc] at h
      have hxy := hd x y _ _ h
      subst hxy
      obtain ⟨zs, rfl, hmore⟩ := ih (List.append_cancel_left h)
      exact ⟨zs, rfl, hmore⟩

/-- Of one list of records, what is left of it tells how many are gone. -/
theorem suffix_eq_of_encode_eq (hne : ∀ m, enc m ≠ []) {xs ys : List α} (hx : xs <:+ ms)
    (hy : ys <:+ ms) (h : encode enc xs = encode enc ys) : xs = ys := by
  have hnil : ∀ {us : List α}, encode enc us = [] → us = [] := by
    intro us hu
    cases us with
    | nil => rfl
    | cons u us => exact absurd (List.append_eq_nil_iff.mp hu).1 (hne u)
  rcases List.suffix_or_suffix_of_suffix hx hy with ⟨us, rfl⟩ | ⟨us, rfl⟩
  · rw [encode_append, eq_comm, List.append_left_eq_self] at h
    rw [hnil h, List.nil_append]
  · rw [encode_append, List.append_left_eq_self] at h
    rw [hnil h, List.nil_append]

/-- A cut stream consists of whole records and the beginning of the next one. -/
theorem take_encode (enc : α → List β) (ms : List α) (n : ℕ) :
    ∃ pre post, ms = pre ++ post ∧ (encode enc pre).length ≤ n ∧
      ((encode enc ms).take n = encode enc pre ∨
        ∃ m post' k, post = m :: post' ∧ k < (enc m).length ∧
          (encode enc ms).take n = encode enc pre ++ (enc m).take k) := by
  induction ms generalizing n with
  | nil => exact ⟨[], [], rfl, by simp, .inl (by simp)⟩
  | cons m ms ih =>
    by_cases h : (enc m).length ≤ n
    · obtain ⟨pre, post, rfl, hlen, hcut⟩ := ih (n - (enc m).length)
      have htake : (encode enc (m :: (pre ++ post))).take n =
          enc m ++ (encode enc (pre ++ post)).take (n - (enc m).length) := by
        rw [encode_cons, List.take_append, List.take_of_length_le h]
      refine ⟨m :: pre, post, rfl, by rw [encode_cons, List.length_append]; omega, ?_⟩
      rcases hcut with hcut | ⟨m', post', k, rfl, hk, hcut⟩
      · exact .inl (by rw [htake, hcut, encode_cons])
      · exact .inr ⟨m', post', k, rfl, hk, by rw [htake, hcut, encode_cons, List.append_assoc]⟩
    · refine ⟨[], m :: ms, rfl, by simp, .inr ⟨m, ms, n, rfl, by omega, ?_⟩⟩
      rw [encode_cons, List.take_append_of_le_length (by omega), encode_nil, List.nil_append]

/-! ### The reading position -/

theorem AtBoundary.start : AtBoundary enc ms tail (encode enc ms ++ tail) :=
  ⟨ms, List.suffix_rfl, rfl⟩

/-- **A record read to its end leaves the reader at a boundary.** -/
theorem Inside.drop (h : Inside enc ms tail m k rest) :
    AtBoundary enc ms tail (rest.drop ((enc m).length - k)) := by
  obtain ⟨post, hp, hr⟩ := h
  refine ⟨post, (List.suffix_cons m post).trans hp, ?_⟩
  rw [hr, List.drop_left' List.length_drop]

/-- **A record left in the middle does not.** -/
theorem Inside.not_atBoundary (h : Inside enc ms tail m k rest) (h0 : 0 < k)
    (hk : k < (enc m).length) : ¬ AtBoundary enc ms tail rest := by
  rintro ⟨post', hp', hr'⟩
  obtain ⟨post, hp, hr⟩ := h
  have hlen : (enc m).length - k + (encode enc post).length = (encode enc post').length := by
    have := congrArg List.length (hr.symm.trans hr')
    simp only [List.length_append, List.length_drop] at this
    omega
  rcases List.suffix_or_suffix_of_suffix hp hp' with ⟨xs, hx⟩ | hx
  · have := congrArg (fun l => (encode enc l).length) hx
    simp only [encode_append, encode_cons, List.length_append] at this
    omega
  · rcases List.suffix_cons_iff.mp hx with rfl | ⟨xs, hx⟩
    · simp only [encode_cons, List.length_append] at hlen
      omega
    · have := congrArg (fun l => (encode enc l).length) hx
      simp only [encode_append, List.length_append] at this
      omega

end Lib
