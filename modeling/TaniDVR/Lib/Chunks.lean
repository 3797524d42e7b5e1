import TaniDVR.Lib.Slice

/-!
# Lib.Chunks — lists cut into pieces that tell their own length

`chunks size xs` is the list `xs` cut from the left: a piece that begins with `x` has `size x`
elements, the last piece perhaps fewer.
-/

namespace Lib

variable {α : Type*} {size : α → ℕ} {xs c : List α}

/-- The pieces of a list; a piece has at least its first element. -/
def chunks (size : α → ℕ) : List α → List (List α)
  | [] => []
  | x :: xs => (x :: xs.take (size x - 1)) :: chunks size (xs.drop (size x - 1))
termination_by xs => xs.length
decreasing_by
  rw [List.length_drop, List.length_cons]
  omega

@[simp] theorem chunks_nil : chunks size [] = [] := by rw [chunks]

theorem chunks_cons (x : α) (xs : List α) :
    chunks size (x :: xs) = (x :: xs.take (size x - 1)) :: chunks size (xs.drop (size x - 1)) := by
  rw [chunks]

/-- A piece is no longer than its first element says. -/
theorem length_le_of_mem_chunks {n : ℕ} (hn : ∀ x, size x ≤ n) (h0 : 0 < n)
    (hc : c ∈ chunks size xs) : c.length ≤ n := by
  fun_induction chunks size xs with
  | case1 => cases hc
  | case2 x xs ih =>
    rcases List.mem_cons.mp hc with rfl | hc
    · have := hn x
      rw [List.length_cons, List.length_take]
      omega
    · exact ih hc

/-- The first piece of a slice, and the slice behind it. -/
theorem chunks_slice {s : ℕ → α} {a k n : ℕ} (hk : k = min (size (s a)) n) (h0 : 0 < size (s a))
    (hn : 0 < n) :
    chunks size (slice s a n) = slice s a k :: chunks size (slice s (a + k) (n - k)) := by
  obtain ⟨n, rfl⟩ : ∃ m, n = m + 1 := ⟨n - 1, by omega⟩
  obtain ⟨k, rfl⟩ : ∃ j, k = j + 1 := ⟨k - 1, by omega⟩
  rw [slice_succ, chunks_cons, slice_succ, drop_slice]
  have htake : (slice s (a + 1) n).take (size (s a) - 1) = slice s (a + 1) k := by
    by_cases hle : size (s a) - 1 ≤ n
    · rw [take_slice _ _ _ _ hle, show k = size (s a) - 1 by omega]
    · rw [List.take_of_length_le (by rw [length_slice]; omega), show k = n by omega]
  have hdrop : slice s (a + 1 + (size (s a) - 1)) (n - (size (s a) - 1)) =
      slice s (a + (k + 1)) (n + 1 - (k + 1)) := by
    by_cases hle : size (s a) - 1 ≤ n
    · rw [show a + 1 + (size (s a) - 1) = a + (k + 1) by omega,
        show n - (size (s a) - 1) = n + 1 - (k + 1) by omega]
    · rw [show n - (size (s a) - 1) = 0 by omega, show n + 1 - (k + 1) = 0 by omega, slice_zero,
        slice_zero]
  rw [htake, hdrop]

end Lib
