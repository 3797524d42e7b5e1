import TaniDVR.Lib.Slice

/-!
# Lib.Ring — circular arrays and bounded queues

`ring m n p len` are the `len` cells from `p` on of the array `m` of `n` cells read in a circle.
Reading splits where it passes the end (`ring_wrap`); writing a run behind the data appends it
(`ring_blit`); moving the start by what was taken leaves the rest (`ring_append`, `ring_mod`).

`QueueRun cap q es q'` is the purpose of such an array: the runs of a queue that holds at most `cap`
elements.  What comes out is what went in, in order (`QueueRun.conserves`).
-/

namespace Lib

variable {α : Type*}

/-- The `len` cells from `p` on of an array of `n` cells, in a circle. -/
def ring (m : ℕ → α) (n p len : ℕ) : List α := slice (fun i => m (i % n)) p len

variable {m : ℕ → α} {n p len : ℕ}

@[simp] theorem length_ring (m : ℕ → α) (n p len : ℕ) : (ring m n p len).length = len :=
  length_slice _ _ _

@[simp] theorem ring_zero (m : ℕ → α) (n p : ℕ) : ring m n p 0 = [] := rfl

theorem ring_append (m : ℕ → α) (n p a b : ℕ) :
    ring m n p a ++ ring m n (p + a) b = ring m n p (a + b) := slice_append _ _ _ _

/-- The start counts modulo the size. -/
theorem ring_mod (m : ℕ → α) (n p len : ℕ) : ring m n (p % n) len = ring m n p len :=
  slice_congr fun i _ => by rw [Nat.mod_add_mod]

theorem ring_self (m : ℕ → α) (n len : ℕ) : ring m n n len = ring m n 0 len := by
  rw [← ring_mod, Nat.mod_self]

/-- A run that does not pass the end is a slice. -/
theorem ring_eq_slice (h : p + len ≤ n) : ring m n p len = slice m p len :=
  slice_congr fun i hi => by rw [Nat.mod_eq_of_lt (by omega)]

/-- A run that passes the end is two slices. -/
theorem ring_wrap (hp : p ≤ n) (hlen : n ≤ p + len) (hle : len ≤ n) :
    ring m n p len = slice m p (n - p) ++ slice m 0 (len - (n - p)) := by
  have hsplit := ring_append m n p (n - p) (len - (n - p))
  rw [show n - p + (len - (n - p)) = len by omega, show p + (n - p) = n by omega, ring_self,
    ring_eq_slice (by omega), ring_eq_slice (by omega)] at hsplit
  exact hsplit.symm

/-- An index less than twice the size. -/
theorem mod_cases {x n : ℕ} (h : x < 2 * n) : (x < n ∧ x % n = x) ∨ (n ≤ x ∧ x % n = x - n) := by
  rcases Nat.lt_or_ge x n with hlt | hge
  · exact Or.inl ⟨hlt, Nat.mod_eq_of_lt hlt⟩
  · refine Or.inr ⟨hge, ?_⟩
    rw [Nat.mod_eq_sub_mod hge, Nat.mod_eq_of_lt (by omega)]

/-- The cells behind the data are free. -/
theorem ring_disjoint {a k : ℕ} (hp : p < n) (ha : a = (p + len) % n) (hk : len + k ≤ n)
    {i : ℕ} (hi : i < len) : ¬ (a ≤ (p + i) % n ∧ (p + i) % n < a + k) := by
  obtain ⟨h1, h2⟩ | ⟨h1, h2⟩ := mod_cases (x := p + i) (n := n) (by omega) <;>
    obtain ⟨h3, h4⟩ | ⟨h3, h4⟩ := mod_cases (x := p + len) (n := n) (by omega) <;> omega

/-- **Writing behind the data appends.** -/
theorem ring_blit {a : ℕ} {xs : List α} (hp : p < n) (ha : a = (p + len) % n)
    (hk : len + xs.length ≤ n) (hak : a + xs.length ≤ n) :
    ring (blit m a xs) n p (len + xs.length) = ring m n p len ++ xs := by
  rw [← ring_append]
  congr 1
  · refine slice_congr ?_
    intro i hi
    have hfree := ring_disjoint hp ha hk hi
    by_cases hlt : (p + i) % n < a
    · exact blit_of_lt hlt
    · exact blit_of_ge (by omega)
  · rw [← ring_mod, ← ha, ring_eq_slice hak, slice_blit]

/-! ### Bounded queues -/

/-- What happens to a queue. -/
inductive QueueEvent (α : Type*)
  | enqueue (xs : List α)
  | dequeue (xs : List α)

namespace QueueEvent

/-- The elements that came in. -/
def entered : QueueEvent α → List α
  | enqueue xs => xs
  | dequeue _ => []

/-- The elements that went out. -/
def left : QueueEvent α → List α
  | enqueue _ => []
  | dequeue xs => xs

end QueueEvent

/-- A run of a queue of at most `cap` elements, from contents to contents. -/
inductive QueueRun (cap : ℕ) : List α → List (QueueEvent α) → List α → Prop
  | nil (q : List α) : QueueRun cap q [] q
  | enqueue {q q' : List α} {es : List (QueueEvent α)} (xs : List α) :
      q.length + xs.length ≤ cap → QueueRun cap (q ++ xs) es q' →
      QueueRun cap q (.enqueue xs :: es) q'
  | dequeue {q q' : List α} {es : List (QueueEvent α)} (xs : List α) :
      QueueRun cap q es q' → QueueRun cap (xs ++ q) (.dequeue xs :: es) q'

/-- **Nothing is lost, duplicated or reordered.** -/
theorem QueueRun.conserves {cap : ℕ} {q q' : List α} {es : List (QueueEvent α)}
    (h : QueueRun cap q es q') :
    q ++ es.flatMap QueueEvent.entered = es.flatMap QueueEvent.left ++ q' := by
  induction h with
  | nil q => simp
  | enqueue xs _ _ ih =>
    rw [List.flatMap_cons, List.flatMap_cons, QueueEvent.entered, QueueEvent.left, ← List.append_assoc]
    exact ih
  | dequeue xs _ ih =>
    rw [List.flatMap_cons, List.flatMap_cons, QueueEvent.entered, QueueEvent.left, List.nil_append,
      List.append_assoc, List.append_assoc, ih]

theorem QueueRun.append {cap : ℕ} {q q' q'' : List α} {es es' : List (QueueEvent α)}
    (h : QueueRun cap q es q') (h' : QueueRun cap q' es' q'') : QueueRun cap q (es ++ es') q'' := by
  induction h with
  | nil => exact h'
  | enqueue xs hle _ ih => exact .enqueue xs hle (ih h')
  | dequeue xs _ ih => exact .dequeue xs (ih h')

end Lib
