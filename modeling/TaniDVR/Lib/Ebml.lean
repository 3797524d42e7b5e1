import Mathlib.Data.List.Basic
import Mathlib.Data.Nat.Notation
import Mathlib.Data.UInt
import Mathlib.Tactic.Common
import Mathlib.Tactic.Ring

/-!
# Lib.Ebml — reading EBML

An element is an id, a size and that many bytes; ids and sizes are variable-length integers whose
first byte tells their width.  A size of all ones means "up to the end".  `elements` reads a list of
elements that fills its bytes exactly, and `nests` checks that it does so at every level below the
elements that hold others.

`reads_element` reads an element off the front of any bytes and `elements_flatten_append` a sequence of
them, so that a file is read piece by piece.
-/

namespace Lib.Ebml

/-! ### Big-endian numbers -/

/-- The number that the bytes spell. -/
def beNat (bytes : List UInt8) : ℕ := bytes.foldl (fun n b => n * 256 + b.toNat) 0

/-- The last `k` bytes of a number. -/
def beBytes : ℕ → ℕ → List UInt8
  | 0, _ => []
  | k + 1, n => UInt8.ofNat (n / 256 ^ k) :: beBytes k n

@[simp] theorem length_beBytes (k n : ℕ) : (beBytes k n).length = k := by
  induction k with
  | zero => rfl
  | succ k ih => simp [beBytes, ih]

theorem foldl_beNat (bytes : List UInt8) (m : ℕ) :
    bytes.foldl (fun n b => n * 256 + b.toNat) m = m * 256 ^ bytes.length + beNat bytes := by
  induction bytes generalizing m with
  | nil => simp [beNat]
  | cons b bytes ih =>
    have hb : beNat (b :: bytes) = (0 * 256 + b.toNat) * 256 ^ bytes.length + beNat bytes := ih _
    rw [List.foldl_cons, ih, hb, List.length_cons]
    ring

theorem beNat_cons (b : UInt8) (bytes : List UInt8) :
    beNat (b :: bytes) = b.toNat * 256 ^ bytes.length + beNat bytes := by
  rw [beNat, List.foldl_cons, foldl_beNat]
  ring

/-- Bytes written are read back. -/
theorem beNat_beBytes (k n : ℕ) : beNat (beBytes k n) = n % 256 ^ k := by
  induction k with
  | zero => simp [beBytes, beNat, Nat.mod_one]
  | succ k ih =>
    have hb : (UInt8.ofNat (n / 256 ^ k)).toNat = n / 256 ^ k % 256 := UInt8.toNat_ofNat'
    rw [beBytes, beNat_cons, ih, length_beBytes, hb, Nat.pow_succ, Nat.mod_mul, Nat.mul_comm,
      Nat.add_comm]

/-! ### Reading -/

/-- The first `n` bytes, if there are as many. -/
def splitExact {α : Type*} : ℕ → List α → Option (List α × List α)
  | 0, l => some ([], l)
  | _ + 1, [] => none
  | n + 1, a :: l => (splitExact n l).map fun p => (a :: p.1, p.2)

theorem splitExact_append {α : Type*} (xs ys : List α) :
    splitExact xs.length (xs ++ ys) = some (xs, ys) := by
  induction xs with
  | nil => rfl
  | cons x xs ih => simp [splitExact, ih]

theorem splitExact_length {α : Type*} {n : ℕ} {l xs ys : List α}
    (h : splitExact n l = some (xs, ys)) : l.length = n + ys.length := by
  induction n generalizing l xs with
  | zero =>
    cases h
    simp
  | succ n ih =>
    cases l with
    | nil => cases h
    | cons a l =>
      obtain ⟨⟨xs', ys'⟩, h', he⟩ := Option.map_eq_some_iff.mp h
      obtain rfl : ys' = ys := (Prod.mk.inj he).2
      have := ih h'
      rw [List.length_cons]
      omega

theorem splitExact_append_right {α : Type*} {n : ℕ} {l xs ys : List α}
    (h : splitExact n l = some (xs, ys)) (zs : List α) :
    splitExact n (l ++ zs) = some (xs, ys ++ zs) := by
  induction n generalizing l xs with
  | zero =>
    cases h
    rfl
  | succ n ih =>
    cases l with
    | nil => cases h
    | cons a l =>
      obtain ⟨⟨xs', ys'⟩, h', he⟩ := Option.map_eq_some_iff.mp h
      cases he
      rw [List.cons_append, splitExact, ih h', Option.map_some]

/-- The width of a variable-length integer, by its first byte. -/
def vintWidth (b : UInt8) : ℕ :=
  if b.toNat < 1 then 0 else if b.toNat < 2 then 8 else if b.toNat < 4 then 7
  else if b.toNat < 8 then 6 else if b.toNat < 16 then 5 else if b.toNat < 32 then 4
  else if b.toNat < 64 then 3 else if b.toNat < 128 then 2 else 1

/-- An id of at most four bytes, with its marker bit. -/
def readId : List UInt8 → Option (ℕ × List UInt8)
  | [] => none
  | b :: l =>
    if vintWidth b = 0 ∨ 4 < vintWidth b then none
    else (splitExact (vintWidth b - 1) l).map fun p => (beNat (b :: p.1), p.2)

/-- A size without its marker bit; `none` is the unknown size. -/
def readSize : List UInt8 → Option (Option ℕ × List UInt8)
  | [] => none
  | b :: l =>
    if vintWidth b = 0 then none
    else (splitExact (vintWidth b - 1) l).map fun p =>
      let n := beNat (b :: p.1) - 2 ^ (7 * vintWidth b)
      (if n = 2 ^ (7 * vintWidth b) - 1 then none else some n, p.2)

/-- An element with its content. -/
structure Element where
  id : ℕ
  content : List UInt8
  deriving DecidableEq, Repr

/-- One element off the front. -/
def readElement (l : List UInt8) : Option (Element × List UInt8) :=
  match readId l with
  | none => none
  | some (id, l) =>
    match readSize l with
    | none => none
    | some (none, l) => some (⟨id, l⟩, [])
    | some (some n, l) => (splitExact n l).map fun p => (⟨id, p.1⟩, p.2)

/-- At most `n` elements, up to the end of the bytes. -/
def elementsFor : ℕ → List UInt8 → Option (List Element)
  | _, [] => some []
  | 0, _ :: _ => none
  | n + 1, b :: l =>
    match readElement (b :: l) with
    | none => none
    | some (e, r) => (elementsFor n r).map (e :: ·)

/-- The elements that fill the bytes. -/
def elements (l : List UInt8) : Option (List Element) := elementsFor l.length l

/-- The bytes are elements, and so are the contents of those that hold others, `depth` levels down. -/
def nests (holds : ℕ → Bool) : ℕ → List UInt8 → Bool
  | 0, _ => false
  | depth + 1, l =>
    match elements l with
    | none => false
    | some es => es.all fun e => !holds e.id || nests holds depth e.content

/-! ### Reading piece by piece -/

/-- What is left after a prefix of given length. -/
theorem length_of_splitExact {β : Type} {f : List UInt8 × List UInt8 → β} {l r : List UInt8}
    {b : UInt8} {n : ℕ} {x : β} (h : (splitExact n l).map (fun p => (f p, p.2)) = some (x, r)) :
    r.length < (b :: l).length := by
  obtain ⟨⟨xs, ys⟩, h', he⟩ := Option.map_eq_some_iff.mp h
  obtain ⟨-, rfl⟩ := Prod.mk.inj he
  have hlen := splitExact_length h'
  show ys.length < l.length + 1
  omega

theorem readId_length {l r : List UInt8} {id : ℕ} (h : readId l = some (id, r)) :
    r.length < l.length := by
  cases l with
  | nil => cases h
  | cons b l =>
    simp only [readId] at h
    split_ifs at h
    exact length_of_splitExact h

theorem readSize_length {l r : List UInt8} {n : Option ℕ} (h : readSize l = some (n, r)) :
    r.length < l.length := by
  cases l with
  | nil => cases h
  | cons b l =>
    simp only [readSize] at h
    split_ifs at h
    exact length_of_splitExact h

theorem readElement_length {l r : List UInt8} {e : Element} (h : readElement l = some (e, r)) :
    r.length < l.length := by
  unfold readElement at h
  split at h
  · cases h
  · rename_i id l1 h1
    have := readId_length h1
    split at h
    · cases h
    · cases h
      simp only [List.length_nil]
      omega
    · rename_i n l2 h2
      have := readSize_length h2
      obtain ⟨⟨xs, ys⟩, h', he⟩ := Option.map_eq_some_iff.mp h
      have hr : ys = r := (Prod.mk.inj he).2
      have := splitExact_length h'
      rw [← hr]
      omega

/-- Steps to spare change nothing. -/
theorem elementsFor_eq {n m : ℕ} {l : List UInt8} (hn : l.length ≤ n) (hm : l.length ≤ m) :
    elementsFor n l = elementsFor m l := by
  induction n generalizing m l with
  | zero =>
    cases l with
    | nil => cases m <;> rfl
    | cons b l => simp at hn
  | succ n ih =>
    cases l with
    | nil => cases m <;> rfl
    | cons b l =>
      cases m with
      | zero => simp at hm
      | succ m =>
        unfold elementsFor
        split
        · rfl
        · rename_i e r h
          have := readElement_length h
          simp only [List.length_cons] at this hn hm
          rw [ih (l := r) (m := m) (by omega) (by omega)]

@[simp] theorem elements_nil : elements [] = some [] := rfl

/-- **The first element, then the others.** -/
theorem elements_cons {l r : List UInt8} {e : Element} (h : readElement l = some (e, r)) :
    elements l = (elements r).map (e :: ·) := by
  have hlen := readElement_length h
  cases l with
  | nil => simp at hlen
  | cons b l =>
    simp only [List.length_cons] at hlen
    rw [elements, List.length_cons, elementsFor, h, elements,
      ← elementsFor_eq (n := l.length) (by omega) le_rfl]

/-- `idb` is read as the id `id` whatever follows. -/
def IdBytes (idb : List UInt8) (id : ℕ) : Prop := ∀ x, readId (idb ++ x) = some (id, x)

/-- `sizeb` is read as the size `n` whatever follows. -/
def SizeBytes (sizeb : List UInt8) (n : Option ℕ) : Prop := ∀ x, readSize (sizeb ++ x) = some (n, x)

theorem idBytes_of {idb : List UInt8} {id : ℕ} (h : readId idb = some (id, [])) :
    IdBytes idb id := by
  intro x
  cases idb with
  | nil => cases h
  | cons b l =>
    simp only [readId, List.cons_append] at h ⊢
    split_ifs at h ⊢
    obtain ⟨⟨xs, ys⟩, h', he⟩ := Option.map_eq_some_iff.mp h
    obtain ⟨rfl, rfl⟩ := Prod.mk.inj he
    rw [splitExact_append_right h', Option.map_some, List.nil_append]

theorem sizeBytes_of {sizeb : List UInt8} {n : Option ℕ} (h : readSize sizeb = some (n, [])) :
    SizeBytes sizeb n := by
  intro x
  cases sizeb with
  | nil => cases h
  | cons b l =>
    simp only [readSize, List.cons_append] at h ⊢
    split_ifs at h ⊢
    obtain ⟨⟨xs, ys⟩, h', he⟩ := Option.map_eq_some_iff.mp h
    obtain ⟨rfl, rfl⟩ := Prod.mk.inj he
    rw [splitExact_append_right h', Option.map_some, List.nil_append]

/-- An element: id, size and content. -/
def element (idb sizeb content : List UInt8) : List UInt8 := idb ++ (sizeb ++ content)

/-- `bytes` is read as the element `e` whatever follows. -/
def Reads (bytes : List UInt8) (e : Element) : Prop :=
  ∀ rest, readElement (bytes ++ rest) = some (e, rest)

/-- **An element with its size known is read off whatever follows it.** -/
theorem reads_element {idb sizeb content : List UInt8} {id n : ℕ} (hid : IdBytes idb id)
    (hsize : SizeBytes sizeb (some n)) (hn : content.length = n) :
    Reads (element idb sizeb content) ⟨id, content⟩ := by
  intro rest
  subst hn
  simp only [element, readElement, List.append_assoc, hid _, hsize _, splitExact_append,
    Option.map_some]

/-- An element whose header is checked alone. -/
theorem reads_of_header {idb sizeb content : List UInt8} {id : ℕ} (n : ℕ)
    (hid : readId idb = some (id, [])) (hsize : readSize sizeb = some (some n, []))
    (hn : content.length = n) : Reads (element idb sizeb content) ⟨id, content⟩ :=
  reads_element (idBytes_of hid) (sizeBytes_of hsize) hn

/-- An element of unknown size takes all that follows. -/
theorem readElement_unknown {idb sizeb : List UInt8} {id : ℕ} (hid : IdBytes idb id)
    (hsize : SizeBytes sizeb none) (rest : List UInt8) :
    readElement (element idb sizeb rest) = some (⟨id, rest⟩, []) := by
  simp only [element, readElement, hid _, hsize _]

/-- **Elements one after the other, then the rest.** -/
theorem elements_flatten_append {parts : List (List UInt8)} {es : List Element}
    (h : List.Forall₂ Reads parts es) (rest : List UInt8) :
    elements (parts.flatten ++ rest) = (elements rest).map (es ++ ·) := by
  induction h with
  | nil => simp
  | cons h _ ih =>
    rw [List.flatten_cons, List.append_assoc, elements_cons (h _), ih, Option.map_map]
    rfl

theorem elements_flatten {parts : List (List UInt8)} {es : List Element}
    (h : List.Forall₂ Reads parts es) : elements parts.flatten = some es := by
  simpa using elements_flatten_append h []

theorem nests_iff {holds : ℕ → Bool} {depth : ℕ} {l : List UInt8} {es : List Element}
    (h : elements l = some es) :
    nests holds (depth + 1) l = true ↔ ∀ e ∈ es, holds e.id = true → nests holds depth e.content := by
  simp only [nests, h, List.all_eq_true, Bool.or_eq_true, Bool.not_eq_true']
  refine forall₂_congr ?_
  intro e _
  cases holds e.id <;> simp

/-- The eight-byte form of a size. -/
theorem sizeBytes_long {n : ℕ} (h : n < 2 ^ 56 - 1) : SizeBytes (0x01 :: beBytes 7 n) (some n) := by
  refine sizeBytes_of ?_
  have hsplit : splitExact 7 (beBytes 7 n) = some (beBytes 7 n, []) := by
    have := splitExact_append (beBytes 7 n) []
    rwa [List.append_nil, length_beBytes] at this
  have hval : beNat (0x01 :: beBytes 7 n) = 2 ^ 56 + n := by
    rw [beNat_cons, beNat_beBytes, length_beBytes, Nat.mod_eq_of_lt (by omega)]
    rfl
  have hw : vintWidth 0x01 = 8 := rfl
  have hn : 2 ^ 56 + n - 2 ^ (7 * 8) = n := by omega
  have hne : n ≠ 2 ^ (7 * 8) - 1 := by omega
  simp only [readSize, hw, hsplit, Option.map_some, hval, hn]
  rw [if_neg (by omega), if_neg hne]

end Lib.Ebml
