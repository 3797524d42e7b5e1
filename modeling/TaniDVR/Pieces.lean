import TaniDVR.Resync

/-!
# Pieces — a file of DHAV frames of which some are cut short

A `Piece` is a frame of which the first bytes are left, all of them (`Intact`) or not.  In the file
the pieces make (`fileBytes`)

* a `DHAV` starts only where a piece starts (`not_header_in_piece`), and
* a `dhav` with four bytes after it is the trailer of an intact frame, or the four bytes are, read
  as a length, above every frame (`trailer_in_file`): they run into the next `DHAV`.
-/

namespace TaniDVR

open Lib

/-- A frame of at most 500000 bytes whose first `kept` bytes are in the file.  Its only `DHAV` is
the one it starts with, its only `dhav` the one of its trailer. -/
structure Piece where
  frame : List UInt8
  kept : ℕ
  dhav : DhavFrame frame
  max_len : frame.length ≤ 500000
  kept_pos : 0 < kept
  kept_le : kept ≤ frame.length
  no_header : ∀ i, 0 < i → i + 4 ≤ frame.length → slice (ofList frame) i 4 ≠ strDHAV
  no_trailer : ∀ i, i + 8 ≠ frame.length → i + 4 ≤ frame.length →
    slice (ofList frame) i 4 ≠ strDhav

namespace Piece

/-- What is left of the frame. -/
def bytes (p : Piece) : List UInt8 := p.frame.take p.kept

/-- Nothing was cut off. -/
def Intact (p : Piece) : Prop := p.kept = p.frame.length

instance : DecidablePred Intact := fun p => inferInstanceAs (Decidable (p.kept = p.frame.length))

@[simp] theorem length_bytes (p : Piece) : p.bytes.length = p.kept := by
  rw [bytes, List.length_take, Nat.min_eq_left p.kept_le]

theorem bytes_of_intact {p : Piece} (h : p.Intact) : p.bytes = p.frame := by
  rw [bytes, h, List.take_length]

end Piece

/-- The file. -/
def fileBytes (ps : List Piece) : List UInt8 := ps.flatMap Piece.bytes

/-- The frames that were not cut. -/
def intactFrames (ps : List Piece) : List (List UInt8) := (ps.filter (·.Intact)).map Piece.frame

@[simp] theorem fileBytes_nil : fileBytes [] = [] := rfl

@[simp] theorem fileBytes_cons (p : Piece) (ps : List Piece) :
    fileBytes (p :: ps) = p.bytes ++ fileBytes ps := rfl

@[simp] theorem fileBytes_append (ps qs : List Piece) :
    fileBytes (ps ++ qs) = fileBytes ps ++ fileBytes qs := List.flatMap_append

theorem intactFrames_append (ps qs : List Piece) :
    intactFrames (ps ++ qs) = intactFrames ps ++ intactFrames qs := by
  simp [intactFrames]

theorem intactFrames_intact {p : Piece} (h : p.Intact) : intactFrames [p] = [p.frame] := by
  simp [intactFrames, h]

theorem intactFrames_cut {p : Piece} (h : ¬ p.Intact) : intactFrames [p] = [] := by
  simp [intactFrames, h]

theorem intactFrames_eq_nil {ps : List Piece} : intactFrames ps = [] ↔ ∀ p ∈ ps, ¬ p.Intact := by
  simp [intactFrames, List.filter_eq_nil_iff]

/-! ### Bytes of the file -/

theorem DhavFrame.header_byte {f : List UInt8} (h : DhavFrame f) {j : ℕ} (hj : j < 4) :
    ofList f j = ofList strDHAV j := by
  have hs : slice (ofList f) 0 4 = slice (ofList strDHAV) 0 4 :=
    h.header.trans (slice_ofList_self strDHAV).symm
  simpa using slice_eq_iff.mp hs j hj

theorem Piece.byte_left {p : Piece} {ys : List UInt8} {i : ℕ} (h : i < p.kept) :
    ofList (p.bytes ++ ys) i = ofList p.frame i := by
  rw [ofList_append_left (by simpa using h), Piece.bytes, ofList_take h]

theorem Piece.byte_right {p : Piece} {ys : List UInt8} {i : ℕ} (h : p.kept ≤ i) :
    ofList (p.bytes ++ ys) i = ofList ys (i - p.kept) := by
  obtain ⟨k, rfl⟩ := Nat.exists_eq_add_of_le h
  have h : ofList (p.bytes ++ ys) (p.bytes.length + k) = ofList ys k := ofList_append_right
  rw [p.length_bytes] at h
  rw [h, Nat.add_sub_cancel_left]

/-- The first four bytes of any file come from starts of frames. -/
theorem early_byte {ps : List Piece} {j : ℕ} (hj : j < 4) (hlen : j < (fileBytes ps).length) :
    0x41 ≤ (ofList (fileBytes ps) j).toNat := by
  induction ps generalizing j with
  | nil => simp at hlen
  | cons p ps ih =>
    rw [fileBytes_cons] at hlen ⊢
    have hpos := p.kept_pos
    by_cases hk : j < p.kept
    · rw [p.byte_left hk, p.dhav.header_byte hj]
      have : ∀ j < 4, 0x41 ≤ (ofList strDHAV j).toNat := by decide
      exact this j hj
    · rw [p.byte_right (by omega)]
      rw [List.length_append, p.length_bytes] at hlen
      exact ih (by omega) (by omega)

theorem fileBytes_head (ps : List Piece) : ∀ b ∈ (fileBytes ps).head?, b = 0x44 := by
  cases ps with
  | nil => simp
  | cons p ps =>
    have hpos := p.kept_pos
    have hlen := p.length_bytes
    have h0 : ofList (p.bytes ++ fileBytes ps) 0 = 0x44 :=
      (p.byte_left hpos).trans (p.dhav.header_byte (by omega))
    rw [ofList_of_lt (by simp; omega)] at h0
    rw [fileBytes_cons, List.head?_eq_getElem?, List.getElem?_eq_getElem (by simp; omega), h0]
    simp

/-- The bytes of a piece after its first show no `DHAV`. -/
theorem Piece.not_header_in_piece (p : Piece) : ¬ strDHAV <:+: p.bytes.drop 1 := by
  rw [isInfix_iff_slice]
  rintro ⟨i, hi, h⟩
  have hlen : strDHAV.length = 4 := rfl
  have hk := p.kept_le
  rw [List.length_drop, p.length_bytes, hlen] at hi
  refine p.no_header (1 + i) (by omega) (by omega) (.trans (slice_congr fun j hj => ?_) h)
  rw [ofList_drop, Piece.bytes, ofList_take (by omega), Nat.add_assoc]

/-- A cut piece of less than four bytes does not start with `DHAV`, whatever follows. -/
theorem Piece.not_header_of_short {p : Piece} (h : p.kept < 4) (ps : List Piece) :
    (p.bytes ++ fileBytes ps).take 4 ≠ strDHAV := by
  have hlen := p.length_bytes
  have hpos := p.kept_pos
  refine no_header_in_garbage (List.ne_nil_of_length_pos (by omega)) (fun hno => ?_)
    (fileBytes_head ps)
  have := hno.length_le
  simp [strDHAV] at this
  omega

/-- In a piece `dhav` is the trailer, whole in an intact frame and cut otherwise. -/
theorem Piece.trailer_in_piece {p : Piece} {ps : List Piece} {i : ℕ} (hik : i + 4 ≤ p.kept)
    (hi : i + 8 ≤ (fileBytes (p :: ps)).length)
    (h : slice (ofList (fileBytes (p :: ps))) i 4 = strDhav) :
    i + 8 = p.frame.length ∧
      (p.Intact ∧ le32 (fun j => ofList (fileBytes (p :: ps)) (i + 4 + j)) = p.frame.length ∨
        2 ^ 24 ≤ le32 (fun j => ofList (fileBytes (p :: ps)) (i + 4 + j))) := by
  have hle := p.kept_le
  have hlen := p.length_bytes
  rw [fileBytes_cons, List.length_append, hlen] at hi
  have hleft : ∀ n, i + n < p.kept →
      ofList (fileBytes (p :: ps)) (i + n) = ofList p.frame (i + n) := by
    intro n hn
    exact p.byte_left hn
  have hend : i + 8 = p.frame.length := by
    by_contra hne
    refine p.no_trailer i hne (by omega) (.trans (slice_congr ?_) h)
    intro j hj
    exact (hleft j (by omega)).symm
  refine ⟨hend, ?_⟩
  by_cases hint : p.Intact
  · refine .inl ⟨hint, ?_⟩
    rw [← p.dhav.trailer_len]
    refine le32_congr ?_
    intro j hj
    rw [Nat.add_assoc, hleft (4 + j) (by unfold Piece.Intact at hint; omega)]
    congr 1
    omega
  · -- its length field runs into the next piece
    right
    have htop : 0x41 ≤ (ofList (fileBytes (p :: ps)) (i + 4 + 3)).toNat := by
      unfold Piece.Intact at hint
      rw [fileBytes_cons, p.byte_right (by omega)]
      exact early_byte (by omega) (by omega)
    simp only [le32]
    omega

/-- The next piece does not start inside the pattern. -/
theorem Piece.trailer_not_across {p : Piece} {ps : List Piece} {i : ℕ} (hik : i < p.kept)
    (hik4 : p.kept < i + 4) (hi : i + 8 ≤ (fileBytes (p :: ps)).length) :
    slice (ofList (fileBytes (p :: ps))) i 4 ≠ strDhav := by
  intro h
  have hlen := p.length_bytes
  rw [fileBytes_cons, List.length_append, hlen] at hi
  have hD : ofList (fileBytes (p :: ps)) (i + (p.kept - i)) = 0x44 := by
    have h0 : 0 < (fileBytes ps).length := by omega
    rw [fileBytes_cons, p.byte_right (by omega)]
    have := fileBytes_head ps
    rw [List.head?_eq_getElem?, List.getElem?_eq_getElem h0] at this
    rw [show i + (p.kept - i) - p.kept = 0 by omega, ofList_of_lt h0]
    exact this _ rfl
  have hs : slice (ofList (fileBytes (p :: ps))) i 4 = slice (ofList strDhav) 0 4 :=
    h.trans (slice_ofList_self strDhav).symm
  have hpat := (slice_eq_iff.mp hs (p.kept - i) (by omega)).symm.trans hD
  have hno : ∀ n < 4, 0 < n → ofList strDhav (0 + n) ≠ 0x44 := by decide
  exact hno (p.kept - i) (by omega) (by omega) hpat

/-- **No false trailer.**  Wherever `dhav` stands in the file with four bytes after it, an intact
frame ends there, or these four bytes are a number above every length. -/
theorem trailer_in_file {ps : List Piece} {i : ℕ} (hi : i + 8 ≤ (fileBytes ps).length)
    (h : slice (ofList (fileBytes ps)) i 4 = strDhav) :
    (∃ pre q post, ps = pre ++ q :: post ∧ q.Intact ∧
      i + 8 = (fileBytes pre).length + q.frame.length ∧
      le32 (fun j => ofList (fileBytes ps) (i + 4 + j)) = q.frame.length) ∨
    2 ^ 24 ≤ le32 (fun j => ofList (fileBytes ps) (i + 4 + j)) := by
  induction ps generalizing i with
  | nil => simp at hi
  | cons p ps ih =>
    by_cases hik : p.kept ≤ i
    · -- in the rest of the file
      have hlen := p.length_bytes
      have hbyte : ∀ n, ofList (fileBytes (p :: ps)) (i + n) =
          ofList (fileBytes ps) (i - p.kept + n) := by
        intro n
        rw [fileBytes_cons, p.byte_right (by omega)]
        congr 1
        omega
      have hle32 : le32 (fun j => ofList (fileBytes (p :: ps)) (i + 4 + j)) =
          le32 (fun j => ofList (fileBytes ps) (i - p.kept + 4 + j)) := by
        refine le32_congr ?_
        intro j _
        rw [Nat.add_assoc, hbyte, Nat.add_assoc]
      rw [fileBytes_cons, List.length_append, hlen] at hi
      rw [hle32]
      obtain ⟨pre, q, post, rfl, hq, hend, hval⟩ | hbig := ih (i := i - p.kept) (by omega)
        ((slice_congr fun j _ => (hbyte j).symm).trans h)
      · refine Or.inl ⟨p :: pre, q, post, rfl, hq, ?_, hval⟩
        rw [fileBytes_cons, List.length_append, hlen]
        omega
      · exact Or.inr hbig
    · by_cases hik4 : i + 4 ≤ p.kept
      · obtain ⟨hend, ⟨hint, hval⟩ | hbig⟩ := Piece.trailer_in_piece hik4 hi h
        · exact Or.inl ⟨[], p, ps, rfl, hint, by simpa using hend, hval⟩
        · exact Or.inr hbig
      · exact absurd h (Piece.trailer_not_across (by omega) (by omega) hi)

end TaniDVR
