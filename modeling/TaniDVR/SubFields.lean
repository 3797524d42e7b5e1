import TaniDVR.McParms
import TaniDVR.Lib.Chunks

/-!
# SubFields — the subfields of an extended header

An extended header is a row of subfields: an id, and 8 bytes in all for the id 0x88, 4 for the
others; the last one may be cut off.  `dhav_sf_parse_ext_head` goes through it byte by byte.
`extHeadStore_eq` says that it stores whole subfields, one after the other, and `ext_head_entries`
where an entry of the array comes from.
-/

namespace TaniDVR

open Lib

/-- The bytes of a subfield, the id included. -/
def subfieldLen (id : UInt8) : ℕ := if id = 0x88 then 8 else 4

/-- `DHAV_SF_STRIPLEN_MAX * 256`, the size of the array. -/
def dhavSfArrayLen : ℕ := 8 * 256

/-- The subfield `c` has the id `id` and a byte `k`. -/
def SubfieldHas (id : UInt8) (k : ℕ) (c : List UInt8) : Prop := c.head? = some id ∧ k < c.length

instance (id : UInt8) (k : ℕ) : DecidablePred (SubfieldHas id k) :=
  fun _ => inferInstanceAs (Decidable (_ ∧ _))

/-- The last of some subfields that has the id and the byte. -/
def lastSubfield (cs : List (List UInt8)) (id : UInt8) (k : ℕ) : Option (List UInt8) :=
  (cs.filter fun c => decide (SubfieldHas id k c)).getLast?

/-- Byte `k` of the last subfield of the header with the id `id` that has one, and 0 if there is
none. -/
def subfieldEntry (extHead : List UInt8) (id : UInt8) (k : ℕ) : UInt8 :=
  match lastSubfield (chunks subfieldLen extHead) id k with
  | some c => c.getD k 0
  | none => 0

/-- The indices to the array in the loop of `dhav_sf_parse_ext_head`, for `hl` more bytes. -/
def extHeadIndices (s : ℕ → UInt8) (id : UInt8) (idLen idPos pos : ℕ) : ℕ → List ℕ
  | 0 => []
  | hl + 1 =>
    if idLen = 0 then
      dhavSfIndex (s pos).toNat 0 ::
        extHeadIndices s (s pos) ((if s pos = 0x88 then 8 else 4) - 1) 1 (pos + 1) hl
    else dhavSfIndex id.toNat idPos :: extHeadIndices s id (idLen - 1) (idPos + 1) (pos + 1) hl

variable {s : ℕ → UInt8} {array : ℕ → UInt8} {id : UInt8} {k : ℕ}

theorem dhavSfIndex_eq (fn dn : ℕ) : dhavSfIndex fn dn = fn * 8 + dn := by
  rw [dhavSfIndex, Nat.shiftLeft_eq]

theorem subfieldLen_bounds (id : UInt8) : 0 < subfieldLen id ∧ subfieldLen id ≤ 8 := by
  unfold subfieldLen
  split_ifs <;> omega

/-! ### The indices -/

/-- The loop writes byte after byte to these indices. -/
theorem extHeadStore_eq_foldl (s : ℕ → UInt8) (id : UInt8) (idLen idPos pos : ℕ)
    (array : ℕ → UInt8) (hl : ℕ) :
    extHeadStore s id idLen idPos pos array hl =
      ((extHeadIndices s id idLen idPos pos hl).zip (slice s pos hl)).foldl
        (fun a p => Function.update a p.1 p.2) array := by
  induction hl generalizing id idLen idPos pos array with
  | zero => rfl
  | succ hl ih =>
    rw [extHeadStore, extHeadIndices, slice_succ]
    by_cases h0 : idLen = 0
    · rw [if_pos h0, if_pos h0]
      exact ih ..
    · rw [if_neg h0, if_neg h0]
      exact ih ..

/-- **Every index is inside the array.** -/
theorem extHeadIndices_lt {idLen idPos : ℕ} (hpos : idLen ≠ 0 → idPos + idLen ≤ 8) (pos hl : ℕ) :
    ∀ i ∈ extHeadIndices s id idLen idPos pos hl, i < dhavSfArrayLen := by
  have hlt : ∀ (id : UInt8) (k : ℕ), k < 8 → dhavSfIndex id.toNat k < dhavSfArrayLen := by
    intro id k hk
    have := id.toNat_lt
    rw [dhavSfIndex_eq, dhavSfArrayLen]
    omega
  induction hl generalizing id idLen idPos pos with
  | zero => exact nofun
  | succ hl ih =>
    intro i hi
    rw [extHeadIndices] at hi
    by_cases h0 : idLen = 0
    · rw [if_pos h0] at hi
      rcases List.mem_cons.mp hi with rfl | hi
      · exact hlt _ 0 (by omega)
      · refine ih ?_ _ i hi
        intro _
        split_ifs <;> omega
    · rw [if_neg h0] at hi
      have hpos := hpos h0
      rcases List.mem_cons.mp hi with rfl | hi
      · exact hlt id idPos (by omega)
      · exact ih (fun _ => by omega) _ i hi

/-! ### Whole subfields -/

/-- A subfield is stored. -/
def storeSubfield (array : ℕ → UInt8) : List UInt8 → ℕ → UInt8
  | [] => array
  | id :: bytes => blit array (dhavSfIndex id.toNat 0) (id :: bytes)

/-- What storing a subfield does to an entry. -/
theorem storeSubfield_apply {c : List UInt8} (hc : c.length ≤ 8) (hk : k < 8) :
    storeSubfield array c (dhavSfIndex id.toNat k) =
      if SubfieldHas id k c then c.getD k 0 else array (dhavSfIndex id.toNat k) := by
  cases c with
  | nil => rw [if_neg fun h => absurd h.2 (Nat.not_lt_zero k)]; rfl
  | cons id' bytes =>
    rw [storeSubfield]
    rcases Nat.lt_trichotomy id.toNat id'.toNat with hlt | heq | hgt
    · rw [blit_of_lt (by rw [dhavSfIndex_eq, dhavSfIndex_eq]; omega), if_neg]
      rintro ⟨hhead, -⟩
      cases hhead
      omega
    · obtain rfl := UInt8.toNat_inj.mp heq
      by_cases hlen : k < (id :: bytes).length
      · rw [if_pos ⟨rfl, hlen⟩]
        have hadd : dhavSfIndex id.toNat k = dhavSfIndex id.toNat 0 + k := by
          rw [dhavSfIndex_eq, dhavSfIndex_eq]
          omega
        rw [hadd, blit_add hlen, List.getD_eq_getElem _ _ hlen]
      · rw [if_neg fun h => hlen h.2, blit_of_ge]
        rw [dhavSfIndex_eq, dhavSfIndex_eq]
        omega
    · rw [blit_of_ge (by rw [dhavSfIndex_eq, dhavSfIndex_eq]; omega), if_neg]
      rintro ⟨hhead, -⟩
      cases hhead
      omega

theorem lastSubfield_append_singleton (cs : List (List UInt8)) (c : List UInt8) (id : UInt8) (k : ℕ) :
    lastSubfield (cs ++ [c]) id k = if SubfieldHas id k c then some c else lastSubfield cs id k := by
  unfold lastSubfield
  rw [List.filter_append]
  by_cases hc : SubfieldHas id k c
  · simp [hc]
  · simp [hc]

/-- **Entries after some subfields**: the last one that has the byte gives it. -/
theorem foldl_storeSubfield_apply {cs : List (List UInt8)} (hcs : ∀ c ∈ cs, c.length ≤ 8)
    (hk : k < 8) : cs.foldl storeSubfield array (dhavSfIndex id.toNat k) =
      match lastSubfield cs id k with
      | some c => c.getD k 0
      | none => array (dhavSfIndex id.toNat k) := by
  induction cs using List.reverseRecOn with
  | nil => rfl
  | append_singleton cs c ih =>
    have hc : c.length ≤ 8 := hcs c (by simp)
    rw [List.foldl_append, List.foldl_cons, List.foldl_nil, storeSubfield_apply hc hk,
      ih fun x hx => hcs x (by simp [hx]), lastSubfield_append_singleton]
    by_cases hhas : SubfieldHas id k c
    · rw [if_pos hhas, if_pos hhas]
    · rw [if_neg hhas, if_neg hhas]

/-! ### The loop -/

/-- The rest of a subfield. -/
theorem extHeadStore_rest (id : UInt8) (idLen idPos pos : ℕ) (array : ℕ → UInt8) {n hl : ℕ}
    (hn : n ≤ idLen) (hhl : n ≤ hl) :
    extHeadStore s id idLen idPos pos array hl =
      extHeadStore s id (idLen - n) (idPos + n) (pos + n)
        (blit array (dhavSfIndex id.toNat idPos) (slice s pos n)) (hl - n) := by
  induction n generalizing idLen idPos pos array hl with
  | zero => rw [slice_zero, blit_nil]; rfl
  | succ n ih =>
    obtain ⟨hl, rfl⟩ : ∃ m, hl = m + 1 := ⟨hl - 1, by omega⟩
    rw [extHeadStore, if_neg (by omega), ih _ _ _ _ (by omega) (by omega), slice_succ, blit_cons,
      show dhavSfIndex id.toNat idPos + 1 = dhavSfIndex id.toNat (idPos + 1) from rfl,
      show idLen - 1 - n = idLen - (n + 1) by omega, show idPos + 1 + n = idPos + (n + 1) by omega,
      show pos + 1 + n = pos + (n + 1) by omega, show hl + 1 - (n + 1) = hl - n by omega]

/-- A whole subfield, or what is there of it. -/
theorem extHeadStore_subfield (id : UInt8) (idPos pos : ℕ) (array : ℕ → UInt8) {n hl : ℕ}
    (hn : n = min (subfieldLen (s pos)) hl) (hhl : 0 < hl) :
    extHeadStore s id 0 idPos pos array hl =
      extHeadStore s (s pos) (subfieldLen (s pos) - n) n (pos + n)
        (storeSubfield array (slice s pos n)) (hl - n) := by
  have hlen := subfieldLen_bounds (s pos)
  obtain ⟨hl, rfl⟩ : ∃ m, hl = m + 1 := ⟨hl - 1, by omega⟩
  obtain ⟨n, rfl⟩ : ∃ m, n = m + 1 := ⟨n - 1, by omega⟩
  rw [extHeadStore, if_pos rfl]
  show extHeadStore s (s pos) (subfieldLen (s pos) - 1) 1 (pos + 1) _ hl = _
  have hle : n ≤ subfieldLen (s pos) - 1 := by omega
  rw [extHeadStore_rest (s pos) _ 1 (pos + 1) _ hle (by omega), slice_succ, storeSubfield, blit_cons,
    show dhavSfIndex (s pos).toNat 0 + 1 = dhavSfIndex (s pos).toNat 1 from rfl,
    show subfieldLen (s pos) - 1 - n = subfieldLen (s pos) - (n + 1) by omega,
    show 1 + n = n + 1 by omega, show pos + 1 + n = pos + (n + 1) by omega,
    show hl + 1 - (n + 1) = hl - n by omega]

/-- **The loop stores the subfields one after the other.** -/
theorem extHeadStore_eq (id : UInt8) (idPos pos hl : ℕ) (array : ℕ → UInt8) :
    extHeadStore s id 0 idPos pos array hl =
      (chunks subfieldLen (slice s pos hl)).foldl storeSubfield array := by
  induction hl using Nat.strongRecOn generalizing id idPos pos array with
  | _ hl ih =>
    rcases Nat.eq_zero_or_pos hl with rfl | hhl
    · rw [slice_zero, chunks_nil]
      rfl
    · obtain ⟨n, hn⟩ : ∃ n, n = min (subfieldLen (s pos)) hl := ⟨_, rfl⟩
      have hlen := subfieldLen_bounds (s pos)
      rw [chunks_slice hn hlen.1 hhl, List.foldl_cons, extHeadStore_subfield id idPos pos array hn hhl]
      by_cases hlast : hl ≤ subfieldLen (s pos)
      · -- the last subfield
        rw [show hl - n = 0 by omega, slice_zero, chunks_nil]
        rfl
      · rw [show subfieldLen (s pos) - n = 0 by omega]
        exact ih (hl - n) (by omega) ..

/-- The entries of the array after an extended header. -/
theorem extHeadStore_entry (hl : ℕ) (hk : k < 8) :
    extHeadStore s 0 0 0 0 (fun _ => 0) hl (dhavSfIndex id.toNat k) =
      subfieldEntry (slice s 0 hl) id k := by
  rw [extHeadStore_eq, foldl_storeSubfield_apply ?_ hk]
  · rfl
  · intro c hc
    exact length_le_of_mem_chunks (fun x => (subfieldLen_bounds x).2) (by omega) hc

/-- **Extended headers**: after `dhav_sf_parse_ext_head` the entry of `id` and `k` is byte `k` of the
last subfield with this id that has one, and 0 if there is none.  The loop writes byte after byte to
the indices `extHeadIndices`, and these are inside the array. -/
theorem ext_head_entries (src : Mem) (extHead : List UInt8)
    (hsrc : ∀ i < extHead.length, src i = some (ofList extHead i)) :
    ∃ array, dhavSfParseExtHead src extHead.length = .ok array ∧
      (∀ (id : UInt8) (k : ℕ), k < 8 →
        array (dhavSfIndex id.toNat k) = subfieldEntry extHead id k) ∧
      array = ((extHeadIndices (ofList extHead) 0 0 0 0 extHead.length).zip extHead).foldl
        (fun a p => Function.update a p.1 p.2) (fun _ => 0) ∧
      ∀ i ∈ extHeadIndices (ofList extHead) 0 0 0 0 extHead.length, i < 2048 := by
  have hread : ∀ i < extHead.length, src (0 + i) = some (ofList extHead (0 + i)) := by
    intro i hi
    rw [Nat.zero_add]
    exact hsrc i hi
  refine ⟨_, extHeadLoop_eq 0 0 0 (fun _ => 0) hread, ?_, ?_, ?_⟩
  · intro id k hk
    rw [extHeadStore_entry _ hk, slice_ofList_self]
  · rw [extHeadStore_eq_foldl, slice_ofList_self]
  · exact extHeadIndices_lt (fun h => absurd rfl h) 0 extHead.length

/-- Two subfields 0x80, the second one cut off. -/
theorem ext_head_entries_cut :
    ∃ array, dhavSfParseExtHead (.ofFrame [0x80, 1, 44, 36, 0x80, 2]) 6 = .ok array ∧
      (∀ (id : UInt8) (k : ℕ), k < 8 →
        array (dhavSfIndex id.toNat k) = subfieldEntry [0x80, 1, 44, 36, 0x80, 2] id k) ∧
      array = ((extHeadIndices (ofList [0x80, 1, 44, 36, 0x80, 2]) 0 0 0 0 6).zip
        [0x80, 1, 44, 36, 0x80, 2]).foldl (fun a p => Function.update a p.1 p.2) (fun _ => 0) ∧
      ∀ i ∈ extHeadIndices (ofList [0x80, 1, 44, 36, 0x80, 2]) 0 0 0 0 6, i < 2048 :=
  ext_head_entries (.ofFrame [0x80, 1, 44, 36, 0x80, 2]) [0x80, 1, 44, 36, 0x80, 2]
    fun _ hi => Mem.ofFrame_of_lt hi

/-- The fields of a frame are those of its extended header. -/
theorem subfields_entry (hk : k < 8) : subfields s (dhavSfIndex id.toNat k) =
    subfieldEntry (slice (fun i => s (baseDhavHdrLen + i)) 0 (s 22).toNat) id k :=
  extHeadStore_entry _ hk

end TaniDVR
