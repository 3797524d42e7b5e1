import TaniDVR.Dstf

/-!
# Identify — the input container format

`identifyMcFormat` is `identify_mc_format`; the stream loops run it on everything read so far, until
it answers, and from then on cut frames with the routine of that format (`streamToFrames`).
-/

namespace TaniDVR

open Lib

/-- `t_mc_format`. -/
inductive McFormat
  | dhav | mkv | rawH264 | dvrNative | dvrUnknown
  deriving DecidableEq, Repr

/-- The search loop of `find_bin_seq_in_mem` from index `i` on, for `n` more indices. -/
def findBinSeqFrom (mem : ℕ → UInt8) (seq : List UInt8) (i : ℕ) : ℕ → Option ℕ
  | 0 => none
  | n + 1 => if slice mem i seq.length = seq then some i else findBinSeqFrom mem seq (i + 1) n

/-- `find_bin_seq_in_mem`, the pointer as an index to `mem`. -/
def findBinSeqInMem (mem : ℕ → UInt8) (seq : List UInt8) (memLen : ℕ) : Option ℕ :=
  if seq.length > memLen then none
  else findBinSeqFrom mem seq 0 (memLen - (seq.length - 1))

/-- `"DHAV"`. -/
def strDHAV : List UInt8 := [0x44, 0x48, 0x41, 0x56]

/-- `"dhav"`. -/
def strDhav : List UInt8 := [0x64, 0x68, 0x61, 0x76]

/-- `"Dahua_ZH"`. -/
def strDahuaZH : List UInt8 := [0x44, 0x61, 0x68, 0x75, 0x61, 0x5f, 0x5a, 0x48]

/-- `identify_mc_format`. -/
def identifyMcFormat (src : ℕ → UInt8) (srcLen : ℕ) : McFormat :=
  if findBinSeqInMem src strDHAV srcLen ≠ none ∧ findBinSeqInMem src strDhav srcLen ≠ none then .dhav
  else if findBinSeqInMem src strDahuaZH srcLen ≠ none then .rawH264
  else .dvrUnknown

/-- The choice the stream loops make between the two routines. -/
def streamToFrames (mcFormatIn : McFormat) : Dstf → List UInt8 → ℕ → StfOut :=
  if mcFormatIn = .dhav then dstfProcessDhavStreamToFrames else dstfProcessRawH264StreamToFrames

@[simp] theorem streamToFrames_dhav : streamToFrames .dhav = dstfProcessDhavStreamToFrames := rfl

theorem streamToFrames_of_ne {f : McFormat} (h : f ≠ .dhav) :
    streamToFrames f = dstfProcessRawH264StreamToFrames := if_neg h

/-! ### The pattern search -/

theorem findBinSeqFrom_eq_none {mem : ℕ → UInt8} {seq : List UInt8} {i n : ℕ} :
    findBinSeqFrom mem seq i n = none ↔ ∀ j, i ≤ j → j < i + n → slice mem j seq.length ≠ seq := by
  induction n generalizing i with
  | zero => exact ⟨fun _ j h1 h2 => by omega, fun _ => rfl⟩
  | succ n ih =>
    rw [findBinSeqFrom, forall_between_succ, ← ih]
    split_ifs with hc
    · exact iff_of_false nofun fun h => h.1 hc
    · exact (and_iff_right hc).symm

/-- The search fails exactly when the pattern does not occur. -/
theorem findBinSeqInMem_eq_none {mem : ℕ → UInt8} {seq : List UInt8} {memLen : ℕ}
    (hseq : seq ≠ []) : findBinSeqInMem mem seq memLen = none ↔
      ∀ j, j + seq.length ≤ memLen → slice mem j seq.length ≠ seq := by
  have hpos := List.length_pos_iff.mpr hseq
  unfold findBinSeqInMem
  split_ifs with h
  · exact ⟨fun _ j hj => by omega, fun _ => rfl⟩
  · rw [findBinSeqFrom_eq_none]
    exact ⟨fun h j hj => h j (Nat.zero_le _) (by omega), fun h j _ hj => h j (by omega)⟩

/-- The search looks at the first `memLen` bytes only. -/
theorem findBinSeqInMem_congr {mem mem' : ℕ → UInt8} {seq : List UInt8} {memLen : ℕ}
    (hseq : seq ≠ []) (h : ∀ i < memLen, mem i = mem' i) :
    findBinSeqInMem mem seq memLen = findBinSeqInMem mem' seq memLen := by
  have hpos := List.length_pos_iff.mpr hseq
  have hfrom : ∀ n i, i + n + seq.length ≤ memLen + 1 →
      findBinSeqFrom mem seq i n = findBinSeqFrom mem' seq i n := by
    intro n
    induction n with
    | zero => exact fun i _ => rfl
    | succ n ih =>
      intro i hi
      have hs : slice mem i seq.length = slice mem' i seq.length :=
        slice_congr fun j hj => h (i + j) (by omega)
      rw [findBinSeqFrom, findBinSeqFrom, hs, ih (i + 1) (by omega)]
  unfold findBinSeqInMem
  split_ifs with hlen
  · rfl
  · exact hfrom _ _ (by omega)

theorem identifyMcFormat_congr {mem mem' : ℕ → UInt8} {memLen : ℕ}
    (h : ∀ i < memLen, mem i = mem' i) : identifyMcFormat mem memLen = identifyMcFormat mem' memLen := by
  unfold identifyMcFormat
  rw [findBinSeqInMem_congr (by simp [strDHAV]) h, findBinSeqInMem_congr (by simp [strDhav]) h,
    findBinSeqInMem_congr (by simp [strDahuaZH]) h]

theorem identifyMcFormat_cases (src : ℕ → UInt8) (n : ℕ) : identifyMcFormat src n = .dhav ∨
    identifyMcFormat src n = .rawH264 ∨ identifyMcFormat src n = .dvrUnknown := by
  unfold identifyMcFormat
  split_ifs <;> simp

/-- A stream that holds both patterns is a DHAV stream. -/
theorem identifyMcFormat_dhav {src : ℕ → UInt8} {srcLen i j : ℕ} (hi : i + 4 ≤ srcLen)
    (hi' : slice src i 4 = strDHAV) (hj : j + 4 ≤ srcLen) (hj' : slice src j 4 = strDhav) :
    identifyMcFormat src srcLen = .dhav := by
  refine if_pos ⟨fun h => ?_, fun h => ?_⟩
  · exact (findBinSeqInMem_eq_none (by simp [strDHAV])).mp h i hi hi'
  · exact (findBinSeqInMem_eq_none (by simp [strDhav])).mp h j hj hj'

/-- Once taken for DHAV, always taken for DHAV. -/
theorem identifyMcFormat_dhav_mono {src : ℕ → UInt8} {n n' : ℕ} (hn : n ≤ n')
    (h : identifyMcFormat src n = .dhav) : identifyMcFormat src n' = .dhav := by
  have hboth : findBinSeqInMem src strDHAV n ≠ none ∧ findBinSeqInMem src strDhav n ≠ none := by
    unfold identifyMcFormat at h
    split_ifs at h with h1 h2
    exact h1
  rw [Ne, Ne, findBinSeqInMem_eq_none (by simp [strDHAV]), findBinSeqInMem_eq_none (by simp [strDhav])]
    at hboth
  push Not at hboth
  obtain ⟨⟨i, hi, hi'⟩, j, hj, hj'⟩ := hboth
  have h4 : strDHAV.length = 4 ∧ strDhav.length = 4 := ⟨rfl, rfl⟩
  exact identifyMcFormat_dhav (by omega) hi' (by omega) hj'

end TaniDVR
