import TaniDVR.FileRun

/-!
# ReadSizes — identification under every cutting of the stream

The identification loop runs `identify_mc_format` after each read and stops at the first answer, so
what it chooses may depend on where the reads end.  A stream is taken for raw H.264 exactly when some
read ends where the bytes before hold `Dahua_ZH` and not yet both DHAV marks (`chosen_raw_iff`).

`same_format_iff`: all cuttings choose alike exactly when no read can jump over all such places
while another cutting stops at one (`ReadSizesMatter`).
-/

namespace TaniDVR

open Lib Dstf

/-- A cutting of the stream into non-empty reads of at most `b` bytes. -/
structure CutInto (b : ℕ) (stream : List UInt8) (reads : List (List UInt8)) : Prop where
  flatten : reads.flatten = stream
  nonempty : ∀ c ∈ reads, c ≠ []
  length_le : ∀ c ∈ reads, c.length ≤ b

/-- The first `n` bytes hold both marks of a DHAV frame. -/
def BothMarks (stream : List UInt8) (n : ℕ) : Prop :=
  strDHAV <:+: stream.take n ∧ strDhav <:+: stream.take n

/-- The first `Dahua_ZH` ends at `n`, before both DHAV marks are there, and they come less than
250000 bytes later. -/
def ReadSizesMatter (stream : List UInt8) : Prop :=
  ∃ n, strDahuaZH <:+: stream.take (n + 1) ∧ ¬ strDahuaZH <:+: stream.take n ∧
    ¬ BothMarks stream (n + 1) ∧ BothMarks stream (n + 250000)

/-! ### The answer on a prefix -/

section Prefix

variable {stream seq : List UInt8} {n m : ℕ}

theorem infix_take_mono (h : seq <:+: stream.take n) (hnm : n ≤ m) : seq <:+: stream.take m :=
  h.trans (List.take_prefix_take_left hnm).isInfix

/-- A pattern that occurs has a first end. -/
theorem exists_first_end (hseq : seq ≠ []) (h : seq <:+: stream.take m) :
    ∃ n < m, seq <:+: stream.take (n + 1) ∧ ¬ seq <:+: stream.take n := by
  induction m with
  | zero => exact absurd (List.infix_nil.mp h) hseq
  | succ m ih =>
    by_cases hm : seq <:+: stream.take m
    · obtain ⟨n, hn, h1⟩ := ih hm
      exact ⟨n, by omega, h1⟩
    · exact ⟨m, by omega, h, hm⟩

/-- It ends inside the stream. -/
theorem lt_length_of_end (h : seq <:+: stream.take (n + 1)) (h' : ¬ seq <:+: stream.take n) :
    n < stream.length := by
  by_contra hge
  rw [List.take_of_length_le (by omega)] at h h'
  exact h' h

theorem BothMarks.mono (h : BothMarks stream n) (hnm : n ≤ m) : BothMarks stream m :=
  ⟨infix_take_mono h.1 hnm, infix_take_mono h.2 hnm⟩

/-- Beyond the end of the stream there is no more to hold. -/
theorem bothMarks_of_min_le (h : BothMarks stream n) (hm : min stream.length n ≤ m) :
    BothMarks stream m := by
  rcases Nat.le_total n stream.length with hn | hn
  · exact h.mono (by omega)
  · rw [BothMarks, List.take_of_length_le hn] at h
    rwa [BothMarks, List.take_of_length_le (by omega)]

theorem findBinSeqInMem_ne_none (hseq : seq ≠ []) (hn : n ≤ stream.length) :
    findBinSeqInMem (ofList stream) seq n ≠ none ↔ seq <:+: stream.take n := by
  have hlen : (stream.take n).length = n := by
    rw [List.length_take]
    omega
  rw [Ne, findBinSeqInMem_eq_none hseq, isInfix_iff_slice, hlen]
  push Not
  refine exists_congr fun i => and_congr_right ?_
  intro hi
  rw [show slice (ofList stream) _ _ = slice (ofList (stream.take n)) _ _ from
    slice_congr fun j hj => (ofList_take (by omega)).symm]

/-- A prefix is taken for raw H.264 when it holds `Dahua_ZH` and not both DHAV marks. -/
theorem identifyMcFormat_raw_iff (hn : n ≤ stream.length) :
    identifyMcFormat (ofList stream) n = .rawH264 ↔
      strDahuaZH <:+: stream.take n ∧ ¬ BothMarks stream n := by
  have hDHAV : _ ↔ strDHAV <:+: _ := findBinSeqInMem_ne_none (by simp [strDHAV]) hn
  have hDhav : _ ↔ strDhav <:+: _ := findBinSeqInMem_ne_none (by simp [strDhav]) hn
  have hZH : _ ↔ strDahuaZH <:+: _ := findBinSeqInMem_ne_none (by simp [strDahuaZH]) hn
  rw [BothMarks, ← hDHAV, ← hDhav, ← hZH, identifyMcFormat]
  split_ifs with h1 h2
  · simp [h1]
  · simp [h1, h2]
  · simp [h2]

end Prefix

/-! ### The loop -/

/-- One read: what is stored then is a prefix of the stream. -/
theorem identify_append {e : ℕ} {stream c rest : List UInt8} {d : Dstf}
    (h : Holds (ofList stream) 0 e d) (hc : c ++ rest = stream.drop e) :
    let d' := { d with sq := blit d.sq (d.sqOffs + d.sqLen) c, sqLen := d.sqLen + c.length }
    Holds (ofList stream) 0 (e + c.length) d' ∧
      identifyMcFormat (fun i => d'.sq (d'.sqOffs + i)) d'.sqLen =
        identifyMcFormat (ofList stream) (e + c.length) := by
  intro d'
  have hbyte : ∀ i < c.length, ofList c i = ofList stream (e + i) := by
    intro i hi
    rw [← ofList_drop, ← hc, ofList_append_left hi]
  have h' : Holds (ofList stream) 0 (e + c.length) d' := h.append hbyte
  exact ⟨h', h'.identify⟩

/-- The ends of the reads, the first one apart. -/
theorem exists_prefix_cons {P : ℕ → Prop} {e : ℕ} {c : List UInt8} {cs : List (List UInt8)} :
    (∃ pre, pre <+: c :: cs ∧ pre ≠ [] ∧ P (e + pre.flatten.length)) ↔
      P (e + c.length) ∨ ∃ pre, pre <+: cs ∧ pre ≠ [] ∧ P (e + c.length + pre.flatten.length) := by
  constructor
  · rintro ⟨pre, hpre, hpne, h⟩
    obtain ⟨p, ps, rfl⟩ := List.exists_cons_of_ne_nil hpne
    obtain ⟨rfl, hps⟩ := List.cons_prefix_cons.mp hpre
    rw [List.flatten_cons, List.length_append, ← Nat.add_assoc] at h
    rcases eq_or_ne ps [] with rfl | hne
    · exact .inl (by simpa using h)
    · exact .inr ⟨ps, hps, hne, h⟩
  · rintro (h | ⟨pre, hpre, -, h⟩)
    · exact ⟨[c], by simp, by simp, by simpa using h⟩
    · refine ⟨c :: pre, List.cons_prefix_cons.mpr ⟨rfl, hpre⟩, by simp, ?_⟩
      rwa [List.flatten_cons, List.length_append, ← Nat.add_assoc]

/-- **The loop answers raw H.264 exactly when some read ends where the prefix is taken for that.** -/
theorem identifyLoop_raw_iff_prefix {g e : ℕ} {stream : List UInt8} {d : Dstf}
    {reads : List (List UInt8)} (h : Holds (ofList stream) 0 e d)
    (hreads : reads.flatten = stream.drop e) (hne : ∀ c ∈ reads, c ≠ [])
    (hroom : stream.length + 2 * g ≤ d.sqMaxlen) :
    (identifyLoop g d reads).2.1 = .rawH264 ↔
      ∃ pre, pre <+: reads ∧ pre ≠ [] ∧
        identifyMcFormat (ofList stream) (e + pre.flatten.length) = .rawH264 := by
  induction reads generalizing d e with
  | nil =>
    constructor
    · intro hf
      cases hf
    · rintro ⟨pre, hpre, hpne, -⟩
      exact absurd (List.prefix_nil.mp hpre) hpne
  | cons c cs ih =>
    rw [List.flatten_cons] at hreads
    have hc : 0 < c.length := List.length_pos_iff.mpr (hne c (by simp))
    have hlen := congrArg List.length hreads
    rw [List.length_append, List.length_drop] at hlen
    have hsq := h.len
    obtain ⟨h', hid⟩ := identify_append h hreads
    have hrest : cs.flatten = stream.drop (e + c.length) := by
      rw [← List.drop_drop, ← hreads, List.drop_left]
    rw [exists_prefix_cons (P := fun n => identifyMcFormat (ofList stream) n = .rawH264),
      identifyLoop, if_pos (by omega), if_pos hc]
    dsimp only
    rw [hid]
    rcases identifyMcFormat_cases (ofList stream) (e + c.length) with hd | hr | hu
    · rw [hd, if_pos (by simp)]
      constructor
      · simp
      · rintro (hraw | ⟨pre, -, -, hraw⟩)
        · exact hraw
        · rw [identifyMcFormat_dhav_mono (Nat.le_add_right _ _) hd] at hraw
          cases hraw
    · rw [hr, if_pos (by simp)]
      simp
    · rw [hu, if_neg (by simp), ih h' hrest (fun c' hc' => hne c' (List.mem_cons_of_mem _ hc')) hroom]
      simp

/-- The end of a read of some cutting is a place where raw H.264 is chosen. -/
theorem chosen_raw_iff {p : Program} {b : ℕ} {stream : List UInt8} {reads : List (List UInt8)}
    (sq below : ℕ → UInt8) (h : CutInto b stream reads) (hlen : stream.length ≤ 500000) :
    (streamStart p (dstfInit sq below) reads).1 = .rawH264 ↔
      ∃ pre, pre <+: reads ∧ strDahuaZH <:+: stream.take pre.flatten.length ∧
        ¬ BothMarks stream pre.flatten.length := by
  have hfmt : (streamStart p (dstfInit sq below) reads).1 = .rawH264 ↔
      (identifyLoop p.granularity (dstfInit sq below) reads).2.1 = .rawH264 := by
    unfold streamStart
    dsimp only
    split_ifs with hu
    · simp [hu]
    · rfl
  have hroom : stream.length + 2 * p.granularity ≤ tMcParmsDhavStf := by
    have hT : tMcParmsDhavStf = 1000000 := rfl
    cases p <;> simp only [Program.granularity] <;> omega
  rw [hfmt, identifyLoop_raw_iff_prefix (holds_dstfInit (ofList stream) sq below) h.flatten h.nonempty
    hroom]
  refine exists_congr fun pre => and_congr_right ?_
  intro hpre
  have hle : pre.flatten.length ≤ stream.length := by
    obtain ⟨rest, rfl⟩ := hpre
    rw [← h.flatten, List.flatten_append, List.length_append]
    omega
  rw [Nat.zero_add, identifyMcFormat_raw_iff hle]
  constructor
  · rintro ⟨-, hraw⟩
    exact hraw
  · rintro hraw
    refine ⟨?_, hraw⟩
    rintro rfl
    exact absurd hraw.1 (by simp [strDahuaZH])

/-- Otherwise the stream is taken for DHAV. -/
theorem chosen_cases (p : Program) (d : Dstf) (reads : List (List UInt8)) :
    (streamStart p d reads).1 = .dhav ∨ (streamStart p d reads).1 = .rawH264 := by
  unfold streamStart
  dsimp only
  rcases identifyLoop_cases p.granularity d reads with h | h | h <;> simp [h]

/-! ### Cuttings -/

/-- The first read that reaches `n` ends less than its length after it. -/
theorem exists_read_end {b n : ℕ} {reads : List (List UInt8)} (hb : ∀ c ∈ reads, c.length ≤ b)
    (hn : n < reads.flatten.length) :
    ∃ pre, pre <+: reads ∧ n < pre.flatten.length ∧ pre.flatten.length ≤ n + b := by
  induction reads generalizing n with
  | nil => simp at hn
  | cons c cs ih =>
    rw [List.flatten_cons, List.length_append] at hn
    have hc := hb c (by simp)
    by_cases hlt : n < c.length
    · exact ⟨[c], by simp, by simpa using hlt, by simpa using by omega⟩
    · obtain ⟨pre, hpre, h1, h2⟩ := ih (n := n - c.length) (fun c' hc' => hb c' (by simp [hc']))
        (by omega)
      refine ⟨c :: pre, List.cons_prefix_cons.mpr ⟨rfl, hpre⟩, ?_, ?_⟩ <;>
        rw [List.flatten_cons, List.length_append] <;> omega

/-- Reads of one byte. -/
def byteReads (l : List UInt8) : List (List UInt8) := l.map fun b => [b]

theorem flatten_byteReads (l : List UInt8) : (byteReads l).flatten = l := by
  induction l with
  | nil => rfl
  | cons b l ih => simpa [byteReads] using ih

theorem mem_byteReads {c l : List UInt8} (h : c ∈ byteReads l) : c.length = 1 := by
  obtain ⟨b, -, rfl⟩ := List.mem_map.mp h
  rfl

theorem cutInto_byteReads (stream : List UInt8) : CutInto 250000 stream (byteReads stream) := by
  refine ⟨flatten_byteReads stream, fun c hc => ?_, fun c hc => ?_⟩ <;> have := mem_byteReads hc
  · exact List.length_pos_iff.mp (by omega)
  · omega

/-- One long read after the first `n` bytes. -/
def longRead (stream : List UInt8) (n : ℕ) : List (List UInt8) :=
  byteReads (stream.take n) ++ (stream.drop n).take 250000 :: byteReads (stream.drop (n + 250000))

theorem cutInto_longRead {stream : List UInt8} {n : ℕ} (hn : n < stream.length) :
    CutInto 250000 stream (longRead stream n) := by
  refine ⟨?_, fun c hc => ?_, fun c hc => ?_⟩
  · rw [longRead, List.flatten_append, List.flatten_cons, flatten_byteReads, flatten_byteReads,
      ← List.drop_drop, List.take_append_drop, List.take_append_drop]
  all_goals
    rw [longRead, List.mem_append, List.mem_cons] at hc
    rcases hc with hc | rfl | hc
  · exact List.length_pos_iff.mp (by rw [mem_byteReads hc]; decide)
  · refine List.length_pos_iff.mp ?_
    rw [List.length_take, List.length_drop]
    omega
  · exact List.length_pos_iff.mp (by rw [mem_byteReads hc]; decide)
  · rw [mem_byteReads hc]
    decide
  · exact List.length_take_le _ _
  · rw [mem_byteReads hc]
    decide

/-- No read of it ends between. -/
theorem longRead_ends {stream : List UInt8} {n : ℕ} {pre : List (List UInt8)} (hn : n ≤ stream.length)
    (hpre : pre <+: longRead stream n) :
    pre.flatten.length ≤ n ∨ min stream.length (n + 250000) ≤ pre.flatten.length := by
  have hlen : (byteReads (stream.take n)).flatten.length = n := by
    rw [flatten_byteReads, List.length_take]
    omega
  rcases List.prefix_or_prefix_of_prefix hpre (List.prefix_append _ _) with ⟨t, ht⟩ | ⟨rest, rfl⟩
  · left
    rw [← ht, List.flatten_append, List.length_append] at hlen
    omega
  · have hrest := (List.prefix_append_right_inj _).mp hpre
    rcases rest with _ | ⟨c, cs⟩
    · left
      rw [List.append_nil, hlen]
    · right
      obtain ⟨rfl, -⟩ := List.cons_prefix_cons.mp hrest
      rw [List.flatten_append, List.flatten_cons, List.length_append, hlen, List.length_append,
        List.length_take, List.length_drop]
      omega

/-! ### Two runs -/

/-- **Identification does not depend on the read sizes exactly when `ReadSizesMatter` fails.** -/
theorem same_format_iff (p : Program) (sq below : ℕ → UInt8) (stream : List UInt8)
    (hlen : stream.length ≤ 500000) :
    (∀ reads reads', CutInto 250000 stream reads → CutInto 250000 stream reads' →
      (streamStart p (dstfInit sq below) reads).1 = (streamStart p (dstfInit sq below) reads').1) ↔
      ¬ ReadSizesMatter stream := by
  constructor
  · rintro h ⟨n, hz, hz', hb, hb'⟩
    have hn := lt_length_of_end hz hz'
    have heq := h _ _ (cutInto_byteReads stream) (cutInto_longRead hn)
    have hend : (byteReads (stream.take (n + 1))).flatten.length = n + 1 := by
      rw [flatten_byteReads, List.length_take]
      omega
    -- single bytes stop at the end of `Dahua_ZH`, the long read passes both marks
    have hraw : (streamStart p (dstfInit sq below) (byteReads stream)).1 = .rawH264 := by
      refine (chosen_raw_iff sq below (cutInto_byteReads stream) hlen).mpr
        ⟨byteReads (stream.take (n + 1)), ?_, ?_, ?_⟩
      · exact (List.take_prefix _ _).map _
      · rwa [hend]
      · rwa [hend]
    rw [hraw] at heq
    obtain ⟨pre, hpre, hz2, hb2⟩ := (chosen_raw_iff sq below (cutInto_longRead hn) hlen).mp heq.symm
    rcases longRead_ends hn.le hpre with hle | hge
    · exact hz' (infix_take_mono hz2 hle)
    · exact hb2 (bothMarks_of_min_le hb' hge)
  · intro h reads reads' hr hr'
    have himp : ∀ {reads reads'}, CutInto 250000 stream reads → CutInto 250000 stream reads' →
        (streamStart p (dstfInit sq below) reads).1 = .rawH264 →
        (streamStart p (dstfInit sq below) reads').1 = .rawH264 := by
      intro reads reads' hr hr' hraw
      obtain ⟨pre, -, hz, hb⟩ := (chosen_raw_iff sq below hr hlen).mp hraw
      obtain ⟨n, hn, hz1, hz0⟩ := exists_first_end (by simp [strDahuaZH]) hz
      have hlate : ¬ BothMarks stream (n + 250000) := fun hb' =>
        h ⟨n, hz1, hz0, fun hb1 => hb (hb1.mono hn), hb'⟩
      -- the read that reaches the end of `Dahua_ZH` stops before both marks are there
      have hin : n < reads'.flatten.length := hr'.flatten ▸ lt_length_of_end hz1 hz0
      obtain ⟨pre', hpre', h1, h2⟩ := exists_read_end hr'.length_le hin
      exact (chosen_raw_iff sq below hr' hlen).mpr
        ⟨pre', hpre', infix_take_mono hz1 h1, fun hb' => hlate (hb'.mono h2)⟩
    rcases chosen_cases p (dstfInit sq below) reads with hd | hraw
    · rcases chosen_cases p (dstfInit sq below) reads' with hd' | hraw'
      · rw [hd, hd']
      · rw [himp hr' hr hraw', hraw']
    · rw [hraw, himp hr hr' hraw]

/-- A stream with `Dahua_ZH` and no DHAV mark. -/
theorem same_format_iff_raw :
    (∀ reads reads', CutInto 250000 strDahuaZH reads → CutInto 250000 strDahuaZH reads' →
      (streamStart .tanidvr (dstfInit (fun _ => 0) (fun _ => 0)) reads).1 =
        (streamStart .tanidvr (dstfInit (fun _ => 0) (fun _ => 0)) reads').1) ↔
      ¬ ReadSizesMatter strDahuaZH :=
  same_format_iff .tanidvr (fun _ => 0) (fun _ => 0) strDahuaZH (by decide)

/-- A DHAV frame with `Dahua_ZH` in its body. -/
def markedFrame : List UInt8 :=
  strDHAV ++ [0xfc, 0, 0, 0, 0, 0, 0, 0, 40, 0, 0, 0, 0, 0, 0, 0, 0, 0, 0, 0] ++ strDahuaZH ++
    strDhav ++ [40, 0, 0, 0]

/-- Read at once it is DHAV, read up to the body it is raw H.264. -/
theorem read_sizes_matter :
    ¬ ∀ (stream : List UInt8) (reads reads' : List (List UInt8)), stream.length ≤ 500000 →
      CutInto 250000 stream reads → CutInto 250000 stream reads' →
      (streamStart .tanidvr (dstfInit (fun _ => 0) (fun _ => 0)) reads).1 =
        (streamStart .tanidvr (dstfInit (fun _ => 0) (fun _ => 0)) reads').1 := by
  intro h
  have hcut : CutInto 250000 markedFrame [markedFrame] := ⟨by decide, by decide, by decide⟩
  have hcut' : CutInto 250000 markedFrame [markedFrame.take 32, markedFrame.drop 32] :=
    ⟨by decide, by decide, by decide⟩
  exact absurd (h _ _ _ (by decide) hcut hcut') (by decide)

end TaniDVR
