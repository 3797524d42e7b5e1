import TaniDVR.QueueSpace

/-!
# FileRun — `dhav2mkv` reading a file

`processDhavStream` is the state of `process_dhav_stream` at the start of its loop: the format
identified and the reads still to come, the last of them empty.  `ReadsFrom` describes the reads
from a file position on and `Holds` the queue by file positions; identification keeps both
(`identifyLoop_holds`), and `identifyLoop_raw_iff` says which files it takes for raw H.264.
-/

namespace TaniDVR

open Lib Dstf StreamLoop

/-- The reads `infile_read` makes of a file before its end: full blocks and the rest. -/
def infileReads (g : ℕ) (file : List UInt8) : List (List UInt8) :=
  (List.range ((file.length + g - 1) / g)).map fun k => (file.drop (k * g)).take g

/-- `process_dhav_stream` up to its loop; the last read of the loop finds the end of the file. -/
def processDhavStream (d : Dstf) (file : List UInt8) : McFormat × StreamLoop :=
  let (fmt, s) := streamStart .dhav2mkv d (infileReads Program.dhav2mkv.granularity file)
  (fmt, { s with reads := s.reads ++ [[]] })

/-! ### Reads -/

/-- The position of the file at which a read can end. -/
def ReadEnd (g : ℕ) (file : List UInt8) (e : ℕ) : Prop :=
  e = file.length ∨ (g ∣ e ∧ e ≤ file.length)

/-- The reads from position `e` on, the empty one at the end included. -/
inductive ReadsFrom (g : ℕ) (file : List UInt8) : ℕ → List (List UInt8) → Prop
  | done : ReadsFrom g file file.length []
  | eof : ReadsFrom g file file.length [[]]
  | data {e : ℕ} {rs : List (List UInt8)} : e < file.length → g ∣ e →
      ReadsFrom g file (min (e + g) file.length) rs →
      ReadsFrom g file e ((file.drop e).take g :: rs)

variable {g e : ℕ} {file : List UInt8} {rs : List (List UInt8)}

theorem ReadsFrom.readEnd (h : ReadsFrom g file e rs) : ReadEnd g file e := by
  cases h with
  | done => exact Or.inl rfl
  | eof => exact Or.inl rfl
  | data hlt hdvd _ => exact Or.inr ⟨hdvd, hlt.le⟩

/-- The next read ends at the next possible position. -/
theorem ReadEnd.le {n : ℕ} (h : ReadEnd g file n) : n ≤ file.length := by
  obtain heq | ⟨-, hle⟩ := h
  · exact heq.le
  · exact hle

theorem ReadEnd.next (hdvd : g ∣ e) {n : ℕ} (hn : ReadEnd g file n) (hlt : e < n) :
    min (e + g) file.length ≤ n := by
  obtain rfl | ⟨hdn, -⟩ := hn
  · exact Nat.min_le_right _ _
  · obtain ⟨a, rfl⟩ := hdvd
    obtain ⟨b, rfl⟩ := hdn
    have hab : a + 1 ≤ b := Nat.lt_of_mul_lt_mul_left hlt
    have := Nat.mul_le_mul_left g hab
    rw [Nat.mul_add, Nat.mul_one] at this
    omega

/-- What a read holds. -/
theorem read_byte {i : ℕ} (h : i < ((file.drop e).take g).length) :
    ofList ((file.drop e).take g) i = ofList file (e + i) := by
  rw [List.length_take] at h
  rw [ofList_take (by omega), ofList_drop]

/-- One read: it ends at the next possible position and holds what the file holds there. -/
theorem ReadsFrom.cons (hg : 0 < g) {c : List UInt8} (h : ReadsFrom g file e (c :: rs)) :
    e + c.length = min (e + g) file.length ∧ (∀ i < c.length, ofList c i = ofList file (e + i)) ∧
    ReadsFrom g file (e + c.length) rs ∧ (c = [] → rs = []) ∧ (g ∣ e ∨ e = file.length) := by
  cases h with
  | eof => exact ⟨by simp, by simp, by simpa using .done, fun _ => rfl, Or.inr rfl⟩
  | data hlt hdvd hrest =>
    have hlen : e + ((file.drop e).take g).length = min (e + g) file.length := by
      rw [List.length_take, List.length_drop]
      omega
    refine ⟨hlen, fun i hi => read_byte hi, hlen ▸ hrest, fun hnil => ?_, Or.inl hdvd⟩
    rw [hnil, List.length_nil] at hlen
    omega

theorem readsFrom_infileReads (hg : 0 < g) (file : List UInt8) :
    ReadsFrom g file 0 (infileReads g file ++ [[]]) := by
  have hceil : ∀ k, k + 1 ≤ (file.length + g - 1) / g ↔ k * g < file.length := by
    intro k
    rw [Nat.le_div_iff_mul_le hg, Nat.add_mul, Nat.one_mul]
    omega
  have hrun : ∀ n k, k + n = (file.length + g - 1) / g →
      ReadsFrom g file (min (k * g) file.length)
        ((List.range' k n).map (fun k => (file.drop (k * g)).take g) ++ [[]]) := by
    intro n
    induction n with
    | zero =>
      intro k hk
      have hge : ¬ k * g < file.length := by
        intro hlt
        have := (hceil k).mpr hlt
        omega
      rw [Nat.min_eq_right (by omega)]
      exact .eof
    | succ n ih =>
      intro k hk
      have hlt := (hceil k).mp (by omega)
      have hnext := ih (k + 1) (by omega)
      rw [Nat.add_mul, Nat.one_mul] at hnext
      rw [Nat.min_eq_left hlt.le, List.range'_succ, List.map_cons, List.cons_append]
      exact .data hlt (Nat.dvd_mul_left g k) hnext
  have := hrun _ 0 (Nat.zero_add _)
  rwa [Nat.zero_mul, Nat.zero_min, ← List.range_eq_range'] at this

/-! ### The queue by file positions -/

/-- The queue array holds the file: its head is at position `a`, its data ends at position `e`, and
what lies before the head in the array lies before it in the file. -/
structure Holds (S : ℕ → UInt8) (a e : ℕ) (d : Dstf) : Prop where
  offs_le : d.sqOffs ≤ a
  len : a + d.sqLen = e
  byte : ∀ j < d.sqOffs + d.sqLen, d.sq j = S (a - d.sqOffs + j)

variable {S : ℕ → UInt8} {a : ℕ} {d : Dstf} {c : List UInt8}

theorem Holds.head_byte (h : Holds S a e d) {i : ℕ} (hi : i < d.sqLen) :
    d.sq (d.sqOffs + i) = S (a + i) := by
  have hle := h.offs_le
  rw [h.byte (d.sqOffs + i) (by omega)]
  congr 1
  omega

theorem Holds.skip (h : Holds S a e d) {n : ℕ} (hn : n ≤ d.sqLen) : Holds S (a + n) e (d.skip n) := by
  have hle := h.offs_le
  have hlen := h.len
  refine ⟨?_, ?_, fun j hj => ?_⟩
  · rw [skip_sqOffs]
    omega
  · rw [skip_sqLen]
    omega
  · rw [skip_sqOffs, skip_sqLen] at hj
    rw [skip_sq, skip_sqOffs, h.byte j (by omega)]
    congr 1
    omega

/-- Data appended behind the old end. -/
theorem Holds.append (h : Holds S a e d) (hc : ∀ i < c.length, ofList c i = S (e + i)) :
    Holds S a (e + c.length)
      { d with sq := blit d.sq (d.sqOffs + d.sqLen) c, sqLen := d.sqLen + c.length } := by
  have hle := h.offs_le
  have hlen := h.len
  refine ⟨hle, by dsimp only; omega, ?_⟩
  intro j hj
  dsimp only at hj ⊢
  by_cases hj' : j < d.sqOffs + d.sqLen
  · rw [blit_of_lt hj', h.byte j hj']
  · obtain ⟨i, rfl⟩ := Nat.exists_eq_add_of_le (Nat.not_lt.mp hj')
    have hi : i < c.length := by omega
    rw [blit_add hi, ← ofList_of_lt hi, hc i hi]
    congr 1
    omega

theorem Holds.load (h : Holds S a e d) {d' : Dstf} (hl : d.load c = some d')
    (hc : ∀ i < c.length, ofList c i = S (e + i)) : Holds S a (e + c.length) d' := by
  obtain ⟨rfl, rfl⟩ | ⟨-, -, rfl⟩ | ⟨-, -, rfl⟩ := load_cases hl
  · exact h
  · exact h.append hc
  · -- packed: the head moves to the start of the array
    have hp : Holds S a e { d with sq := memcpyOverlap d.sq 0 d.sqOffs d.sqLen, sqOffs := 0 } := by
      refine ⟨Nat.zero_le _, h.len, ?_⟩
      intro j hj
      dsimp only at hj ⊢
      have hmove : memcpyOverlap d.sq 0 d.sqOffs d.sqLen (0 + j) = d.sq (d.sqOffs + j) :=
        memcpyOverlap_add (Nat.zero_le _) (by omega)
      rw [Nat.zero_add] at hmove
      rw [hmove, h.head_byte (by omega), Nat.sub_zero]
    have := hp.append hc
    simpa only [Nat.zero_add] using this

/-! ### Identification -/

/-- What is identified is the file up to the end of the queue. -/
theorem Holds.identify (h : Holds S 0 e d) :
    identifyMcFormat (fun i => d.sq (d.sqOffs + i)) d.sqLen = identifyMcFormat S e := by
  have hlen := h.len
  rw [Nat.zero_add] at hlen
  rw [hlen]
  refine identifyMcFormat_congr ?_
  intro i hi
  have := h.head_byte (i := i) (by omega)
  rwa [Nat.zero_add] at this

theorem identifyLoop_holds (hg : 0 < g) {cs : List (List UInt8)}
    (hr : ReadsFrom g file e (cs ++ [[]])) (h : Holds (ofList file) 0 e d) :
    ∃ e', ReadsFrom g file e' ((identifyLoop g d cs).2.2 ++ [[]]) ∧
      Holds (ofList file) 0 e' (identifyLoop g d cs).1 ∧
      (identifyLoop g d cs).1.below = d.below := by
  induction cs generalizing d e with
  | nil => exact ⟨e, hr, h, rfl⟩
  | cons c cs ih =>
    obtain ⟨-, hbyte, hrest, hnil, -⟩ := hr.cons hg
    unfold identifyLoop
    split_ifs with hsp hc
    · dsimp only
      split_ifs
      · exact ⟨_, hrest, h.append hbyte, rfl⟩
      · exact ih hrest (h.append hbyte)
    · have := hnil (List.length_eq_zero_iff.mp (by omega))
      simp at this
    · exact ⟨e, hr, h, rfl⟩

theorem identifyLoop_cases (g : ℕ) (d : Dstf) (cs : List (List UInt8)) :
    (identifyLoop g d cs).2.1 = .dhav ∨ (identifyLoop g d cs).2.1 = .rawH264 ∨
      (identifyLoop g d cs).2.1 = .dvrUnknown := by
  induction cs generalizing d with
  | nil => exact Or.inr (Or.inr rfl)
  | cons c cs ih =>
    unfold identifyLoop
    split_ifs with hsp hc
    · dsimp only
      split_ifs
      · exact identifyMcFormat_cases _ _
      · exact ih _
    · exact ih _
    · exact Or.inr (Or.inr rfl)

/-- A file is taken for raw H.264: at some read of the identification loop it shows `Dahua_ZH` and
not yet both DHAV patterns. -/
def TakenForRaw (file : List UInt8) : Prop :=
  ∃ n, ReadEnd 10000 file n ∧ n ≤ 990000 ∧ identifyMcFormat (ofList file) n = .rawH264

theorem identifyLoop_raw_iff {cs : List (List UInt8)} (hr : ReadsFrom 10000 file e (cs ++ [[]]))
    (h : Holds (ofList file) 0 e d) (hmax : d.sqMaxlen = tMcParmsDhavStf) :
    (identifyLoop 10000 d cs).2.1 = .rawH264 ↔
      ∃ n, e < n ∧ ReadEnd 10000 file n ∧ n ≤ 990000 ∧
        identifyMcFormat (ofList file) n = .rawH264 := by
  have hT : tMcParmsDhavStf = 1000000 := rfl
  induction cs generalizing d e with
  | nil =>
    have hlen := (hr.cons (by decide)).1
    rw [List.length_nil] at hlen
    constructor
    · intro hf
      cases hf
    · rintro ⟨n, hlt, hn, -⟩
      have := hn.le
      omega
  | cons c cs ih =>
    obtain ⟨hlen, hbyte, hrest, hnil, hdvd⟩ := hr.cons (by decide)
    have hsq := h.len
    -- the next read ends at the end of this one or later
    have hnext : ∀ {n}, e < n → ReadEnd 10000 file n → 10000 ∣ e ∧ e + c.length ≤ n := by
      intro n hlt hn
      obtain hdvd | heq := hdvd
      · exact ⟨hdvd, hlen ▸ hn.next hdvd hlt⟩
      · have := hn.le
        omega
    unfold identifyLoop
    split_ifs with hsp hc
    · have h' := h.append hbyte
      have hid := h'.identify
      dsimp only at hid ⊢
      rw [hid]
      split_ifs with hfmt
      · constructor
        · intro hraw
          exact ⟨e + c.length, by omega, hrest.readEnd, by omega, hraw⟩
        · rintro ⟨n, hlt, hn, -, hraw⟩
          obtain hd | hr' | hu := identifyMcFormat_cases (ofList file) (e + c.length)
          · rw [identifyMcFormat_dhav_mono (hnext hlt hn).2 hd] at hraw
            cases hraw
          · exact hr'
          · exact absurd hu hfmt
      · rw [not_not] at hfmt
        refine (ih hrest h' hmax).trans ?_
        constructor
        · rintro ⟨n, hlt, hrest⟩
          exact ⟨n, by omega, hrest⟩
        · rintro ⟨n, hlt, hn, hle, hraw⟩
          refine ⟨n, lt_of_le_of_ne (hnext hlt hn).2 ?_, hn, hle, hraw⟩
          intro heq
          rw [← heq, hfmt] at hraw
          cases hraw
    · have := hnil (List.length_eq_zero_iff.mp (by omega))
      simp at this
    · constructor
      · intro hf
        cases hf
      · rintro ⟨n, hlt, hn, hle, -⟩
        obtain ⟨hdvd, -⟩ := hnext hlt hn
        omega

theorem holds_dstfInit (S sq below : ℕ → UInt8) : Holds S 0 0 (dstfInit sq below) :=
  ⟨le_rfl, rfl, fun j hj => absurd hj (Nat.not_lt_zero j)⟩

/-- **Which files `dhav2mkv` takes for raw H.264.** -/
theorem processDhavStream_raw_iff (sq below : ℕ → UInt8) (file : List UInt8) :
    (processDhavStream (dstfInit sq below) file).1 ≠ .dhav ↔ TakenForRaw file := by
  have hraw := identifyLoop_raw_iff (readsFrom_infileReads (by decide) file)
    (holds_dstfInit (ofList file) sq below) rfl
  have hpos : TakenForRaw file ↔ ∃ n, 0 < n ∧ ReadEnd 10000 file n ∧ n ≤ 990000 ∧
      identifyMcFormat (ofList file) n = .rawH264 := by
    constructor
    · rintro ⟨n, h1, h2, h3⟩
      refine ⟨n, Nat.pos_of_ne_zero fun h0 => ?_, h1, h2, h3⟩
      rw [h0] at h3
      cases h3
    · rintro ⟨n, -, h⟩
      exact ⟨n, h⟩
  rw [hpos, ← hraw]
  have hfmt : (processDhavStream (dstfInit sq below) file).1 =
      if (identifyLoop 10000 (dstfInit sq below) (infileReads 10000 file)).2.1 = .dvrUnknown then
        .dhav else (identifyLoop 10000 (dstfInit sq below) (infileReads 10000 file)).2.1 := rfl
  rw [hfmt]
  obtain h | h | h := identifyLoop_cases 10000 (dstfInit sq below) (infileReads 10000 file) <;>
    simp [h]

/-- The loop of `dhav2mkv` starts with the first reads of the file in the queue and with space for
another. -/
theorem processDhavStream_start (sq below : ℕ → UInt8) (file : List UInt8) :
    ∃ d e rs, (processDhavStream (dstfInit sq below) file).2 = .start d (rs ++ [[]]) ∧
      ReadsFrom 10000 file e (rs ++ [[]]) ∧ Holds (ofList file) 0 e d ∧ d.below = below ∧
      d.sqMaxlen = tMcParmsDhavStf ∧ d.sqLen + 10000 ≤ tMcParmsDhavStf := by
  obtain ⟨e, h1, h2, h3⟩ := identifyLoop_holds (by decide) (readsFrom_infileReads (by decide) file)
    (holds_dstfInit (ofList file) sq below) (g := 10000)
  obtain ⟨-, h5, h6, -⟩ := identifyLoop_spec (g := 10000) (infileReads 10000 file)
    (d := dstfInit sq below) rfl (show 0 + 10000 ≤ tMcParmsDhavStf by decide) fun c hc => by
      obtain ⟨k, -, rfl⟩ := List.mem_map.mp hc
      exact List.length_take_le _ _
  exact ⟨_, e, _, rfl, h1, h2, h3, h6, h5.trans_eq h6⟩

end TaniDVR
