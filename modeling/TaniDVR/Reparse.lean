import Mathlib.Tactic.IntervalCases
import TaniDVR.Resync

/-!
# Reparse — the native dump as input

A frame is accepted by what stands in the queue, also outside the frame: the length field is at
offset 12 and the trailer 8 bytes before the declared end.  `accepted_cases`: what is accepted is a
`WholeFrame`, or the 16 bytes of `twelveFrame`, which declare 12, or a `ZeroFrame`.

`reparse_iff`: every emitted frame is emitted again when it is fed alone, and the dump of all of them
gives the same frames, exactly when neither of the other two comes to the head of the queue.
-/

namespace TaniDVR

open Lib Dstf StreamLoop

/-- A frame fed alone to a fresh queue is emitted unchanged and wholly consumed. -/
def SelfDelimiting (f : List UInt8) : Prop :=
  ∀ (sq below : ℕ → UInt8) (maxDstLen : ℕ), f.length ≤ maxDstLen →
    ∃ d, dstfProcessDhavStreamToFrames (dstfInit sq below) f maxDstLen = ⟨1, f, d⟩ ∧ d.sqLen = 0

/-- The reads of a dump fit into the queue: one that starts in a frame, or where the frame starts,
ends at most 1000000 bytes after the start of that frame. -/
def ReadsFit (frames reads : List (List UInt8)) : Prop :=
  ∀ pre c post fs f gs, reads = pre ++ c :: post → frames = fs ++ f :: gs →
    fs.flatten.length ≤ pre.flatten.length → pre.flatten.length < fs.flatten.length + f.length →
    pre.flatten.length + c.length ≤ fs.flatten.length + tMcParmsDhavStf

/-- The dump of the frames gives the frames: read in any pieces that fit into the queue, the loop ends
at the end of the dump with exactly these frames. -/
def Reparses (frames : List (List UInt8)) : Prop :=
  ∀ (sq below : ℕ → UInt8) (maxDstLen : ℕ) (reads : List (List UInt8)),
    tMcParmsDhavStf ≤ maxDstLen → reads.flatten = frames.flatten → ReadsFit frames reads →
    ∃ l, Halts (StreamLoop.step .dhav maxDstLen) (.start (dstfInit sq below) reads) l ∧
      l.dstfRet = 0 ∧ l.reads = [] ∧ l.frames = frames

/-- Reads that leave the space of each frame fit: those of 10000 bytes when no frame is longer than
990000. -/
theorem readsFit_of_le {frames reads : List (List UInt8)}
    (h : ∀ c ∈ reads, ∀ f ∈ frames, f.length + c.length ≤ tMcParmsDhavStf) :
    ReadsFit frames reads := by
  rintro pre c post fs f gs rfl rfl - hlt
  have := h c (by simp) f (by simp)
  omega

/-- A call finds a frame whole at the head `h` of the queue, with room for it in the output. -/
def Emits (d : Dstf) (c : StfCall) (h : Dstf) : Prop :=
  ∃ l, d.load c.src = some l ∧ Passed l h ∧ h.check = .frame ∧ h.repLen ≤ c.maxDstLen

/-- `DHAV`, `dhav` and twice the length 12: a trailer inside the header. -/
def twelveFrame : List UInt8 := strDHAV ++ strDhav ++ [12, 0, 0, 0, 12, 0, 0, 0]

/-- No frame of a declared length below 16 comes to the head. -/
def NoShortFrame (d : Dstf) (calls : List StfCall) : Prop :=
  ∀ pre c h, pre ++ [c] <+: calls → Emits (runCalls .dhav d pre) c h →
    slice h.sq h.sqOffs 16 ≠ twelveFrame ∧ ¬ ZeroFrame .dhav h

/-! ### What is accepted -/

section Accepted

variable {h : Dstf}

/-- The bytes that the tests read at the trailer, where they lie in the frame. -/
theorem byteAt_trailer {i j : ℕ} (hij : j + 8 = h.repLen + i) :
    h.byteAt (h.trailerPos + i) = h.sq (h.sqOffs + j) := by
  have hpos : h.trailerPos + (i : ℤ) = ((h.sqOffs + j : ℕ) : ℤ) := by
    rw [trailerPos]
    omega
  rw [hpos]
  rfl

/-- Read at the declared length of 16 or more it is a whole frame. -/
theorem whole_of_check (hc : h.check = .frame) (h31 : h.sqMaxlen < 2 ^ 31) (h16 : 16 ≤ h.repLen) :
    WholeFrame (slice h.sq h.sqOffs h.repLen) := by
  obtain ⟨-, hh, -, -, ht, -⟩ := check_frame_iff.mp hc
  have hbyte : ∀ i < h.repLen, ofList (slice h.sq h.sqOffs h.repLen) i = h.sq (h.sqOffs + i) :=
    fun i hi => ofList_slice hi
  have hpos : h.trailerPos = ((h.sqOffs + (h.repLen - 8) : ℕ) : ℤ) := by
    rw [trailerPos]
    omega
  constructor
  · rwa [length_slice]
  · rw [← hasHeader_iff.mp hh]
    exact slice_congr fun i hi => by rw [Nat.zero_add, hbyte i (by omega)]
  · rw [length_slice]
    refine (le32_congr fun i hi => ?_).trans (rep_le32 hc h31)
    rw [hbyte (12 + i) (by omega), Nat.add_assoc]
  · rw [length_slice, ← (hasTrailer_iff hpos).mp ht]
    exact slice_congr fun i hi => by rw [hbyte _ (by omega), Nat.add_assoc]
  · rw [length_slice]
    refine (le32_congr fun i hi => ?_).trans (rep2_le32 hc h31)
    have hi4 : h.trailerPos + 4 + (i : ℤ) = h.trailerPos + ((4 + i : ℕ) : ℤ) := by omega
    rw [hbyte _ (by omega), hi4, byteAt_trailer (j := h.repLen - 4 + i) (by omega)]

/-- The bytes of a small number. -/
theorem bytes_of_le32 {m : ℕ → UInt8} {n : ℕ} (hm : le32 m = n) (hn : n < 256) :
    m 0 = UInt8.ofNat n ∧ m 1 = 0 ∧ m 2 = 0 ∧ m 3 = 0 := by
  unfold le32 at hm
  refine ⟨?_, ?_, ?_, ?_⟩ <;> apply UInt8.toNat_inj.mp
  · rw [UInt8.toNat_ofNat_of_lt' hn]
    omega
  all_goals
    rw [UInt8.toNat_zero]
    omega

/-- A trailer that overlaps the header or the length field contradicts it, but for the length 12. -/
theorem len_of_overlap {w t : ℕ → UInt8} {len : ℕ} (hpos : 0 < len) (hlt : len < 16)
    (hw0 : w 0 = 0x44) (hw1 : w 1 = 0x48) (hw2 : w 2 = 0x41) (hw3 : w 3 = 0x56)
    (hw12 : w 12 = UInt8.ofNat len) (ht : slice t 0 8 = strDhav ++ [UInt8.ofNat len, 0, 0, 0])
    (hij : ∀ i j : ℕ, j + 8 = len + i → t i = w j) : len = 12 := by
  simp only [slice, strDhav, List.cons_append, List.nil_append, List.cons.injEq, and_true, zero_add]
    at ht
  obtain ⟨t0, t1, t2, t3, t4, t5, t6, t7⟩ := ht
  -- the trailer starts before the header, in it, or reaches into the length field
  rcases (by omega : len ≤ 8 ∨ (9 ≤ len ∧ len ≤ 11) ∨ len = 12 ∨ 13 ≤ len) with h | h | h | h
  · have hx := (hij (8 - len) 0 (by omega)).trans hw0
    interval_cases len <;> simp_all
  · have hx := t0.symm.trans (hij 0 (len - 8) (by omega))
    obtain ⟨h9, h11⟩ := h
    interval_cases len <;> simp_all
  · exact h
  · have hx := (hij (20 - len) 12 (by omega)).trans hw12
    interval_cases len <;> simp_all

/-- **What is accepted**: a declared length of 16 or more, the short frame, or a zero-length frame. -/
theorem accepted_cases (hc : h.check = .frame) (h31 : h.sqMaxlen < 2 ^ 31) :
    16 ≤ h.repLen ∨ (h.repLen = 12 ∧ slice h.sq h.sqOffs 16 = twelveFrame) ∨ ZeroFrame .dhav h := by
  rcases Nat.lt_or_ge h.repLen 16 with hlt | hge
  swap
  · exact .inl hge
  rcases Nat.eq_zero_or_pos h.repLen with h0 | hpos
  · exact .inr (.inr (zeroFrame_iff.mpr ⟨hc, h0⟩))
  right; left
  obtain ⟨-, hh, -, -, ht, -⟩ := check_frame_iff.mp hc
  obtain ⟨w12, w13, w14, w15⟩ := bytes_of_le32 (rep_le32 hc h31) (by omega)
  obtain ⟨t4, t5, t6, t7⟩ := bytes_of_le32 (rep2_le32 hc h31) (by omega)
  obtain ⟨w0, w1, w2, w3⟩ := btIDeqLM32_iff.mp hh
  obtain ⟨t0, t1, t2, t3⟩ := btIDeqLM32_iff.mp ht
  have htrailer : slice (fun i : ℕ => h.byteAt (h.trailerPos + i)) 0 8 =
      strDhav ++ [UInt8.ofNat h.repLen, 0, 0, 0] := by
    have hcast : ∀ i : ℕ, h.byteAt (h.trailerPos + ((4 + i : ℕ) : ℤ)) =
        h.byteAt (h.trailerPos + 4 + i) := fun i => congrArg h.byteAt (by omega)
    change [h.byteAt (h.trailerPos + ((0 : ℕ) : ℤ)), h.byteAt (h.trailerPos + ((1 : ℕ) : ℤ)),
      h.byteAt (h.trailerPos + ((2 : ℕ) : ℤ)), h.byteAt (h.trailerPos + ((3 : ℕ) : ℤ)),
      h.byteAt (h.trailerPos + ((4 + 0 : ℕ) : ℤ)), h.byteAt (h.trailerPos + ((4 + 1 : ℕ) : ℤ)),
      h.byteAt (h.trailerPos + ((4 + 2 : ℕ) : ℤ)), h.byteAt (h.trailerPos + ((4 + 3 : ℕ) : ℤ))] = _
    rw [hcast 0, hcast 1, hcast 2, hcast 3, t0, t1, t2, t3, t4, t5, t6, t7]
    rfl
  have hlen : h.repLen = 12 :=
    len_of_overlap hpos hlt w0 w1 w2 w3 w12 htrailer fun i j => byteAt_trailer
  have hmid : slice h.sq (h.sqOffs + 4) 8 = slice (fun i : ℕ => h.byteAt (h.trailerPos + i)) 0 8 :=
    slice_congr fun i hi => by
      rw [Nat.zero_add, Nat.add_assoc]
      exact (byteAt_trailer (by omega)).symm
  have hend : slice h.sq (h.sqOffs + 12) 4 = [12, 0, 0, 0] := by
    change [h.sq (h.sqOffs + 12 + 0), h.sq (h.sqOffs + 12 + 1), h.sq (h.sqOffs + 12 + 2),
      h.sq (h.sqOffs + 12 + 3)] = _
    rw [w12, w13, w14, w15, hlen]
    rfl
  refine ⟨hlen, ?_⟩
  rw [show (16 : ℕ) = 4 + (8 + 4) from rfl, ← slice_append, ← slice_append, hasHeader_iff.mp hh, hmid,
    htrailer, hend, hlen]
  rfl

/-- So the condition is on the length. -/
theorem long_iff (hc : h.check = .frame) (h31 : h.sqMaxlen < 2 ^ 31) :
    16 ≤ h.repLen ↔ slice h.sq h.sqOffs 16 ≠ twelveFrame ∧ ¬ ZeroFrame .dhav h := by
  constructor
  · refine fun h16 => ⟨fun hs => ?_, fun hz => ?_⟩
    · have hrep := rep_le32 hc h31
      have h12 : le32 (fun i => h.sq (h.sqOffs + 12 + i)) = 12 := by
        have hbyte : ∀ i < 4, h.sq (h.sqOffs + 12 + i) = ofList twelveFrame (12 + i) := by
          intro i hi
          rw [← hs, ofList_slice (by omega), Nat.add_assoc]
        rw [le32_congr hbyte]
        rfl
      omega
    · have := hz.repLen
      omega
  · rintro ⟨hs, hz⟩
    rcases accepted_cases hc h31 with h16 | ⟨-, hs'⟩ | hz'
    · exact h16
    · exact absurd hs' hs
    · exact absurd hz' hz

end Accepted

/-! ### A frame alone -/

/-- A frame at the head once the data is loaded is emitted. -/
theorem dhav_call_frame {d l : Dstf} {src : List UInt8} {m : ℕ} (hl : d.load src = some l)
    (hc : l.check = .frame) (hm : l.repLen ≤ m) :
    dstfProcessDhavStreamToFrames d src m = ⟨1, slice l.sq l.sqOffs l.repLen, l.skip l.repLen⟩ := by
  have hloop : checkLoop (l.sqLen + 1) l = (none, l) := by rw [checkLoop, hc]
  rw [dstfProcessDhavStreamToFrames, hl]
  dsimp only
  rw [hloop]
  dsimp only
  rw [if_neg (by omega), if_neg (by omega)]

/-- A whole frame that the queue can hold is self-delimiting. -/
theorem WholeFrame.selfDelimiting {f : List UInt8} (h : WholeFrame f)
    (hmax : f.length ≤ tMcParmsDhavStf) : SelfDelimiting f := by
  intro sq below m hm
  have hmin := h.min_len
  cases hl : (dstfInit sq below).load f with
  | none =>
    have := (load_eq_none_iff.mp hl).2
    simp only [dstfInit] at this
    omega
  | some l =>
    have hlen : l.sqLen = f.length := (load_sqLen hl).trans (Nat.zero_add _)
    have hmaxlen : l.sqMaxlen = tMcParmsDhavStf := load_sqMaxlen hl
    have hw : l.window = f := load_window hl
    have hb : ∀ i, i < l.sqLen → i < f.length → l.sq (l.sqOffs + i) = ofList f i := by
      intro i hi _
      rw [window_byte hi, hw]
    have h31 := tMcParmsDhavStf_lt
    obtain ⟨hrep, -, hframe⟩ := check_of_frame h (by omega) (by omega) (by omega) hb
    obtain ⟨hc, hs⟩ := hframe hlen.ge
    refine ⟨l.skip l.repLen, ?_, ?_⟩
    · rw [dhav_call_frame hl hc (by omega), hrep, hs]
    · rw [skip_sqLen]
      omega

/-- What a call that emits found. -/
theorem emits_of_ret {d : Dstf} {c : StfCall}
    (h : (dstfProcessDhavStreamToFrames d c.src c.maxDstLen).ret = 1) :
    ∃ q, Emits d c q ∧
      (dstfProcessDhavStreamToFrames d c.src c.maxDstLen).dst = slice q.sq q.sqOffs q.repLen := by
  have hc := dhav_call d c.src c.maxDstLen
  generalize dstfProcessDhavStreamToFrames d c.src c.maxDstLen = o at hc h
  cases hc with
  | full hl => simp at h
  | more hl hs => cases hs <;> simp at h
  | refused hl hp hc hm => simp at h
  | @frame l q hl hp hc hm =>
    refine ⟨q, ⟨l, hl, hp, hc, hm⟩, ?_⟩
    dsimp only

/-- A frame of fewer than 16 bytes is not self-delimiting. -/
theorem not_selfDelimiting {f : List UInt8} (h : f.length < 16) : ¬ SelfDelimiting f := by
  intro hs
  obtain ⟨d, hd, -⟩ := hs (fun _ => 0) (fun _ => 0) f.length le_rfl
  obtain ⟨q, ⟨l, hl, hp, hc, -⟩, -⟩ := emits_of_ret (c := ⟨f, f.length⟩) (by rw [hd])
  have h16 := (check_frame_iff.mp hc).1
  have hlen : l.sqLen = f.length := (load_sqLen hl).trans (Nat.zero_add _)
  have := hp.sqLen_le
  omega

/-! ### The frames of a run -/

/-- The discarding of garbage has one end. -/
theorem Dstf.Passed.unique {d a b : Dstf} (ha : Passed d a) (hb : Passed d b) (ha' : a.check ≠ .garbage)
    (hb' : b.check ≠ .garbage) : a = b := by
  induction ha with
  | refl =>
    cases hb with
    | refl => rfl
    | step hg _ => exact absurd hg ha'
  | step hg _ ih =>
    cases hb with
    | refl => exact absurd hg hb'
    | step _ hb => exact ih hb ha'

/-- A call that finds a frame emits it. -/
theorem Emits.ret {d q : Dstf} {c : StfCall} (h : Emits d c q) :
    (dstfProcessDhavStreamToFrames d c.src c.maxDstLen).ret = 1 ∧
      (dstfProcessDhavStreamToFrames d c.src c.maxDstLen).dst = slice q.sq q.sqOffs q.repLen := by
  obtain ⟨l, hl, hp, hq, hm⟩ := h
  have hng : q.check ≠ .garbage := by
    rw [hq]
    decide
  have huniq : ∀ {b : Dstf} {k : Check}, Passed l b → b.check = k → k ≠ .garbage → q = b := by
    intro b k hb hk hne
    exact hp.unique hb hng (hk ▸ hne)
  have hc := dhav_call d c.src c.maxDstLen
  generalize dstfProcessDhavStreamToFrames d c.src c.maxDstLen = o at hc
  rcases hc.of_load hl with ⟨r, d', hs, rfl⟩ | ⟨d', hp', hc', ⟨hm', rfl⟩ | ⟨-, rfl⟩⟩
  · cases hs with
    | short hs =>
      have := huniq (.refl _) hs nofun
      rw [this, hs] at hq
      cases hq
    | wait hp' hw =>
      have := huniq hp' hw nofun
      rw [this, hw] at hq
      cases hq
    | drained hp' hs _ =>
      have := huniq hp' hs nofun
      rw [this, hs] at hq
      cases hq
  · obtain rfl := huniq hp' hc' nofun
    omega
  · obtain rfl := huniq hp' hc' nofun
    refine ⟨rfl, ?_⟩
    dsimp only

/-- **The emitted frames are what stood whole at the head of the queue.** -/
theorem mem_emittedFrames {d : Dstf} {calls : List StfCall} {f : List UInt8} :
    f ∈ emittedFrames .dhav d calls ↔ ∃ pre c q, pre ++ [c] <+: calls ∧
      Emits (runCalls .dhav d pre) c q ∧ f = slice q.sq q.sqOffs q.repLen := by
  induction calls generalizing d with
  | nil =>
    constructor
    · intro h
      cases h
    · rintro ⟨pre, c, q, hpre, -⟩
      simp at hpre
  | cons c cs ih =>
    rw [emittedFrames, List.mem_append, ih, streamToFrames_dhav]
    constructor
    · rintro (hf | ⟨pre, c', q, hpre, hq⟩)
      · split_ifs at hf with hr
        · obtain rfl := List.mem_singleton.mp hf
          obtain ⟨q, hq, hs⟩ := emits_of_ret hr
          exact ⟨[], c, q, by simp, hq, hs⟩
        · cases hf
      · refine ⟨c :: pre, c', q, List.cons_prefix_cons.mpr ⟨rfl, hpre⟩, ?_⟩
        rwa [runCalls, streamToFrames_dhav]
    · rintro ⟨pre, c', q, hpre, hq, hf⟩
      cases pre with
      | nil =>
        obtain ⟨rfl, -⟩ := List.cons_prefix_cons.mp hpre
        rw [runCalls] at hq
        obtain ⟨hr, hs⟩ := hq.ret
        left
        rw [if_pos hr]
        exact List.mem_singleton.mpr (hf.trans hs.symm)
      | cons p pre =>
        obtain ⟨rfl, hcs⟩ := List.cons_prefix_cons.mp hpre
        rw [runCalls, streamToFrames_dhav] at hq
        exact .inr ⟨pre, c', q, hcs, hq, hf⟩

/-- The head of a queue that emits is within the array. -/
theorem Emits.sqMaxlen {sq below : ℕ → UInt8} {pre : List StfCall} {c : StfCall} {q : Dstf}
    (h : Emits (runCalls .dhav (dstfInit sq below) pre) c q) : q.sqMaxlen = tMcParmsDhavStf := by
  obtain ⟨l, hl, hp, -⟩ := h
  rw [hp.sqMaxlen, load_sqMaxlen hl, runCalls_sqMaxlen .dhav pre (dstfInit_fits sq below)]
  rfl

/-- The condition on the heads is one on the lengths of the frames. -/
theorem noShortFrame_iff (sq below : ℕ → UInt8) (calls : List StfCall) :
    NoShortFrame (dstfInit sq below) calls ↔
      ∀ f ∈ emittedFrames .dhav (dstfInit sq below) calls, 16 ≤ f.length := by
  have h31 := tMcParmsDhavStf_lt
  constructor
  · intro h f hf
    obtain ⟨pre, c, q, hpre, hq, hf⟩ := mem_emittedFrames.mp hf
    obtain ⟨l, -, -, hc, -⟩ := id hq
    rw [hf, length_slice, long_iff hc (by rw [hq.sqMaxlen]; exact h31)]
    exact h pre c q hpre hq
  · intro h pre c q hpre hq
    obtain ⟨l, -, -, hc, -⟩ := id hq
    rw [← long_iff hc (by rw [hq.sqMaxlen]; exact h31)]
    have := h _ (mem_emittedFrames.mpr ⟨pre, c, q, hpre, hq, rfl⟩)
    rwa [length_slice] at this

/-- The emitted frames of 16 bytes or more are whole. -/
theorem whole_of_mem {sq below : ℕ → UInt8} {calls : List StfCall} {f : List UInt8}
    (hf : f ∈ emittedFrames .dhav (dstfInit sq below) calls) (h16 : 16 ≤ f.length) :
    WholeFrame f ∧ f.length ≤ tMcParmsDhavStf := by
  have h31 := tMcParmsDhavStf_lt
  obtain ⟨pre, c, q, hpre, hq, hf⟩ := mem_emittedFrames.mp hf
  obtain ⟨l, -, -, hc, -⟩ := id hq
  have hmax := hq.sqMaxlen
  have hle := (check_frame_iff.mp hc).2.2.1
  rw [hf, length_slice] at h16 ⊢
  exact ⟨whole_of_check hc (by rw [hmax]; exact h31) h16, by omega⟩

/-! ### The dump -/

/-- The window and the reads to come are the frames not yet emitted. -/
structure Replay (reads frames : List (List UInt8)) (d : Dstf) (rs em : List (List UInt8)) : Prop where
  fits : d.Fits
  maxlen : d.sqMaxlen = tMcParmsDhavStf
  reads : ∀ c ∈ rs, c ∈ reads
  layout : ∃ fs, d.window ++ rs.flatten = fs.flatten ∧
    (∀ f ∈ fs, WholeFrame f ∧ f.length ≤ tMcParmsDhavStf) ∧ em ++ fs = frames

section Replay

variable {m : ℕ} {reads frames : List (List UInt8)} {d : Dstf} {rs em : List (List UInt8)}

/-- With 16 bytes in the queue the next frame stands at its head. -/
theorem Replay.check_cases (h : Replay reads frames d rs em) (h16 : 16 ≤ d.sqLen) :
    (∃ f gs, em ++ f :: gs = frames ∧ d.check = .wait ∧ d.sqLen < f.length ∧ rs ≠ []) ∨
    (∃ f, d.check = .frame ∧ d.repLen = f.length ∧ 16 ≤ f.length ∧ f.length ≤ tMcParmsDhavStf ∧
      slice d.sq d.sqOffs f.length = f ∧ Replay reads frames (d.skip f.length) rs (em ++ [f])) := by
  obtain ⟨hfits, hmax, hreads, fs, hw, hfs, hem⟩ := h
  have h31 := tMcParmsDhavStf_lt
  cases fs with
  | nil =>
    have := congrArg List.length hw
    simp at this
    omega
  | cons f fs =>
    obtain ⟨hf, hlen⟩ := hfs f (by simp)
    rw [List.flatten_cons] at hw
    have hb : ∀ i, i < d.sqLen → i < f.length → d.sq (d.sqOffs + i) = ofList f i := by
      intro i h1 h2
      have hl : ofList (d.window ++ rs.flatten) i = ofList d.window i :=
        ofList_append_left (by simpa using h1)
      rw [window_byte h1, ← hl, hw, ofList_append_left h2]
    obtain ⟨hrep, hwait, hframe⟩ := check_of_frame hf (by omega) (by omega) h16 hb
    by_cases hle : f.length ≤ d.sqLen
    · obtain ⟨hc, hs⟩ := hframe hle
      refine .inr ⟨f, hc, hrep, hf.min_len, hlen, hs, skip_fits hfits hle, hmax, hreads, fs, ?_,
        fun f' hf' => hfs f' (by simp [hf']), by rw [← hem]; simp⟩
      have := congrArg (List.drop f.length) hw
      rwa [List.drop_append_of_le_length (by simpa using hle), ← window_skip, List.drop_left] at this
    · refine .inl ⟨f, fs, hem, hwait (by omega), by omega, fun hnil => hle ?_⟩
      have := congrArg List.length hw
      simp [hnil] at this
      omega

/-- The loop keeps it. -/
theorem replay_runInv (hm : tMcParmsDhavStf ≤ m) : RunInv m (Replay reads frames) where
  fits h := h.fits
  garbage := by
    intro d rs em h hc
    have h16 := sqLen_of_check hc nofun
    obtain ⟨f, gs, -, hw, -⟩ | ⟨f, hw, -⟩ := h.check_cases h16 <;>
      · rw [hc] at hw
        cases hw
  frame := by
    intro d rs em h hc
    have h16 := sqLen_of_check hc nofun
    obtain ⟨f, gs, -, hw, -⟩ | ⟨f, -, hrep, hmin, hlen, hs, hn⟩ := h.check_cases h16
    · rw [hc] at hw
      cases hw
    · rw [hrep, hs]
      exact ⟨by omega, by omega, hn⟩
  load := by
    rintro d l c rs em ⟨hfits, hmax, hreads, fs, hw, hrest⟩ hl
    refine ⟨load_fits hfits hl, (load_sqMaxlen hl).trans hmax, fun x hx => hreads x (by simp [hx]),
      fs, ?_, hrest⟩
    rw [load_window hl, ← hw, List.flatten_cons, List.append_assoc]

/-- When the reads are used up and the queue is short or waiting, all frames are emitted. -/
theorem Replay.frames_of_idle (h : Replay reads frames d [] em)
    (hidle : d.Short .dhav ∨ d.Waiting .dhav) : em = frames := by
  by_cases h16 : 16 ≤ d.sqLen
  · obtain ⟨f, gs, -, -, -, hne⟩ | ⟨f, hc, -⟩ := h.check_cases h16
    · exact absurd rfl hne
    · rcases hidle with hs | hw
      · exact absurd hs (Nat.not_lt.mpr h16)
      · have hw : d.check = .wait := hw
        rw [hc] at hw
        cases hw
  · obtain ⟨-, -, -, fs, hw, hfs, hem⟩ := h
    cases fs with
    | nil => simpa using hem
    | cons f fs =>
      have hmin := (hfs f (by simp)).1.min_len
      have := congrArg List.length hw
      simp at this
      omega

/-- What is held of a short or waiting queue is the beginning of the next frame. -/
theorem Replay.head (h : Replay reads frames d rs em) (hidle : d.Short .dhav ∨ d.Waiting .dhav) :
    rs.flatten = [] ∨ ∃ f gs, em ++ f :: gs = frames ∧ d.sqLen < f.length := by
  by_cases h16 : 16 ≤ d.sqLen
  · obtain ⟨f, gs, hem, -, hlt, -⟩ | ⟨f, hc, -⟩ := h.check_cases h16
    · exact .inr ⟨f, gs, hem, hlt⟩
    · rcases hidle with hs | hw
      · exact absurd hs (Nat.not_lt.mpr h16)
      · have hw : d.check = .wait := hw
        rw [hc] at hw
        cases hw
  · obtain ⟨fs, hw, hfs, hem⟩ := h.layout
    cases fs with
    | nil => exact .inl (List.append_eq_nil_iff.mp hw).2
    | cons f gs =>
      have := (hfs f (by simp)).1.min_len
      exact .inr ⟨f, gs, hem, by omega⟩

/-- A read that meets a short or waiting queue fits. -/
theorem Replay.room {c : List UInt8} (h : Replay reads frames d (c :: rs) em)
    (hsuf : c :: rs <:+ reads) (hflat : reads.flatten = frames.flatten) (hfit : ReadsFit frames reads)
    (hidle : d.Short .dhav ∨ d.Waiting .dhav) : d.sqLen + c.length ≤ d.sqMaxlen := by
  have hmax := h.maxlen
  obtain hnil | ⟨f, gs, hem, hlt⟩ := h.head hidle
  · have hfits := h.fits
    unfold Fits at hfits
    rw [List.flatten_cons] at hnil
    rw [(List.append_eq_nil_iff.mp hnil).1, List.length_nil]
    omega
  · obtain ⟨pre, rfl⟩ := hsuf
    have hpos : pre.flatten.length = em.flatten.length + d.sqLen := by
      obtain ⟨fs, hw, -, hem'⟩ := h.layout
      have h1 := congrArg List.length hflat
      have h2 := congrArg List.length hw
      rw [← hem'] at h1
      simp only [List.flatten_append, List.length_append, length_window] at h1 h2
      omega
    have := hfit pre c rs em f gs rfl hem.symm (by omega) (by omega)
    omega

end Replay

/-- **A dump of whole frames gives the frames.** -/
theorem reparses_of_whole {frames : List (List UInt8)}
    (h : ∀ f ∈ frames, WholeFrame f ∧ f.length ≤ tMcParmsDhavStf) : Reparses frames := by
  intro sq below m reads hm hreads hfit
  have hinv : RunInv m (Replay reads frames) := replay_runInv hm
  have hinit : Replay reads frames (dstfInit sq below) reads [] :=
    ⟨dstfInit_fits sq below, rfl, fun c hc => hc, frames, hreads, h, rfl⟩
  have hstart : (dstfInit sq below).Short .dhav := (by decide : 0 < 16)
  have hidle : ∀ {d rs}, RunInv.Idle (dstfInit sq below) reads d rs →
      d.Short .dhav ∨ d.Waiting .dhav := by
    rintro d rs (hs | hw | ⟨rfl, -⟩)
    · exact .inl hs
    · exact .inr hw
    · exact .inl hstart
  obtain ⟨l, hl, hpos, hnil, ⟨hI, -⟩, hend⟩ := (hinv.suffix reads).complete ⟨hinit, List.suffix_rfl⟩
    fun {d c rs em} hI hi => hI.1.room hI.2 hreads hfit (hidle hi)
  refine ⟨l, hl, ?_, hnil, hI.frames_of_idle (hidle hend)⟩
  obtain hneg | ⟨h0, -⟩ := step_eq_none hl.2
  · have := hpos l hl.1
    omega
  · exact h0

/-- **The native dump parses again to itself exactly when no short frame comes to the head.** -/
theorem reparse_iff (sq below : ℕ → UInt8) (calls : List StfCall) :
    ((∀ f ∈ emittedFrames .dhav (dstfInit sq below) calls, SelfDelimiting f) ∧
      Reparses (emittedFrames .dhav (dstfInit sq below) calls)) ↔
      NoShortFrame (dstfInit sq below) calls := by
  rw [noShortFrame_iff]
  constructor
  · rintro ⟨h, -⟩ f hf
    by_contra hlt
    exact not_selfDelimiting (Nat.not_le.mp hlt) (h f hf)
  · intro h
    have hwhole := fun f hf => whole_of_mem (f := f) hf (h f hf)
    exact ⟨fun f hf => (hwhole f hf).1.selfDelimiting (hwhole f hf).2, reparses_of_whole hwhole⟩

/-- Sixteen bytes from which a frame of 12 is emitted that is lost when it is fed again. -/
theorem short_frame_lost :
    ¬ ∀ (sq below : ℕ → UInt8) (calls : List StfCall),
      (∀ f ∈ emittedFrames .dhav (dstfInit sq below) calls, SelfDelimiting f) ∧
        Reparses (emittedFrames .dhav (dstfInit sq below) calls) := by
  intro h
  have hmem : twelveFrame.take 12 ∈
      emittedFrames .dhav (dstfInit (fun _ => 0) (fun _ => 0)) [⟨twelveFrame, 1000000⟩] := by decide
  exact not_selfDelimiting (by decide) ((h _ _ _).1 _ hmem)

end TaniDVR
