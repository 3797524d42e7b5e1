import TaniDVR.Truncated

/-!
# AwaitedFrames — when a stream fills the queue

What comes to the head of the queue is told by the stream and by where its reads end.  The head walks
over the stream (`headMove`): over a frame, over a byte of garbage, to the next start code.  It
rests where what was read so far ends too early, and then the next read comes (`Comes`).

Only the trailer test of a declared length below 8 looks before the head.  What it finds there
depends on `base`, the position of the byte in the first cell of the queue array.

* `never_full_iff`: no call of a run returns -1 exactly when every read that comes while the frame at
  position `a` is awaited ends at most 1000000 bytes after `a`.
-/

namespace TaniDVR

open Lib Dstf StreamLoop

/-! ### The walk over the stream -/

/-- The byte at position `i` as the parser finds it when the queue array starts with position `base`:
before that lies the heap. -/
def heldByte (below : ℕ → UInt8) (stream : List UInt8) (base : ℕ) (i : ℤ) : UInt8 :=
  if (base : ℤ) ≤ i then ofList stream i.toNat else below (base - 1 - i).toNat

/-- Where the frame that starts at `a` ends by its declared length there is a `dhav` with this
length. -/
def FrameEnd (below : ℕ → UInt8) (stream : List UInt8) (base a : ℕ) : Prop :=
  slice (fun j : ℕ => heldByte below stream base (a + declaredLen stream a - 8 + j)) 0 4 = strDhav ∧
  le32 (fun j : ℕ => heldByte below stream base (a + declaredLen stream a - 4 + j)) =
    declaredLen stream a

instance (below : ℕ → UInt8) (stream : List UInt8) (base a : ℕ) :
    Decidable (FrameEnd below stream base a) := inferInstanceAs (Decidable (_ ∧ _))

/-- Where the head goes from position `a` when `stream` was read; `none` where it rests. -/
def headMove (f : McFormat) (below : ℕ → UInt8) (stream : List UInt8) (base a : ℕ) : Option ℕ :=
  if f = .dhav then
    if stream.length < a + 16 then none
    else if slice (ofList stream) a 4 = strDHAV ∧ declaredLen stream a ≤ tMcParmsDhavStf then
      if stream.length < a + declaredLen stream a then none
      else if FrameEnd below stream base a then some (a + declaredLen stream a)
      else some (a + 1)
    else some (a + 1)
  else if stream.length < a + 8 then none
  else
    match searchNALFrom (ofList stream) a (stream.length - 2 - a) with
    | none => some stream.length
    | some n =>
      if a < n then some n
      else searchNALFrom (ofList stream) (a + 4) (stream.length - 2 - (a + 4))

/-- The frame at position `a` is awaited when `stream` was read. -/
inductive Awaits (f : McFormat) (stream : List UInt8) (a : ℕ) : Prop
  /-- a DHAV header whose declared length, at most the size of the queue, is not there yet -/
  | header : f = .dhav → a + 16 ≤ stream.length → slice (ofList stream) a 4 = strDHAV →
      declaredLen stream a ≤ tMcParmsDhavStf → stream.length < a + declaredLen stream a →
      Awaits f stream a
  /-- a start code without a next one -/
  | startCode : f ≠ .dhav → a + 8 ≤ stream.length → NALAt (ofList stream) a →
      (∀ i, a + 4 ≤ i → i + 2 < stream.length → ¬ NALAt (ofList stream) i) → Awaits f stream a

/-- The format that the reads tell, and those of them that identification takes; `ids` are taken
already. -/
def identifyReads (g : ℕ) (ids : List (List UInt8)) :
    List (List UInt8) → McFormat × List (List UInt8)
  | [] => (.dvrUnknown, ids)
  | c :: cs =>
    if ids.flatten.length + 2 * g ≤ tMcParmsDhavStf then
      let ids := ids ++ [c]
      let fmt := identifyMcFormat (ofList ids.flatten) ids.flatten.length
      if fmt ≠ .dvrUnknown then (fmt, ids) else identifyReads g ids cs
    else (.dvrUnknown, ids)

/-- Position `a` comes to the head of the queue, and position `base` to the start of its array, when
the reads `pre` were made, the first of them, `ids`, by identification. -/
inductive Comes (f : McFormat) (below : ℕ → UInt8) (ids : List (List UInt8)) :
    List (List UInt8) → ℕ → ℕ → Prop
  | first (c : List UInt8) : Comes f below ids (ids ++ [c]) 0 0
  | move {pre : List (List UInt8)} {base a a' : ℕ} : Comes f below ids pre base a →
      headMove f below pre.flatten base a = some a' → Comes f below ids pre base a'
  | read {pre : List (List UInt8)} {base a : ℕ} (c : List UInt8) : Comes f below ids pre base a →
      headMove f below pre.flatten base a = none →
      Comes f below ids (pre ++ [c])
        -- the queue is packed when there is no space behind its data
        (if pre.flatten.length + c.length ≤ base + tMcParmsDhavStf then base else a) a

/-! ### The queue and the stream -/

/-- The queue when `stream` was read: its head is at position `a`, its array starts with `base`. -/
structure View (below : ℕ → UInt8) (stream : List UInt8) (base a : ℕ) (d : Dstf) : Prop where
  maxlen : d.sqMaxlen = tMcParmsDhavStf
  fits : d.Fits
  below : d.below = below
  base : base + d.sqOffs = a
  holds : Holds (ofList stream) a stream.length d

theorem Holds.extend {S : List UInt8} {a : ℕ} {d : Dstf} (h : Holds (ofList S) a S.length d)
    (c : List UInt8) : Holds (ofList (S ++ c)) a S.length d := by
  have hle := h.offs_le
  have hlen := h.len
  refine ⟨hle, hlen, ?_⟩
  intro j hj
  rw [h.byte j hj, ofList_append_left (by omega)]

section View

variable {f : McFormat} {below : ℕ → UInt8} {S : List UInt8} {base a m : ℕ} {d l : Dstf}

theorem View.skip (h : View below S base a d) {n : ℕ} (hn : n ≤ d.sqLen) :
    View below S base (a + n) (d.skip n) :=
  ⟨h.maxlen, skip_fits h.fits hn, h.below, by rw [skip_sqOffs, ← Nat.add_assoc, h.base],
    h.holds.skip hn⟩

theorem load_below {c : List UInt8} (hl : d.load c = some l) : l.below = d.below := by
  obtain ⟨-, rfl⟩ | ⟨-, -, rfl⟩ | ⟨-, -, rfl⟩ := load_cases hl <;> rfl

/-- The head of the array moves when there is no space behind the data. -/
theorem load_sqOffs {c : List UInt8} (hl : d.load c = some l) :
    l.sqOffs = if c.length ≤ d.sqMaxlen - (d.sqLen + d.sqOffs) then d.sqOffs else 0 := by
  unfold load at hl
  dsimp only at hl
  split_ifs at hl ⊢ <;> cases hl <;> first | rfl | omega

theorem View.load (h : View below S base a d) {c : List UInt8} (hl : d.load c = some l) :
    View below (S ++ c) (if S.length + c.length ≤ base + tMcParmsDhavStf then base else a) a l := by
  have hlen := h.holds.len
  have hbase := h.base
  have hmax := h.maxlen
  have hfits := h.fits
  unfold Fits at hfits
  refine ⟨(load_sqMaxlen hl).trans hmax, load_fits h.fits hl, (load_below hl).trans h.below, ?_, ?_⟩
  · rw [load_sqOffs hl]
    split_ifs <;> omega
  · rw [List.length_append]
    exact (h.holds.extend c).load hl fun i _ => ofList_append_right.symm

/-- What the parser finds at an offset to the start of the array. -/
theorem View.byteAt (h : View below S base a d) {i : ℤ} (hi : base + i < S.length) :
    d.byteAt i = heldByte below S base (base + i) := by
  have hlen := h.holds.len
  have hbase := h.base
  cases i with
  | ofNat n =>
    rw [Int.ofNat_eq_natCast] at hi ⊢
    rw [heldByte, if_pos (by omega), byteAt_natCast, h.holds.byte n (by omega)]
    congr 1
    omega
  | negSucc k =>
    rw [heldByte, if_neg (by omega), show (base - 1 - (base + Int.negSucc k)).toNat = k by omega,
      ← h.below]
    rfl

/-- The length field in the queue and in the stream. -/
theorem View.repLen (h : View below S base a d) (h16 : 16 ≤ d.sqLen) :
    (d.repLen ≤ tMcParmsDhavStf ↔ declaredLen S a ≤ tMcParmsDhavStf) ∧
    (declaredLen S a ≤ tMcParmsDhavStf → d.repLen = declaredLen S a) := h.holds.repLen h16

theorem View.hasHeader (h : View below S base a d) (h4 : 4 ≤ d.sqLen) :
    d.hasHeader = true ↔ slice (ofList S) a 4 = strDHAV := by
  rw [hasHeader_iff]
  have hs : slice d.sq d.sqOffs 4 = slice (ofList S) a 4 :=
    slice_congr fun i hi => h.holds.head_byte (by omega)
  rw [hs]

/-- The trailer in the queue and in the stream. -/
theorem View.frameEnd (h : View below S base a d) (hrep : d.repLen = declaredLen S a)
    (hle : d.repLen ≤ d.sqLen) (hT : d.repLen ≤ tMcParmsDhavStf) :
    d.hasTrailer = true ∧ d.rep2Len = d.repLen ↔ FrameEnd below S base a := by
  have hlen := h.holds.len
  have hbase := h.base
  have h31 := tMcParmsDhavStf_lt
  have hpos : base + d.trailerPos = a + declaredLen S a - 8 := by
    rw [trailerPos, hrep]
    omega
  have hbyte : ∀ j : ℕ, j < 8 →
      d.byteAt (d.trailerPos + j) = heldByte below S base (a + declaredLen S a - 8 + j) := by
    intro j hj
    rw [h.byteAt (by omega), ← add_assoc, hpos]
  have hbyte2 : ∀ j : ℕ, j < 4 →
      d.byteAt (d.trailerPos + 4 + j) = heldByte below S base (a + declaredLen S a - 4 + j) := by
    intro j hj
    have hcast : d.trailerPos + 4 + (j : ℤ) = d.trailerPos + ((4 + j : ℕ) : ℤ) := by omega
    rw [hcast, hbyte (4 + j) (by omega)]
    exact congrArg (heldByte below S base) (by omega)
  unfold FrameEnd
  refine and_congr ?_ ?_
  · have hs : slice (fun j : ℕ => d.byteAt (d.trailerPos + j)) 0 4 =
        slice (fun j : ℕ => heldByte below S base (a + declaredLen S a - 8 + j)) 0 4 :=
      slice_congr fun j hj => by
        rw [Nat.zero_add]
        exact hbyte j (by omega)
    rw [← hs, hasTrailer, btIDeqLM32_iff]
    simp only [slice, strDhav, List.cons.injEq, and_true, Nat.zero_add]
  · rw [rep2Len, ← le32_congr hbyte2, ← hrep]
    constructor
    · intro h2
      have h2' : le32 (fun j : ℕ => d.byteAt (d.trailerPos + 4 + j)) ≤ tMcParmsDhavStf :=
        (toSizeT_btLM2NVU32_le_iff h31).mp (h2.trans_le hT)
      exact (toSizeT_btLM2NVU32 (by omega)).symm.trans h2
    · intro h2
      exact (toSizeT_btLM2NVU32 (by omega)).trans h2

/-- **The tests at the head** say where it moves. -/
theorem View.headMove_eq (h : View below S base a d) :
    headMove .dhav below S base a =
      match d.check with
      | .short => none
      | .wait => none
      | .frame => some (a + d.repLen)
      | .garbage => some (a + 1) := by
  have hlen := h.holds.len
  unfold headMove check
  rw [if_pos rfl]
  by_cases h16 : d.sqLen < 16
  · rw [if_pos h16, if_pos (by omega)]
  rw [if_neg h16, if_neg (by omega)]
  obtain ⟨hle, hrep⟩ := h.repLen (by omega)
  by_cases hh : d.hasHeader = true
  swap
  · rw [if_neg hh, if_neg fun hs => hh ((h.hasHeader (by omega)).mpr hs.1)]
  rw [if_pos hh, h.maxlen]
  by_cases hT : d.repLen > tMcParmsDhavStf
  · rw [if_pos hT, if_neg fun hs => by have := hle.mpr hs.2; omega]
  have hT' : declaredLen S a ≤ tMcParmsDhavStf := hle.mp (by omega)
  have hrep := hrep hT'
  rw [if_neg hT, if_pos ⟨(h.hasHeader (by omega)).mp hh, hT'⟩]
  by_cases hw : d.repLen > d.sqLen
  · rw [if_pos hw, if_pos (by omega)]
  rw [if_neg hw, if_neg (by omega)]
  have hend := h.frameEnd hrep (by omega) (by omega)
  by_cases ht : d.hasTrailer = true
  · by_cases h2 : d.rep2Len = d.repLen
    · rw [if_neg (not_not.mpr ht), if_neg (not_not.mpr h2), if_pos (hend.mp ⟨ht, h2⟩), hrep]
    · rw [if_neg (not_not.mpr ht), if_pos h2, if_neg fun hs => h2 (hend.mpr hs).2]
  · rw [if_pos ht, if_neg fun hs => ht (hend.mpr hs).1]

end View

/-! ### One call -/

/-- A search from an offset on. -/
theorem searchNALFrom_shift {src S : ℕ → UInt8} {a i n e : ℕ} (h : ∀ j < e, src j = S (a + j))
    (hn : n = 0 ∨ i + n + 2 ≤ e) :
    searchNALFrom S (a + i) n = (searchNALFrom src i n).map (a + ·) := by
  induction n generalizing i with
  | zero => rfl
  | succ n ih =>
    have hrest := ih (i := i + 1) (by omega)
    have h0 := h i (by omega)
    have h1 := h (i + 1) (by omega)
    have h2 := h (i + 2) (by omega)
    rw [← Nat.add_assoc] at hrest h1 h2
    rw [searchNALFrom, searchNALFrom, h0, h1, h2]
    split_ifs
    · rfl
    · exact hrest

section Call

variable {f : McFormat} {below : ℕ → UInt8} {S : List UInt8} {base a m : ℕ} {d : Dstf}

/-- Where a call without new data leaves the head: it moved there, and it rests when the result is
0. -/
structure Moved (f : McFormat) (below : ℕ → UInt8) (S : List UInt8) (base a : ℕ) (o : StfOut) :
    Prop where
  nonneg : 0 ≤ o.ret
  place : ∃ a', Reach (headMove f below S base) a a' ∧ View below S base a' o.dstf ∧
    (o.ret = 0 → headMove f below S base a' = none)

theorem View.passed (h : View below S base a d) {d' : Dstf} (hp : Passed d d') :
    ∃ a', Reach (headMove .dhav below S base) a a' ∧ View below S base a' d' := by
  induction hp generalizing a with
  | refl => exact ⟨a, .refl a, h⟩
  | step hg _ ih =>
    have h16 := sqLen_of_check hg nofun
    obtain ⟨a', hr, h'⟩ := ih (h.skip (n := 1) (by omega))
    have hm := h.headMove_eq
    rw [hg] at hm
    exact ⟨a', .head hm hr, h'⟩

theorem View.dhav_call (h : View below S base a d) (hm : tMcParmsDhavStf ≤ m) :
    Moved .dhav below S base a (dstfProcessDhavStreamToFrames d [] m) := by
  have hc := TaniDVR.dhav_call d [] m
  generalize dstfProcessDhavStreamToFrames d [] m = o at hc
  rcases hc.of_load (load_nil d) with ⟨r, d', hs, rfl⟩ | ⟨d', hp, hf, ho⟩
  · cases hs with
    | short hs =>
      have hm := h.headMove_eq
      rw [hs] at hm
      exact ⟨le_rfl, a, .refl a, h, fun _ => hm⟩
    | wait hp hw =>
      obtain ⟨a', hr, h'⟩ := h.passed hp
      have hm := h'.headMove_eq
      rw [hw] at hm
      exact ⟨le_rfl, a', hr, h', fun _ => hm⟩
    | drained hp hs _ =>
      obtain ⟨a', hr, h'⟩ := h.passed hp
      have hm := h'.headMove_eq
      rw [hs] at hm
      exact ⟨(by decide : (0 : ℤ) ≤ 3), a', hr, h', fun _ => hm⟩
  · obtain ⟨a', hr, h'⟩ := h.passed hp
    have hmove := h'.headMove_eq
    rw [hf] at hmove
    have hle := (check_frame_iff.mp hf).2.2.1
    rw [h'.maxlen] at hle
    obtain ⟨hlt, rfl⟩ | ⟨-, rfl⟩ := ho
    · omega
    · exact ⟨(by decide : (0 : ℤ) ≤ 1), _, hr.tail hmove, h'.skip (repLen_le_of_check_frame hf),
        fun h0 => absurd h0 (by decide : ¬ (1 : ℤ) = 0)⟩

/-- The search in the queue and in the stream. -/
theorem View.searchNAL (h : View below S base a d) {k : ℕ} (hk : k ≤ d.sqLen) :
    searchNALFrom (ofList S) (a + k) (S.length - 2 - (a + k)) =
      (searchMpegNAL (fun i => d.sq (d.sqOffs + k + i)) (d.sqLen - k)).map (a + k + ·) := by
  have hlen := h.holds.len
  have hsub : S.length - 2 - (a + k) = d.sqLen - k - 2 := by omega
  rw [hsub, searchMpegNAL]
  refine searchNALFrom_shift (a := a + k) (i := 0) (e := d.sqLen - k) (fun j hj => ?_) (by omega)
  rw [Nat.add_assoc, h.holds.head_byte (by omega), ← Nat.add_assoc]

/-- **The search at the head** says where it moves. -/
theorem View.raw_headMove (h : View below S base a d) (hf : f ≠ .dhav) :
    headMove f below S base a =
      if d.sqLen < 8 then none
      else
        match searchMpegNAL (fun i => d.sq (d.sqOffs + i)) d.sqLen with
        | none => some (a + d.sqLen)
        | some n => if 0 < n then some (a + n) else d.unitLen.map (a + ·) := by
  have hlen := h.holds.len
  unfold headMove
  rw [if_neg hf]
  by_cases h8 : d.sqLen < 8
  · rw [if_pos h8, if_pos (by omega)]
  rw [if_neg h8, if_neg (by omega)]
  have h0 := h.searchNAL (Nat.zero_le _)
  rw [Nat.add_zero, Nat.add_zero, Nat.sub_zero] at h0
  rw [h0, h.searchNAL (k := 4) (by omega), unitLen]
  cases searchMpegNAL (fun i => d.sq (d.sqOffs + i)) d.sqLen with
  | none => exact congrArg some hlen.symm
  | some n =>
    dsimp only [Option.map_some]
    by_cases hn : 0 < n
    · rw [if_pos hn, if_pos (by omega)]
    · rw [if_neg hn, if_neg (by omega), Option.map_map]
      exact congrArg (Option.map · _) (funext fun k => by dsimp only [Function.comp]; omega)

theorem View.raw_call (h : View below S base a d) (hf : f ≠ .dhav) (hm : tMcParmsDhavStf ≤ m) :
    Moved f below S base a (dstfProcessRawH264StreamToFrames d [] m) := by
  have hmove := h.raw_headMove hf
  unfold dstfProcessRawH264StreamToFrames
  rw [load_nil]
  dsimp only
  by_cases h8 : d.sqLen < 8
  · rw [if_pos h8] at hmove ⊢
    exact ⟨le_rfl, a, .refl a, h, fun _ => hmove⟩
  rw [if_neg h8] at hmove ⊢
  cases hs : searchMpegNAL (fun i => d.sq (d.sqOffs + i)) d.sqLen with
  | none =>
    rw [hs] at hmove
    have h' := h.skip (n := d.sqLen) le_rfl
    refine ⟨le_rfl, _, .head hmove (.refl _), h', fun _ => ?_⟩
    rw [h'.raw_headMove hf, skip_sqLen, if_pos (by omega)]
  | some n =>
    rw [hs] at hmove
    obtain ⟨hn, hNAL, -⟩ := searchMpegNAL_eq_some hs
    have h' := h.skip (n := n) (by omega)
    have hreach : Reach (headMove f below S base) a (a + n) := by
      rcases Nat.eq_zero_or_pos n with rfl | hpos
      · exact .refl a
      · exact .head (hmove.trans (if_pos hpos)) (.refl _)
    have hskip : (if n ≠ 0 then d.skip n else d) = d.skip n := by
      split_ifs with h0
      · rfl
      · rw [not_not.mp h0, skip_zero]
    have hmove' := h'.raw_headMove hf
    dsimp only
    rw [hskip]
    by_cases h8' : (d.skip n).sqLen < 8
    · rw [if_pos h8'] at hmove' ⊢
      exact ⟨le_rfl, _, hreach, h', fun _ => hmove'⟩
    rw [if_neg h8'] at hmove' ⊢
    -- a start code is at the head now
    have hunit : searchMpegNAL (fun i => (d.skip n).sq ((d.skip n).sqOffs + i)) (d.skip n).sqLen =
        some 0 := by
      refine searchMpegNAL_zero ?_ (by omega)
      unfold NALAt at hNAL ⊢
      simpa only [skip_sq, skip_sqOffs, Nat.add_assoc, Nat.add_zero] using hNAL
    rw [hunit] at hmove'
    dsimp only at hmove'
    rw [if_neg (lt_irrefl 0), unitLen] at hmove'
    cases hs2 : searchMpegNAL (fun i => (d.skip n).sq ((d.skip n).sqOffs + 4 + i))
        ((d.skip n).sqLen - 4) with
    | none =>
      rw [hs2] at hmove'
      exact ⟨le_rfl, _, hreach, h', fun _ => hmove'⟩
    | some k =>
      rw [hs2] at hmove'
      have hk := (searchMpegNAL_eq_some hs2).1
      have hfits := h'.fits
      have hmax := h'.maxlen
      unfold Fits at hfits
      dsimp only
      rw [if_neg (by omega)]
      exact ⟨(by decide : (0 : ℤ) ≤ 1), _, hreach.tail hmove', h'.skip (n := k + 4) (by omega),
        fun h0 => absurd h0 (by decide : ¬ (1 : ℤ) = 0)⟩

/-- **One call without new data.** -/
theorem View.call (h : View below S base a d) (hm : tMcParmsDhavStf ≤ m) :
    Moved f below S base a (streamToFrames f d [] m) := by
  by_cases hf : f = .dhav
  · subst hf
    exact h.dhav_call hm
  · rw [streamToFrames_of_ne hf]
    exact h.raw_call hf hm

/-- A call with data is one without after the data was loaded. -/
theorem streamToFrames_of_load {l : Dstf} {c : List UInt8} (hl : d.load c = some l) :
    streamToFrames f d c m = streamToFrames f l [] m := by
  by_cases hf : f = .dhav
  · subst hf
    rw [streamToFrames_dhav, dstfProcessDhavStreamToFrames, dstfProcessDhavStreamToFrames, hl,
      load_nil]
  · rw [streamToFrames_of_ne hf, dstfProcessRawH264StreamToFrames, dstfProcessRawH264StreamToFrames,
      hl, load_nil]

theorem Awaits.rests (h : Awaits f S a) : headMove f below S base a = none := by
  unfold headMove
  cases h with
  | header hf h16 hh hT hlt => rw [if_pos hf, if_neg (by omega), if_pos ⟨hh, hT⟩, if_pos hlt]
  | startCode hf h8 hu hno =>
    have h0 : searchNALFrom (ofList S) a (S.length - 2 - a) = some a := by
      obtain ⟨n, hn⟩ : ∃ n, S.length - 2 - a = n + 1 := ⟨S.length - 3 - a, by omega⟩
      rw [hn, searchNALFrom]
      exact if_pos hu
    rw [if_neg hf, if_neg (by omega), h0]
    dsimp only
    rw [if_neg (lt_irrefl a)]
    exact searchNALFrom_eq_none.mpr fun i h1 h2 => hno i h1 (by omega)

/-- A queue that waits awaits the frame at its head. -/
theorem View.awaits (h : View below S base a d) (hw : Waiting f d) : Awaits f S a := by
  have hlen := h.holds.len
  unfold Waiting at hw
  by_cases hf : f = .dhav
  · rw [if_pos hf] at hw
    obtain ⟨h16, hh, hT, hlt⟩ := check_wait_iff.mp hw
    rw [h.maxlen] at hT
    obtain ⟨hle, hrep⟩ := h.repLen h16
    have hrep := hrep (hle.mp hT)
    exact .header hf (by omega) ((h.hasHeader (by omega)).mp hh) (hle.mp hT) (by omega)
  · rw [if_neg hf] at hw
    obtain ⟨⟨h8, hu⟩, hnone⟩ := hw
    have hs := h.searchNAL (k := 4) (by omega)
    rw [Option.map_eq_none_iff.mp hnone, Option.map_none] at hs
    refine .startCode hf (by omega) ?_ fun i h1 h2 => searchNALFrom_eq_none.mp hs i h1 (by omega)
    unfold NALAt at hu ⊢
    have h0 := h.holds.head_byte (i := 0) (by omega)
    have h1 := h.holds.head_byte (i := 1) (by omega)
    have h2 := h.holds.head_byte (i := 2) (by omega)
    rw [Nat.add_zero, Nat.add_zero] at h0
    rw [← h0, ← h1, ← h2]
    exact hu

end Call

/-! ### The run -/

/-- Data appended by identification. -/
theorem View.append {below : ℕ → UInt8} {S c : List UInt8} {d : Dstf} (h : View below S 0 0 d)
    (hle : d.sqLen + c.length ≤ tMcParmsDhavStf) :
    View below (S ++ c) 0 0
      { d with sq := blit d.sq (d.sqOffs + d.sqLen) c, sqLen := d.sqLen + c.length } := by
  have hbase := h.base
  have hmax := h.maxlen
  refine ⟨hmax, ?_, h.below, hbase, ?_⟩
  · unfold Fits
    dsimp only
    omega
  · rw [List.length_append]
    exact (h.holds.extend c).append fun i _ => ofList_append_right.symm

/-- Identification takes the reads that `identifyReads` tells, and answers the same. -/
theorem identifyLoop_reads {g : ℕ} (hg : 0 < g) {below : ℕ → UInt8} {ids cs : List (List UInt8)}
    {d : Dstf} (h : View below ids.flatten 0 0 d) (hr : ∀ c ∈ cs, c.length ≤ g)
    (hu : identifyMcFormat (ofList ids.flatten) ids.flatten.length = .dvrUnknown) :
    (identifyLoop g d cs).2.1 = (identifyReads g ids cs).1 ∧
    ids ++ cs = (identifyReads g ids cs).2 ++ (identifyLoop g d cs).2.2 ∧
    View below (identifyReads g ids cs).2.flatten 0 0 (identifyLoop g d cs).1 := by
  induction cs generalizing d ids with
  | nil => exact ⟨rfl, by simp [identifyReads, identifyLoop], h⟩
  | cons c cs ih =>
    have hc := hr c (by simp)
    have hcs : ∀ c ∈ cs, c.length ≤ g := fun x hx => hr x (by simp [hx])
    have hlen := h.holds.len
    have hmax := h.maxlen
    have hflat : (ids ++ [c]).flatten = ids.flatten ++ c := by simp
    unfold identifyLoop identifyReads
    by_cases hsp : d.sqMaxlen - d.sqLen ≥ 2 * g
    swap
    · have hsp' : ¬ ids.flatten.length + 2 * g ≤ tMcParmsDhavStf := by omega
      rw [if_neg hsp, if_neg hsp']
      exact ⟨rfl, rfl, h⟩
    have hsp' : ids.flatten.length + 2 * g ≤ tMcParmsDhavStf := by omega
    rw [if_pos hsp, if_pos hsp']
    dsimp only
    rw [hflat]
    have happ : ids ++ c :: cs = (ids ++ [c]) ++ cs := by simp
    by_cases hpos : c.length > 0
    · have h' := h.append (c := c) (by omega)
      have hid := h'.holds.identify
      dsimp only at hid
      rw [if_pos hpos, hid]
      split_ifs with hf
      · exact ⟨rfl, happ, hflat ▸ h'⟩
      · rw [happ]
        exact ih (hflat ▸ h') hcs (hflat ▸ not_not.mp hf)
    · -- nothing was read, so nothing new is told
      have hnil : c = [] := List.length_eq_zero_iff.mp (by omega)
      rw [hnil, List.append_nil] at hflat ⊢
      have hids : ids ++ [] :: cs = ids ++ [[]] ++ cs := by simp
      rw [if_neg (by simp), hu, if_neg (not_not.mpr rfl), hids]
      exact ih (hflat ▸ h) hcs (hflat ▸ hu)

/-- The format for which the loop runs. -/
def streamFormat (p : Program) (reads : List (List UInt8)) : McFormat :=
  if (identifyReads p.granularity [] reads).1 = .dvrUnknown then .dhav
  else (identifyReads p.granularity [] reads).1

theorem streamStart_view (p : Program) (sq below : ℕ → UInt8) (reads : List (List UInt8))
    (hr : ∀ c ∈ reads, c.length ≤ p.granularity) :
    (streamStart p (dstfInit sq below) reads).1 = streamFormat p reads ∧
    reads = (identifyReads p.granularity [] reads).2 ++
      (streamStart p (dstfInit sq below) reads).2.reads ∧
    View below (identifyReads p.granularity [] reads).2.flatten 0 0
      (streamStart p (dstfInit sq below) reads).2.dstf := by
  have hg : 0 < p.granularity := by cases p <;> decide
  have hinit : View below ([] : List (List UInt8)).flatten 0 0 (dstfInit sq below) :=
    ⟨rfl, dstfInit_fits sq below, rfl, rfl, holds_dstfInit _ sq below⟩
  obtain ⟨hf, hreads, hv⟩ := identifyLoop_reads hg hinit hr rfl
  refine ⟨?_, hreads, hv⟩
  unfold streamFormat
  rw [← hf]
  rfl

section Run

variable {f : McFormat} {m : ℕ} {below : ℕ → UInt8} {ids pre : List (List UInt8)} {base a : ℕ}

/-- A loop that was called, with its head at position `a` when the reads `pre` were made. -/
structure At (f : McFormat) (below : ℕ → UInt8) (ids pre : List (List UInt8)) (base a : ℕ)
    (s : StreamLoop) : Prop where
  comes : Comes f below ids pre base a
  view : View below pre.flatten base a s.dstf
  nonneg : 0 ≤ s.dstfRet
  rests : s.dstfRet = 0 → headMove f below pre.flatten base a = none

theorem Comes.reach {a' : ℕ} (h : Comes f below ids pre base a)
    (hr : Reach (headMove f below pre.flatten base) a a') : Comes f below ids pre base a' :=
  hr.invariant (fun _ _ h hst => h.move hst) h

/-- A call whose data is loaded. -/
theorem At.call {s : StreamLoop} {c : List UInt8} {l : Dstf} (hm : tMcParmsDhavStf ≤ m)
    (hc : Comes f below ids pre base a) (hv : View below pre.flatten base a l)
    (hl : s.dstf.load c = some l) :
    ∃ a', Reach (headMove f below pre.flatten base) a a' ∧
      At f below ids pre base a' (s.call f m c) := by
  obtain ⟨hnonneg, a', hr, hv', hrest⟩ := hv.call (f := f) hm
  rw [← streamToFrames_of_load hl] at hnonneg hv' hrest
  exact ⟨a', hr, hc.reach hr, hv', hnonneg, hrest⟩

/-- The first read after identification. -/
theorem first_call {s : StreamLoop} (hm : tMcParmsDhavStf ≤ m)
    (hv : View below ids.flatten 0 0 s.dstf)
    {c : List UInt8} (hle : s.dstf.sqLen + c.length ≤ tMcParmsDhavStf) :
    ∃ a', Reach (headMove f below (ids ++ [c]).flatten 0) 0 a' ∧
      At f below ids (ids ++ [c]) 0 a' (s.call f m c) := by
  have hmax := hv.maxlen
  have hlen := hv.holds.len
  cases hl : s.dstf.load c with
  | none =>
    have := (load_eq_none_iff.mp hl).2
    omega
  | some l =>
    refine At.call hm (.first c) ?_ hl
    have hv' := hv.load hl
    rw [if_pos (by omega)] at hv'
    simpa using hv'

/-- A later read. -/
theorem At.read {s : StreamLoop} (h : At f below ids pre base a s) (hm : tMcParmsDhavStf ≤ m)
    (h0 : s.dstfRet = 0) {c : List UInt8} {l : Dstf} (hl : s.dstf.load c = some l) :
    Comes f below ids (pre ++ [c])
      (if pre.flatten.length + c.length ≤ base + tMcParmsDhavStf then base else a) a ∧
    ∃ a', Reach (headMove f below (pre ++ [c]).flatten
        (if pre.flatten.length + c.length ≤ base + tMcParmsDhavStf then base else a)) a a' ∧
      At f below ids (pre ++ [c])
        (if pre.flatten.length + c.length ≤ base + tMcParmsDhavStf then base else a) a'
        (s.call f m c) := by
  have hc := h.comes.read c (h.rests h0)
  refine ⟨hc, At.call hm hc ?_ hl⟩
  simpa using h.view.load hl

/-- **The queue of a running loop** is where the reads made so far lead. -/
theorem at_of_reach {s₀ s : StreamLoop} {reads : List (List UInt8)} (hm : tMcParmsDhavStf ≤ m)
    (h₀ : s₀.dstfRet = 0) (hv : View below ids.flatten 0 0 s₀.dstf) (hreads : reads = ids ++ s₀.reads)
    (hroom : ∀ c ∈ s₀.reads, s₀.dstf.sqLen + c.length ≤ tMcParmsDhavStf)
    (hs : Reach (StreamLoop.step f m) s₀ s) :
    s = s₀ ∨ s.dstfRet < 0 ∨
      ∃ pre base a, reads = pre ++ s.reads ∧ At f below ids pre base a s := by
  refine hs.invariant (P := fun s => s = s₀ ∨ s.dstfRet < 0 ∨
    ∃ pre base a, reads = pre ++ s.reads ∧ At f below ids pre base a s) ?_ (Or.inl rfl)
  intro s t hinv hst
  obtain ⟨hpos, rfl⟩ | ⟨h0, c, cs, hc, rfl⟩ := step_eq_some hst
  · obtain rfl | hneg | ⟨pre, base, a, hpre, h⟩ := hinv
    · omega
    · omega
    · obtain ⟨a', -, h'⟩ := At.call hm h.comes h.view (load_nil s.dstf)
      exact Or.inr (Or.inr ⟨pre, base, a', hpre, h'⟩)
  · obtain rfl | hneg | ⟨pre, base, a, hpre, h⟩ := hinv
    · obtain ⟨a', -, h'⟩ := first_call (s := { s with reads := cs }) (f := f) hm hv
        (hroom c (by rw [hc]; simp))
      exact Or.inr (Or.inr ⟨_, 0, a', by rw [hreads, hc]; simp, h'⟩)
    · omega
    · cases hl : s.dstf.load c with
      | none =>
        have hfull : ({ s with reads := cs }.call f m c).dstfRet = -1 :=
          (ret_full_iff h.view.fits).mpr (load_eq_none_iff.mp hl)
        refine Or.inr (Or.inl ?_)
        omega
      | some l =>
        obtain ⟨-, a', -, h'⟩ := At.read (s := { s with reads := cs })
          ⟨h.comes, h.view, h.nonneg, h.rests⟩ hm h0 hl
        exact Or.inr (Or.inr ⟨_, _, a', by rw [hpre, hc]; simp, h'⟩)

/-- **The drain loop** goes to where the head rests. -/
theorem At.drain {r : ℕ} {s : StreamLoop} (h : At f below ids pre base a s) (hm : tMcParmsDhavStf ≤ m)
    (hr : Halts (headMove f below pre.flatten base) a r) :
    ∃ t, Reach (StreamLoop.step f m) s t ∧ t.dstfRet = 0 ∧ t.reads = s.reads ∧
      At f below ids pre base r t := by
  induction hn : s.dstf.sqLen using Nat.strongRecOn generalizing s a with
  | _ n ih =>
    by_cases h0 : s.dstfRet = 0
    · have : r = a := hr.unique ⟨.refl a, h.rests h0⟩
      subst this
      exact ⟨s, .refl s, h0, rfl, h⟩
    have hpos : 0 < s.dstfRet := by
      have := h.nonneg
      omega
    obtain ⟨a', hmove, h'⟩ := At.call hm h.comes h.view (load_nil s.dstf)
    have hr' := hr.of_reach hmove
    by_cases hpos' : 0 < (s.call f m []).dstfRet
    · have hz : ¬ ZeroFrame f s.dstf := by
        intro hz
        obtain rfl := hz.dhav
        have hstay := h.view.headMove_eq
        rw [(zeroFrame_iff.mp hz).1, hz.repLen] at hstay
        exact not_halts (P := fun x => x = a) (fun x hx => ⟨a, hx ▸ hstay, rfl⟩) rfl ⟨r, hr⟩
      have hlt := drain_decreases hpos' hz
      obtain ⟨t, ht, hrest⟩ := ih _ (hn ▸ hlt) h' hr' rfl
      exact ⟨t, .head (step_of_pos hpos) ht, hrest⟩
    · have h0' : (s.call f m []).dstfRet = 0 := by
        have := h'.nonneg
        omega
      have : r = a' := hr'.unique ⟨.refl a', h'.rests h0'⟩
      subst this
      exact ⟨_, .head (step_of_pos hpos) (.refl _), h0', rfl, h'⟩

/-- **Every place where the stream leads is reached** by a loop that no read fills. -/
theorem reach_of_comes {s₀ : StreamLoop} {reads : List (List UInt8)} (hm : tMcParmsDhavStf ≤ m)
    (h₀ : s₀.dstfRet = 0) (hv : View below ids.flatten 0 0 s₀.dstf) (hreads : reads = ids ++ s₀.reads)
    (hroom : ∀ c ∈ s₀.reads, s₀.dstf.sqLen + c.length ≤ tMcParmsDhavStf)
    (hfull : ∀ s, Reach (StreamLoop.step f m) s₀ s → s.dstfRet ≠ -1)
    (h : Comes f below ids pre base a) {post : List (List UInt8)} (hpre : reads = pre ++ post) {r : ℕ}
    (hr : Halts (headMove f below pre.flatten base) a r) :
    ∃ s, Reach (StreamLoop.step f m) s₀ s ∧ s.dstfRet = 0 ∧ s.reads = post ∧
      At f below ids pre base r s := by
  induction h generalizing post r with
  | first c =>
    have hc : s₀.reads = c :: post := by
      rw [hreads, List.append_assoc] at hpre
      exact List.append_cancel_left hpre
    obtain ⟨a', hmove, h'⟩ := first_call (s := { s₀ with reads := post }) (f := f) hm hv
      (hroom c (by rw [hc]; simp))
    obtain ⟨t, ht, h0, hpost, hat⟩ := h'.drain hm (hr.of_reach hmove)
    exact ⟨t, .head (step_of_read h₀ hc) ht, h0, hpost, hat⟩
  | move _ hst ih => exact ih hpre ⟨.head hst hr.1, hr.2⟩
  | @read pre base a c _ hrest ih =>
    have hpre' : reads = pre ++ c :: post := by rw [hpre, List.append_assoc]; rfl
    obtain ⟨s, hs, h0, hc, h⟩ := ih hpre' ⟨.refl a, hrest⟩
    have hst := step_of_read (f := f) (m := m) h0 hc
    cases hl : s.dstf.load c with
    | none =>
      exact absurd ((ret_full_iff h.view.fits).mpr (load_eq_none_iff.mp hl)) (hfull _ (hs.tail hst))
    | some l =>
      obtain ⟨-, a', hmove, h'⟩ := At.read (s := { s with reads := post })
        ⟨h.comes, h.view, h.nonneg, h.rests⟩ hm h0 hl
      obtain ⟨t, ht, hrest'⟩ := h'.drain hm (hr.of_reach hmove)
      exact ⟨t, (hs.tail hst).trans ht, hrest'⟩

end Run

theorem maxDstLen_le (p : Program) : tMcParmsDhavStf ≤ p.maxDstLen := by
  cases p <;> decide

section Programs

variable {p : Program} {sq below : ℕ → UInt8} {reads : List (List UInt8)}

theorem streamStart_reads_fit (hr : ∀ c ∈ reads, c.length ≤ p.granularity) :
    ∀ c ∈ (streamStart p (dstfInit sq below) reads).2.reads,
      (streamStart p (dstfInit sq below) reads).2.dstf.sqLen + c.length ≤ tMcParmsDhavStf := by
  intro c hc
  have h1 := (streamStart_roomy (f := .dhav) p sq below reads hr).reads c hc
  have h2 := streamStart_room p sq below reads hr
  omega

/-- A read that comes while a frame is awaited fits where no call returns -1. -/
theorem Awaits.read_fits (hr : ∀ c ∈ reads, c.length ≤ p.granularity)
    (hfull : ∀ s, Reach (StreamLoop.step (streamFormat p reads) p.maxDstLen)
      (streamStart p (dstfInit sq below) reads).2 s → s.dstfRet ≠ -1)
    {pre post : List (List UInt8)} {c : List UInt8} {base a : ℕ} (hpre : reads = pre ++ c :: post)
    (hcomes : Comes (streamFormat p reads) below (identifyReads p.granularity [] reads).2 pre base a)
    (h : Awaits (streamFormat p reads) pre.flatten a) :
    pre.flatten.length + c.length ≤ a + tMcParmsDhavStf := by
  obtain ⟨-, hreads, hv⟩ := streamStart_view p sq below reads hr
  obtain ⟨s, hs, h0, hc, hat⟩ := reach_of_comes (maxDstLen_le p) rfl hv hreads
    (streamStart_reads_fit hr) hfull hcomes hpre ⟨.refl a, h.rests⟩
  have hfits := TaniDVR.read_fits hfull hs hat.view.fits h0 hc
  have hlen := hat.view.holds.len
  have hmax := hat.view.maxlen
  omega

/-- Where such a read does not fit a call returns -1. -/
theorem Awaits.full {pre post : List (List UInt8)} {c : List UInt8} {base a : ℕ}
    (hr : ∀ x ∈ pre ++ c :: post, x.length ≤ p.granularity)
    (hcomes : Comes (streamFormat p (pre ++ c :: post)) below
      (identifyReads p.granularity [] (pre ++ c :: post)).2 pre base a)
    (h : Awaits (streamFormat p (pre ++ c :: post)) pre.flatten a)
    (hlt : a + tMcParmsDhavStf < pre.flatten.length + c.length) :
    ∃ s, Reach (StreamLoop.step (streamStart p (dstfInit sq below) (pre ++ c :: post)).1 p.maxDstLen)
      (streamStart p (dstfInit sq below) (pre ++ c :: post)).2 s ∧ s.dstfRet = -1 := by
  by_contra hno
  rw [(streamStart_view p sq below _ hr).1] at hno
  have := Awaits.read_fits hr (fun s hs h1 => hno ⟨s, hs, h1⟩) rfl hcomes h
  omega

end Programs

/-- **When a recording is aborted by a full queue.**  In a run of either program over any input, no
call returns -1 if and only if every read that comes while the frame at a position of the stream is
awaited ends at most 1000000 bytes after that position. -/
theorem never_full_iff (p : Program) (sq below : ℕ → UInt8) (reads : List (List UInt8))
    (hr : ∀ c ∈ reads, c.length ≤ p.granularity) :
    (∀ s, Reach (StreamLoop.step (streamStart p (dstfInit sq below) reads).1 p.maxDstLen)
      (streamStart p (dstfInit sq below) reads).2 s → s.dstfRet ≠ -1) ↔
    ∀ pre c post base a, reads = pre ++ c :: post →
      Comes (streamFormat p reads) below (identifyReads p.granularity [] reads).2 pre base a →
      Awaits (streamFormat p reads) pre.flatten a →
      pre.flatten.length + c.length ≤ a + tMcParmsDhavStf := by
  obtain ⟨hf, hreads, hv⟩ := streamStart_view p sq below reads hr
  have hiff := never_full_iff_waiting p sq below reads hr
  dsimp only at hiff
  rw [hf] at hiff ⊢
  constructor
  · intro h pre c post base a hpre hcomes hawaits
    exact hawaits.read_fits hr h hpre hcomes
  · intro h
    rw [hiff]
    intro s c cs hs h0 hc hw
    obtain rfl | hneg | ⟨pre, base, a, hpre, hat⟩ :=
      at_of_reach (maxDstLen_le p) rfl hv hreads (streamStart_reads_fit hr) hs
    · exact streamStart_reads_fit hr c (by rw [hc]; simp)
    · omega
    · have hlen := hat.view.holds.len
      have := h pre c cs base a (hc ▸ hpre) hat.comes (hat.view.awaits hw)
      omega

/-! ### A stream that fills the queue -/

/-- A header that advertises 1000000 bytes, in a stream that tells its format at once. -/
def longFrameHead : List UInt8 :=
  [0x44, 0x48, 0x41, 0x56, 0x64, 0x68, 0x61, 0x76, 0, 0, 0, 0, 0x40, 0x42, 0x0f, 0x00]

theorem length_longFrameHead : longFrameHead.length = 16 := rfl

theorem longFrame_byte {S : List UInt8} (hS : longFrameHead <+: S) {i : ℕ} (hi : i < 16) :
    ofList S i = ofList longFrameHead i := by
  obtain ⟨zs, rfl⟩ := hS
  exact ofList_append_left hi

theorem longFrame_slice {S : List UInt8} (hS : longFrameHead <+: S) {a n : ℕ} (h : a + n ≤ 16) :
    slice (ofList S) a n = slice (ofList longFrameHead) a n :=
  slice_congr fun i hi => longFrame_byte hS (by omega)

theorem longFrame_awaits {S : List UInt8} (hS : longFrameHead <+: S) (h : S.length < 1000000) :
    Awaits .dhav S 0 := by
  have hT : tMcParmsDhavStf = 1000000 := rfl
  have hlen : 16 ≤ S.length := hS.length_le
  have hhead : slice (ofList S) 0 4 = strDHAV := (longFrame_slice hS (by omega)).trans (by decide)
  have hdecl : declaredLen S 0 = 1000000 :=
    (le32_congr fun i hi => longFrame_byte hS (by omega)).trans
      (by decide : le32 (fun i => ofList longFrameHead (0 + 12 + i)) = 1000000)
  exact .header rfl (by omega) hhead (by omega) (by omega)

/-- Its first read tells the format. -/
theorem longFrame_identify {S : List UInt8} (hS : longFrameHead <+: S) (cs : List (List UInt8)) :
    identifyReads 250000 [] (S :: cs) = (.dhav, [S]) := by
  have hlen : 16 ≤ S.length := hS.length_le
  have hid : identifyMcFormat (ofList S) S.length = .dhav :=
    identifyMcFormat_dhav (i := 0) (j := 4)
      (by omega) ((longFrame_slice hS (by omega)).trans (by decide))
      (by omega) ((longFrame_slice hS (by omega)).trans (by decide))
  have hflat : ([] ++ [S]).flatten = S := by simp
  have hroom : ([] : List (List UInt8)).flatten.length + 2 * 250000 ≤ tMcParmsDhavStf := by decide
  rw [identifyReads, if_pos hroom]
  dsimp only
  rw [hflat, hid, if_pos (by decide)]
  rfl

/-- Its start stays at the head. -/
theorem longFrame_comes (below : ℕ → UInt8) {S : List UInt8} (hS : longFrameHead <+: S)
    (c : List UInt8) (cs : List (List UInt8)) (h : ([S, c] ++ cs).flatten.length < 1000000) :
    Comes .dhav below [S] ([S, c] ++ cs) 0 0 ∧ Awaits .dhav ([S, c] ++ cs).flatten 0 := by
  have hpre : ∀ cs, longFrameHead <+: ([S, c] ++ cs).flatten := fun cs =>
    hS.trans ⟨(c :: cs).flatten, by simp⟩
  refine ⟨?_, longFrame_awaits (hpre cs) h⟩
  induction cs using List.reverseRecOn with
  | nil => exact .first c
  | append_singleton cs c' ih =>
    rw [← List.append_assoc, List.flatten_append, List.length_append] at h
    have hlt : ([S, c] ++ cs).flatten.length < 1000000 := by omega
    have hread := (ih hlt).read c' (longFrame_awaits (hpre cs) hlt).rests
    rwa [ite_self, List.append_assoc] at hread

/-- The first reads: the header and what follows it, up to one byte less than the advertised length. -/
def longFrameReads : List (List UInt8) :=
  [longFrameHead ++ List.replicate 249983 0, List.replicate 250000 0] ++
    [List.replicate 250000 0, List.replicate 250000 0]

theorem longFrameReads_bounds {c : List UInt8} (hc : c ∈ longFrameReads) :
    1 ≤ c.length ∧ c.length ≤ Program.tanidvr.granularity := by
  simp only [longFrameReads, List.cons_append, List.nil_append, List.mem_cons, List.not_mem_nil,
    or_false] at hc
  have hlen : c.length = 249999 ∨ c.length = 250000 := by
    obtain rfl | rfl | rfl | rfl := hc
    · exact Or.inl (by rw [List.length_append, length_longFrameHead, List.length_replicate])
    · exact Or.inr List.length_replicate
    · exact Or.inr List.length_replicate
    · exact Or.inr List.length_replicate
  simp only [Program.granularity]
  omega

theorem length_longFrameReads : longFrameReads.flatten.length = 999999 := by
  have hsum : ∀ x a b c d : List UInt8, ([x ++ a, b] ++ [c, d]).flatten.length =
      x.length + a.length + b.length + c.length + d.length := by
    intro x a b c d
    simp only [List.cons_append, List.nil_append, List.flatten_cons, List.flatten_nil,
      List.length_append, List.length_nil]
    omega
  rw [longFrameReads, hsum, length_longFrameHead, List.length_replicate, List.length_replicate]

/-- The frame at the start of the stream is awaited after these reads. -/
theorem longFrameReads_awaited (below : ℕ → UInt8) (post : List (List UInt8)) :
    Comes (streamFormat .tanidvr (longFrameReads ++ post)) below
      (identifyReads Program.tanidvr.granularity [] (longFrameReads ++ post)).2 longFrameReads 0 0 ∧
    Awaits (streamFormat .tanidvr (longFrameReads ++ post)) longFrameReads.flatten 0 := by
  have hS := List.prefix_append longFrameHead (List.replicate 249983 0)
  have hid : identifyReads Program.tanidvr.granularity [] (longFrameReads ++ post) =
      (.dhav, [longFrameHead ++ List.replicate 249983 0]) := longFrame_identify hS _
  have hf : streamFormat .tanidvr (longFrameReads ++ post) = .dhav := by
    rw [streamFormat, hid]
    exact if_neg (by decide)
  rw [hf, hid]
  exact longFrame_comes below hS _ _ (length_longFrameReads.trans_lt (by decide))

/-- A last byte that completes the awaited frame fits. -/
theorem never_full_iff_last_byte :
    (Comes (streamFormat .tanidvr (longFrameReads ++ [[0]])) (fun _ => 0)
        (identifyReads Program.tanidvr.granularity [] (longFrameReads ++ [[0]])).2 longFrameReads 0 0 ∧
      Awaits (streamFormat .tanidvr (longFrameReads ++ [[0]])) longFrameReads.flatten 0) ∧
    ∀ s, Reach (StreamLoop.step (streamStart .tanidvr (dstfInit (fun _ => 0) (fun _ => 0))
          (longFrameReads ++ [[0]])).1 Program.tanidvr.maxDstLen)
        (streamStart .tanidvr (dstfInit (fun _ => 0) (fun _ => 0)) (longFrameReads ++ [[0]])).2 s →
      s.dstfRet ≠ -1 := by
  refine ⟨longFrameReads_awaited _ _, (never_full_iff .tanidvr (fun _ => 0) (fun _ => 0)
    (longFrameReads ++ [[0]]) fun c hc => ?_).mpr ?_⟩
  · obtain hc | hc := List.mem_append.mp hc
    · exact (longFrameReads_bounds hc).2
    · rw [List.mem_singleton.mp hc]
      decide
  · intro pre c post base a hpre _ _
    have hlen := congrArg (fun l => l.flatten.length) hpre
    have hT : tMcParmsDhavStf = 1000000 := rfl
    simp only [List.flatten_append, List.flatten_cons, List.flatten_nil, List.length_append,
      length_longFrameReads, List.length_cons, List.length_nil] at hlen
    omega

/-- **`tanidvr` stops at these reads** when two bytes more come: the queue is full. -/
theorem queue_full :
    (∀ c ∈ longFrameReads ++ [[0, 0]], 1 ≤ c.length ∧ c.length ≤ Program.tanidvr.granularity) ∧
    ∃ s, Reach (StreamLoop.step (streamStart .tanidvr (dstfInit (fun _ => 0) (fun _ => 0))
        (longFrameReads ++ [[0, 0]])).1 Program.tanidvr.maxDstLen)
      (streamStart .tanidvr (dstfInit (fun _ => 0) (fun _ => 0)) (longFrameReads ++ [[0, 0]])).2 s ∧
      s.dstfRet = -1 := by
  have hr : ∀ c ∈ longFrameReads ++ [[0, 0]],
      1 ≤ c.length ∧ c.length ≤ Program.tanidvr.granularity := by
    intro c hc
    obtain hc | hc := List.mem_append.mp hc
    · exact longFrameReads_bounds hc
    · rw [List.mem_singleton.mp hc]
      exact ⟨by decide, by decide⟩
  have hT : tMcParmsDhavStf = 1000000 := rfl
  have hawaited := longFrameReads_awaited (fun _ => 0) [[0, 0]]
  refine ⟨hr, Awaits.full (fun c hc => (hr c hc).2) hawaited.1 hawaited.2 ?_⟩
  rw [length_longFrameReads, List.length_cons, List.length_singleton]
  omega

end TaniDVR
