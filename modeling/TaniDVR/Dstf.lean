import TaniDVR.Bintools

/-!
# Dstf — the stream queue of `mctools.c`

`Dstf` is `dstf_t`; `dstfProcessDhavStreamToFrames` and `dstfProcessRawH264StreamToFrames` are the
two routines that cut frames off its head.  Both start by loading the new data (`Dstf.load`).

The DHAV routine looks for the trailer at `framep + (dhav_rep_len - 8)`.  For a declared length
below 8 that address lies before the frame, either in stale bytes of the queue array or in the heap
bytes below it, which the model keeps as `below`.

`Dstf.window` is the unread data; `Dstf.Fits` is the bound every call keeps.  `Passed d d'` says
that `d'` is `d` after its checking loop discarded garbage.  `checkLoop_spec` and
`h264_spec` say what one call does.
-/

namespace TaniDVR

open Lib

/-- `T_MC_PARMS_DHAV_STF`: the size of the queue array. -/
def tMcParmsDhavStf : ℕ := 1000000

/-- `dstf_t` (`sq_p` always points to `sq[0]`). -/
structure Dstf where
  sq : ℕ → UInt8
  /-- the heap bytes below the array: `below k` is the byte at `sq_p - 1 - k` -/
  below : ℕ → UInt8
  sqOffs : ℕ
  sqLen : ℕ
  sqMaxlen : ℕ

/-- `dstf_init`; the heap block `malloc` returns holds arbitrary bytes. -/
def dstfInit (sq below : ℕ → UInt8) : Dstf := ⟨sq, below, 0, 0, tMcParmsDhavStf⟩

/-- What a call of a stream routine returns: its result, the `*dst_len` bytes it wrote to `dst_p`,
and the queue. -/
structure StfOut where
  ret : ℤ
  dst : List UInt8
  dstf : Dstf

/-- `memcpy_overlap`: byte by byte, upwards. -/
def memcpyOverlap (m : ℕ → UInt8) (dst src : ℕ) : ℕ → ℕ → UInt8
  | 0 => m
  | len + 1 => memcpyOverlap (Function.update m dst (m src)) (dst + 1) (src + 1) len

namespace Dstf

/-- The unread data. -/
def window (d : Dstf) : List UInt8 := slice d.sq d.sqOffs d.sqLen

/-- The byte at `sq_p + i`. -/
def byteAt (d : Dstf) : ℤ → UInt8
  | .ofNat i => d.sq i
  | .negSucc k => d.below k

/-- The start of both routines: pack the queue if needed and append `src`; `none` when there is no
space. -/
def load (d : Dstf) (src : List UInt8) : Option Dstf :=
  let qFree := d.sqMaxlen - (d.sqLen + d.sqOffs)
  let qTotFree := d.sqMaxlen - d.sqLen
  if src.length > 0 then
    if src.length > qTotFree then none
    else
      let d := if src.length > qFree then
          { d with sq := memcpyOverlap d.sq 0 d.sqOffs d.sqLen, sqOffs := 0 }
        else d
      some { d with sq := blit d.sq (d.sqOffs + d.sqLen) src, sqLen := d.sqLen + src.length }
  else some d

/-- `framep += n; sq_offs += n; sq_len -= n`. -/
def skip (d : Dstf) (n : ℕ) : Dstf := { d with sqOffs := d.sqOffs + n, sqLen := d.sqLen - n }

/-! ### DHAV -/

/-- `BT_IDeqLM_32('D','H','A','V',framep)`. -/
def hasHeader (d : Dstf) : Bool := btIDeqLM32 0x44 0x48 0x41 0x56 (fun i => d.sq (d.sqOffs + i))

/-- `dhav_rep_len`. -/
def repLen (d : Dstf) : ℕ := toSizeT (btLM2NVU32 (fun i => d.sq (d.sqOffs + 12 + i)))

/-- `framep + dhav_offset` as an offset to `sq_p`: the `size_t` wrap of `dhav_rep_len - 8` is undone
by the address arithmetic. -/
def trailerPos (d : Dstf) : ℤ := (d.sqOffs : ℤ) + ((d.repLen : ℤ) - 8)

/-- `BT_IDeqLM_32('d','h','a','v', (framep + dhav_offset))`. -/
def hasTrailer (d : Dstf) : Bool :=
  btIDeqLM32 0x64 0x68 0x61 0x76 (fun i => d.byteAt (d.trailerPos + i))

/-- `dhav_rep2_len`. -/
def rep2Len (d : Dstf) : ℕ := toSizeT (btLM2NVU32 (fun i => d.byteAt (d.trailerPos + 4 + i)))

/-- The outcome of the tests on the head of the queue. -/
inductive Check
  | short    -- fewer than 16 bytes
  | wait     -- the advertised frame is not complete
  | frame    -- "frame is whole and seems correct"
  | garbage  -- `skip_garbage = true`
  deriving DecidableEq, Repr

/-- The tests of one turn of the checking loop. -/
def check (d : Dstf) : Check :=
  if d.sqLen < 16 then .short
  else if d.hasHeader then
    if d.repLen > d.sqMaxlen then .garbage
    else if d.repLen > d.sqLen then .wait
    else if ¬ d.hasTrailer then .garbage
    else if d.rep2Len ≠ d.repLen then .garbage
    else .frame
  else .garbage

/-- `while ((sq_len >= 16) && (! BT_IDeqLM_32('D','H','A','V',framep)))`; `fuel` bounds the turns. -/
def skipToHeader : ℕ → Dstf → Dstf
  | 0, d => d
  | fuel + 1, d => if 16 ≤ d.sqLen ∧ ¬ d.hasHeader then skipToHeader fuel (d.skip 1) else d

/-- The checking loop `while (1)`: a value to return, or `none` for `break` (a frame stands at the
head).  Every turn that does not leave the loop discards a byte, so `sq_len + 1` turns are enough
(`checkLoop_spec`). -/
def checkLoop : ℕ → Dstf → Option ℤ × Dstf
  | 0, d => (some 0, d)
  | fuel + 1, d =>
    match d.check with
    | .short => (some 0, d)
    | .wait => (some 0, d)
    | .frame => (none, d)
    | .garbage =>
      let d := skipToHeader d.sqLen (d.skip 1)
      if d.sqLen < 16 then (some 3, d) else checkLoop fuel d

end Dstf

/-- `dstf_process_dhav_stream_to_frames`. -/
def dstfProcessDhavStreamToFrames (d : Dstf) (src : List UInt8) (maxDstLen : ℕ) : StfOut :=
  match d.load src with
  | none => ⟨-1, [], d⟩
  | some d =>
    match Dstf.checkLoop (d.sqLen + 1) d with
    | (some r, d) => ⟨r, [], d⟩
    | (none, d) =>
      if maxDstLen < d.repLen then ⟨-3, [], d⟩
      else if maxDstLen < d.repLen then ⟨-4, [], d.skip d.repLen⟩
      else ⟨1, slice d.sq d.sqOffs d.repLen, d.skip d.repLen⟩

/-! ### Raw H.264 -/

/-- The search loop of `search_mpeg_NAL` from index `i` on, for `n` more indices. -/
def searchNALFrom (src : ℕ → UInt8) (i : ℕ) : ℕ → Option ℕ
  | 0 => none
  | n + 1 =>
    if src i = 0x00 ∧ src (i + 1) = 0x00 ∧ src (i + 2) = 0x01 then some i
    else searchNALFrom src (i + 1) n

/-- `search_mpeg_NAL`, `none` for -1 (its callers pass at least 4 bytes). -/
def searchMpegNAL (src : ℕ → UInt8) (len : ℕ) : Option ℕ := searchNALFrom src 0 (len - 2)

/-- `dstf_process_raw_h264_stream_to_frames`. -/
def dstfProcessRawH264StreamToFrames (d : Dstf) (src : List UInt8) (maxDstLen : ℕ) : StfOut :=
  match d.load src with
  | none => ⟨-1, [], d⟩
  | some d =>
    if d.sqLen < 8 then ⟨0, [], d⟩
    else
      match searchMpegNAL (fun i => d.sq (d.sqOffs + i)) d.sqLen with
      | none => ⟨0, [], d.skip d.sqLen⟩
      | some nextNAL =>
        let d := if nextNAL ≠ 0 then d.skip nextNAL else d
        if d.sqLen < 8 then ⟨0, [], d⟩
        else
          match searchMpegNAL (fun i => d.sq (d.sqOffs + 4 + i)) (d.sqLen - 4) with
          | none => ⟨0, [], d⟩
          | some nextNAL =>
            let frameLen := nextNAL + 4
            if maxDstLen < frameLen then ⟨-3, [], d⟩
            else ⟨1, slice d.sq d.sqOffs frameLen, d.skip frameLen⟩

/-! ## The queue array -/

theorem memcpyOverlap_of_lt {m : ℕ → UInt8} {dst src len i : ℕ} (h : i < dst) :
    memcpyOverlap m dst src len i = m i := by
  induction len generalizing m dst src with
  | zero => rfl
  | succ len ih =>
    rw [memcpyOverlap, ih (by omega), Function.update_of_ne (by omega)]

/-- Copying upwards to a lower address is right also where the regions overlap. -/
theorem memcpyOverlap_add {m : ℕ → UInt8} {dst src len i : ℕ} (hle : dst ≤ src) (hi : i < len) :
    memcpyOverlap m dst src len (dst + i) = m (src + i) := by
  induction len generalizing m dst src i with
  | zero => omega
  | succ len ih =>
    rw [memcpyOverlap]
    cases i with
    | zero =>
      rw [memcpyOverlap_of_lt (by omega)]
      exact Function.update_self _ _ _
    | succ i =>
      rw [show dst + (i + 1) = dst + 1 + i by omega, ih (by omega) (by omega),
        Function.update_of_ne (by omega), show src + 1 + i = src + (i + 1) by omega]

namespace Dstf

/-- The data ends inside the array. -/
def Fits (d : Dstf) : Prop := d.sqOffs + d.sqLen ≤ d.sqMaxlen

@[simp] theorem skip_zero (d : Dstf) : d.skip 0 = d := rfl
@[simp] theorem skip_sq (d : Dstf) (n : ℕ) : (d.skip n).sq = d.sq := rfl
@[simp] theorem skip_below (d : Dstf) (n : ℕ) : (d.skip n).below = d.below := rfl
@[simp] theorem skip_sqOffs (d : Dstf) (n : ℕ) : (d.skip n).sqOffs = d.sqOffs + n := rfl
@[simp] theorem skip_sqLen (d : Dstf) (n : ℕ) : (d.skip n).sqLen = d.sqLen - n := rfl
@[simp] theorem skip_sqMaxlen (d : Dstf) (n : ℕ) : (d.skip n).sqMaxlen = d.sqMaxlen := rfl

@[simp] theorem byteAt_natCast (d : Dstf) (i : ℕ) : d.byteAt i = d.sq i := rfl

theorem skip_skip (d : Dstf) (n k : ℕ) : (d.skip n).skip k = d.skip (n + k) := by
  simp [skip, Nat.add_assoc, Nat.sub_sub]

theorem skip_fits {d : Dstf} (h : d.Fits) {n : ℕ} (hn : n ≤ d.sqLen) : (d.skip n).Fits := by
  unfold Fits at *
  simp only [skip_sqOffs, skip_sqLen, skip_sqMaxlen]
  omega

@[simp] theorem length_window (d : Dstf) : d.window.length = d.sqLen := length_slice _ _ _

theorem window_skip (d : Dstf) (n : ℕ) : (d.skip n).window = d.window.drop n := by
  rw [window, window, drop_slice]
  rfl

theorem window_eq_take_append (d : Dstf) {n : ℕ} (hn : n ≤ d.sqLen) :
    d.window = slice d.sq d.sqOffs n ++ (d.skip n).window := by
  rw [window_skip, window, ← take_slice _ _ _ _ hn, List.take_append_drop]

/-! ### Loading -/

/-- What loading does: nothing without data, otherwise the data is appended, in front of the old end
or after a packing. -/
theorem load_cases {d d' : Dstf} {src : List UInt8} (h : d.load src = some d') :
    (src = [] ∧ d' = d) ∨
    (src ≠ [] ∧ src.length ≤ d.sqMaxlen - (d.sqLen + d.sqOffs) ∧
      d' = { d with sq := blit d.sq (d.sqOffs + d.sqLen) src, sqLen := d.sqLen + src.length }) ∨
    (src ≠ [] ∧ src.length ≤ d.sqMaxlen - d.sqLen ∧
      d' = { d with
        sq := blit (memcpyOverlap d.sq 0 d.sqOffs d.sqLen) d.sqLen src,
        sqOffs := 0, sqLen := d.sqLen + src.length }) := by
  unfold load at h
  dsimp only at h
  by_cases hs : src.length > 0
  · have hne : src ≠ [] := List.ne_nil_of_length_pos hs
    rw [if_pos hs] at h
    by_cases htot : src.length > d.sqMaxlen - d.sqLen
    · rw [if_pos htot] at h
      cases h
    · rw [if_neg htot] at h
      by_cases hq : src.length > d.sqMaxlen - (d.sqLen + d.sqOffs)
      · right; right
        simp only [if_pos hq, Nat.zero_add, Option.some.injEq] at h
        exact ⟨hne, by omega, h.symm⟩
      · right; left
        simp only [if_neg hq, Option.some.injEq] at h
        exact ⟨hne, by omega, h.symm⟩
  · left
    have hnil : src = [] := List.length_eq_zero_iff.mp (by omega)
    simp [hnil] at h
    exact ⟨hnil, h.symm⟩

/-- Loading fails exactly when the data does not fit behind the stored data. -/
theorem load_eq_none_iff {d : Dstf} {src : List UInt8} :
    d.load src = none ↔ src ≠ [] ∧ d.sqMaxlen - d.sqLen < src.length := by
  unfold load
  dsimp only
  by_cases hs : src.length > 0
  · have hne : src ≠ [] := List.ne_nil_of_length_pos hs
    rw [if_pos hs]
    by_cases htot : src.length > d.sqMaxlen - d.sqLen
    · rw [if_pos htot]
      exact ⟨fun _ => ⟨hne, htot⟩, fun _ => rfl⟩
    · rw [if_neg htot]
      exact ⟨fun h => absurd h (by simp), fun h => absurd h.2 htot⟩
  · have hnil : src = [] := List.length_eq_zero_iff.mp (by omega)
    simp [hnil]

theorem load_nil (d : Dstf) : d.load [] = some d := by simp [load]

theorem load_sqMaxlen {d d' : Dstf} {src : List UInt8} (h : d.load src = some d') :
    d'.sqMaxlen = d.sqMaxlen := by
  obtain ⟨-, rfl⟩ | ⟨-, -, rfl⟩ | ⟨-, -, rfl⟩ := load_cases h <;> rfl

theorem load_sqLen {d d' : Dstf} {src : List UInt8} (h : d.load src = some d') :
    d'.sqLen = d.sqLen + src.length := by
  obtain ⟨rfl, rfl⟩ | ⟨-, -, rfl⟩ | ⟨-, -, rfl⟩ := load_cases h <;> rfl

theorem load_fits {d d' : Dstf} {src : List UInt8} (hf : d.Fits) (h : d.load src = some d') :
    d'.Fits := by
  unfold Fits at *
  obtain ⟨-, rfl⟩ | ⟨-, hlen, rfl⟩ | ⟨-, hlen, rfl⟩ := load_cases h
  · exact hf
  · dsimp only; omega
  · dsimp only; omega

/-- **Loading appends the data to the window**, packed or not. -/
theorem load_window {d d' : Dstf} {src : List UInt8} (h : d.load src = some d') :
    d'.window = d.window ++ src := by
  obtain ⟨rfl, rfl⟩ | ⟨-, -, rfl⟩ | ⟨-, -, rfl⟩ := load_cases h
  · simp
  · simp only [window]
    rw [← slice_append, slice_blit_of_disjoint (Or.inl le_rfl), slice_blit]
  · simp only [window]
    rw [← slice_append, slice_blit_of_disjoint (Or.inl (by omega)), Nat.zero_add, slice_blit]
    congr 1
    exact slice_congr fun i hi => memcpyOverlap_add (Nat.zero_le _) hi

/-! ## The DHAV checking loop -/

/-- `d'` is `d` after the loop discarded garbage at its head, one byte at a time. -/
inductive Passed : Dstf → Dstf → Prop
  | refl (d : Dstf) : Passed d d
  | step {d d' : Dstf} : d.check = .garbage → Passed (d.skip 1) d' → Passed d d'

theorem Passed.trans {d d' d'' : Dstf} (h : Passed d d') (h' : Passed d' d'') : Passed d d'' := by
  induction h with
  | refl => exact h'
  | step hg _ ih => exact .step hg (ih h')

theorem sqLen_of_check {d : Dstf} {c : Check} (hc : d.check = c) (hne : c ≠ .short) :
    16 ≤ d.sqLen := by
  by_contra hlt
  exact hne (hc.symm.trans (if_pos (by omega)))

theorem check_ne_short_of_sqLen {d : Dstf} (h : 16 ≤ d.sqLen) : d.check ≠ .short := by
  rw [check, if_neg (by omega)]
  split_ifs <;> decide

theorem check_garbage_of_no_header {d : Dstf} (hlen : 16 ≤ d.sqLen) (hh : ¬ d.hasHeader) :
    d.check = .garbage := by
  rw [check, if_neg (by omega), if_neg hh]

theorem Passed.exists_skip {d d' : Dstf} (h : Passed d d') : ∃ n ≤ d.sqLen, d' = d.skip n := by
  induction h with
  | refl d => exact ⟨0, Nat.zero_le _, rfl⟩
  | @step d d' hg _ ih =>
    obtain ⟨n, hn, rfl⟩ := ih
    have hlen := sqLen_of_check hg nofun
    refine ⟨1 + n, ?_, skip_skip d 1 n⟩
    rw [skip_sqLen] at hn
    omega

theorem Passed.fits {d d' : Dstf} (h : Passed d d') (hf : d.Fits) : d'.Fits := by
  obtain ⟨n, hn, rfl⟩ := h.exists_skip
  exact skip_fits hf hn

theorem Passed.sqLen_le {d d' : Dstf} (h : Passed d d') : d'.sqLen ≤ d.sqLen := by
  obtain ⟨n, -, rfl⟩ := h.exists_skip
  rw [skip_sqLen]
  omega

theorem Passed.sqMaxlen {d d' : Dstf} (h : Passed d d') : d'.sqMaxlen = d.sqMaxlen := by
  obtain ⟨n, -, rfl⟩ := h.exists_skip
  rfl

theorem skipToHeader_passed (fuel : ℕ) (d : Dstf) : Passed d (skipToHeader fuel d) := by
  induction fuel generalizing d with
  | zero => exact .refl d
  | succ fuel ih =>
    unfold skipToHeader
    split_ifs with h
    · exact .step (check_garbage_of_no_header h.1 h.2) (ih _)
    · exact .refl d

/-- With enough fuel the inner loop stops by its own condition. -/
theorem skipToHeader_stop {fuel : ℕ} {d : Dstf} (h : d.sqLen ≤ fuel) :
    (skipToHeader fuel d).sqLen < 16 ∨ (skipToHeader fuel d).hasHeader := by
  induction fuel generalizing d with
  | zero => exact Or.inl (by rw [skipToHeader]; omega)
  | succ fuel ih =>
    unfold skipToHeader
    split_ifs with hc
    · exact ih (by rw [skip_sqLen]; omega)
    · rw [not_and_or, not_not] at hc
      exact hc.imp_left (by omega)

/-- How the checking loop ends. -/
inductive Scanned (d : Dstf) : Option ℤ × Dstf → Prop
  | short : d.check = .short → Scanned d (some 0, d)
  | wait {d' : Dstf} : Passed d d' → d'.check = .wait → Scanned d (some 0, d')
  | drained {d' : Dstf} : Passed d d' → d'.check = .short → d'.sqLen < d.sqLen →
      Scanned d (some 3, d')
  | frame {d' : Dstf} : Passed d d' → d'.check = .frame → Scanned d (none, d')

theorem Scanned.step {d d₁ : Dstf} (hp : Passed d d₁) (hlt : d₁.sqLen < d.sqLen)
    (hlen : 16 ≤ d₁.sqLen) {out : Option ℤ × Dstf} (h : Scanned d₁ out) : Scanned d out := by
  cases h with
  | short hs => exact absurd hs (check_ne_short_of_sqLen hlen)
  | wait hp' hc => exact .wait (hp.trans hp') hc
  | drained hp' hc hl => exact .drained (hp.trans hp') hc (by omega)
  | frame hp' hc => exact .frame (hp.trans hp') hc

/-- **The checking loop ends** within `sq_len + 1` turns, in one of four ways. -/
theorem checkLoop_spec {fuel : ℕ} {d : Dstf} (h : d.sqLen < fuel) :
    Scanned d (checkLoop fuel d) := by
  induction fuel generalizing d with
  | zero => omega
  | succ fuel ih =>
    unfold checkLoop
    cases hc : d.check with
    | short => exact .short hc
    | wait => exact .wait (.refl d) hc
    | frame => exact .frame (.refl d) hc
    | garbage =>
      have hlen := sqLen_of_check hc nofun
      have hp : Passed d (skipToHeader d.sqLen (d.skip 1)) := .step hc (skipToHeader_passed _ _)
      have hlt : (skipToHeader d.sqLen (d.skip 1)).sqLen < d.sqLen := by
        obtain ⟨n, -, hn⟩ := (skipToHeader_passed d.sqLen (d.skip 1)).exists_skip
        rw [hn, skip_sqLen, skip_sqLen]
        omega
      dsimp only
      split_ifs with h16
      · exact .drained hp (if_pos h16) hlt
      · exact (ih (by omega)).step hp hlt (by omega)

end Dstf

/-! ## One call -/

open Dstf

/-- What one call of the DHAV routine does. -/
inductive DhavCall (d : Dstf) (src : List UInt8) (maxDstLen : ℕ) : StfOut → Prop
  | full : d.load src = none → DhavCall d src maxDstLen ⟨-1, [], d⟩
  | more {l d' : Dstf} {r : ℤ} : d.load src = some l → Scanned l (some r, d') →
      DhavCall d src maxDstLen ⟨r, [], d'⟩
  | refused {l d' : Dstf} : d.load src = some l → Passed l d' → d'.check = .frame →
      maxDstLen < d'.repLen → DhavCall d src maxDstLen ⟨-3, [], d'⟩
  | frame {l d' : Dstf} : d.load src = some l → Passed l d' → d'.check = .frame →
      d'.repLen ≤ maxDstLen →
      DhavCall d src maxDstLen ⟨1, slice d'.sq d'.sqOffs d'.repLen, d'.skip d'.repLen⟩

theorem dhav_call (d : Dstf) (src : List UInt8) (maxDstLen : ℕ) :
    DhavCall d src maxDstLen (dstfProcessDhavStreamToFrames d src maxDstLen) := by
  unfold dstfProcessDhavStreamToFrames
  cases hl : d.load src with
  | none => exact .full hl
  | some l =>
    dsimp only
    have hs := checkLoop_spec (Nat.lt_succ_self l.sqLen)
    rcases hc : checkLoop (l.sqLen + 1) l with ⟨_ | r, d'⟩
    · rw [Nat.succ_eq_add_one, hc] at hs
      cases hs with
      | frame hp hf =>
        dsimp only
        split_ifs with hm
        · exact .refused hl hp hf hm
        · exact .frame hl hp hf (by omega)
    · rw [Nat.succ_eq_add_one, hc] at hs
      exact .more hl hs

/-- A call that can load its data. -/
theorem DhavCall.of_load {d l : Dstf} {src : List UInt8} {maxDstLen : ℕ} {o : StfOut}
    (h : DhavCall d src maxDstLen o) (hl : d.load src = some l) :
    (∃ r d', Scanned l (some r, d') ∧ o = ⟨r, [], d'⟩) ∨
      ∃ d', Passed l d' ∧ d'.check = .frame ∧
        (maxDstLen < d'.repLen ∧ o = ⟨-3, [], d'⟩ ∨
          d'.repLen ≤ maxDstLen ∧
            o = ⟨1, slice d'.sq d'.sqOffs d'.repLen, d'.skip d'.repLen⟩) := by
  cases h with
  | full h' =>
    rw [hl] at h'
    cases h'
  | more h' hs =>
    obtain rfl := Option.some.inj (hl.symm.trans h')
    exact .inl ⟨_, _, hs, rfl⟩
  | refused h' hp hf hm =>
    obtain rfl := Option.some.inj (hl.symm.trans h')
    exact .inr ⟨_, hp, hf, .inl ⟨hm, rfl⟩⟩
  | frame h' hp hf hm =>
    obtain rfl := Option.some.inj (hl.symm.trans h')
    exact .inr ⟨_, hp, hf, .inr ⟨hm, rfl⟩⟩

/-- The advertised length of a frame at the head lies in the window. -/
theorem Dstf.repLen_le_of_check_frame {d : Dstf} (h : d.check = .frame) : d.repLen ≤ d.sqLen := by
  unfold check at h
  split_ifs at h
  omega

/-! ### Raw H.264 -/

/-- A start code `00 00 01` at index `i`. -/
def NALAt (src : ℕ → UInt8) (i : ℕ) : Prop := src i = 0x00 ∧ src (i + 1) = 0x00 ∧ src (i + 2) = 0x01

theorem searchNALFrom_eq_some {src : ℕ → UInt8} {i n k : ℕ} (h : searchNALFrom src i n = some k) :
    i ≤ k ∧ k < i + n ∧ NALAt src k ∧ ∀ j, i ≤ j → j < k → ¬ NALAt src j := by
  induction n generalizing i with
  | zero => cases h
  | succ n ih =>
    unfold searchNALFrom at h
    split_ifs at h with hc
    · cases h
      exact ⟨le_rfl, by omega, hc, fun j h1 h2 => by omega⟩
    · obtain ⟨h1, h2, h3, h4⟩ := ih h
      refine ⟨by omega, by omega, h3, ?_⟩
      intro j hj1 hj2
      rcases Nat.eq_or_lt_of_le hj1 with rfl | hlt
      · exact hc
      · exact h4 j hlt hj2

theorem searchNALFrom_eq_none {src : ℕ → UInt8} {i n : ℕ} :
    searchNALFrom src i n = none ↔ ∀ j, i ≤ j → j < i + n → ¬ NALAt src j := by
  induction n generalizing i with
  | zero => exact ⟨fun _ j h1 h2 => by omega, fun _ => rfl⟩
  | succ n ih =>
    rw [searchNALFrom, forall_between_succ, ← ih]
    split_ifs with hc
    · exact iff_of_false nofun fun h => h.1 hc
    · exact (and_iff_right hc).symm

/-- The search finds the first start code. -/
theorem searchMpegNAL_eq_some {src : ℕ → UInt8} {len k : ℕ} (h : searchMpegNAL src len = some k) :
    k + 2 < len ∧ NALAt src k ∧ ∀ j < k, ¬ NALAt src j := by
  obtain ⟨-, h2, h3, h4⟩ := searchNALFrom_eq_some h
  exact ⟨by omega, h3, fun j hj => h4 j (Nat.zero_le _) hj⟩

theorem searchMpegNAL_eq_none {src : ℕ → UInt8} {len : ℕ} :
    searchMpegNAL src len = none ↔ ∀ j, j + 2 < len → ¬ NALAt src j := by
  unfold searchMpegNAL
  rw [searchNALFrom_eq_none]
  exact ⟨fun h j hj => h j (Nat.zero_le _) (by omega), fun h j _ hj => h j (by omega)⟩

theorem searchMpegNAL_zero {src : ℕ → UInt8} {len : ℕ} (h : NALAt src 0) (hlen : 2 < len) :
    searchMpegNAL src len = some 0 := by
  obtain ⟨n, hn⟩ : ∃ n, len - 2 = n + 1 := ⟨len - 3, by omega⟩
  rw [searchMpegNAL, hn]
  exact if_pos h

namespace Dstf

/-- A unit starts at the head of the queue, with 8 bytes there. -/
def AtUnit (d : Dstf) : Prop := 8 ≤ d.sqLen ∧ NALAt (fun i => d.sq (d.sqOffs + i)) 0

/-- The length of the unit at the head, when the next start code is there. -/
def unitLen (d : Dstf) : Option ℕ :=
  (searchMpegNAL (fun i => d.sq (d.sqOffs + 4 + i)) (d.sqLen - 4)).map (· + 4)

theorem unitLen_bounds {d : Dstf} {n : ℕ} (h : d.unitLen = some n) : 4 ≤ n ∧ n + 2 < d.sqLen := by
  obtain ⟨k, hk, rfl⟩ := Option.map_eq_some_iff.mp h
  have := (searchMpegNAL_eq_some hk).1
  omega

end Dstf

/-- What one call of the raw H.264 routine does. -/
inductive RawCall (d : Dstf) (src : List UInt8) (maxDstLen : ℕ) : StfOut → Prop
  | full : d.load src = none → RawCall d src maxDstLen ⟨-1, [], d⟩
  | few {l : Dstf} {n : ℕ} : d.load src = some l → n ≤ l.sqLen → (l.skip n).sqLen < 8 →
      RawCall d src maxDstLen ⟨0, [], l.skip n⟩
  | wait {l : Dstf} {n : ℕ} : d.load src = some l → n ≤ l.sqLen → (l.skip n).AtUnit →
      (l.skip n).unitLen = none → RawCall d src maxDstLen ⟨0, [], l.skip n⟩
  | refused {l : Dstf} {n frameLen : ℕ} : d.load src = some l → n ≤ l.sqLen → (l.skip n).AtUnit →
      (l.skip n).unitLen = some frameLen → maxDstLen < frameLen →
      RawCall d src maxDstLen ⟨-3, [], l.skip n⟩
  | frame {l : Dstf} {n frameLen : ℕ} : d.load src = some l → n ≤ l.sqLen → (l.skip n).AtUnit →
      (l.skip n).unitLen = some frameLen → frameLen ≤ maxDstLen →
      RawCall d src maxDstLen
        ⟨1, slice (l.skip n).sq (l.skip n).sqOffs frameLen, (l.skip n).skip frameLen⟩

theorem raw_call (d : Dstf) (src : List UInt8) (maxDstLen : ℕ) :
    RawCall d src maxDstLen (dstfProcessRawH264StreamToFrames d src maxDstLen) := by
  unfold dstfProcessRawH264StreamToFrames
  cases hl : d.load src with
  | none => exact .full hl
  | some l =>
    dsimp only
    split_ifs with h8
    · exact .few (n := 0) hl (Nat.zero_le _) h8
    · cases hs : searchMpegNAL (fun i => l.sq (l.sqOffs + i)) l.sqLen with
      | none => exact .few hl le_rfl (by rw [skip_sqLen]; omega)
      | some n =>
        obtain ⟨hn, hNAL, -⟩ := searchMpegNAL_eq_some hs
        have hskip : (if n ≠ 0 then l.skip n else l) = l.skip n := by
          split_ifs with h0
          · rfl
          · rw [not_not] at h0
            rw [h0, skip_zero]
        dsimp only
        rw [hskip]
        have hle : n ≤ l.sqLen := by omega
        split_ifs with h8'
        · exact .few hl hle h8'
        · have hu : (l.skip n).AtUnit := by
            refine ⟨by omega, ?_⟩
            unfold NALAt at hNAL ⊢
            simpa [Nat.add_assoc] using hNAL
          cases hs2 : searchMpegNAL (fun i => (l.skip n).sq ((l.skip n).sqOffs + 4 + i))
              ((l.skip n).sqLen - 4) with
          | none => exact .wait hl hle hu (by rw [unitLen, hs2]; rfl)
          | some k =>
            have hk : (l.skip n).unitLen = some (k + 4) := by rw [unitLen, hs2]; rfl
            dsimp only
            split_ifs with hm
            · exact .refused hl hle hu hk hm
            · exact .frame hl hle hu hk (by omega)

end TaniDVR
