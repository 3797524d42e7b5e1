import TaniDVR.Lib.Machine
import TaniDVR.Ledger

/-!
# StreamLoop — the read-and-convert loops of `dhav2mkv` and `tanidvr`

`process_dhav_stream` and `stream_media_dvr_to_file` first append what they read to the queue until
the container format is known (`identifyLoop`), and then push one read and call the stream routine
with no new data while its result is positive.  `StreamLoop.step` is one such call; `reads` is the
input still to come and `frames` what the routine handed to the conversion.

The conversion and the output can only make a loop stop early; here it runs on to the end of the
input.

* `drain_ends_iff`: a call without new data that returns a positive value takes bytes off the queue,
  except at a frame of declared length 0 (`ZeroFrame`), where the loop never ends.
-/

namespace TaniDVR

open Lib Dstf

/-- The two programs that run the loop. -/
inductive Program
  | dhav2mkv | tanidvr
  deriving DecidableEq, Repr

namespace Program

/-- `STREAM_IN_FREAD_GRANULARITY`, `STREAM_BUFFER_MAXPIPEREAD`: the longest read. -/
def granularity : Program → ℕ
  | dhav2mkv => 10000
  | tanidvr => 250000

/-- `STREAM_IN_BUFFER_LEN`, `STREAM_BUFFER_LEN`: the `max_dst_len` passed to the stream routine. -/
def maxDstLen : Program → ℕ
  | dhav2mkv => 2000000
  | tanidvr => 1000000

end Program

/-- The loop between two calls of the stream routine. -/
structure StreamLoop where
  dstf : Dstf
  dstfRet : ℤ
  reads : List (List UInt8)
  frames : List (List UInt8)

namespace StreamLoop

/-- Before the first read; `dstf_ret = 0`. -/
def start (d : Dstf) (reads : List (List UInt8)) : StreamLoop := ⟨d, 0, reads, []⟩

/-- One call of the stream routine; a frame is handed on when `sbuf_len > 0`. -/
def call (f : McFormat) (maxDstLen : ℕ) (s : StreamLoop) (src : List UInt8) : StreamLoop :=
  let o := streamToFrames f s.dstf src maxDstLen
  { s with
    dstf := o.dstf
    dstfRet := o.ret
    frames := if o.dst.length > 0 then s.frames ++ [o.dst] else s.frames }

/-- The next call: without new data while `dstf_ret > 0`, otherwise with the next read; the loop is
left after a negative result and at the end of the input. -/
def step (f : McFormat) (maxDstLen : ℕ) (s : StreamLoop) : Option StreamLoop :=
  if s.dstfRet > 0 then some (s.call f maxDstLen [])
  else if s.dstfRet < 0 then none
  else
    match s.reads with
    | [] => none
    | c :: cs => some ({ s with reads := cs }.call f maxDstLen c)

end StreamLoop

/-- The identification loop: append a read to the queue, look at everything stored, stop at the
first answer or when less than `2 * granularity` bytes are free. -/
def identifyLoop (granularity : ℕ) (d : Dstf) :
    List (List UInt8) → Dstf × McFormat × List (List UInt8)
  | [] => (d, .dvrUnknown, [])
  | c :: cs =>
    if d.sqMaxlen - d.sqLen ≥ 2 * granularity then
      if c.length > 0 then
        let d := { d with sq := blit d.sq (d.sqOffs + d.sqLen) c, sqLen := d.sqLen + c.length }
        let fmt := identifyMcFormat (fun i => d.sq (d.sqOffs + i)) d.sqLen
        if fmt ≠ .dvrUnknown then (d, fmt, cs) else identifyLoop granularity d cs
      else identifyLoop granularity d cs
    else (d, .dvrUnknown, c :: cs)

/-- The input format and the loop as they stand after identification; an unknown stream is taken
for DHAV. -/
def streamStart (p : Program) (d : Dstf) (reads : List (List UInt8)) : McFormat × StreamLoop :=
  let (d, fmt, rest) := identifyLoop p.granularity d reads
  (if fmt = .dvrUnknown then .dhav else fmt, .start d rest)

/-! ### One call -/

namespace Dstf

/-- The queue is left with less than the routine looks at. -/
def Short (f : McFormat) (d : Dstf) : Prop := d.sqLen < if f = .dhav then 16 else 8

/-- The queue is left with a frame whose end is not there yet: a DHAV header whose advertised length
is not reached, a start code without a next one. -/
def Waiting (f : McFormat) (d : Dstf) : Prop :=
  if f = .dhav then d.check = .wait else d.AtUnit ∧ d.unitLen = none

/-- A `DHAV` header with length field 0 at the head of the window, right after `dhav` and a length
field 0. -/
structure ZeroFrame (f : McFormat) (d : Dstf) : Prop where
  dhav : f = .dhav
  len : 16 ≤ d.sqLen
  header : d.hasHeader = true
  repLen : d.repLen = 0
  trailer : d.hasTrailer = true
  rep2Len : d.rep2Len = 0

theorem check_frame_iff {d : Dstf} : d.check = .frame ↔ 16 ≤ d.sqLen ∧ d.hasHeader = true ∧
    d.repLen ≤ d.sqMaxlen ∧ d.repLen ≤ d.sqLen ∧ d.hasTrailer = true ∧ d.rep2Len = d.repLen := by
  unfold check
  split_ifs with h1 h2 h3 h4 h5 h6 <;> simp_all

theorem check_wait_iff {d : Dstf} : d.check = .wait ↔ 16 ≤ d.sqLen ∧ d.hasHeader = true ∧
    d.repLen ≤ d.sqMaxlen ∧ d.sqLen < d.repLen := by
  unfold check
  split_ifs with h1 h2 h3 h4 h5 h6 <;> simp_all

theorem zeroFrame_iff {d : Dstf} : ZeroFrame .dhav d ↔ d.check = .frame ∧ d.repLen = 0 := by
  rw [check_frame_iff]
  constructor
  · intro h
    exact ⟨⟨h.len, h.header, by rw [h.repLen]; omega, by rw [h.repLen]; omega, h.trailer,
      h.rep2Len.trans h.repLen.symm⟩, h.repLen⟩
  · rintro ⟨⟨h1, h2, -, -, h3, h4⟩, h0⟩
    exact ⟨rfl, h1, h2, h0, h3, h4.trans h0⟩

end Dstf

variable {f : McFormat} {d : Dstf} {src : List UInt8} {m : ℕ}

/-- -1 is the answer to data that does not fit, and to nothing else. -/
theorem ret_full_iff (hf : d.Fits) :
    (streamToFrames f d src m).ret = -1 ↔ src ≠ [] ∧ d.sqMaxlen - d.sqLen < src.length := by
  rw [← load_eq_none_iff]
  constructor
  · have hb := call_books f hf src m
    intro hr
    generalize streamToFrames f d src m = o at hb hr
    cases hb with
    | full h => exact h
    | kept _ h => simp only at hr; omega
    | refused => simp at hr
    | emitted => simp at hr
  · intro h
    by_cases hd : f = .dhav
    · subst hd
      rw [streamToFrames_dhav, dstfProcessDhavStreamToFrames, h]
    · rw [streamToFrames_of_ne hd, dstfProcessRawH264StreamToFrames, h]

/-- After the result 0 the queue is short or waiting. -/
theorem ret_zero_cases (h : (streamToFrames f d src m).ret = 0) :
    Short f (streamToFrames f d src m).dstf ∨ Waiting f (streamToFrames f d src m).dstf := by
  unfold Short Waiting
  by_cases hd : f = .dhav
  · subst hd
    rw [streamToFrames_dhav] at h ⊢
    have hc := dhav_call d src m
    generalize dstfProcessDhavStreamToFrames d src m = o at hc h
    cases hc with
    | full => simp at h
    | @more l d' r _ hs =>
      cases hs with
      | short hs =>
        left
        by_contra hlt
        simp only [if_true] at hlt
        exact check_ne_short_of_sqLen (by omega) hs
      | wait _ hw => exact Or.inr hw
      | drained => simp at h
    | refused => simp at h
    | frame => simp at h
  · rw [streamToFrames_of_ne hd] at h ⊢
    rw [if_neg hd, if_neg hd]
    have hc := raw_call d src m
    generalize dstfProcessRawH264StreamToFrames d src m = o at hc h
    cases hc with
    | full => simp at h
    | few _ _ h8 => exact Or.inl h8
    | wait _ _ hu hn => exact Or.inr ⟨hu, hn⟩
    | refused => simp at h
    | frame => simp at h

/-- **Progress**: a call without new data that returns a positive value takes bytes off the queue,
unless a zero-length frame stands at its head. -/
theorem drain_decreases (hr : 0 < (streamToFrames f d [] m).ret) (hz : ¬ ZeroFrame f d) :
    (streamToFrames f d [] m).dstf.sqLen < d.sqLen := by
  by_cases hd : f = .dhav
  · subst hd
    rw [streamToFrames_dhav] at hr ⊢
    have hc := dhav_call d [] m
    generalize dstfProcessDhavStreamToFrames d [] m = o at hc hr
    rcases hc.of_load (load_nil d) with ⟨r, d', hs, rfl⟩ | ⟨d', hp, hf, ⟨-, rfl⟩ | ⟨-, rfl⟩⟩
    · cases hs with
      | short => simp at hr
      | wait => simp at hr
      | drained _ _ hlt => exact hlt
    · simp at hr
    · have hle := repLen_le_of_check_frame hf
      have hlen := hp.sqLen_le
      dsimp only
      rw [skip_sqLen]
      by_cases h0 : d'.repLen = 0
      · -- only a skipped byte can make up for a frame of no bytes
        cases hp with
        | refl => exact absurd (zeroFrame_iff.mpr ⟨hf, h0⟩) hz
        | step hg hp =>
          have h16 := sqLen_of_check hg nofun
          have := hp.sqLen_le
          rw [skip_sqLen] at this
          omega
      · omega
  · rw [streamToFrames_of_ne hd] at hr ⊢
    have hc := raw_call d [] m
    generalize dstfProcessRawH264StreamToFrames d [] m = o at hc hr
    cases hc with
    | full => simp at hr
    | few => simp at hr
    | wait => simp at hr
    | refused => simp at hr
    | @frame l n k hl hn hu hk _ =>
      rw [load_nil, Option.some.injEq] at hl
      subst hl
      have hb := unitLen_bounds hk
      dsimp only
      rw [skip_sqLen, skip_sqLen] at *
      omega

/-- At a zero-length frame the call returns 1 and changes nothing. -/
theorem zeroFrame_call (hz : ZeroFrame f d) : streamToFrames f d [] m = ⟨1, [], d⟩ := by
  obtain rfl := hz.dhav
  obtain ⟨hc, h0⟩ := zeroFrame_iff.mp hz
  obtain ⟨-, h⟩ := dhav_frameAtHead hc
  rw [h m (by omega), h0]
  rfl

/-! ### The drain loop -/

namespace StreamLoop

@[simp] theorem call_dstf (s : StreamLoop) :
    (s.call f m src).dstf = (streamToFrames f s.dstf src m).dstf := rfl
@[simp] theorem call_dstfRet (s : StreamLoop) :
    (s.call f m src).dstfRet = (streamToFrames f s.dstf src m).ret := rfl
@[simp] theorem call_reads (s : StreamLoop) : (s.call f m src).reads = s.reads := rfl
@[simp] theorem call_frames (s : StreamLoop) : (s.call f m src).frames =
    if (streamToFrames f s.dstf src m).dst.length > 0 then
      s.frames ++ [(streamToFrames f s.dstf src m).dst] else s.frames := rfl

theorem step_of_pos {s : StreamLoop} (h : 0 < s.dstfRet) : s.step f m = some (s.call f m []) :=
  if_pos h

theorem step_of_read {s : StreamLoop} (h : s.dstfRet = 0) {c : List UInt8} {cs : List (List UInt8)}
    (hc : s.reads = c :: cs) : s.step f m = some ({ s with reads := cs }.call f m c) := by
  rw [step, if_neg (by omega), if_neg (by omega), hc]

theorem step_eq_some {s t : StreamLoop} (h : s.step f m = some t) :
    (0 < s.dstfRet ∧ t = s.call f m []) ∨
    (s.dstfRet = 0 ∧ ∃ c cs, s.reads = c :: cs ∧ t = { s with reads := cs }.call f m c) := by
  unfold step at h
  split_ifs at h with h1 h2
  · exact Or.inl ⟨h1, (Option.some.inj h).symm⟩
  · right
    cases hr : s.reads with
    | nil =>
      rw [hr] at h
      cases h
    | cons c cs =>
      rw [hr] at h
      exact ⟨by omega, c, cs, rfl, (Option.some.inj h).symm⟩

/-- The loop is left after a negative result and at the end of the input. -/
theorem step_eq_none {s : StreamLoop} (h : s.step f m = none) :
    s.dstfRet < 0 ∨ (s.dstfRet = 0 ∧ s.reads = []) := by
  unfold step at h
  split_ifs at h with h1 h2
  · exact Or.inl h2
  · cases hr : s.reads with
    | nil => exact Or.inr ⟨by omega, rfl⟩
    | cons c cs =>
      rw [hr] at h
      cases h

theorem not_halts_of_zeroFrame {s : StreamLoop} (hr : 0 < s.dstfRet) (hz : ZeroFrame f s.dstf) :
    ¬ ∃ t, Halts (step f m) s t := by
  refine not_halts (P := fun t => 0 < t.dstfRet ∧ ZeroFrame f t.dstf) (fun t ht => ?_) ⟨hr, hz⟩
  refine ⟨_, step_of_pos ht.1, ?_⟩
  unfold call
  rw [zeroFrame_call ht.2]
  exact ⟨Int.one_pos, ht.2⟩

/-- Reads to come, bytes held, and a pending call: every step uses up one of them. -/
def measure (s : StreamLoop) : ℕ :=
  2 * s.reads.length + s.reads.flatten.length + s.dstf.sqLen + min 1 s.dstfRet.toNat

theorem measure_step {s t : StreamLoop} (hf : s.dstf.Fits)
    (hz : 0 < s.dstfRet → ¬ ZeroFrame f s.dstf) (h : s.step f m = some t) :
    t.measure < s.measure := by
  obtain ⟨hr, rfl⟩ | ⟨hr, c, cs, hc, rfl⟩ := step_eq_some h
  · have hle := (call_books f hf [] m).sqLen_le
    simp only [measure, call_dstf, call_dstfRet, call_reads, List.length_nil] at hle ⊢
    by_cases hr' : 0 < (streamToFrames f s.dstf [] m).ret
    · have := drain_decreases hr' (hz hr)
      omega
    · omega
  · have hle := (call_books f hf c m).sqLen_le
    simp only [measure, call_dstf, call_dstfRet, call_reads, hc, List.length_cons,
      List.flatten_cons, List.length_append] at hle ⊢
    omega

theorem fits_step {s t : StreamLoop} (hf : s.dstf.Fits) (h : s.step f m = some t) :
    t.dstf.Fits := by
  obtain ⟨-, rfl⟩ | ⟨-, c, cs, -, rfl⟩ := step_eq_some h
  · exact (call_books f hf [] m).fits hf
  · exact (call_books f hf c m).fits hf

/-- **The loop** ends exactly when it drains at no zero-length frame. -/
theorem halts_iff {s : StreamLoop} (hf : s.dstf.Fits) :
    (∃ t, Halts (step f m) s t) ↔
      ∀ t, Reach (step f m) s t → 0 < t.dstfRet → ¬ ZeroFrame f t.dstf := by
  constructor
  · rintro ⟨u, hu⟩ t ht hr hz
    exact not_halts_of_zeroFrame hr hz ⟨u, hu.of_reach ht⟩
  · intro hz
    obtain ⟨t, ht, -⟩ := halts_of_measure (P := fun t => Reach (step f m) s t ∧ t.dstf.Fits)
      measure (fun t u ht htu => ⟨⟨ht.1.tail htu, fits_step ht.2 htu⟩,
        measure_step ht.2 (hz t ht.1) htu⟩) ⟨.refl s, hf⟩
    exact ⟨t, ht⟩

end StreamLoop

/-- **Every drain loop makes progress except at a zero-length frame.**  For every queue state that
calls of a stream routine can leave: a call with `src_len = 0` and a positive result makes the queue
shorter exactly when no zero-length frame stands at its head, and the loop of such calls ends
exactly when it meets none. -/
theorem drain_ends_iff (f : McFormat) (sq below : ℕ → UInt8) (cs : List StfCall) (maxDstLen : ℕ) :
    let d := runCalls f (dstfInit sq below) cs
    let o := streamToFrames f d [] maxDstLen
    ((o.ret > 0 → o.dstf.sqLen < d.sqLen) ↔ ¬ ZeroFrame f d) ∧
    ∀ dstfRet frames,
      ((∃ t, Halts (StreamLoop.step f maxDstLen) ⟨d, dstfRet, [], frames⟩ t) ↔
        ∀ t, Reach (StreamLoop.step f maxDstLen) ⟨d, dstfRet, [], frames⟩ t → 0 < t.dstfRet →
          ¬ ZeroFrame f t.dstf) := by
  intro d o
  refine ⟨⟨fun h hz => ?_, fun hz hr => drain_decreases hr hz⟩, fun r fr =>
    StreamLoop.halts_iff (runCalls_fits f cs (dstfInit_fits sq below))⟩
  have ho : o = ⟨1, [], d⟩ := zeroFrame_call hz
  rw [ho] at h
  exact absurd (h Int.one_pos) (lt_irrefl _)

/-- 24 bytes: an end of frame with length 0 and a header with length 0. -/
def zeroFrameStream : List UInt8 :=
  [0x64, 0x68, 0x61, 0x76, 0, 0, 0, 0, 0x44, 0x48, 0x41, 0x56, 0, 0, 0, 0, 0, 0, 0, 0, 0, 0, 0, 0]

/-- After these bytes the drain loop of `dhav2mkv` never ends. -/
theorem drain_stuck :
    let d := runCalls .dhav (dstfInit (fun _ => 0) (fun _ => 0)) [⟨zeroFrameStream, 2000000⟩]
    let o := streamToFrames .dhav d [] 2000000
    ¬ (o.ret > 0 → o.dstf.sqLen < d.sqLen) ∧
    ¬ ∃ t, Halts (StreamLoop.step .dhav 2000000) ⟨d, 1, [], []⟩ t := by
  have hz : ZeroFrame .dhav
      (runCalls .dhav (dstfInit (fun _ => 0) (fun _ => 0)) [⟨zeroFrameStream, 2000000⟩]) :=
    ⟨rfl, by decide, by decide, by decide, by decide, by decide⟩
  refine ⟨fun h => ?_, StreamLoop.not_halts_of_zeroFrame Int.one_pos hz⟩
  rw [zeroFrame_call hz] at h
  exact absurd (h Int.one_pos) (lt_irrefl _)

end TaniDVR
