import TaniDVR.Identify
import TaniDVR.Mkv
import TaniDVR.TsProc

/-!
# Conversion — what the loops do with each frame

`process_dhav_stream` and `stream_media_dvr_to_file` hand each frame of the queue to the parser
(whose result they ignore), the corrector and the writer.  `convertFrame` is one frame,
`convertFrames` all of them; a frame is the memory at `sbuf` and `sbuf_len`, for the buffer goes on
after the frame.

`convertFrame_eq` and `convertFrame_error` give a step by its three calls.
-/

namespace TaniDVR

open Lib

/-- What the loops keep between frames. -/
structure Conversion where
  mc : McParms
  tsc : TsProc
  mainMkvHeaderPending : Bool

/-- Before the first frame. -/
def Conversion.start (heap : McParms) (tscHeap : TsProc) (ntscExact60hz : Bool) : Conversion :=
  ⟨mcInit heap ntscExact60hz, dtTsprocInit tscHeap, true⟩

/-- The parser of the input format. -/
def collectFrameInfo (mcFormatIn : McFormat) : McParms → Mem → ℕ → Except Fault (ℤ × McParms) :=
  if mcFormatIn = .dhav then dtCollectDhavFrameInfo else dtCollectRawH264FrameInfo

/-- The corrector and "override with fixed timestamp", when asked for and the input is DHAV. -/
def correctTimestamp (mcFormatIn : McFormat) (tsproc : Bool) (tsc : TsProc) (mc : McParms) :
    Except Fault (TsProc × McParms) :=
  if tsproc = true ∧ mcFormatIn = .dhav then do
    let (_, tsc) ← dtTsprocProcess tsc mc
    return (tsc, { mc with vTimestamp := tsc.vTimestamp })
  else .ok (tsc, mc)

/-- The codec of the input format. -/
def codecOf (mcFormatIn : McFormat) : MCodec :=
  if mcFormatIn = .dhav then .mpeg4IsoAvc else .mpeg4IsoAsp

/-- One frame, with `sbuf_len > 0`. -/
def convertFrame (mcFormatIn : McFormat) (tsproc : Bool) (maxDstLen : ℕ) (st : Conversion) (src : Mem)
    (srcLen : ℕ) : Except Fault (Conversion × Converted) := do
  let (_, mc) ← collectFrameInfo mcFormatIn st.mc src srcLen
  let (tsc, mc) ← correctTimestamp mcFormatIn tsproc st.tsc mc
  let out ← dtConvertFrameToMkv mc src srcLen maxDstLen st.mainMkvHeaderPending (codecOf mcFormatIn)
  return (⟨mc, tsc, if out.ret = 0 then false else st.mainMkvHeaderPending⟩, out)

/-- A list of frames; for each, the parameters it was written with and the output. -/
def convertFrames (mcFormatIn : McFormat) (tsproc : Bool) (maxDstLen : ℕ) (st : Conversion) :
    List (Mem × ℕ) → Except Fault (List (McParms × Converted))
  | [] => .ok []
  | (src, srcLen) :: frames => do
    let (st, out) ← convertFrame mcFormatIn tsproc maxDstLen st src srcLen
    let outs ← convertFrames mcFormatIn tsproc maxDstLen st frames
    return (st.mc, out) :: outs

/-- What is written to the output file. -/
def outfile (outs : List (McParms × Converted)) : List UInt8 :=
  outs.flatMap fun o => o.2.dst.take o.2.dstLen

/-- How a run ended, if not well. -/
def faultOf {α : Type} : Except Fault α → Option Fault
  | .error e => some e
  | .ok _ => none

/-! ### A step by its calls -/

variable {fmt : McFormat} {tsproc : Bool} {maxDstLen : ℕ} {st : Conversion} {src : Mem} {srcLen : ℕ}
  {r : ℤ} {mc mc' : McParms} {tsc : TsProc} {out : Converted} {e : Fault}

theorem convertFrame_eq (hc : collectFrameInfo fmt st.mc src srcLen = .ok (r, mc))
    (ht : correctTimestamp fmt tsproc st.tsc mc = .ok (tsc, mc'))
    (ho : dtConvertFrameToMkv mc' src srcLen maxDstLen st.mainMkvHeaderPending (codecOf fmt) = .ok out) :
    convertFrame fmt tsproc maxDstLen st src srcLen =
      .ok (⟨mc', tsc, if out.ret = 0 then false else st.mainMkvHeaderPending⟩, out) := by
  simp only [convertFrame, hc, bind, Except.bind, ht, ho]
  rfl

theorem convertFrame_error (hc : collectFrameInfo fmt st.mc src srcLen = .error e) :
    convertFrame fmt tsproc maxDstLen st src srcLen = .error e := by
  simp only [convertFrame, hc, bind, Except.bind]

theorem convertFrame_error' (hc : collectFrameInfo fmt st.mc src srcLen = .ok (r, mc))
    (ht : correctTimestamp fmt tsproc st.tsc mc = .error e) :
    convertFrame fmt tsproc maxDstLen st src srcLen = .error e := by
  simp only [convertFrame, hc, bind, Except.bind, ht]

theorem convertFrame_error'' (hc : collectFrameInfo fmt st.mc src srcLen = .ok (r, mc))
    (ht : correctTimestamp fmt tsproc st.tsc mc = .ok (tsc, mc'))
    (ho : dtConvertFrameToMkv mc' src srcLen maxDstLen st.mainMkvHeaderPending (codecOf fmt) =
      .error e) :
    convertFrame fmt tsproc maxDstLen st src srcLen = .error e := by
  simp only [convertFrame, hc, bind, Except.bind, ht, ho]

/-- The corrector's step, as `dtTsprocProcess_cases` has it; only the time of the frame changes. -/
theorem correctTimestamp_cases (fmt : McFormat) (tsproc : Bool) (tsc : TsProc) (mc : McParms) :
    ((tsproc = true ∧ fmt = .dhav) ∧ Usable mc ∧ tsc.vFirstFrame = false ∧ mc.dhavFps = 0 ∧
      correctTimestamp fmt tsproc tsc mc = .error .divZero) ∨
    (¬ ((tsproc = true ∧ fmt = .dhav) ∧ Usable mc ∧ tsc.vFirstFrame = false ∧ mc.dhavFps = 0) ∧
      ∃ tsc' t, correctTimestamp fmt tsproc tsc mc = .ok (tsc', { mc with vTimestamp := t }) ∧
        (¬ Usable mc → tsc' = tsc) ∧
        (¬ (tsproc = true ∧ fmt = .dhav) → tsc' = tsc ∧ t = mc.vTimestamp) ∧
        (tsproc = true ∧ fmt = .dhav → t = tsc'.vTimestamp ∧
          (Usable mc → tsc'.vFirstFrame = false ∧ t < 2 ^ 64))) := by
  unfold correctTimestamp
  by_cases ht : tsproc = true ∧ fmt = .dhav
  swap
  · rw [if_neg ht]
    exact .inr ⟨fun h => ht h.1, tsc, mc.vTimestamp, rfl, fun _ => rfl, fun _ => ⟨rfl, rfl⟩,
      fun h => absurd h ht⟩
  rw [if_pos ht]
  rcases dtTsprocProcess_cases tsc mc with ⟨hu, hf, hfps, he⟩ | ⟨hn, r, tsc', he, hskip, huse⟩
  · refine .inl ⟨ht, hu, hf, hfps, ?_⟩
    rw [he]
    rfl
  · refine .inr ⟨fun h => hn h.2, tsc', tsc'.vTimestamp, ?_, hskip, fun h => absurd ht h,
      fun _ => ⟨rfl, huse⟩⟩
    rw [he]
    rfl

end TaniDVR
