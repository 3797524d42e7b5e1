import TaniDVR.Conversion
import TaniDVR.FileRun
import TaniDVR.FrameSizes

/-!
# Recorder — the recording loops as a whole

`StreamLoop` is what the loops of `process_dhav_stream` and `stream_media_dvr_to_file` do with the
queue, `Conversion` what they do with one frame.  `Recorder` is the loops themselves: the reads that
fail, the conversion and the write inside the drain loop, the signal flags, and every way out.

`Outside` is what happens around the process.  `Recorder.follows_run`: however a recording is
interrupted, the frames it has processed are those that the stream loop hands on, in order and from
the first one, and the file is their output, cut at most inside the last one.
-/

namespace TaniDVR

open Lib Dstf StreamLoop

/-- `mc_format_out`: `MC_FORM_DVR_NATIVE` or `MC_FORM_MKV`. -/
inductive Container
  | native | mkv
  deriving DecidableEq, Repr

/-- `sht_fl_terminate_nicely`, `sht_fl_sigpipe` and `sht_fl_sigchld`. -/
structure ShtFlags where
  terminateNicely : Bool
  sigpipe : Bool
  sigchld : Bool
  deriving DecidableEq, Repr

/-- The `poll_pipe_read` and `read` of one turn, or its `infile_read`. -/
inductive TurnRead
  | pollFailed  -- a negative result
  | readFailed  -- -1
  | data (bytes : List UInt8)
  deriving DecidableEq, Repr

/-- The data read before the first failure. -/
def readData : List TurnRead → List (List UInt8)
  | .data c :: ins => c :: readData ins
  | _ => []

/-- What happens around the process: how many bytes of a write get to the file before an error, and
the flags at each look.  The handler only sets flags, and `SIGPIPE` is ignored. -/
structure Outside where
  writeError : ℕ → Option ℕ
  flags : ℕ → ShtFlags
  terminate_stays : ∀ n, (flags n).terminateNicely = true → (flags (n + 1)).terminateNicely = true
  sigchld_stays : ∀ n, (flags n).sigchld = true → (flags (n + 1)).sigchld = true
  no_sigpipe : ∀ n, (flags n).sigpipe = false

/-- Nothing happens. -/
def Outside.calm : Outside where
  writeError _ := none
  flags _ := ⟨false, false, false⟩
  terminate_stays _ h := h
  sigchld_stays _ h := h
  no_sigpipe _ := rfl

/-- `outfile_write`: its result, and what gets to the file. -/
def outfileWrite (writeError : Option ℕ) (data : List UInt8) : ℤ × List UInt8 :=
  match writeError with
  | none => (0, data)
  | some n => (-1, data.take n)

/-- Why a recording ends. -/
inductive Ending
  | pollFailed | readFailed | gotTermination | childDied | dstfFailed | dtconvFailed | writeFailed
  | noMoreData
  | crashed (e : Fault)
  deriving DecidableEq, Repr

/-- What a recording is about: the program, its `-m` and `-r`, and the format identified. -/
structure Recording where
  program : Program
  mcFormatOut : Container
  tsproc : Bool
  mcFormatIn : McFormat

/-- The process at the loop, between two calls of the stream routine. -/
structure Recorder where
  dstf : Dstf
  sbuf : ℕ → UInt8
  conv : Conversion
  inputs : List TurnRead
  infreadRet : ℕ
  draining : Bool  -- inside the inner loop, after a positive `dstf_ret`
  dstfRet : ℤ
  dtconvRet : ℤ
  outfwriteRet : ℤ
  writes : ℕ
  looks : ℕ
  outfile : List UInt8
  ended : Option Ending

/-- `STREAM_OUT_BUFFER_LEN`, `STREAM_BUFFER_LEN`: the `max_dst_len` passed to the conversion. -/
def Program.maxMkvLen : Program → ℕ
  | .dhav2mkv => 3000000
  | .tanidvr => 1000000

/-- One frame on its way to the output: in the native format it is written as it is. -/
def frameOut (r : Recording) (conv : Conversion) (src : Mem) (frame : List UInt8) :
    Except Fault (Conversion × ℤ × List UInt8) :=
  match r.mcFormatOut with
  | .native => .ok (conv, 0, frame)
  | .mkv => do
    let (conv, out) ← convertFrame r.mcFormatIn r.tsproc r.program.maxMkvLen conv src frame.length
    return (conv, out.ret, out.dst.take out.dstLen)

namespace Recorder

variable (r : Recording) (w : Outside)

/-- Before the first turn of the loop. -/
def start (d : Dstf) (sbuf : ℕ → UInt8) (conv : Conversion) (inputs : List TurnRead) : Recorder :=
  ⟨d, sbuf, conv, inputs, 0, false, 0, 0, 0, 0, 0, [], none⟩

/-- The checks after the inner loop; `process_dhav_stream` has no flags to look at. -/
def verdict (s : Recorder) : Option Ending :=
  match r.program with
  | .tanidvr =>
    if (w.flags s.looks).terminateNicely then some .gotTermination
    else if (w.flags s.looks).sigchld then some .childDied
    else if s.dstfRet < 0 then some .dstfFailed
    else if s.dtconvRet < 0 then some .dtconvFailed
    else if s.outfwriteRet ≠ 0 then some .writeFailed
    else none
  | .dhav2mkv =>
    if s.dstfRet < 0 then some .dstfFailed
    else if s.dtconvRet < 0 then some .dtconvFailed
    else if s.infreadRet = 0 then some .noMoreData
    else if s.outfwriteRet ≠ 0 then some .writeFailed
    else none

/-- The end of a turn. -/
def endTurn (s : Recorder) : Recorder :=
  { s with draining := false, looks := s.looks + 1, ended := verdict r w s }

/-- `while (dstf_ret > 0)`. -/
def goOn (s : Recorder) : Recorder :=
  if s.dstfRet > 0 then { s with draining := true } else endTurn r w s

/-- A frame in `sbuf`: converted, written, and the flags looked at. -/
def frame (s : Recorder) (frame : List UInt8) : Recorder :=
  match frameOut r s.conv (.ofFn s.sbuf) frame with
  | .error e => { s with ended := some (.crashed e) }
  | .ok (conv, dtconvRet, data) =>
    let (ret, bytes) := outfileWrite (w.writeError s.writes) data
    let s := { s with
      conv := conv, dtconvRet := dtconvRet, outfwriteRet := ret, writes := s.writes + 1
      outfile := s.outfile ++ bytes }
    if ret ≠ 0 then endTurn r w s
    else
      match r.program with
      | .dhav2mkv => goOn r w s
      | .tanidvr =>
        let fl := w.flags s.looks
        let s := { s with looks := s.looks + 1 }
        if fl.terminateNicely ∨ fl.sigpipe ∨ fl.sigchld then endTurn r w s else goOn r w s

/-- One call of the stream routine and what is done with its frame. -/
def call (s : Recorder) (src : List UInt8) : Recorder :=
  let o := streamToFrames r.mcFormatIn s.dstf src r.program.maxDstLen
  let s := { s with dstf := o.dstf, dstfRet := o.ret, sbuf := blit s.sbuf 0 o.dst }
  if o.dst.length > 0 then frame r w s o.dst else goOn r w s

/-- The next call: without new data inside the inner loop, otherwise with the next read. -/
def step (s : Recorder) : Option Recorder :=
  if s.ended ≠ none then none
  else if s.draining then some (call r w s [])
  else
    match s.inputs with
    | [] => none
    | .pollFailed :: ins => some { s with inputs := ins, ended := some .pollFailed }
    | .readFailed :: ins => some { s with inputs := ins, ended := some .readFailed }
    | .data c :: ins =>
      let s := { s with
        inputs := ins, infreadRet := c.length, sbuf := blit s.sbuf 0 c, dtconvRet := 0
        outfwriteRet := 0 }
      some (call r w s c)

end Recorder

/-! ### The frames processed -/

/-- The frames of a recording, each at the pointer it is read from. -/
def framesOut (r : Recording) (conv : Conversion) :
    List (Mem × List UInt8) → Except Fault (Conversion × List (List UInt8))
  | [] => .ok (conv, [])
  | (src, frame) :: bufs => do
    let (conv, _, data) ← frameOut r conv src frame
    let (conv, outs) ← framesOut r conv bufs
    return (conv, data :: outs)

/-- The frame stands at the pointer. -/
def InBuffer (b : Mem × List UInt8) : Prop := ∀ i < b.2.length, b.1 i = some (ofList b.2 i)

variable {r : Recording} {w : Outside}

theorem framesOut_append {conv conv' : Conversion} {bufs bufs' : List (Mem × List UInt8)}
    {outs : List (List UInt8)} (h : framesOut r conv bufs = .ok (conv', outs)) :
    framesOut r conv (bufs ++ bufs') =
      (fun p => (p.1, outs ++ p.2)) <$> framesOut r conv' bufs' := by
  induction bufs generalizing conv outs with
  | nil =>
    obtain ⟨rfl, rfl⟩ : conv = conv' ∧ [] = outs := by simpa [framesOut] using h
    rw [List.nil_append]
    exact (id_map _).symm
  | cons b bufs ih =>
    obtain ⟨src, frame⟩ := b
    obtain ⟨⟨conv1, ret, data⟩, h1, h2⟩ := bind_ok h
    obtain ⟨⟨conv2, outs'⟩, h3, h4⟩ := bind_ok h2
    obtain ⟨rfl, rfl⟩ : conv2 = conv' ∧ data :: outs' = outs := by
      simpa [pure, Except.pure] using h4
    rw [List.cons_append, framesOut, h1]
    simp only [bind, Except.bind, ih h3]
    cases framesOut r conv2 bufs' <;> rfl

theorem framesOut_concat {conv conv' conv'' : Conversion} {bufs : List (Mem × List UInt8)}
    {outs : List (List UInt8)} {src : Mem} {frame data : List UInt8} {ret : ℤ}
    (h : framesOut r conv bufs = .ok (conv', outs))
    (hf : frameOut r conv' src frame = .ok (conv'', ret, data)) :
    framesOut r conv (bufs ++ [(src, frame)]) = .ok (conv'', outs ++ [data]) := by
  rw [framesOut_append h, framesOut, hf]
  rfl

namespace Recorder

/-- A recorder has processed `frames`: their output is the file, but for the end of the last one
after a failed write. -/
def Processed (r : Recording) (conv₀ : Conversion) (frames : List (List UInt8)) (s : Recorder) :
    Prop :=
  ∃ bufs outs, bufs.map Prod.snd = frames ∧ (∀ b ∈ bufs, InBuffer b) ∧
    framesOut r conv₀ bufs = .ok (s.conv, outs) ∧
    outs.dropLast.flatten <+: s.outfile ∧ s.outfile <+: outs.flatten ∧
    (s.outfwriteRet = 0 → s.outfile = outs.flatten)

/-- A recorder that runs on, next to the stream loop. -/
structure Runs (r : Recording) (conv₀ : Conversion) (u : StreamLoop) (s : Recorder) : Prop where
  running : s.ended = none
  dstf : u.dstf = s.dstf
  reads : u.reads = readData s.inputs
  ret : s.draining = true ∧ 0 < u.dstfRet ∨ s.draining = false ∧ u.dstfRet = 0
  written : s.outfwriteRet = 0
  processed : Processed r conv₀ u.frames s

/-- A recorder that has ended: at a fault the last frame is not processed. -/
structure Ended (r : Recording) (conv₀ : Conversion) (u : StreamLoop) (s : Recorder) : Prop where
  ended : s.ended ≠ none
  processed : Processed r conv₀ u.frames s ∨
    ∃ e f frames, s.ended = some (.crashed e) ∧ u.frames = frames ++ [f] ∧
      s.outfwriteRet = 0 ∧ Processed r conv₀ frames s

/-- A recorder and the stream loop at the same point. -/
def Follows (r : Recording) (conv₀ : Conversion) (u : StreamLoop) (s : Recorder) : Prop :=
  Runs r conv₀ u s ∨ Ended r conv₀ u s

variable {conv₀ : Conversion} {u : StreamLoop} {s t : Recorder}

theorem Follows.of_endTurn (hd : u.dstf = s.dstf) (hr : u.reads = readData s.inputs)
    (hp : Processed r conv₀ u.frames s)
    (hv : verdict r w s = none → u.dstfRet = 0 ∧ s.outfwriteRet = 0) :
    Follows r conv₀ u (endTurn r w s) := by
  cases h : verdict r w s with
  | none => exact .inl ⟨h, hd, hr, .inr ⟨rfl, (hv h).1⟩, (hv h).2, hp⟩
  | some e =>
    refine .inr ⟨?_, .inl hp⟩
    rw [endTurn, h]
    nofun

/-- A turn goes on only with `dstf_ret` not negative, nothing refused by the file and, in `tanidvr`,
no flag set. -/
theorem verdict_none (h : verdict r w s = none) : 0 ≤ s.dstfRet ∧ s.outfwriteRet = 0 ∧
    (r.program = .tanidvr →
      (w.flags s.looks).terminateNicely = false ∧ (w.flags s.looks).sigchld = false) := by
  unfold verdict at h
  cases hp : r.program with
  | dhav2mkv =>
    simp only [hp] at h
    split_ifs at h with h1 h2 h3 h4
    exact ⟨by omega, not_not.mp h4, nofun⟩
  | tanidvr =>
    simp only [hp] at h
    split_ifs at h with h1 h2 h3 h4 h5
    exact ⟨by omega, not_not.mp h5, fun _ => ⟨by simpa using h1, by simpa using h2⟩⟩

theorem Follows.of_goOn (hn : s.ended = none) (hd : u.dstf = s.dstf)
    (hr : u.reads = readData s.inputs) (hret : u.dstfRet = s.dstfRet) (hw : s.outfwriteRet = 0)
    (hp : Processed r conv₀ u.frames s) : Follows r conv₀ u (goOn r w s) := by
  unfold goOn
  by_cases hpos : s.dstfRet > 0
  · rw [if_pos hpos]
    exact .inl ⟨hn, hd, hr, .inl ⟨rfl, hret ▸ hpos⟩, hw, hp⟩
  · rw [if_neg hpos]
    refine .of_endTurn hd hr hp fun hv => ?_
    have := (verdict_none hv).1
    exact ⟨by omega, hw⟩

/-- One frame more. -/
theorem Processed.frame {frames : List (List UInt8)} {src : Mem} {f data : List UInt8} {ret : ℤ}
    {conv : Conversion} (h : Processed r conv₀ frames s) (hw : s.outfwriteRet = 0)
    (hb : InBuffer (src, f)) (hf : frameOut r s.conv src f = .ok (conv, ret, data))
    (hconv : t.conv = conv) (error : Option ℕ)
    (hret : t.outfwriteRet = (outfileWrite error data).1)
    (hfile : t.outfile = s.outfile ++ (outfileWrite error data).2) :
    Processed r conv₀ (frames ++ [f]) t := by
  obtain ⟨bufs, outs, hbufs, hin, hout, -, -, hwhole⟩ := h
  subst hconv
  refine ⟨bufs ++ [(src, f)], outs ++ [data], by simp [hbufs], ?_, framesOut_concat hout hf, ?_⟩
  · intro b hb'
    rcases List.mem_append.mp hb' with hb' | hb'
    · exact hin b hb'
    · rw [List.mem_singleton.mp hb']
      exact hb
  · rw [hfile, hwhole hw, hret, List.dropLast_concat, List.flatten_concat]
    cases error with
    | none => exact ⟨List.prefix_append _ _, List.prefix_refl _, fun _ => rfl⟩
    | some n =>
      exact ⟨List.prefix_append _ _,
        (List.prefix_append_right_inj _).mpr (List.take_prefix _ _), nofun⟩

theorem blit_inBuffer (sbuf : ℕ → UInt8) (f : List UInt8) : InBuffer (.ofFn (blit sbuf 0 f), f) := by
  intro i hi
  have : blit sbuf 0 f (0 + i) = _ := blit_add hi
  rw [Nat.zero_add] at this
  rw [ofList_of_lt hi, ← this]
  rfl

/-- The frame in `sbuf` is the one that the stream loop has just handed on. -/
theorem Follows.of_frame {frames : List (List UInt8)} {f : List UInt8} (hn : s.ended = none)
    (hd : u.dstf = s.dstf) (hr : u.reads = readData s.inputs) (hret : u.dstfRet = s.dstfRet)
    (hw : s.outfwriteRet = 0) (hu : u.frames = frames ++ [f]) (hb : InBuffer (.ofFn s.sbuf, f))
    (hp : Processed r conv₀ frames s) : Follows r conv₀ u (frame r w s f) := by
  unfold frame
  cases hf : frameOut r s.conv (.ofFn s.sbuf) f with
  | error e => exact .inr ⟨nofun, .inr ⟨e, f, frames, rfl, hu, hw, hp⟩⟩
  | ok o =>
    obtain ⟨conv, ret, data⟩ := o
    dsimp only
    set s' : Recorder := { s with
      conv := conv, dtconvRet := ret
      outfwriteRet := (outfileWrite (w.writeError s.writes) data).1, writes := s.writes + 1
      outfile := s.outfile ++ (outfileWrite (w.writeError s.writes) data).2 } with hs'
    have hp' : Processed r conv₀ u.frames s' := hu ▸ hp.frame hw hb hf rfl _ rfl rfl
    by_cases hfail : (outfileWrite (w.writeError s.writes) data).1 ≠ 0
    · rw [if_pos hfail]
      exact .of_endTurn hd hr hp' fun hv => absurd (verdict_none hv).2.1 hfail
    · rw [if_neg hfail]
      have hok : s'.outfwriteRet = 0 := not_not.mp hfail
      cases hprog : r.program with
      | dhav2mkv => exact .of_goOn hn hd hr hret hok hp'
      | tanidvr =>
        dsimp only
        by_cases hfl : (w.flags s.looks).terminateNicely ∨ (w.flags s.looks).sigpipe ∨
            (w.flags s.looks).sigchld
        · rw [if_pos hfl]
          refine .of_endTurn (s := { s' with looks := s.looks + 1 }) hd hr hp' fun hv => ?_
          -- a flag that is set stays so until the checks after the inner loop
          obtain ⟨h1, h2⟩ := (verdict_none hv).2.2 hprog
          rcases hfl with h | h | h
          · exact absurd (w.terminate_stays _ h) (by simpa using h1)
          · exact absurd (w.no_sigpipe _) (by simpa using h)
          · exact absurd (w.sigchld_stays _ h) (by simpa using h2)
        · rw [if_neg hfl]
          exact .of_goOn (s := { s' with looks := s.looks + 1 }) hn hd hr hret hok hp'

/-- The same call on both sides. -/
theorem Follows.of_call (src : List UInt8) (hn : s.ended = none) (hd : u.dstf = s.dstf)
    (hr : u.reads = readData s.inputs) (hw : s.outfwriteRet = 0)
    (hp : Processed r conv₀ u.frames s) :
    Follows r conv₀ (u.call r.mcFormatIn r.program.maxDstLen src) (call r w s src) := by
  unfold call
  dsimp only
  by_cases hpos : (streamToFrames r.mcFormatIn s.dstf src r.program.maxDstLen).dst.length > 0
  · rw [if_pos hpos]
    refine .of_frame hn (hd ▸ rfl) hr (hd ▸ rfl) hw ?_ (blit_inBuffer _ _) hp
    rw [call_frames, hd, if_pos hpos]
  · rw [if_neg hpos]
    refine .of_goOn hn (hd ▸ rfl) hr (hd ▸ rfl) hw ?_
    rw [call_frames, hd, if_neg hpos]
    exact hp

/-- **One step**: at most one call of the stream routine on both sides. -/
theorem Follows.step (h : Follows r conv₀ u s) (hst : Recorder.step r w s = some t) :
    ∃ u', Reach (StreamLoop.step r.mcFormatIn r.program.maxDstLen) u u' ∧ Follows r conv₀ u' t := by
  unfold Recorder.step at hst
  rcases h with h | h
  swap
  · rw [if_pos h.ended] at hst
    cases hst
  rw [if_neg (by simp [h.running])] at hst
  rcases h.ret with ⟨hdr, hpos⟩ | ⟨hdr, hzero⟩
  · rw [if_pos hdr, Option.some.injEq] at hst
    subst hst
    exact ⟨_, .head (step_of_pos hpos) (.refl _), .of_call [] h.running h.dstf h.reads h.written
      h.processed⟩
  · rw [if_neg (by simp [hdr])] at hst
    have hfailed : ∀ (e : Ending) ins, some { s with inputs := ins, ended := some e } = some t →
        Follows r conv₀ u t := by
      intro e ins hst
      rw [Option.some.injEq] at hst
      subst hst
      exact .inr ⟨nofun, .inl h.processed⟩
    cases hin : s.inputs with
    | nil =>
      rw [hin] at hst
      cases hst
    | cons i ins =>
      rw [hin] at hst
      cases i with
      | pollFailed => exact ⟨u, .refl u, hfailed _ _ hst⟩
      | readFailed => exact ⟨u, .refl u, hfailed _ _ hst⟩
      | data c =>
        rw [Option.some.injEq] at hst
        subst hst
        have hreads := h.reads
        rw [hin, readData] at hreads
        obtain ⟨bufs, outs, h1, h2, h3, h4, h5, h6⟩ := h.processed
        refine ⟨({ u with reads := readData ins }).call r.mcFormatIn r.program.maxDstLen c,
          .head ?_ (.refl _), .of_call (u := { u with reads := readData ins }) (s := { s with
            inputs := ins, infreadRet := c.length, sbuf := blit s.sbuf 0 c, dtconvRet := 0
            outfwriteRet := 0 }) c h.running h.dstf rfl rfl
            ⟨bufs, outs, h1, h2, h3, h4, h5, fun _ => h6 h.written⟩⟩
        rw [StreamLoop.step, if_neg (by omega), if_neg (by omega), hreads]

/-- **A run** of a recorder goes along a run of the stream loop. -/
theorem follows_run {d : Dstf} {sbuf : ℕ → UInt8} {inputs : List TurnRead}
    (h : Reach (Recorder.step r w) (.start d sbuf conv₀ inputs) s) :
    ∃ u, Reach (StreamLoop.step r.mcFormatIn r.program.maxDstLen) (.start d (readData inputs)) u ∧
      Follows r conv₀ u s := by
  refine h.simulated (R := fun s u => Follows r conv₀ u s) (fun s t u hs hst => hs.step hst)
    (.inl ?_)
  exact ⟨rfl, rfl, rfl, .inr ⟨rfl, rfl⟩, rfl, [], [], rfl, nofun, rfl, List.prefix_refl _,
    List.prefix_refl _, fun _ => rfl⟩

end Recorder

/-- The frames handed on only grow. -/
theorem StreamLoop.frames_prefix {f : McFormat} {m : ℕ} {s t : StreamLoop}
    (h : Reach (StreamLoop.step f m) s t) : s.frames <+: t.frames := by
  refine h.invariant (P := fun t => s.frames <+: t.frames) ?_ (List.prefix_refl _)
  have hcall : ∀ (t : StreamLoop) src, t.frames <+: (t.call f m src).frames := by
    intro t src
    rw [call_frames]
    split_ifs
    · exact List.prefix_append _ _
    · exact List.prefix_refl _
  intro t u ht htu
  obtain ⟨-, rfl⟩ | ⟨-, c, cs, -, rfl⟩ := step_eq_some htu
  · exact ht.trans (hcall t [])
  · exact ht.trans (hcall { t with reads := cs } c)

/-- The file of a recorder, as outputs of frames. -/
structure WholeOutputs (r : Recording) (d : Dstf) (conv : Conversion) (inputs : List TurnRead)
    (s : Recorder) (bufs : List (Mem × List UInt8)) (outs : List (List UInt8)) : Prop where
  /-- The frames are read where they stand, and each has its output. -/
  in_buffers : ∀ b ∈ bufs, InBuffer b
  converted : framesOut r conv bufs = .ok (s.conv, outs)
  /-- They are all the frames handed on so far; at a fault, all but the last. -/
  handed_on : ∃ u, Reach (StreamLoop.step r.mcFormatIn r.program.maxDstLen)
    (.start d (readData inputs)) u ∧ (bufs.map Prod.snd = u.frames ∨
      ∃ e f, s.ended = some (.crashed e) ∧ u.frames = bufs.map Prod.snd ++ [f])
  first : ∀ l, Halts (StreamLoop.step r.mcFormatIn r.program.maxDstLen)
    (.start d (readData inputs)) l → bufs.map Prod.snd <+: l.frames
  /-- Only a failed write cuts the file, in the last output. -/
  all_but_last : outs.dropLast.flatten <+: s.outfile
  no_more : s.outfile <+: outs.flatten
  whole : s.outfwriteRet = 0 → s.outfile = outs.flatten

theorem Recorder.wholeOutputs {d : Dstf} {sbuf : ℕ → UInt8} {conv : Conversion}
    {inputs : List TurnRead} {s : Recorder}
    (h : Reach (Recorder.step r w) (.start d sbuf conv inputs) s) :
    ∃ bufs outs, WholeOutputs r d conv inputs s bufs outs := by
  obtain ⟨u, hu, hs⟩ := Recorder.follows_run h
  have hfirst : ∀ l, Halts (StreamLoop.step r.mcFormatIn r.program.maxDstLen)
      (.start d (readData inputs)) l → u.frames <+: l.frames :=
    fun l hl => StreamLoop.frames_prefix (hl.of_reach hu).1
  have hall : Recorder.Processed r conv u.frames s → ∃ bufs outs,
      WholeOutputs r d conv inputs s bufs outs := by
    rintro ⟨bufs, outs, h1, h2, h3, h4, h5, h6⟩
    exact ⟨bufs, outs, h2, h3, ⟨u, hu, .inl h1⟩, fun l hl => h1 ▸ hfirst l hl, h4, h5, h6⟩
  rcases hs with hs | ⟨-, hs | ⟨e, f, frames, he, hf, -, bufs, outs, rfl, h2, h3, h4, h5, h6⟩⟩
  · exact hall hs.processed
  · exact hall hs
  · refine ⟨bufs, outs, h2, h3, ⟨u, hu, .inr ⟨e, f, he, hf⟩⟩, fun l hl => ?_, h4, h5, h6⟩
    exact (hf ▸ List.prefix_append _ _ : bufs.map Prod.snd <+: u.frames).trans (hfirst l hl)

/-- What was processed is what the stream loop has handed on, or all but the last of it. -/
theorem WholeOutputs.frames_prefix {d : Dstf} {conv : Conversion} {inputs : List TurnRead}
    {s : Recorder} {bufs : List (Mem × List UInt8)} {outs : List (List UInt8)}
    (h : WholeOutputs r d conv inputs s bufs outs) :
    ∃ u, Reach (StreamLoop.step r.mcFormatIn r.program.maxDstLen) (.start d (readData inputs)) u ∧
      bufs.map Prod.snd <+: u.frames := by
  obtain ⟨u, hu, heq | ⟨-, f, -, heq⟩⟩ := h.handed_on
  · exact ⟨u, hu, heq ▸ List.prefix_refl _⟩
  · exact ⟨u, hu, heq ▸ List.prefix_append _ _⟩

/-- **However a recording is interrupted, the file is whole outputs of the first frames**: for any
queue left by identification, any reads, failing or not, any signals and any write errors, at every
moment. -/
theorem recording_interrupted (r : Recording) (w : Outside) (d : Dstf) (sbuf : ℕ → UInt8)
    (conv : Conversion) (inputs : List TurnRead) (s : Recorder)
    (h : Reach (Recorder.step r w) (.start d sbuf conv inputs) s) :
    ∃ bufs outs, WholeOutputs r d conv inputs s bufs outs :=
  Recorder.wholeOutputs h

/-- The second write gets three bytes to the file. -/
def Outside.fullDisk : Outside where
  writeError n := if n = 1 then some 3 else none
  flags _ := ⟨false, false, false⟩
  terminate_stays _ h := h
  sigchld_stays _ h := h
  no_sigpipe _ := rfl

theorem recording_interrupted_full :
    ∃ bufs outs, WholeOutputs ⟨.tanidvr, .native, false, .dhav⟩ (dstfInit (fun _ => 0) fun _ => 0)
      (.start default default false) [.data smallFrame, .data smallFrame, .readFailed]
      (runFor (Recorder.step ⟨.tanidvr, .native, false, .dhav⟩ .fullDisk) 4
        (.start (dstfInit (fun _ => 0) fun _ => 0) (fun _ => 0) (.start default default false)
          [.data smallFrame, .data smallFrame, .readFailed])) bufs outs :=
  recording_interrupted ⟨.tanidvr, .native, false, .dhav⟩ .fullDisk _ _ _ _ _ (reach_runFor 4 _)

end TaniDVR
