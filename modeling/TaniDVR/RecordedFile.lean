import TaniDVR.Identified
import TaniDVR.MkvOutput

/-!
# RecordedFile — what a recording leaves on the disk

The parser and the writer look at no byte of `sbuf` behind a well-formed frame
(`convertFrame_inBuffer`), so the outputs of a recorder are those of `Conversion` on the frames alone
(`framesOut_mkv`), and well-formed frames are accepted (`accepts_mkv`).
-/

namespace TaniDVR

open Lib Dstf StreamLoop

/-! ### The frames in their buffers -/

section Convert

variable {tsproc : Bool} {m : ℕ} {st : Conversion} {src t : Mem} {f : List UInt8}

/-- The writer reads the body of a usable frame, and nothing else. -/
theorem dtConvertFrameToMkv_congr {mc : McParms} (n : ℕ) (firstFrame : Bool) (vcodec : MCodec)
    (h : Usable mc → src.readRange mc.bodyP mc.bodyLen = t.readRange mc.bodyP mc.bodyLen) :
    dtConvertFrameToMkv mc src n m firstFrame vcodec =
      dtConvertFrameToMkv mc t n m firstFrame vcodec := by
  by_cases hu : Usable mc
  · unfold dtConvertFrameToMkv
    rw [h hu]
  · unfold dtConvertFrameToMkv
    rcases not_usable_iff.mp hu with ht | ⟨ht, hv⟩
    · simp only [if_pos ht]
    · simp only [if_neg ht, if_pos hv]

/-- **A well-formed frame is converted alike in any buffer.** -/
theorem convertFrame_inBuffer (hw : WellFormed m f) (hb : InBuffer (src, f)) :
    convertFrame .dhav tsproc m st src f.length =
      convertFrame .dhav tsproc m st (.ofFrame f) f.length := by
  have hfits := hw.fits
  have hthere : HeaderThere src (ofList f) := by
    intro i hi
    unfold ExtHeaderFits at hfits
    exact hb i (show i < f.length by omega)
  have hc : collectFrameInfo .dhav st.mc src f.length =
      collectFrameInfo .dhav st.mc (.ofFrame f) f.length :=
    (collect_eq hthere hw.length_ne).trans (collect_eq (headerThere_of_fits hfits) hw.length_ne).symm
  unfold convertFrame
  rw [hc]
  cases hcol : collectFrameInfo .dhav st.mc (.ofFrame f) f.length with
  | error e => rfl
  | ok o =>
    obtain ⟨ret, mc⟩ := o
    simp only [bind, Except.bind]
    rcases correctTimestamp_cases .dhav tsproc st.tsc mc with ⟨-, -, -, -, he⟩ | ⟨-, tsc, v, he, -⟩
    · rw [he]
    · rw [he]
      dsimp only
      rw [dtConvertFrameToMkv_congr (t := .ofFrame f)]
      intro hu
      obtain ⟨hp, hl⟩ := collect_usable hfits hcol hu
      have hlt := hw.lt
      have hbl := dhavBodyLen_of_fits hfits (by omega)
      have hread : ∀ {s : Mem}, InBuffer (s, f) → s.readRange mc.bodyP mc.bodyLen =
          .ok (slice (ofList f) mc.bodyP mc.bodyLen) := by
        intro s hs
        refine Mem.readRange_eq fun k hk => hs _ (show mc.bodyP + k < f.length from ?_)
        unfold ExtHeaderFits at hfits
        omega
      exact (hread hb).trans (hread fun i hi => Mem.ofFrame_of_lt hi).symm

end Convert

section Outputs

variable {r : Recording} {conv conv' : Conversion} {bufs : List (Mem × List UInt8)}
  {outs : List (List UInt8)}

/-- In the native format the outputs are the frames. -/
theorem framesOut_native (hc : r.mcFormatOut = .native) :
    framesOut r conv bufs = .ok (conv, bufs.map Prod.snd) := by
  induction bufs with
  | nil => rfl
  | cons b bufs ih =>
    have hf : frameOut r conv b.1 b.2 = .ok (conv, 0, b.2) := by
      unfold frameOut
      rw [hc]
    simp only [framesOut, hf, ih, bind, Except.bind, pure, Except.pure, List.map_cons]

theorem frameOut_mkv (hc : r.mcFormatOut = .mkv) (hi : r.mcFormatIn = .dhav) {src : Mem}
    {f : List UInt8} (hw : WellFormed r.program.maxMkvLen f) (hb : InBuffer (src, f)) :
    frameOut r conv src f =
      (fun p => (p.1, p.2.ret, p.2.dst.take p.2.dstLen)) <$>
        convertFrame .dhav r.tsproc r.program.maxMkvLen conv (.ofFrame f) f.length := by
  unfold frameOut
  rw [hc, hi]
  dsimp only
  rw [convertFrame_inBuffer hw hb]
  cases convertFrame .dhav r.tsproc r.program.maxMkvLen conv (.ofFrame f) f.length <;> rfl

/-- In Matroska they are those of the conversion of the frames alone. -/
theorem framesOut_mkv (hc : r.mcFormatOut = .mkv) (hi : r.mcFormatIn = .dhav)
    (hw : ∀ b ∈ bufs, WellFormed r.program.maxMkvLen b.2) (hb : ∀ b ∈ bufs, InBuffer b)
    (h : framesOut r conv bufs = .ok (conv', outs)) :
    ∃ os, convertFrames .dhav r.tsproc r.program.maxMkvLen conv (toConvert (bufs.map Prod.snd)) =
        .ok os ∧ outs.flatten = TaniDVR.outfile os := by
  induction bufs generalizing conv outs with
  | nil =>
    obtain ⟨-, rfl⟩ : conv = conv' ∧ [] = outs := by simpa [framesOut] using h
    exact ⟨[], rfl, rfl⟩
  | cons b bufs ih =>
    obtain ⟨⟨conv1, ret, data⟩, h1, h2⟩ := bind_ok h
    obtain ⟨⟨conv2, outs'⟩, h3, h4⟩ := bind_ok h2
    obtain ⟨rfl, rfl⟩ : conv2 = conv' ∧ data :: outs' = outs := by
      simpa [pure, Except.pure] using h4
    obtain ⟨os, hos, hout⟩ := ih (fun b hb => hw b (by simp [hb])) (fun b' hb' => hb b' (by simp [hb']))
      h3
    rw [frameOut_mkv hc hi (hw b (by simp)) (hb b (by simp))] at h1
    cases hconv : convertFrame .dhav r.tsproc r.program.maxMkvLen conv (.ofFrame b.2) b.2.length with
    | error e =>
      rw [hconv] at h1
      cases h1
    | ok p =>
      obtain ⟨conv3, out⟩ := p
      rw [hconv] at h1
      obtain ⟨rfl, rfl, rfl⟩ : conv3 = conv1 ∧ out.ret = ret ∧ out.dst.take out.dstLen = data := by
        simpa [Functor.map, Except.map] using h1
      exact ⟨_, convertFrames_cons hconv hos, by
        simp only [List.flatten_cons, hout, TaniDVR.outfile, List.flatMap_cons]⟩

/-- Every frame is accepted in the native format. -/
theorem accepts_native (hc : r.mcFormatOut = .native) :
    Accepts r (fun _ => True) (fun _ => True) where
  frame {conv} src f _ _ _ := by
    refine ⟨conv, 0, f, ?_, le_rfl, trivial⟩
    unfold frameOut
    rw [hc]

/-- Well-formed frames are accepted in Matroska. -/
theorem accepts_mkv (hc : r.mcFormatOut = .mkv) (hi : r.mcFormatIn = .dhav) :
    Accepts r Ready (WellFormed r.program.maxMkvLen) where
  frame {conv} src f hr hw hb := by
    rw [frameOut_mkv hc hi hw hb]
    by_cases hcount : Counted conv.mc f
    · obtain ⟨mc, tsc, he, hr', -⟩ := convertFrame_counted r.tsproc hw hr hcount
      rw [he]
      exact ⟨_, _, _, rfl, le_rfl, hr'⟩
    · obtain ⟨st, out, he, hforget, -, hret⟩ := convertFrame_skipped r.tsproc hw hcount
      rw [he]
      exact ⟨_, _, _, rfl, hret.le, hr.of_forget hforget⟩

end Outputs

/-! ### Recordings of well-formed frames -/

/-- Well-formed frames, with garbage before, between and after them, read in pieces. -/
structure FrameStream (p : Program) (g₀ : List UInt8) (fs : List (List UInt8 × List UInt8))
    (chunks : List (List UInt8)) : Prop where
  start : ¬ strDHAV <:+: g₀
  frames : ∀ q ∈ fs, DhavFrame q.1 ∧ q.1.length ≤ tMcParmsDhavStf - p.granularity ∧
    ¬ strDHAV <:+: q.2
  data : chunks.flatten = g₀ ++ framesBytes fs
  pieces : ∀ c ∈ chunks, c ≠ [] ∧ c.length ≤ p.granularity

/-- What a recording of `frames` leaves: their bytes, or a Matroska file that decodes to them. -/
structure Holding (r : Recording) (conv : Conversion) (frames : List (List UInt8))
    (file : List UInt8) : Prop where
  native : r.mcFormatOut = .native → file = frames.flatten
  mkv : r.mcFormatOut = .mkv → ∃ outs,
    convertFrames .dhav r.tsproc r.program.maxMkvLen conv (toConvert frames) = .ok outs ∧
      Decodes frames outs ∧ file = outfile outs

variable {r : Recording} {conv : Conversion} {frames : List (List UInt8)} {s : Recorder}

/-- Whole outputs of well-formed frames. -/
theorem holding_of_outs {conv' : Conversion} {bufs : List (Mem × List UInt8)}
    {outs : List (List UInt8)} (hi : r.mcFormatIn = .dhav) (hr : Ready conv)
    (hv : conv.mc.hasVParms = false)
    (hw : r.mcFormatOut = .mkv → ∀ f ∈ frames, WellFormed r.program.maxMkvLen f)
    (hbufs : bufs.map Prod.snd = frames) (hb : ∀ b ∈ bufs, InBuffer b)
    (hout : framesOut r conv bufs = .ok (conv', outs)) :
    Holding r conv frames outs.flatten := by
  refine ⟨fun hc => ?_, fun hc => ?_⟩
  · rw [framesOut_native hc, Except.ok.injEq, Prod.mk.injEq] at hout
    rw [← hout.2, hbufs]
  · have hwf : ∀ b ∈ bufs, WellFormed r.program.maxMkvLen b.2 := fun b hb =>
      hw hc _ (hbufs ▸ List.mem_map_of_mem hb)
    obtain ⟨os, hos, hflat⟩ := framesOut_mkv hc hi hwf hb hout
    obtain ⟨os', hos', -, hdec⟩ := decodes_of_run r.tsproc (hw hc) hr hv
    rw [hbufs, hos', Except.ok.injEq] at hos
    subst hos
    exact ⟨os', hos', hdec, hflat⟩

/-- An undisturbed recording of well-formed frames. -/
theorem holding_of_run (hi : r.mcFormatIn = .dhav) (hr : Ready conv)
    (hv : conv.mc.hasVParms = false)
    (hw : r.mcFormatOut = .mkv → ∀ f ∈ frames, WellFormed r.program.maxMkvLen f) {d : Dstf}
    {reads extra : List (List UInt8)} (sbuf : ℕ → UInt8) {l : StreamLoop}
    (hreads : Reads r reads extra)
    (hl : Halts (StreamLoop.step .dhav r.program.maxDstLen) (.start d reads) l)
    (hret : ∀ t, Reach (StreamLoop.step .dhav r.program.maxDstLen) (.start d reads) t →
      0 ≤ t.dstfRet) (hframes : l.frames = frames) :
    ∃ s, Halts (Recorder.step r .calm) (.start d sbuf conv ((reads ++ extra).map .data)) s ∧
      s.ended = (if r.program = .dhav2mkv then some .noMoreData else none) ∧
      Holding r conv frames s.outfile := by
  subst hframes
  rw [← hi] at hl hret
  have hrun : ∃ s, Halts (Recorder.step r .calm) (.start d sbuf conv ((reads ++ extra).map .data)) s ∧
      Recorded r conv l.frames s := by
    cases hc : r.mcFormatOut with
    | native => exact undisturbed_run (accepts_native hc) trivial sbuf hreads hl hret fun _ _ => trivial
    | mkv => exact undisturbed_run (accepts_mkv hc hi) hr sbuf hreads hl hret (hw hc)
  obtain ⟨s, hs, hend, hwritten, bufs, outs, h1, h2, h3, -, -, h6⟩ := hrun
  refine ⟨s, hs, hend, ?_⟩
  rw [h6 hwritten]
  exact holding_of_outs hi hr hv hw h1 h2 h3

/-- A stream with a whole frame in it is a DHAV stream. -/
theorem identify_holding {f stream : List UInt8} (hf : DhavFrame f) (h : f <:+: stream) :
    identifyMcFormat (ofList stream) stream.length = .dhav := by
  obtain ⟨a, b, rfl⟩ := h
  have hmin := hf.min_len
  have hlen : (a ++ f ++ b).length = a.length + f.length + b.length := by
    simp only [List.length_append]
  have hbyte : ∀ i k, i + k ≤ f.length →
      slice (ofList (a ++ f ++ b)) (a.length + i) k = slice (ofList f) i k := by
    intro i k hik
    refine slice_congr fun j hj => ?_
    rw [ofList_append_left (by simp only [List.length_append]; omega), Nat.add_assoc,
      ofList_append_right]
  refine identifyMcFormat_dhav (i := a.length) (j := a.length + (f.length - 8)) (by omega) ?_
    (by omega) ?_
  · rw [← hf.header, ← hbyte 0 4 (by omega), Nat.add_zero]
  · rw [← hf.trailer, ← hbyte (f.length - 8) 4 (by omega)]

section Stream

variable {p : Program} {g₀ : List UInt8} {fs : List (List UInt8 × List UInt8)}
  {chunks : List (List UInt8)}

theorem FrameStream.reassembly (h : FrameStream p g₀ fs chunks) (sq below : ℕ → UInt8) :
    Reassembly p.granularity (fs.map Prod.fst) (dstfInit sq below) chunks [] :=
  ⟨dstfInit_fits sq below, rfl, fun c hc => (h.pieces c hc).2, g₀, fs, h.data, h.start, h.frames, rfl⟩

theorem Reassembly.append_nil {G : ℕ} {frames rs em : List (List UInt8)} {d : Dstf}
    (h : Reassembly G frames d rs em) : Reassembly G frames d (rs ++ [[]]) em := by
  refine ⟨h.fits, h.maxlen, fun c hc => ?_, by simpa using h.layout⟩
  rcases List.mem_append.mp hc with hc | hc
  · exact h.reads c hc
  · rw [List.mem_singleton.mp hc]
    exact Nat.zero_le _

theorem Program.sizes (p : Program) :
    tMcParmsDhavStf ≤ p.maxDstLen ∧ p.granularity + 15 ≤ tMcParmsDhavStf := by
  cases p <;> decide

/-- Without a frame nothing tells the format. -/
theorem FrameStream.no_frames (h : FrameStream p g₀ fs chunks)
    (hu : identifyMcFormat (ofList chunks.flatten) chunks.flatten.length = .dvrUnknown) :
    fs.map Prod.fst = [] := by
  cases fs with
  | nil => rfl
  | cons q qs =>
    have hin : q.1 <:+: chunks.flatten := by
      rw [h.data, framesBytes, List.flatMap_cons]
      exact ⟨g₀, q.2 ++ qs.flatMap fun p => p.1 ++ p.2, by simp only [List.append_assoc]⟩
    rw [identify_holding (h.frames q (by simp)).1 hin] at hu
    cases hu

/-- **A recording of well-formed frames holds exactly these**, in either format, with garbage between
them and read in any pieces, when the stream is taken for DHAV. -/
theorem recorded_stream (p : Program) (c : Container) (tsproc : Bool) (sq below sbuf : ℕ → UInt8)
    (heap : McParms) (tscHeap : TsProc) (ntscExact60hz : Bool) (g₀ : List UInt8)
    (fs : List (List UInt8 × List UInt8)) (chunks : List (List UInt8))
    (h : FrameStream p g₀ fs chunks) (hw : c = .mkv → ∀ q ∈ fs, WellFormed p.maxMkvLen q.1)
    (r : Recording) (s₀ : Recorder)
    (hrec : recording p c tsproc (dstfInit sq below) sbuf (.start heap tscHeap ntscExact60hz)
      (allInputs p chunks) = (r, s₀)) (hi : r.mcFormatIn = .dhav) :
    ∃ s, Halts (Recorder.step r .calm) s₀ s ∧
      s.ended = (if p = .dhav2mkv then some .noMoreData else none) ∧
      Holding r (.start heap tscHeap ntscExact60hz) (fs.map Prod.fst) s.outfile := by
  obtain ⟨hm, hG⟩ := p.sizes
  obtain ⟨d, reads, extra, hp, hc, -, hstart, hreads, hI, hroom, hnone⟩ :=
    recording_identified (reassembly_runInv hm).loads c tsproc sq below sbuf
      (.start heap tscHeap ntscExact60hz) h.pieces (fun h => h.append_nil) (h.reassembly sq below)
  rw [hrec] at hp hc hstart hreads
  dsimp only at hp hc hstart hreads
  subst hp hstart
  obtain ⟨l, hl, hret, hframes⟩ := hI.run hm hG hroom fun hnil => h.no_frames (hnone hnil).2
  have hr : Ready (.start heap tscHeap ntscExact60hz) := ⟨rfl, nofun⟩
  refine holding_of_run hi hr rfl (fun hmkv f hf => ?_) sbuf hreads hl hret hframes
  obtain ⟨q, hq, rfl⟩ := List.mem_map.mp hf
  exact hw (hc.symm.trans hmkv) q hq

theorem dhavFrame_palIFrame : DhavFrame palIFrame := by constructor <;> decide

theorem frameStream_pal : FrameStream .tanidvr [0x44, 0x48] [(palIFrame, [0x56])]
    [[0x44], 0x48 :: palIFrame ++ [0x56]] where
  start := by decide
  frames q hq := by
    obtain rfl := List.mem_singleton.mp hq
    exact ⟨dhavFrame_palIFrame, by decide, by decide⟩
  data := rfl
  pieces c hc := by
    rcases List.mem_pair.mp hc with rfl | rfl <;> decide

theorem wellFormed_palIFrame : WellFormed Program.tanidvr.maxMkvLen palIFrame := by
  constructor <;> decide

theorem recorded_stream_pal :
    ∃ s, Halts (Recorder.step ⟨.tanidvr, .mkv, true, .dhav⟩ .calm)
        (recording .tanidvr .mkv true (dstfInit (fun _ => 0) fun _ => 0) (fun _ => 0)
          (.start default default false)
          (allInputs .tanidvr [[0x44], 0x48 :: palIFrame ++ [0x56]])).2 s ∧
      s.ended = none ∧
      Holding ⟨.tanidvr, .mkv, true, .dhav⟩ (.start default default false) [palIFrame] s.outfile :=
  recorded_stream .tanidvr .mkv true (fun _ => 0) (fun _ => 0) (fun _ => 0) default default false
    [0x44, 0x48] [(palIFrame, [0x56])] _ frameStream_pal
    (fun _ _ hq => List.mem_singleton.mp hq ▸ wellFormed_palIFrame)
    ⟨.tanidvr, .mkv, true, .dhav⟩ _ rfl rfl

/-- What is left of a recording at any moment: the first `k` frames, with only the last of them cut,
and only by a failed write. -/
structure HoldingFirst (r : Recording) (conv : Conversion) (frames : List (List UInt8)) (k : ℕ)
    (s : Recorder) (before whole : List UInt8) : Prop where
  but_last : Holding r conv (frames.take (k - 1)) before
  first : Holding r conv (frames.take k) whole
  between : before <+: s.outfile ∧ s.outfile <+: whole
  written : s.outfwriteRet = 0 → s.outfile = whole

/-- The outputs of the first frames. -/
theorem framesOut_take {r : Recording} {conv conv' : Conversion} {bufs : List (Mem × List UInt8)}
    {outs : List (List UInt8)} (n : ℕ) (h : framesOut r conv bufs = .ok (conv', outs)) :
    outs.length = bufs.length ∧
      ∃ conv', framesOut r conv (bufs.take n) = .ok (conv', outs.take n) := by
  induction bufs generalizing conv outs n with
  | nil =>
    obtain ⟨-, rfl⟩ : conv = conv' ∧ [] = outs := by simpa [framesOut] using h
    exact ⟨rfl, conv, by simp [framesOut]⟩
  | cons b bufs ih =>
    obtain ⟨⟨conv1, ret, data⟩, h1, h2⟩ := bind_ok h
    obtain ⟨⟨conv2, outs'⟩, h3, h4⟩ := bind_ok h2
    obtain ⟨rfl, rfl⟩ : conv2 = conv' ∧ data :: outs' = outs := by
      simpa [pure, Except.pure] using h4
    obtain ⟨hlen, conv3, h5⟩ := ih (n - 1) h3
    refine ⟨by simp [hlen], ?_⟩
    cases n with
    | zero => exact ⟨conv, rfl⟩
    | succ n =>
      rw [Nat.add_sub_cancel] at h5
      simp only [List.take_succ_cons, framesOut, h1, h5, bind, Except.bind]
      exact ⟨conv3, rfl⟩

/-- The outputs of the first frames of a list of well-formed ones. -/
theorem holdingFirst_of_outs {conv' : Conversion} {bufs : List (Mem × List UInt8)}
    {outs : List (List UInt8)} (hi : r.mcFormatIn = .dhav) (hr : Ready conv)
    (hv : conv.mc.hasVParms = false)
    (hw : r.mcFormatOut = .mkv → ∀ f ∈ frames, WellFormed r.program.maxMkvLen f)
    (hbufs : bufs.map Prod.snd <+: frames) (hb : ∀ b ∈ bufs, InBuffer b)
    (hout : framesOut r conv bufs = .ok (conv', outs))
    (hfile : outs.dropLast.flatten <+: s.outfile ∧ s.outfile <+: outs.flatten)
    (hwhole : s.outfwriteRet = 0 → s.outfile = outs.flatten) :
    ∃ k before whole, HoldingFirst r conv frames k s before whole := by
  have hwk : ∀ n, r.mcFormatOut = .mkv →
      ∀ f ∈ (bufs.take n).map Prod.snd, WellFormed r.program.maxMkvLen f := by
    intro n hc f hf
    rw [List.map_take] at hf
    exact hw hc f (hbufs.subset (List.take_subset _ _ hf))
  have hfirst : ∀ n, n ≤ bufs.length → frames.take n = (bufs.take n).map Prod.snd := by
    intro n hn
    rw [List.map_take]
    conv_rhs => rw [List.prefix_iff_eq_take.mp hbufs]
    rw [List.take_take, List.length_map, Nat.min_eq_left hn]
  have hin : ∀ n, ∀ b ∈ bufs.take n, InBuffer b := fun n b hb' => hb b (List.take_subset _ _ hb')
  obtain ⟨hlen, conv1, h1⟩ := framesOut_take (bufs.length - 1) hout
  refine ⟨bufs.length, _, _, ⟨?_, ?_, hfile, hwhole⟩⟩
  · rw [hfirst _ (Nat.sub_le _ _), List.dropLast_eq_take, hlen]
    exact holding_of_outs hi hr hv (hwk _) rfl (hin _) h1
  · have hk := hwk bufs.length
    rw [List.take_length] at hk
    rw [hfirst _ le_rfl, List.take_length]
    exact holding_of_outs hi hr hv hk rfl hb hout

theorem Reassembly.append_replicate {G : ℕ} {frames rs em : List (List UInt8)} {d : Dstf} (n : ℕ)
    (h : Reassembly G frames d rs em) : Reassembly G frames d (rs ++ List.replicate n []) em := by
  induction n with
  | zero => simpa using h
  | succ n ih =>
    rw [List.replicate_succ', ← List.append_assoc]
    exact ih.append_nil

/-- **An interrupted recording holds the first of `frames`**, when an invariant of the stream loop
bounds what is handed on by them; `more` is data that never comes. -/
theorem holdingFirst_of_runInv {I : Dstf → List (List UInt8) → List (List UInt8) → Prop}
    {p : Program} (hI : RunInv p.maxDstLen I) (hpre : ∀ {d rs em}, I d rs em → em <+: frames)
    {c : Container} {tsproc : Bool} {w : Outside} {sq below sbuf : ℕ → UInt8} {heap : McParms}
    {tscHeap : TsProc} {ntscExact60hz : Bool} (hw : c = .mkv → ∀ f ∈ frames, WellFormed p.maxMkvLen f)
    {inputs : List TurnRead} {more : List (List UInt8)}
    (hlen : ∀ x ∈ readData inputs, x.length ≤ p.granularity)
    (h : I (dstfInit sq below) (readData inputs ++ more) []) {r : Recording} {s₀ s : Recorder}
    (hrec : recording p c tsproc (dstfInit sq below) sbuf (.start heap tscHeap ntscExact60hz) inputs =
      (r, s₀)) (hi : r.mcFormatIn = .dhav) (hs : Reach (Recorder.step r w) s₀ s) :
    ∃ k before whole, HoldingFirst r (.start heap tscHeap ntscExact60hz) frames k s before whole := by
  have hr : Ready (.start heap tscHeap ntscExact60hz) := ⟨rfl, nofun⟩
  obtain ⟨rfl, rfl⟩ := recording_parms hrec
  rcases recording_cases hrec hs with ⟨hended, hs⟩ | hfile
  · have hI' := (hI.loads.identifyInputs r.program rfl hlen h).resolve_left (not_not.mpr hended)
    obtain ⟨bufs, outs, hwhole⟩ := Recorder.wholeOutputs hs
    obtain ⟨u, hu, hhanded⟩ := hwhole.frames_prefix
    rw [hi] at hu
    obtain ⟨rs, hIu⟩ := hI.frames_of_reach hI' hu
    exact holdingFirst_of_outs hi hr rfl hw (hhanded.trans (hpre hIu)) hwhole.in_buffers
      hwhole.converted ⟨hwhole.all_but_last, hwhole.no_more⟩ hwhole.whole
  · -- the recording has ended before its loop
    exact @holdingFirst_of_outs _ _ _ _ _ [] [] hi hr rfl hw List.nil_prefix nofun rfl
      ⟨List.nil_prefix, hfile ▸ List.prefix_refl _⟩ fun _ => hfile

/-- **Whenever a recording of well-formed frames is interrupted, it holds the first of them**: by a
failed read after any part of the data, by a signal, by a failed write, at every moment. -/
theorem interrupted_stream (p : Program) (c : Container) (tsproc : Bool) (w : Outside)
    (sq below sbuf : ℕ → UInt8) (heap : McParms) (tscHeap : TsProc) (ntscExact60hz : Bool)
    (g₀ : List UInt8) (fs : List (List UInt8 × List UInt8)) (chunks : List (List UInt8))
    (h : FrameStream p g₀ fs chunks) (hw : c = .mkv → ∀ q ∈ fs, WellFormed p.maxMkvLen q.1)
    (n : ℕ) (inputs : List TurnRead) (hin : readData inputs <+: chunks ++ List.replicate n [])
    (r : Recording) (s₀ : Recorder)
    (hrec : recording p c tsproc (dstfInit sq below) sbuf (.start heap tscHeap ntscExact60hz) inputs =
      (r, s₀)) (hi : r.mcFormatIn = .dhav) (s : Recorder) (hs : Reach (Recorder.step r w) s₀ s) :
    ∃ k before whole, HoldingFirst r (.start heap tscHeap ntscExact60hz) (fs.map Prod.fst) k s before
      whole := by
  obtain ⟨more, hmore⟩ := hin
  have hre := (h.reassembly sq below).append_replicate n
  rw [← hmore] at hre
  refine holdingFirst_of_runInv (reassembly_runInv p.sizes.1) ?_ ?_ ?_ hre hrec hi hs
  · rintro d rs em ⟨-, -, -, -, ps, -, -, -, hframes⟩
    exact ⟨ps.map Prod.fst, hframes⟩
  · intro hmkv f hf
    obtain ⟨q, hq, rfl⟩ := List.mem_map.mp hf
    exact hw hmkv q hq
  · exact fun x hx => hre.reads x (List.mem_append_left _ hx)

theorem interrupted_stream_pal :
    ∃ k before whole, HoldingFirst ⟨.tanidvr, .mkv, true, .dhav⟩ (.start default default false)
      [palIFrame] k (runFor (Recorder.step ⟨.tanidvr, .mkv, true, .dhav⟩ .fullDisk) 3
        (recording .tanidvr .mkv true (dstfInit (fun _ => 0) fun _ => 0) (fun _ => 0)
          (.start default default false)
          [.data [0x44], .data (0x48 :: palIFrame ++ [0x56]), .readFailed]).2) before whole :=
  interrupted_stream .tanidvr .mkv true .fullDisk (fun _ => 0) (fun _ => 0) (fun _ => 0) default
    default false [0x44, 0x48] [(palIFrame, [0x56])] _ frameStream_pal
    (fun _ _ hq => List.mem_singleton.mp hq ▸ wellFormed_palIFrame) 0
    [.data [0x44], .data (0x48 :: palIFrame ++ [0x56]), .readFailed] (List.prefix_refl _)
    ⟨.tanidvr, .mkv, true, .dhav⟩ _ rfl rfl _ (reach_runFor 3 _)

end Stream

end TaniDVR
