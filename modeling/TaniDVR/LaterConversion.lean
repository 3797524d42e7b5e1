import TaniDVR.RecordedFile
import TaniDVR.Uninitialised

/-!
# LaterConversion — the native recording converted later

`tanidvr -m n` and `tanidvr -m m` go through a stream side by side (`Alongside`): they make the same
calls, reads and writes, and only what is written differs.  So what `dhav2mkv` makes of the native
file is compared with the Matroska file of the same moment (`native_then_convert`), through
`Replay.run` for the frames and `convertFrames_alike` for the two processes.
-/

namespace TaniDVR

open Lib Dstf StreamLoop

/-! ### Two recorders -/

/-- Two recorders at the same point, whose conversions have gone well so far. -/
def Alongside (Good Good' : Conversion → Prop) (s t : Recorder) : Prop :=
  0 ≤ s.dtconvRet ∧ Good s.conv ∧ (∀ e, s.ended ≠ some (.crashed e)) ∧ ∃ conv ret file,
    t = { s with conv := conv, dtconvRet := ret, outfile := file } ∧ 0 ≤ ret ∧ Good' conv

variable {n r : Recording} {w : Outside} {Good Good' : Conversion → Prop}
  {F : List UInt8 → Prop} {s s' t : Recorder}

namespace Recorder

theorem verdict_alongside (hp : r.program = n.program) {conv : Conversion} {ret : ℤ}
    {file : List UInt8} (h : 0 ≤ s.dtconvRet) (h' : 0 ≤ ret) :
    verdict r w { s with conv := conv, dtconvRet := ret, outfile := file } = verdict n w s := by
  unfold verdict
  simp only [hp, if_neg (not_lt.mpr h), if_neg (not_lt.mpr h')]

theorem verdict_ne_crashed (e : Fault) : verdict r w s ≠ some (.crashed e) := by
  unfold verdict
  cases r.program <;> dsimp only <;> split_ifs <;> nofun

theorem endTurn_alongside (hp : r.program = n.program) (h : Alongside Good Good' s t) :
    Alongside Good Good' (endTurn n w s) (endTurn r w t) := by
  obtain ⟨h0, hg, -, conv, ret, file, rfl, h0', hg'⟩ := h
  refine ⟨h0, hg, verdict_ne_crashed, conv, ret, file, ?_, h0', hg'⟩
  unfold endTurn
  rw [verdict_alongside hp h0 h0']

theorem goOn_alongside (hp : r.program = n.program) (h : Alongside Good Good' s t) :
    Alongside Good Good' (goOn n w s) (goOn r w t) := by
  have hend := endTurn_alongside (w := w) hp h
  obtain ⟨h0, hg, hc, conv, ret, file, rfl, h0', hg'⟩ := h
  unfold goOn
  by_cases hpos : s.dstfRet > 0
  · rw [if_pos hpos, if_pos hpos]
    exact ⟨h0, hg, hc, conv, ret, file, rfl, h0', hg'⟩
  · rw [if_neg hpos, if_neg hpos]
    exact hend

/-- A frame that both take. -/
theorem frame_alongside (hp : r.program = n.program) (hA : Accepts n Good F)
    (hA' : Accepts r Good' F) {f : List UInt8} (hf : F f) (hb : InBuffer (.ofFn s.sbuf, f))
    (h : Alongside Good Good' s t) : Alongside Good Good' (frame n w s f) (frame r w t f) := by
  obtain ⟨h0, hg, hc, conv, ret, file, rfl, h0', hg'⟩ := h
  obtain ⟨conv₁, ret₁, data₁, hout₁, hret₁, hg₁⟩ := hA.frame hg hf hb
  obtain ⟨conv₂, ret₂, data₂, hout₂, hret₂, hg₂⟩ := hA'.frame hg' hf hb
  unfold frame
  rw [hout₁, hout₂]
  dsimp only
  have hsame : (outfileWrite (w.writeError s.writes) data₂).1 =
      (outfileWrite (w.writeError s.writes) data₁).1 := by
    unfold outfileWrite
    cases w.writeError s.writes <;> rfl
  rw [hsame, hp]
  have halong : ∀ looks, Alongside Good Good'
      { s with
        conv := conv₁, dtconvRet := ret₁
        outfwriteRet := (outfileWrite (w.writeError s.writes) data₁).1, writes := s.writes + 1
        outfile := s.outfile ++ (outfileWrite (w.writeError s.writes) data₁).2, looks := looks }
      { s with
        conv := conv₂, dtconvRet := ret₂
        outfwriteRet := (outfileWrite (w.writeError s.writes) data₁).1, writes := s.writes + 1
        outfile := file ++ (outfileWrite (w.writeError s.writes) data₂).2, looks := looks } :=
    fun _ => ⟨hret₁, hg₁, hc, conv₂, ret₂, _, rfl, hret₂, hg₂⟩
  by_cases hfail : (outfileWrite (w.writeError s.writes) data₁).1 ≠ 0
  · rw [if_pos hfail, if_pos hfail]
    exact endTurn_alongside hp (halong s.looks)
  rw [if_neg hfail, if_neg hfail]
  cases n.program with
  | dhav2mkv => exact goOn_alongside hp (halong s.looks)
  | tanidvr =>
    dsimp only
    by_cases hfl : (w.flags s.looks).terminateNicely ∨ (w.flags s.looks).sigpipe ∨
        (w.flags s.looks).sigchld
    · rw [if_pos hfl, if_pos hfl]
      exact endTurn_alongside hp (halong (s.looks + 1))
    · rw [if_neg hfl, if_neg hfl]
      exact goOn_alongside hp (halong (s.looks + 1))

theorem call_alongside (hp : r.program = n.program) (hi : r.mcFormatIn = n.mcFormatIn)
    (hA : Accepts n Good F) (hA' : Accepts r Good' F) (src : List UInt8)
    (hF : ∀ f, f = (streamToFrames n.mcFormatIn s.dstf src n.program.maxDstLen).dst →
      0 < f.length → F f)
    (h : Alongside Good Good' s t) : Alongside Good Good' (call n w s src) (call r w t src) := by
  obtain ⟨h0, hg, hc, conv, ret, file, rfl, h0', hg'⟩ := h
  unfold call
  dsimp only
  rw [hp, hi]
  have halong : Alongside Good Good'
      { s with
        dstf := (streamToFrames n.mcFormatIn s.dstf src n.program.maxDstLen).dstf
        dstfRet := (streamToFrames n.mcFormatIn s.dstf src n.program.maxDstLen).ret
        sbuf := blit s.sbuf 0 (streamToFrames n.mcFormatIn s.dstf src n.program.maxDstLen).dst }
      { s with
        conv := conv, dtconvRet := ret, outfile := file
        dstf := (streamToFrames n.mcFormatIn s.dstf src n.program.maxDstLen).dstf
        dstfRet := (streamToFrames n.mcFormatIn s.dstf src n.program.maxDstLen).ret
        sbuf := blit s.sbuf 0 (streamToFrames n.mcFormatIn s.dstf src n.program.maxDstLen).dst } :=
    ⟨h0, hg, hc, conv, ret, file, rfl, h0', hg'⟩
  by_cases hpos : (streamToFrames n.mcFormatIn s.dstf src n.program.maxDstLen).dst.length > 0
  · rw [if_pos hpos, if_pos hpos]
    exact frame_alongside hp hA hA' (hF _ rfl hpos) (blit_inBuffer _ _) halong
  · rw [if_neg hpos, if_neg hpos]
    exact goOn_alongside hp halong

/-- **One step** of both, next to the stream loop. -/
theorem step_alongside (hp : r.program = n.program) (hi : r.mcFormatIn = n.mcFormatIn)
    (hA : Accepts n Good F) (hA' : Accepts r Good' F) {conv₀ : Conversion} {u : StreamLoop}
    (hF : ∀ u', Reach (StreamLoop.step n.mcFormatIn n.program.maxDstLen) u u' →
      ∀ f ∈ u'.frames, F f)
    (hs : Follows n conv₀ u s) (ht : Follows r conv₀ u t) (h : Alongside Good Good' s t)
    (hst : step n w s = some s') :
    ∃ t' u', step r w t = some t' ∧ Reach (StreamLoop.step n.mcFormatIn n.program.maxDstLen) u u' ∧
      Follows n conv₀ u' s' ∧ Follows r conv₀ u' t' ∧ Alongside Good Good' s' t' := by
  have hsame : ∃ conv ret file, t = { s with conv := conv, dtconvRet := ret, outfile := file } :=
    let ⟨_, _, _, conv, ret, file, heq, _⟩ := h
    ⟨conv, ret, file, heq⟩
  obtain ⟨conv, ret, file, rfl⟩ := hsame
  unfold step at hst ⊢
  rcases hs with hs | hs
  swap
  · rw [if_pos hs.ended] at hst
    cases hst
  have hrun := hs.running
  replace ht := ht.resolve_right fun ht => ht.ended hrun
  rw [if_neg (by simp [hrun])] at hst ⊢
  -- one call of both
  have hcall : ∀ {v : StreamLoop} {a b : Recorder} (src : List UInt8), Runs n conv₀ v a →
      Runs r conv₀ v b → Alongside Good Good' a b →
      Reach (StreamLoop.step n.mcFormatIn n.program.maxDstLen) u
        (v.call n.mcFormatIn n.program.maxDstLen src) →
      ∃ t' u', some (call r w b src) = some t' ∧
        Reach (StreamLoop.step n.mcFormatIn n.program.maxDstLen) u u' ∧
        Follows n conv₀ u' (call n w a src) ∧ Follows r conv₀ u' t' ∧
        Alongside Good Good' (call n w a src) t' := by
    intro v a b src ha hb hab hreach
    refine ⟨_, _, rfl, hreach, .of_call src ha.running ha.dstf ha.reads ha.written ha.processed, ?_,
      call_alongside hp hi hA hA' src (fun f hf hpos => ?_) hab⟩
    · rw [← hi, ← hp]
      exact .of_call src hb.running hb.dstf hb.reads hb.written hb.processed
    · refine hF _ hreach f ?_
      rw [call_frames, ha.dstf, ← hf, if_pos hpos]
      simp
  rcases hs.ret with ⟨hdr, hpos⟩ | ⟨hdr, hzero⟩
  · rw [if_pos hdr, Option.some.injEq] at hst
    rw [if_pos (by exact hdr)]
    subst hst
    exact hcall [] hs ht h (.head (step_of_pos hpos) (.refl _))
  rw [if_neg (by simp [hdr])] at hst ⊢
  obtain ⟨h0, hg, hc, conv', ret', file', heq, h0', hg'⟩ := h
  obtain ⟨rfl, rfl, rfl⟩ : conv = conv' ∧ ret = ret' ∧ file = file' := by
    simpa using heq
  dsimp only at ht ⊢
  cases hin : s.inputs with
  | nil =>
    rw [hin] at hst
    cases hst
  | cons i ins =>
    rw [hin] at hst
    -- the reads that fail end both
    have hfailed : ∀ e : Ending, (∀ e', e ≠ .crashed e') →
        some { s with inputs := ins, ended := some e } = some s' →
        ∃ t' u', some { s with
            conv := conv, inputs := ins, dtconvRet := ret, outfile := file, ended := some e } =
            some t' ∧ Reach (StreamLoop.step n.mcFormatIn n.program.maxDstLen) u u' ∧
          Follows n conv₀ u' s' ∧ Follows r conv₀ u' t' ∧ Alongside Good Good' s' t' := by
      intro e he hst
      rw [Option.some.injEq] at hst
      subst hst
      exact ⟨_, u, rfl, .refl u, .inr ⟨nofun, .inl hs.processed⟩, .inr ⟨nofun, .inl ht.processed⟩,
        h0, hg, fun e' h => he e' (Option.some.inj h), conv, ret, file, rfl, h0', hg'⟩
    cases i with
    | pollFailed => exact hfailed .pollFailed nofun hst
    | readFailed => exact hfailed .readFailed nofun hst
    | data c =>
      rw [Option.some.injEq] at hst
      subst hst
      have hreads := hs.reads
      rw [hin, readData] at hreads
      obtain ⟨bufs, outs, h1, h2, h3, h4, h5, h6⟩ := hs.processed
      obtain ⟨bufs', outs', h1', h2', h3', h4', h5', h6'⟩ := ht.processed
      refine hcall (v := { u with reads := readData ins }) c
        ⟨hrun, hs.dstf, rfl, .inr ⟨hdr, hzero⟩, rfl, bufs, outs, h1, h2, h3, h4, h5,
          fun _ => h6 hs.written⟩
        ⟨hrun, hs.dstf, rfl, .inr ⟨hdr, hzero⟩, rfl, bufs', outs', h1', h2', h3', h4', h5',
          fun _ => h6' ht.written⟩
        ⟨le_rfl, hg, hc, conv, 0, file, rfl, le_rfl, hg'⟩ (.head ?_ (.refl _))
      rw [StreamLoop.step, if_neg (by omega), if_neg (by omega), hreads]

end Recorder

/-- What the step lemma keeps holds along a whole run. -/
theorem Recorder.run_alongside (hp : r.program = n.program) (hi : r.mcFormatIn = n.mcFormatIn)
    (hA : Accepts n Good F) (hA' : Accepts r Good' F) {conv₀ : Conversion} {u : StreamLoop}
    (hF : ∀ u', Reach (StreamLoop.step n.mcFormatIn n.program.maxDstLen) u u' →
      ∀ f ∈ u'.frames, F f)
    (hs : Follows n conv₀ u s) (ht : Follows r conv₀ u t) (h : Alongside Good Good' s t)
    (hrun : Reach (step n w) s s') :
    ∃ t' u', Reach (step r w) t t' ∧
      Reach (StreamLoop.step n.mcFormatIn n.program.maxDstLen) u u' ∧
      Follows n conv₀ u' s' ∧ Follows r conv₀ u' t' ∧ Alongside Good Good' s' t' := by
  have hsim := hrun.simulated (f := step r w) (a := t)
    (R := fun a b => ∃ u', Reach (StreamLoop.step n.mcFormatIn n.program.maxDstLen) u u' ∧
      Follows n conv₀ u' a ∧ Follows r conv₀ u' b ∧ Alongside Good Good' a b) ?_
    ⟨u, .refl u, hs, ht, h⟩
  · obtain ⟨t', ht', u', hu', h'⟩ := hsim
    exact ⟨t', u', ht', hu', h'⟩
  · rintro a a' b ⟨u', hu', ha, hb, hab⟩ hst
    obtain ⟨b', u'', hb', hu'', h'⟩ := step_alongside hp hi hA hA'
      (fun v hv => hF v (hu'.trans hv)) ha hb hab hst
    exact ⟨b', .head hb' (.refl b'), u'', hu'.trans hu'', h'⟩

/-- Without a fault the frames handed on are processed. -/
theorem Recorder.Follows.processed {conv₀ : Conversion} {u : StreamLoop} (h : Follows r conv₀ u s)
    (hne : ∀ e, s.ended ≠ some (.crashed e)) : Processed r conv₀ u.frames s := by
  rcases h with h | ⟨-, h | ⟨e, -, -, he, -⟩⟩
  · exact h.processed
  · exact h
  · exact absurd he (hne e)

/-! ### The frames of the stream loop -/

section Frames

variable {d : Dstf} {m : ℕ}

/-- What a call hands on stood as a frame at a head. -/
theorem dhav_call_head (d : Dstf) (src : List UInt8) (m : ℕ) :
    (dstfProcessDhavStreamToFrames d src m).dstf.sqMaxlen = d.sqMaxlen ∧
      ((dstfProcessDhavStreamToFrames d src m).dst = [] ∨ ∃ h : Dstf, h.check = .frame ∧
        h.sqMaxlen = d.sqMaxlen ∧
        (dstfProcessDhavStreamToFrames d src m).dst = slice h.sq h.sqOffs h.repLen) := by
  have hc := dhav_call d src m
  generalize dstfProcessDhavStreamToFrames d src m = o at hc
  cases hc with
  | full => exact ⟨rfl, .inl rfl⟩
  | more hl hs =>
    refine ⟨?_, .inl rfl⟩
    cases hs with
    | short => exact load_sqMaxlen hl
    | wait hp => exact hp.sqMaxlen.trans (load_sqMaxlen hl)
    | drained hp => exact hp.sqMaxlen.trans (load_sqMaxlen hl)
  | refused hl hp => exact ⟨hp.sqMaxlen.trans (load_sqMaxlen hl), .inl rfl⟩
  | @frame l h hl hp hf =>
    have hmax := hp.sqMaxlen.trans (load_sqMaxlen hl)
    dsimp only
    refine ⟨?_, .inr ⟨h, hf, hmax, rfl⟩⟩
    rw [skip_sqMaxlen, hmax]

/-- **The frames of 16 bytes or more are whole.** -/
theorem StreamLoop.frames_whole {reads : List (List UInt8)} {u : StreamLoop}
    (hmax : d.sqMaxlen = tMcParmsDhavStf) (hu : Reach (StreamLoop.step .dhav m) (.start d reads) u) :
    ∀ f ∈ u.frames, 16 ≤ f.length → WholeFrame f := by
  have hcall : ∀ (u : StreamLoop) src, u.dstf.sqMaxlen = tMcParmsDhavStf ∧
      (∀ f ∈ u.frames, 16 ≤ f.length → WholeFrame f) →
      (u.call .dhav m src).dstf.sqMaxlen = tMcParmsDhavStf ∧
        ∀ f ∈ (u.call .dhav m src).frames, 16 ≤ f.length → WholeFrame f := by
    rintro u src ⟨hmax, hfs⟩
    obtain ⟨hmax', hdst⟩ := dhav_call_head u.dstf src m
    rw [call_dstf, call_frames, streamToFrames_dhav]
    refine ⟨hmax'.trans hmax, fun f hf h16 => ?_⟩
    split_ifs at hf
    swap
    · exact hfs f hf h16
    rcases List.mem_append.mp hf with hf | hf
    · exact hfs f hf h16
    rw [List.mem_singleton] at hf
    rw [hf] at h16 ⊢
    rcases hdst with hnil | ⟨h, hc, hm, hs⟩
    · rw [hnil, List.length_nil] at h16
      omega
    · rw [hs] at h16 ⊢
      rw [length_slice] at h16
      exact whole_of_check hc (by rw [hm, hmax]; exact tMcParmsDhavStf_lt) h16
  refine (hu.invariant (P := fun u => u.dstf.sqMaxlen = tMcParmsDhavStf ∧
    ∀ f ∈ u.frames, 16 ≤ f.length → WholeFrame f) ?_ ⟨hmax, nofun⟩).2
  intro u u' h hst
  obtain ⟨-, rfl⟩ | ⟨-, c, cs, -, rfl⟩ := step_eq_some hst
  · exact hcall u [] h
  · exact hcall { u with reads := cs } c h

/-- Identification keeps the size of the queue, and nothing crashes in it. -/
theorem identifyInputs_leaves (p : Program) (d : Dstf) (inputs : List TurnRead) :
    (identifyInputs p d inputs).2.1.sqMaxlen = d.sqMaxlen ∧
      ∀ e, (identifyInputs p d inputs).1 ≠ some (.crashed e) := by
  induction inputs generalizing d with
  | nil => exact ⟨rfl, fun e => by simp [identifyInputs]⟩
  | cons i ins ih =>
    unfold identifyInputs
    by_cases hsp : d.sqMaxlen - d.sqLen ≥ 2 * p.granularity
    swap
    · rw [if_neg hsp]
      exact ⟨rfl, by simp⟩
    rw [if_pos hsp]
    cases i with
    | pollFailed => exact ⟨rfl, by simp⟩
    | readFailed => exact ⟨rfl, by simp⟩
    | data c =>
      dsimp only
      split_ifs
      · exact ⟨rfl, by simp⟩
      · exact ih _
      · exact ⟨rfl, by simp⟩
      · exact ih _

end Frames

/-! ### The size of the buffer -/

section Room

variable {tsproc : Bool} {m m' : ℕ} {st : Conversion} {f : List UInt8}

theorem WellFormed.mono (h : WellFormed m f) (hm : m ≤ m') : WellFormed m' f :=
  ⟨h.taken, h.fits, h.rate, h.height, h.room.trans hm⟩

/-- A usable frame with room for it is converted alike with more. -/
theorem dtConvertFrameToMkv_room {mc : McParms} {src : Mem} (n : ℕ) (firstFrame : Bool)
    (vcodec : MCodec) (hm : m ≤ m') (h : Usable mc → 35 + mc.bodyLen + 420 ≤ m ∧ mc.bodyLen < 2 ^ 55) :
    dtConvertFrameToMkv mc src n m firstFrame vcodec =
      dtConvertFrameToMkv mc src n m' firstFrame vcodec := by
  by_cases hu : Usable mc
  · obtain ⟨hroom, hlt⟩ := h hu
    have hle : wholeClusterHeaderLoad + wholeSimpleblockHeaderLoad + mc.bodyLen +
        (if firstFrame then wholeMainHeaderLoad else 0) ≤ m := by
      unfold wholeClusterHeaderLoad wholeSimpleblockHeaderLoad wholeMainHeaderLoad
      split_ifs <;> omega
    have hwrap : toSizeT ((wholeClusterHeaderLoad : ℤ) + wholeSimpleblockHeaderLoad + mc.bodyLen +
        ((if firstFrame then wholeMainHeaderLoad else 0 : ℕ) : ℤ)) ≤ m := by
      refine le_trans (le_of_eq ?_) hle
      unfold toSizeT wholeClusterHeaderLoad wholeSimpleblockHeaderLoad wholeMainHeaderLoad
      split_ifs <;> omega
    unfold dtConvertFrameToMkv
    simp only [if_neg (not_lt.mpr hle), if_neg (not_lt.mpr hwrap), if_neg (not_lt.mpr (hle.trans hm)),
      if_neg (not_lt.mpr (hwrap.trans hm)), gt_iff_lt]
  · unfold dtConvertFrameToMkv
    rcases not_usable_iff.mp hu with ht | ⟨ht, hv⟩
    · simp only [if_pos ht]
    · simp only [if_neg ht, if_pos hv]

/-- **A well-formed frame is converted alike into a longer buffer.** -/
theorem convertFrame_room (hw : WellFormed m f) (hm : m ≤ m') :
    convertFrame .dhav tsproc m st (.ofFrame f) f.length =
      convertFrame .dhav tsproc m' st (.ofFrame f) f.length := by
  have hfits := hw.fits
  unfold convertFrame
  cases hcol : collectFrameInfo .dhav st.mc (.ofFrame f) f.length with
  | error e => rfl
  | ok o =>
    obtain ⟨ret, mc⟩ := o
    simp only [bind, Except.bind]
    rcases correctTimestamp_cases .dhav tsproc st.tsc mc with ⟨-, -, -, -, he⟩ | ⟨-, tsc, v, he, -⟩
    · rw [he]
    · rw [he]
      dsimp only
      rw [dtConvertFrameToMkv_room _ _ _ hm]
      intro hu
      obtain ⟨hp, hl⟩ := collect_usable hfits hcol hu
      have hlt := hw.lt
      have hbl := dhavBodyLen_of_fits hfits (by omega)
      have hroom := hw.room
      have hbody : (frameBody f).length = mc.bodyLen := by
        rw [hl, hbl]
        simp only [frameBody, List.length_take, List.length_drop]
        omega
      exact ⟨hbody ▸ hroom, show mc.bodyLen < 2 ^ 55 by omega⟩

theorem convertFrames_room {frames : List (List UInt8)} (hw : ∀ f ∈ frames, WellFormed m f)
    (hm : m ≤ m') : convertFrames .dhav tsproc m st (toConvert frames) =
      convertFrames .dhav tsproc m' st (toConvert frames) := by
  induction frames generalizing st with
  | nil => rfl
  | cons f frames ih =>
    have ih := fun {st} => @ih st fun f hf => hw f (List.mem_cons_of_mem _ hf)
    simp only [toConvert] at ih
    simp only [toConvert, List.map_cons, convertFrames, convertFrame_room (hw f (by simp)) hm, ih]

end Room

/-! ### The file read back -/

theorem ReadsFrom.flatten {g e : ℕ} {file : List UInt8} {rs : List (List UInt8)}
    (h : ReadsFrom g file e rs) : rs.flatten = file.drop e := by
  induction h with
  | done => simp
  | eof => simp
  | @data e rs hlt _ _ ih =>
    rw [List.flatten_cons, ih]
    rcases Nat.le_total (e + g) file.length with hle | hle
    · rw [Nat.min_eq_left hle, ← List.drop_drop, List.take_append_drop]
    · rw [Nat.min_eq_right hle, List.drop_length, List.append_nil,
        List.take_of_length_le (by rw [List.length_drop]; omega)]

theorem infileReads_pieces {g : ℕ} (hg : 0 < g) (file : List UInt8) :
    (infileReads g file).flatten = file ∧ ∀ c ∈ infileReads g file, c ≠ [] ∧ c.length ≤ g := by
  refine ⟨by simpa using (readsFrom_infileReads hg file).flatten, fun c hc => ?_⟩
  obtain ⟨k, hk, rfl⟩ := List.mem_map.mp hc
  have hlt : k * g < file.length := by
    have := (Nat.le_div_iff_mul_le hg).mp (List.mem_range.mp hk : k + 1 ≤ _)
    rw [Nat.succ_mul] at this
    omega
  refine ⟨List.ne_nil_of_length_pos ?_, List.length_take_le _ _⟩
  rw [List.length_take, List.length_drop]
  omega

/-- The format that `dhav2mkv` identifies. -/
theorem recording_file_format (c : Container) (tsproc : Bool) (d : Dstf) (sbuf : ℕ → UInt8)
    (conv : Conversion) (file : List UInt8) :
    (recording .dhav2mkv c tsproc d sbuf conv (fileInputs (infileReads 10000 file))).1.mcFormatIn =
      (processDhavStream d file).1 := by
  obtain ⟨extra, hid⟩ := identifyInputs_dhav2mkv d fun c hc =>
    ((infileReads_pieces (g := 10000) (by decide) file).2 c hc).1
  rw [recording, hid]
  rfl

/-- **`dhav2mkv` turns a dump of well-formed frames into their conversion.** -/
theorem dump_converted (tsproc : Bool) (sq below sbuf : ℕ → UInt8) (heap : McParms) (tscHeap : TsProc)
    (ntscExact60hz : Bool) {frames : List (List UInt8)}
    (hgood : ∀ f ∈ frames, WholeFrame f ∧ WellFormed 1000000 f ∧ f.length ≤ 990000)
    (hraw : ¬ TakenForRaw frames.flatten) {c : Recording} {v₀ : Recorder}
    (hrec : recording .dhav2mkv .mkv tsproc (dstfInit sq below) sbuf
      (.start heap tscHeap ntscExact60hz) (fileInputs (infileReads 10000 frames.flatten)) = (c, v₀)) :
    ∃ v outs, Halts (Recorder.step c .calm) v₀ v ∧ v.ended = some .noMoreData ∧
      convertFrames .dhav tsproc 1000000 (.start heap tscHeap ntscExact60hz) (toConvert frames) =
        .ok outs ∧ v.outfile = outfile outs := by
  obtain ⟨hm, hG⟩ := Program.dhav2mkv.sizes
  obtain ⟨hflat, hpieces⟩ := infileReads_pieces (g := 10000) (by decide) frames.flatten
  have hfmt := recording_file_format .mkv tsproc (dstfInit sq below) sbuf
    (.start heap tscHeap ntscExact60hz) frames.flatten
  rw [hrec, not_not.mp (mt (processDhavStream_raw_iff sq below _).mp hraw)] at hfmt
  have hinit : Replay ([] :: infileReads 10000 frames.flatten) frames (dstfInit sq below)
      (infileReads 10000 frames.flatten) [] :=
    ⟨dstfInit_fits sq below, rfl, fun x hx => List.mem_cons_of_mem _ hx, frames, hflat,
      fun f hf => ⟨(hgood f hf).1, (hgood f hf).2.1.taken⟩, rfl⟩
  obtain ⟨d, reads, extra, hp, hc, hts, hstart, hreads, hI, hroom, hnone⟩ :=
    recording_identified (p := .dhav2mkv) (replay_runInv hm).loads .mkv tsproc sq below sbuf
      (.start heap tscHeap ntscExact60hz) hpieces
      (fun {d rs} h => ⟨h.fits, h.maxlen, fun x hx => (List.mem_append.mp hx).elim (h.reads x)
        fun hx => by simp [List.mem_singleton.mp hx], by simpa using h.layout⟩) hinit
  rw [allInputs, hrec] at hp hc hts hstart hreads
  dsimp only at hp hc hts hstart hreads hfmt
  have hrun := hI.run hm hG (fun x hx => ?_) (fun f hf => ?_) hroom fun hnil => ?_
  · obtain ⟨l, hl, hret, hframes⟩ := hrun
    have hr : Ready (.start heap tscHeap ntscExact60hz) := ⟨rfl, fun h => by cases h⟩
    rw [← hp] at hl hret
    have hwide : ∀ f ∈ frames, WellFormed c.program.maxMkvLen f := fun f hf =>
      (hgood f hf).2.1.mono (by rw [hp]; decide)
    obtain ⟨v, hv, hend, hhold⟩ := holding_of_run hfmt hr rfl (fun _ => hwide) sbuf hreads hl hret
      hframes
    obtain ⟨outs, houts, -, hfile⟩ := hhold.mkv hc
    rw [← hstart] at hv
    rw [hts, ← convertFrames_room (fun f hf => (hgood f hf).2.1) (by rw [hp]; decide)] at houts
    exact ⟨v, outs, hv, by rw [hend, if_pos hp], houts, hfile⟩
  · rcases List.mem_cons.mp hx with rfl | hx
    · exact Nat.zero_le _
    · exact (hpieces x hx).2
  · have := (hgood f hf).2.2
    show f.length + 10000 ≤ 1000000
    omega
  · -- the empty read at the end is still to come
    obtain ⟨rs, hrs, -⟩ : ∃ rs, reads = rs ++ [[]] ∧ ∀ x ∈ rs, x ≠ [] := by
      simpa [Reads, hp] using hreads
    rw [hnil] at hrs
    simp at hrs

/-! ### Both ways -/

/-- A recording at its start has processed nothing. -/
theorem follows_recording (p : Program) (c : Container) (tsproc : Bool) (d : Dstf) (sbuf : ℕ → UInt8)
    (conv : Conversion) (inputs : List TurnRead) {s₀ : Recorder}
    (h : (recording p c tsproc d sbuf conv inputs).2 = s₀) (r : Recording) :
    Recorder.Follows r conv (.start s₀.dstf (readData s₀.inputs)) s₀ := by
  have hproc : Recorder.Processed r conv [] s₀ := by
    subst h
    exact ⟨[], [], rfl, nofun, rfl, List.prefix_refl _, List.prefix_refl _, fun _ => rfl⟩
  by_cases hended : s₀.ended = none
  · subst h
    exact .inl ⟨hended, rfl, rfl, .inr ⟨rfl, rfl⟩, rfl, hproc⟩
  · exact .inr ⟨hended, .inl hproc⟩

/-- **Recording natively and converting later gives the file of recording in Matroska**: for every
input, interrupted at any moment by signals or failing reads, when the frames are well formed, the
queue of `dhav2mkv` takes them and the native file is not taken for raw H.264. -/
theorem native_then_convert (tsproc ntscExact60hz : Bool) (w : Outside) (sq below sbuf : ℕ → UInt8)
    (heap : McParms) (tscHeap : TsProc) (inputs : List TurnRead) (n r : Recording) (s₀ t₀ : Recorder)
    (hn : recording .tanidvr .native tsproc (dstfInit sq below) sbuf
      (.start heap tscHeap ntscExact60hz) inputs = (n, s₀))
    (hr : recording .tanidvr .mkv tsproc (dstfInit sq below) sbuf
      (.start heap tscHeap ntscExact60hz) inputs = (r, t₀))
    (hi : n.mcFormatIn = .dhav)
    (hgood : ∀ u, Reach (StreamLoop.step .dhav Program.tanidvr.maxDstLen)
        (.start s₀.dstf (readData s₀.inputs)) u →
      ∀ f ∈ u.frames, WellFormed Program.tanidvr.maxMkvLen f ∧ f.length ≤ 990000)
    (s : Recorder) (hs : Reach (Recorder.step n w) s₀ s) (hw : s.outfwriteRet = 0)
    (hraw : ¬ TakenForRaw s.outfile) :
    ∃ t, Reach (Recorder.step r w) t₀ t ∧ t.ended = s.ended ∧ t.inputs = s.inputs ∧
      t.writes = s.writes ∧ t.looks = s.looks ∧ t.outfwriteRet = 0 ∧
      ∀ (sq' below' sbuf' : ℕ → UInt8) (heap' : McParms) (tscHeap' : TsProc) (c : Recording)
        (v₀ : Recorder), recording .dhav2mkv .mkv tsproc (dstfInit sq' below') sbuf'
          (.start heap' tscHeap' ntscExact60hz) (fileInputs (infileReads 10000 s.outfile)) = (c, v₀) →
        ∃ v, Halts (Recorder.step c .calm) v₀ v ∧ v.ended = some .noMoreData ∧
          v.outfile = t.outfile := by
  have hn' := follows_recording .tanidvr .native tsproc (dstfInit sq below) sbuf
    (.start heap tscHeap ntscExact60hz) inputs (congrArg Prod.snd hn) n
  have hr' := follows_recording .tanidvr .mkv tsproc (dstfInit sq below) sbuf
    (.start heap tscHeap ntscExact60hz) inputs (congrArg Prod.snd hr) r
  have hnp : n.program = .tanidvr := (congrArg (·.1.program) hn).symm
  have hnc : n.mcFormatOut = .native := (congrArg (·.1.mcFormatOut) hn).symm
  have hrc : r.mcFormatOut = .mkv := (congrArg (·.1.mcFormatOut) hr).symm
  have hrp : r.program = .tanidvr := (congrArg (·.1.program) hr).symm
  have hts : r.tsproc = tsproc := (congrArg (·.1.tsproc) hr).symm
  have hri : r.mcFormatIn = n.mcFormatIn :=
    (congrArg (·.1.mcFormatIn) hr).symm.trans (congrArg (·.1.mcFormatIn) hn)
  obtain rfl : s₀ = t₀ := (congrArg Prod.snd hn).symm.trans (congrArg Prod.snd hr)
  have hs₀ := (congrArg Prod.snd hn).symm
  have hready : Ready (.start heap tscHeap ntscExact60hz) := ⟨rfl, nofun⟩
  have hstart : Alongside (fun _ => True) Ready s₀ s₀ := by
    refine ⟨(congrArg Recorder.dtconvRet hs₀).ge, trivial, fun e => ?_, s₀.conv, s₀.dtconvRet,
      s₀.outfile, rfl, (congrArg Recorder.dtconvRet hs₀).ge, ?_⟩
    · rw [congrArg Recorder.ended hs₀]
      exact (identifyInputs_leaves _ _ _).2 e
    · rw [congrArg Recorder.conv hs₀]
      exact hready
  have hsq : s₀.dstf.sqMaxlen = tMcParmsDhavStf := by
    rw [congrArg Recorder.dstf hs₀]
    exact (identifyInputs_leaves .tanidvr (dstfInit sq below) inputs).1
  have hA : Accepts n (fun _ => True) (WellFormed Program.tanidvr.maxMkvLen) :=
    ⟨fun hg _ hb => (accepts_native hnc).frame hg trivial hb⟩
  have hA' : Accepts r Ready (WellFormed Program.tanidvr.maxMkvLen) := by
    rw [← hrp]
    exact accepts_mkv hrc (hri.trans hi)
  obtain ⟨t, u, ht, hu, hfs, hft, hside⟩ := Recorder.run_alongside (hrp.trans hnp.symm) hri hA hA'
    (fun u hu f hf => (hgood u (by rwa [hi, hnp] at hu) f hf).1) hn' hr' hstart hs
  rw [hi, hnp] at hu
  obtain ⟨-, -, hne, conv, ret, file, rfl, -, -⟩ := hside
  refine ⟨_, ht, rfl, rfl, rfl, rfl, hw, ?_⟩
  intro sq' below' sbuf' heap' tscHeap' c v₀ hrec
  -- the native file is the frames
  obtain ⟨bufs, outs, hbufs, -, hout, -, -, hfile⟩ := hfs.processed hne
  rw [framesOut_native hnc, Except.ok.injEq, Prod.mk.injEq, hbufs] at hout
  have hdump : s.outfile = u.frames.flatten := by rw [hfile hw, ← hout.2]
  rw [hdump] at hrec hraw
  have hwf : ∀ f ∈ u.frames, WholeFrame f ∧ WellFormed 1000000 f ∧ f.length ≤ 990000 := by
    intro f hf
    obtain ⟨h1, h2⟩ := hgood u hu f hf
    have hfits := h1.fits
    exact ⟨StreamLoop.frames_whole hsq hu f hf (by
      unfold ExtHeaderFits dhavBodyOffset baseDhavHdrLen at hfits
      omega), h1, h2⟩
  -- what each way makes of them
  obtain ⟨v, outs', hv, hend, hconv', hvfile⟩ := dump_converted tsproc sq' below' sbuf' heap' tscHeap'
    ntscExact60hz hwf hraw hrec
  refine ⟨v, hv, hend, hvfile.trans ?_⟩
  obtain ⟨bufs', outs₂, hbufs', hin', hout', -, -, hfile'⟩ := hft.processed hne
  have hhold := holding_of_outs (hri.trans hi) hready rfl
    (fun _ f hf => by rw [hrp]; exact (hwf f hf).2.1) hbufs' hin' hout'
  obtain ⟨outs₃, hconv₃, -, hfile₃⟩ := hhold.mkv hrc
  rw [hfile' hw, hfile₃]
  rw [hts, hrp, show Program.tanidvr.maxMkvLen = 1000000 from rfl] at hconv₃
  have hstart : Alike .dhav tsproc (.start heap tscHeap ntscExact60hz)
      (.start heap' tscHeap' ntscExact60hz) :=
    Alike.start heap heap' tscHeap tscHeap' ntscExact60hz
  have halike := convertFrames_alike 1000000 (toConvert u.frames) hstart
  rw [hconv', hconv₃] at halike
  have hmap : ∀ os : List (McParms × Converted), outfile os =
      (os.map Prod.snd).flatMap fun o => o.dst.take o.dstLen := fun os => by
    rw [outfile, List.flatMap_map]
  have halike : outs₃.map Prod.snd = outs'.map Prod.snd := halike
  rw [hmap, hmap, halike]

/-- The start of `tanidvr` with one frame and one byte more to read. -/
def palRecording (c : Container) : Recording × Recorder :=
  recording .tanidvr c true (dstfInit (fun _ => 0) fun _ => 0) (fun _ => 0)
    (.start default default false) [.data (0x48 :: palIFrame), .data [], .data [0x44]]

theorem native_then_convert_pal :
    ∃ t, Reach (Recorder.step (palRecording .mkv).1 .calm) (palRecording .mkv).2 t ∧
      t.ended = none ∧ t.inputs = [] ∧ t.writes = 1 ∧ t.looks = 3 ∧ t.outfwriteRet = 0 ∧
      ∀ (sq' below' sbuf' : ℕ → UInt8) (heap' : McParms) (tscHeap' : TsProc) (c : Recording)
        (v₀ : Recorder), recording .dhav2mkv .mkv true (dstfInit sq' below') sbuf'
          (.start heap' tscHeap' false) (fileInputs (infileReads 10000 palIFrame)) = (c, v₀) →
        ∃ v, Halts (Recorder.step c .calm) v₀ v ∧ v.ended = some .noMoreData ∧
          v.outfile = t.outfile := by
  refine native_then_convert true false .calm (fun _ => 0) (fun _ => 0) (fun _ => 0) default default
    [.data (0x48 :: palIFrame), .data [], .data [0x44]] (palRecording .native).1 (palRecording .mkv).1
    (palRecording .native).2 _ rfl rfl rfl ?_
    (runFor (Recorder.step (palRecording .native).1 .calm) 3 (palRecording .native).2)
    (reach_runFor 3 _) rfl ?_
  · intro u hu f hf
    have hl : Halts (StreamLoop.step .dhav Program.tanidvr.maxDstLen)
        (.start (palRecording .native).2.dstf (readData (palRecording .native).2.inputs))
        (runFor (StreamLoop.step .dhav Program.tanidvr.maxDstLen) 4
          (.start (palRecording .native).2.dstf (readData (palRecording .native).2.inputs))) :=
      ⟨reach_runFor 4 _, rfl⟩
    have hpre : u.frames <+: [palIFrame] := StreamLoop.frames_prefix (hl.of_reach hu).1
    obtain rfl := List.mem_singleton.mp (hpre.subset hf)
    exact ⟨wellFormed_palIFrame, by decide⟩
  · rintro ⟨n, heq | ⟨⟨k, rfl⟩, hle⟩, -, hraw⟩
    · rw [heq] at hraw
      exact absurd hraw (by decide)
    · have hle : 10000 * k ≤ 42 := hle
      obtain rfl : k = 0 := by omega
      cases hraw
end TaniDVR
