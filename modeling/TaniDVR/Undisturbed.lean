import TaniDVR.Recorder

/-!
# Undisturbed — recordings that come to their end

Without signals and write errors, with every read a piece of data, a recorder makes the whole run of
the stream loop: `dhav2mkv` ends after the empty read at the end of its file, `tanidvr` waits for
more data (`undisturbed_run`).  `Accepts` is what the frames must be like: the parser, the corrector
and the writer take each of them.
-/

namespace TaniDVR

open Lib Dstf StreamLoop

/-- Every frame of the kind `F` is processed without a fault and without a negative result. -/
structure Accepts (r : Recording) (Good : Conversion → Prop) (F : List UInt8 → Prop) : Prop where
  frame : ∀ {conv : Conversion} {src : Mem} {f : List UInt8}, Good conv → F f → InBuffer (src, f) →
    ∃ conv' ret data, frameOut r conv src f = .ok (conv', ret, data) ∧ 0 ≤ ret ∧ Good conv'

/-- What `infile_read` still gives: only the last read is empty, and the loop ends with it. -/
def BeforeEof (reads : List (List UInt8)) (s : Recorder) : Prop :=
  (∃ rs, reads = rs ++ [[]] ∧ (∀ c ∈ rs, c ≠ []) ∧ (s.draining = true → s.infreadRet ≠ 0)) ∨
    reads = [] ∧ s.draining = true ∧ s.infreadRet = 0

/-- A recorder that nothing has disturbed, next to the stream loop; there may be more reads than the
loop makes. -/
structure Calm (r : Recording) (conv₀ : Conversion) (Good : Conversion → Prop)
    (extra : List (List UInt8)) (u : StreamLoop) (s : Recorder) : Prop where
  runs : Recorder.Runs r conv₀ { u with reads := u.reads ++ extra } s
  data : s.inputs = (u.reads ++ extra).map .data
  dtconv : 0 ≤ s.dtconvRet
  good : Good s.conv
  eof : r.program = .dhav2mkv → BeforeEof u.reads s

/-- A recorder that has come to the end of its file. -/
structure AtEnd (r : Recording) (conv₀ : Conversion) (u : StreamLoop) (s : Recorder) : Prop where
  program : r.program = .dhav2mkv
  reads : u.reads = []
  ret : u.dstfRet = 0
  ended : s.ended = some .noMoreData
  written : s.outfwriteRet = 0
  processed : Recorder.Processed r conv₀ u.frames s

variable {r : Recording} {conv₀ : Conversion} {Good : Conversion → Prop} {F : List UInt8 → Prop}
  {extra : List (List UInt8)} {u u' : StreamLoop} {s : Recorder}

namespace Recorder

/-- Undisturbed, a turn ends well or at the end of the file. -/
theorem verdict_calm (hret : 0 ≤ s.dstfRet) (hconv : 0 ≤ s.dtconvRet) (hw : s.outfwriteRet = 0) :
    verdict r .calm s =
      if r.program = .dhav2mkv ∧ s.infreadRet = 0 then some .noMoreData else none := by
  have h1 : ¬ s.dstfRet < 0 := not_lt.mpr hret
  have h2 : ¬ s.dtconvRet < 0 := not_lt.mpr hconv
  unfold verdict
  cases r.program with
  | dhav2mkv =>
    simp only [if_neg h1, if_neg h2, hw, ne_eq, not_true_eq_false, if_false, true_and]
  | tanidvr =>
    simp [Outside.calm, h1, h2, hw]

/-- What an undisturbed call leaves, besides what is processed. -/
structure CallLeaves (r : Recording) (Good : Conversion → Prop) (inputs : List TurnRead)
    (infreadRet : ℕ) (ret : ℤ) (t : Recorder) : Prop where
  inputs : t.inputs = inputs
  infread : t.infreadRet = infreadRet
  dtconv : 0 ≤ t.dtconvRet
  good : Good t.conv
  written : t.outfwriteRet = 0
  draining : t.draining = decide (0 < ret)
  ended : t.ended = if 0 < ret then none
    else if r.program = .dhav2mkv ∧ infreadRet = 0 then some .noMoreData else none

theorem goOn_leaves {ret : ℤ} (hn : s.ended = none) (hret : s.dstfRet = ret) (h0 : 0 ≤ ret)
    (hconv : 0 ≤ s.dtconvRet) (hg : Good s.conv) (hw : s.outfwriteRet = 0) :
    CallLeaves r Good s.inputs s.infreadRet ret (goOn r .calm s) := by
  subst hret
  unfold goOn
  by_cases hpos : s.dstfRet > 0
  · rw [if_pos hpos]
    exact ⟨rfl, rfl, hconv, hg, hw, by simp [hpos], by simp [hpos, hn]⟩
  · rw [if_neg hpos]
    refine ⟨rfl, rfl, hconv, hg, hw, by simp [endTurn, hpos], ?_⟩
    rw [endTurn, verdict_calm h0 hconv hw, if_neg hpos]

theorem frame_leaves (hA : Accepts r Good F) {f : List UInt8} {ret : ℤ} (hn : s.ended = none)
    (hret : s.dstfRet = ret) (h0 : 0 ≤ ret) (hg : Good s.conv) (hf : F f)
    (hb : InBuffer (.ofFn s.sbuf, f)) :
    CallLeaves r Good s.inputs s.infreadRet ret (frame r .calm s f) := by
  obtain ⟨conv', cret, data, hout, hcret, hg'⟩ := hA.frame hg hf hb
  unfold frame
  rw [hout]
  dsimp only [Outside.calm, outfileWrite]
  rw [if_neg (by simp)]
  cases r.program
  · exact goOn_leaves (s := { s with
      conv := conv', dtconvRet := cret, outfwriteRet := 0, writes := s.writes + 1
      outfile := s.outfile ++ data }) hn hret h0 hcret hg' rfl
  · exact goOn_leaves (s := { s with
      conv := conv', dtconvRet := cret, outfwriteRet := 0, writes := s.writes + 1
      outfile := s.outfile ++ data, looks := s.looks + 1 }) hn hret h0 hcret hg' rfl

theorem call_leaves (hA : Accepts r Good F) (src : List UInt8) (hn : s.ended = none)
    (h0 : 0 ≤ (streamToFrames r.mcFormatIn s.dstf src r.program.maxDstLen).ret)
    (hconv : 0 ≤ s.dtconvRet) (hg : Good s.conv) (hw : s.outfwriteRet = 0)
    (hF : ∀ f, f = (streamToFrames r.mcFormatIn s.dstf src r.program.maxDstLen).dst →
      0 < f.length → F f) :
    CallLeaves r Good s.inputs s.infreadRet
      (streamToFrames r.mcFormatIn s.dstf src r.program.maxDstLen).ret (call r .calm s src) := by
  unfold call
  dsimp only
  by_cases hpos : (streamToFrames r.mcFormatIn s.dstf src r.program.maxDstLen).dst.length > 0
  · rw [if_pos hpos]
    exact frame_leaves hA (s := { s with
      dstf := (streamToFrames r.mcFormatIn s.dstf src r.program.maxDstLen).dstf
      dstfRet := (streamToFrames r.mcFormatIn s.dstf src r.program.maxDstLen).ret
      sbuf := blit s.sbuf 0 (streamToFrames r.mcFormatIn s.dstf src r.program.maxDstLen).dst })
      hn rfl h0 hg (hF _ rfl hpos) (blit_inBuffer _ _)
  · rw [if_neg hpos]
    exact goOn_leaves (s := { s with
      dstf := (streamToFrames r.mcFormatIn s.dstf src r.program.maxDstLen).dstf
      dstfRet := (streamToFrames r.mcFormatIn s.dstf src r.program.maxDstLen).ret
      sbuf := blit s.sbuf 0 (streamToFrames r.mcFormatIn s.dstf src r.program.maxDstLen).dst })
      hn rfl h0 hconv hg hw

end Recorder

theorem readData_map (reads : List (List UInt8)) : readData (reads.map .data) = reads := by
  induction reads with
  | nil => rfl
  | cons c cs ih => rw [List.map_cons, readData, ih]

/-- One call on both sides: it goes on, or it was the one at the end of the file. -/
theorem Calm.of_call (hA : Accepts r Good F) (src : List UInt8) (hn : s.ended = none)
    (hd : u.dstf = s.dstf) (hdata : s.inputs = (u.reads ++ extra).map .data)
    (hw : s.outfwriteRet = 0) (hconv : 0 ≤ s.dtconvRet) (hg : Good s.conv)
    (hp : Recorder.Processed r conv₀ u.frames s)
    (heof : r.program = .dhav2mkv →
      (∃ rs, u.reads = rs ++ [[]] ∧ (∀ c ∈ rs, c ≠ []) ∧ s.infreadRet ≠ 0) ∨
        u.reads = [] ∧ s.infreadRet = 0)
    (hret : 0 ≤ (u.call r.mcFormatIn r.program.maxDstLen src).dstfRet)
    (hF : ∀ f ∈ (u.call r.mcFormatIn r.program.maxDstLen src).frames, F f) :
    Calm r conv₀ Good extra (u.call r.mcFormatIn r.program.maxDstLen src)
        (Recorder.call r .calm s src) ∨
      AtEnd r conv₀ (u.call r.mcFormatIn r.program.maxDstLen src)
        (Recorder.call r .calm s src) := by
  have hleaves := Recorder.call_leaves hA src hn (hd ▸ hret) hconv hg hw fun f hf hpos =>
    hF f (by rw [call_frames, hd, ← hf, if_pos hpos]; simp)
  have hfollows : Recorder.Follows r conv₀ (({ u with reads := u.reads ++ extra } : StreamLoop).call
      r.mcFormatIn r.program.maxDstLen src) (Recorder.call r .calm s src) :=
    .of_call src hn hd (by rw [hdata, readData_map]) hw hp
  rw [call_dstfRet, hd] at hret
  by_cases hend : (Recorder.call r .calm s src).ended = none
  · rcases hfollows with hruns | hended
    swap
    · exact absurd hend hended.ended
    refine .inl ⟨hruns, hleaves.inputs.trans hdata, hleaves.dtconv, hleaves.good, fun hprog => ?_⟩
    have hinfread := hleaves.infread
    rcases heof hprog with ⟨rs, hrs, hne, h0⟩ | ⟨hnil, h0⟩
    · exact .inl ⟨rs, hrs, hne, fun _ => hinfread ▸ h0⟩
    · -- no turn goes on after the empty read but inside the inner loop
      refine .inr ⟨hnil, ?_, hinfread.trans h0⟩
      have := hleaves.ended
      rw [hend, hleaves.infread.symm.trans hinfread] at this
      rw [hleaves.draining]
      by_contra hdr
      have hnot : ¬ 0 < (streamToFrames r.mcFormatIn s.dstf src r.program.maxDstLen).ret := by
        simpa using hdr
      rw [if_neg hnot, if_pos ⟨hprog, h0⟩] at this
      cases this
  · have hwhy := hleaves.ended
    by_cases hpos : 0 < (streamToFrames r.mcFormatIn s.dstf src r.program.maxDstLen).ret
    · exact absurd (hwhy.trans (if_pos hpos)) hend
    rw [if_neg hpos] at hwhy
    by_cases hlast : r.program = .dhav2mkv ∧ s.infreadRet = 0
    swap
    · exact absurd (hwhy.trans (if_neg hlast)) hend
    rw [if_pos hlast] at hwhy
    refine .inr ⟨hlast.1, ?_, by rw [call_dstfRet, hd]; omega, hwhy, hleaves.written, ?_⟩
    · rcases heof hlast.1 with ⟨rs, -, -, h0⟩ | ⟨hnil, -⟩
      · exact absurd hlast.2 h0
      · exact hnil
    · rcases hfollows with hruns | ⟨-, hp' | ⟨e, f, frames, he, -⟩⟩
      · exact absurd hruns.running hend
      · exact hp'
      · rw [hwhy] at he
        cases he

/-- **One step** of the stream loop is one of an undisturbed recorder. -/
theorem Calm.advance (hA : Accepts r Good F) (hs : Calm r conv₀ Good extra u s)
    (hst : StreamLoop.step r.mcFormatIn r.program.maxDstLen u = some u') (hret : 0 ≤ u'.dstfRet)
    (hF : ∀ f ∈ u'.frames, F f) :
    ∃ s', Recorder.step r .calm s = some s' ∧
      (Calm r conv₀ Good extra u' s' ∨ AtEnd r conv₀ u' s') := by
  obtain ⟨hruns, hdata, hconv, hg, heof⟩ := hs
  unfold Recorder.step
  rw [if_neg (by simp [hruns.running])]
  obtain ⟨hpos, rfl⟩ | ⟨hzero, c, cs, hc, rfl⟩ := step_eq_some hst
  · have hdr : s.draining = true := by
      rcases hruns.ret with ⟨hdr, -⟩ | ⟨-, h0⟩
      · exact hdr
      · exact absurd h0 (by simpa using hpos.ne')
    rw [if_pos hdr]
    refine ⟨_, rfl, Calm.of_call hA [] hruns.running hruns.dstf hdata hruns.written hconv hg
      hruns.processed (fun hprog => ?_) hret hF⟩
    rcases heof hprog with ⟨rs, hrs, hne, h0⟩ | ⟨hnil, -, h0⟩
    · exact .inl ⟨rs, hrs, hne, h0 hdr⟩
    · exact .inr ⟨hnil, h0⟩
  · have hdr : s.draining = false := by
      rcases hruns.ret with ⟨-, hpos⟩ | ⟨hdr, -⟩
      · exact absurd hzero (by simpa using hpos.ne')
      · exact hdr
    rw [hc, List.cons_append, List.map_cons] at hdata
    rw [if_neg (by simp [hdr]), hdata]
    refine ⟨_, rfl, ?_⟩
    obtain ⟨bufs, outs, h1, h2, h3, h4, h5, h6⟩ := hruns.processed
    refine Calm.of_call (u := { u with reads := cs }) hA c hruns.running hruns.dstf rfl rfl le_rfl hg
      ⟨bufs, outs, h1, h2, h3, h4, h5, fun _ => h6 hruns.written⟩ (fun hprog => ?_) hret hF
    rcases heof hprog with ⟨rs, hrs, hne, -⟩ | ⟨hnil, -⟩
    swap
    · rw [hc] at hnil
      cases hnil
    cases rs with
    | nil =>
      obtain ⟨rfl, rfl⟩ : c = [] ∧ cs = [] := by simpa [hc] using hrs
      exact .inr ⟨rfl, rfl⟩
    | cons c' rs =>
      obtain ⟨rfl, rfl⟩ : c = c' ∧ cs = rs ++ [[]] := by simpa [hc] using hrs
      exact .inl ⟨rs, rfl, fun x hx => hne x (by simp [hx]),
        fun h0 => hne c (by simp) (List.length_eq_zero_iff.mp h0)⟩

/-- The end of an undisturbed recording that has processed `frames`. -/
structure Recorded (r : Recording) (conv₀ : Conversion) (frames : List (List UInt8)) (s : Recorder) :
    Prop where
  ended : s.ended = if r.program = .dhav2mkv then some .noMoreData else none
  written : s.outfwriteRet = 0
  processed : Recorder.Processed r conv₀ frames s

/-- The reads of a recording: those of `dhav2mkv` end with an empty one, and there may be more of
these. -/
def Reads (r : Recording) (reads extra : List (List UInt8)) : Prop :=
  match r.program with
  | .dhav2mkv => ∃ rs, reads = rs ++ [[]] ∧ ∀ c ∈ rs, c ≠ []
  | .tanidvr => extra = []

/-- **An undisturbed recording makes the whole run of the stream loop** when no call in it returns a
negative value and its frames are accepted. -/
theorem undisturbed_run (hA : Accepts r Good F) (hg : Good conv₀) {d : Dstf}
    {reads : List (List UInt8)} (sbuf : ℕ → UInt8) {l : StreamLoop} (hreads : Reads r reads extra)
    (hl : Halts (StreamLoop.step r.mcFormatIn r.program.maxDstLen) (.start d reads) l)
    (hret : ∀ t, Reach (StreamLoop.step r.mcFormatIn r.program.maxDstLen) (.start d reads) t →
      0 ≤ t.dstfRet) (hF : ∀ f ∈ l.frames, F f) :
    ∃ s, Halts (Recorder.step r .calm) (.start d sbuf conv₀ ((reads ++ extra).map .data)) s ∧
      Recorded r conv₀ l.frames s := by
  have hsim := hl.1.simulated (f := Recorder.step r .calm)
    (R := fun u s => Reach (StreamLoop.step r.mcFormatIn r.program.maxDstLen) (.start d reads) u ∧
      (Reach (StreamLoop.step r.mcFormatIn r.program.maxDstLen) u l) ∧
      (Calm r conv₀ Good extra u s ∨ AtEnd r conv₀ u s))
    (a := .start d sbuf conv₀ ((reads ++ extra).map .data)) ?_ ⟨.refl _, hl.1, .inl ?_⟩
  · obtain ⟨s, hs, -, -, hcalm | hend⟩ := hsim
    · have hstop := step_eq_none hl.2
      have h0 := hret l hl.1
      obtain ⟨hzero, hnil⟩ : l.dstfRet = 0 ∧ l.reads = [] := hstop.resolve_left (by omega)
      have hdr : s.draining = false := by
        rcases hcalm.runs.ret with ⟨-, hpos⟩ | ⟨hdr, -⟩
        · exact absurd hzero (by simpa using hpos.ne')
        · exact hdr
      cases hprog : r.program with
      | dhav2mkv =>
        rcases hcalm.eof hprog with ⟨rs, hrs, -⟩ | ⟨-, hdr', -⟩
        · rw [hnil] at hrs
          simp at hrs
        · rw [hdr] at hdr'
          cases hdr'
      | tanidvr =>
        have hextra : extra = [] := by simpa [Reads, hprog] using hreads
        refine ⟨s, ⟨hs, ?_⟩, by simp [hprog, hcalm.runs.running], hcalm.runs.written,
          hcalm.runs.processed⟩
        have hin := hcalm.data
        rw [hnil, hextra] at hin
        rw [Recorder.step, if_neg (by simp [hcalm.runs.running]), if_neg (by simp [hdr]), hin]
        rfl
    · refine ⟨s, ⟨hs, ?_⟩, by simp [hend.program, hend.ended], hend.written, hend.processed⟩
      rw [Recorder.step, if_pos (by simp [hend.ended])]
  · rintro u u' s ⟨hu, hul, hs⟩ hst
    have hu' := hu.tail hst
    have hul' : Reach (StreamLoop.step r.mcFormatIn r.program.maxDstLen) u' l :=
      (hl.of_reach hu').1
    rcases hs with hs | hs
    · obtain ⟨s', hs', h⟩ := hs.advance hA hst (hret u' hu') fun f hf =>
        hF f ((StreamLoop.frames_prefix hul').subset hf)
      exact ⟨s', .head hs' (.refl _), hu', hul', h⟩
    · rw [StreamLoop.step, if_neg (by simp [hs.ret]), if_neg (by simp [hs.ret]), hs.reads] at hst
      cases hst
  · refine ⟨⟨rfl, rfl, ?_, .inr ⟨rfl, rfl⟩, rfl, [], [], rfl, by simp, rfl, List.prefix_refl _,
      List.prefix_refl _, fun _ => rfl⟩, rfl, le_rfl, hg, fun hprog => ?_⟩
    · exact (readData_map _).symm
    · obtain ⟨rs, hrs, hne⟩ : ∃ rs, reads = rs ++ [[]] ∧ ∀ c ∈ rs, c ≠ [] := by
        simpa [Reads, hprog] using hreads
      exact .inl ⟨rs, hrs, hne, by simp [Recorder.start]⟩

end TaniDVR
