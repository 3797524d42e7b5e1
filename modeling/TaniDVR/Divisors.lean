import TaniDVR.Conversion

/-!
# Divisors — the integer divisions of the conversion

Two divisors come from the stream: the picture height, in the aspect-ratio guess, and the frame
rate, in the reference period of the corrector.  Both come with the 0xfd frames of DHAV and the
height with the 0xfb units of raw H.264.

`DivisorsNonzero` is the condition on the frames; `divisors_run`: a run whose frames meet it never
divides by zero, and one whose frames do not ends in a fault.
-/

namespace TaniDVR

open Lib

/-- The divisors that a DHAV frame brings are not zero; `accepted` says that an 0xfd frame with a
frame rate has been seen, `fps` is the rate of the last 0xfd frame. -/
def DivisorsNonzero (tsproc : Bool) : Bool → UInt8 → List ((ℕ → UInt8) × ℕ) → Prop
  | _, _, [] => True
  | accepted, fps, (s, _) :: frames =>
    if s 4 = 0xfd then
      (fpsOf s ≠ 0 → heightOf s ≠ 0) ∧
        DivisorsNonzero tsproc (accepted || decide (fpsOf s ≠ 0)) (fpsOf s) frames
    else
      (s 4 = 0xfc → tsproc = true → accepted = true → fps ≠ 0) ∧
        DivisorsNonzero tsproc accepted fps frames

instance decidableDivisorsNonzero (tsproc : Bool) :
    ∀ accepted fps frames, Decidable (DivisorsNonzero tsproc accepted fps frames)
  | _, _, [] => inferInstanceAs (Decidable True)
  | accepted, fps, (s, _) :: frames =>
    if h : s 4 = 0xfd then
      let _ := decidableDivisorsNonzero tsproc (accepted || decide (fpsOf s ≠ 0)) (fpsOf s) frames
      decidable_of_iff ((fpsOf s ≠ 0 → heightOf s ≠ 0) ∧
        DivisorsNonzero tsproc (accepted || decide (fpsOf s ≠ 0)) (fpsOf s) frames)
        (by rw [DivisorsNonzero, if_pos h])
    else
      let _ := decidableDivisorsNonzero tsproc accepted fps frames
      decidable_of_iff ((s 4 = 0xfc → tsproc = true → accepted = true → fps ≠ 0) ∧
        DivisorsNonzero tsproc accepted fps frames)
        (by rw [DivisorsNonzero, if_neg h])

/-- The divisors that a raw H.264 unit brings are not zero. -/
def RawDivisorsNonzero (frames : List ((ℕ → UInt8) × ℕ)) : Prop :=
  ∀ f ∈ frames, f.1 3 = 0xfb → f.1 7 ≠ 0

instance (frames : List ((ℕ → UInt8) × ℕ)) : Decidable (RawDivisorsNonzero frames) :=
  inferInstanceAs (Decidable (∀ f ∈ frames, _))

/-- The frames in their buffers. -/
def inBuffers (frames : List ((ℕ → UInt8) × ℕ)) : List (Mem × ℕ) :=
  frames.map fun f => (.ofFn f.1, f.2)

/-- What the frames so far say of the state. -/
structure Seen (tsproc accepted : Bool) (fps : UInt8) (st : Conversion) : Prop where
  parms : st.mc.hasVParms = accepted
  rate : accepted = true → st.mc.dhavFps = fps
  tsc : tsproc = true → accepted = true → st.tsc.vFirstFrame = false

section Steps

variable {fmt : McFormat} {tsproc accepted : Bool} {maxDstLen srcLen : ℕ} {fps : UInt8}
  {st : Conversion} {s : ℕ → UInt8} {r : ℤ} {mc mc' : McParms} {tsc : TsProc}

/-- The writer does not divide. -/
theorem convert_ofFn (mc : McParms) (s : ℕ → UInt8) (srcLen maxDstLen : ℕ) (first : Bool)
    (vcodec : MCodec) :
    (∃ out, dtConvertFrameToMkv mc (.ofFn s) srcLen maxDstLen first vcodec = .ok out) ∨
      dtConvertFrameToMkv mc (.ofFn s) srcLen maxDstLen first vcodec = .error .overrun := by
  have hread : Mem.readRange (.ofFn s) mc.bodyP mc.bodyLen = _ := Mem.readRange_eq fun k _ => rfl
  unfold dtConvertFrameToMkv
  simp only [hread, bind, Except.bind, pure, Except.pure]
  split_ifs <;> simp

/-- After the parser and the corrector, a step ends well or in an overrun. -/
theorem convertFrame_after (maxDstLen : ℕ)
    (hc : collectFrameInfo fmt st.mc (.ofFn s) srcLen = .ok (r, mc))
    (ht : correctTimestamp fmt tsproc st.tsc mc = .ok (tsc, mc')) :
    convertFrame fmt tsproc maxDstLen st (.ofFn s) srcLen = .error .overrun ∨
      ∃ pending out, convertFrame fmt tsproc maxDstLen st (.ofFn s) srcLen =
        .ok (⟨mc', tsc, pending⟩, out) := by
  rcases convert_ofFn mc' s srcLen maxDstLen st.mainMkvHeaderPending (codecOf fmt) with ⟨out, ho⟩ | ho
  · exact .inr ⟨_, out, convertFrame_eq hc ht ho⟩
  · exact .inl (convertFrame_error'' hc ht ho)

/-- What a step leaves seen, when the corrector does not divide by zero. -/
theorem Seen.after {accepted' : Bool} {fps' : UInt8} (h : Seen tsproc accepted fps st)
    (hc : collectFrameInfo .dhav st.mc (.ofFn s) srcLen = .ok (r, mc))
    (hparms : mc.hasVParms = accepted') (hrate : accepted' = true → mc.dhavFps = fps')
    (hkeep : Usable mc ∨ accepted' = accepted)
    (hdiv : ¬ (tsproc = true ∧ Usable mc ∧ st.tsc.vFirstFrame = false ∧ mc.dhavFps = 0)) :
    convertFrame .dhav tsproc maxDstLen st (.ofFn s) srcLen = .error .overrun ∨
      ∃ st' out, convertFrame .dhav tsproc maxDstLen st (.ofFn s) srcLen = .ok (st', out) ∧
        Seen tsproc accepted' fps' st' := by
  rcases correctTimestamp_cases .dhav tsproc st.tsc mc with
    ⟨ht, hu, hf, hfps, -⟩ | ⟨-, tsc', t, he, hskip, -, hcorr⟩
  · exact absurd ⟨ht.1, hu, hf, hfps⟩ hdiv
  rcases convertFrame_after maxDstLen hc he with ho | ⟨pending, out, ho⟩
  · exact .inl ho
  refine .inr ⟨_, out, ho, hparms, hrate, ?_⟩
  intro ht ha
  by_cases hu : Usable mc
  · exact ((hcorr ⟨ht, rfl⟩).2 hu).1
  · rw [hskip hu]
    have hk := hkeep.resolve_left hu
    exact h.tsc ht (hk ▸ ha)

/-- An 0xfd frame divides by its height when it has a rate. -/
theorem Seen.step_fd (h : Seen tsproc accepted fps st) (hfd : s 4 = 0xfd) (hlen : srcLen ≠ 0) :
    (¬ (fpsOf s ≠ 0 → heightOf s ≠ 0) ∧
      convertFrame .dhav tsproc maxDstLen st (.ofFn s) srcLen = .error .divZero) ∨
    ((fpsOf s ≠ 0 → heightOf s ≠ 0) ∧
      (convertFrame .dhav tsproc maxDstLen st (.ofFn s) srcLen = .error .overrun ∨
        ∃ st' out, convertFrame .dhav tsproc maxDstLen st (.ofFn s) srcLen = .ok (st', out) ∧
          Seen tsproc (accepted || decide (fpsOf s ≠ 0)) (fpsOf s) st')) := by
  have hc : collectFrameInfo .dhav st.mc (.ofFn s) srcLen = _ :=
    collect_fd (headerThere_ofFn s) hlen hfd
  by_cases hfps : fpsOf s = 0
  · rw [if_pos hfps] at hc
    refine .inr ⟨fun hne => absurd hfps hne,
      h.after hc ?_ (fun _ => rfl) (.inr ?_) fun hu => not_usable_of_frameType (.inl rfl) hu.2.1⟩
    · simp [hfps, setGeometry, h.parms]
    · simp [hfps]
  rw [if_neg hfps] at hc
  by_cases hh : heightOf s = 0
  · exact .inl ⟨fun hne => hne hfps hh, convertFrame_error (hc.trans (if_pos hh))⟩
  · rw [if_neg hh] at hc
    refine .inr ⟨fun _ => hh, h.after hc ?_ (fun _ => iFrameParms_dhavFps) (.inl usable_iFrameParms) ?_⟩
    · simp [hfps, usable_iFrameParms.2]
    · rintro ⟨-, -, -, h0⟩
      exact hfps (iFrameParms_dhavFps.symm.trans h0)

/-- Any other frame divides by the rate of the last 0xfd frame, if it is an 0xfc frame after an
accepted one and the corrector runs. -/
theorem Seen.step_other (h : Seen tsproc accepted fps st) (hfd : s 4 ≠ 0xfd) (hlen : srcLen ≠ 0) :
    (¬ (s 4 = 0xfc → tsproc = true → accepted = true → fps ≠ 0) ∧
      convertFrame .dhav tsproc maxDstLen st (.ofFn s) srcLen = .error .divZero) ∨
    ((s 4 = 0xfc → tsproc = true → accepted = true → fps ≠ 0) ∧
      (convertFrame .dhav tsproc maxDstLen st (.ofFn s) srcLen = .error .overrun ∨
        ∃ st' out, convertFrame .dhav tsproc maxDstLen st (.ofFn s) srcLen = .ok (st', out) ∧
          Seen tsproc accepted fps st')) := by
  by_cases hfc : s 4 = 0xfc
  swap
  · obtain ⟨t, ht, hc⟩ := collect_other st.mc (headerThere_ofFn s) hlen hfc hfd
    exact .inr ⟨fun h => absurd h hfc,
      h.after (r := 0) hc h.parms h.rate (.inr rfl) fun hu => not_usable_of_frameType ht hu.2.1⟩
  have hc : collectFrameInfo .dhav st.mc (.ofFn s) srcLen = _ :=
    collect_fc (headerThere_ofFn s) hlen hfc
  cases ha : accepted with
  | false =>
    rw [if_pos (h.parms.trans ha)] at hc
    refine .inr ⟨fun _ _ h => absurd h (by decide), ?_⟩
    exact ha ▸ h.after hc h.parms h.rate (.inr rfl) fun hu => not_usable_of_frameType (.inl rfl) hu.2.1
  | true =>
    subst ha
    have hu := usable_videoFrameParms s srcLen h.parms
    have hfps : (videoFrameParms st.mc s srcLen).dhavFps = fps :=
      videoFrameParms_dhavFps.trans (h.rate rfl)
    rw [if_neg (by simp [h.parms])] at hc
    by_cases hdiv : tsproc = true ∧ fps = 0
    · refine .inl ⟨fun hne => hne hfc hdiv.1 rfl hdiv.2, ?_⟩
      rcases correctTimestamp_cases .dhav tsproc st.tsc (videoFrameParms st.mc s srcLen) with
        ⟨-, -, -, -, he⟩ | ⟨hn, -⟩
      · exact convertFrame_error' hc he
      · exact absurd ⟨⟨hdiv.1, rfl⟩, hu, h.tsc hdiv.1 rfl, hfps.trans hdiv.2⟩ hn
    · refine .inr ⟨fun _ ht _ h0 => hdiv ⟨ht, h0⟩,
        h.after hc hu.2 (fun _ => hfps) (.inl hu) ?_⟩
      rintro ⟨ht, -, -, h0⟩
      exact hdiv ⟨ht, hfps.symm.trans h0⟩

end Steps

/-- The verdict on a run: under the condition `P` it does not divide by zero, and otherwise it ends in
a division by zero, or before it in a copy that overruns the output buffer. -/
def Verdict (P : Prop) (run : Except Fault (List (McParms × Converted))) : Prop :=
  (P → run ≠ .error .divZero) ∧ (¬ P → run = .error .divZero ∨ run = .error .overrun)

/-- The verdict on a run from the step and the verdict on the rest. -/
theorem verdict_cons {fmt : McFormat} {tsproc : Bool} {maxDstLen : ℕ} {st : Conversion} {src : Mem}
    {srcLen : ℕ} {frames : List (Mem × ℕ)} {P Q : Prop} {R : Conversion → Prop}
    (hstep : (¬ P ∧ convertFrame fmt tsproc maxDstLen st src srcLen = .error .divZero) ∨
      (P ∧ (convertFrame fmt tsproc maxDstLen st src srcLen = .error .overrun ∨
        ∃ st' out, convertFrame fmt tsproc maxDstLen st src srcLen = .ok (st', out) ∧ R st')))
    (hrest : ∀ st', R st' → Verdict Q (convertFrames fmt tsproc maxDstLen st' frames)) :
    Verdict (P ∧ Q) (convertFrames fmt tsproc maxDstLen st ((src, srcLen) :: frames)) := by
  simp only [convertFrames]
  rcases hstep with ⟨hn, he⟩ | ⟨hp, he | ⟨st', out, he, hR⟩⟩
  · rw [he]
    exact ⟨fun h => absurd h.1 hn, fun _ => .inl rfl⟩
  · rw [he]
    exact ⟨fun _ => nofun, fun _ => .inr rfl⟩
  · rw [he]
    obtain ⟨h1, h2⟩ := hrest st' hR
    simp only [bind, Except.bind]
    cases hr : convertFrames fmt tsproc maxDstLen st' frames with
    | ok outs =>
      rw [hr] at h1 h2
      refine ⟨fun _ => nofun, ?_⟩
      intro hn
      have := h2 fun hq => hn ⟨hp, hq⟩
      simp at this
    | error e =>
      rw [hr] at h1 h2
      simp only [ne_eq, Except.error.injEq] at h1 h2
      simp only [Verdict, ne_eq, Except.error.injEq]
      exact ⟨fun h => h1 h.2, fun hn => h2 fun hq => hn ⟨hp, hq⟩⟩

/-- Every DHAV run, from what was seen. -/
theorem Seen.run {tsproc accepted : Bool} {fps : UInt8} {st : Conversion} (maxDstLen : ℕ)
    (h : Seen tsproc accepted fps st) (frames : List ((ℕ → UInt8) × ℕ))
    (hlen : ∀ f ∈ frames, 32 ≤ f.2) :
    Verdict (DivisorsNonzero tsproc accepted fps frames)
      (convertFrames .dhav tsproc maxDstLen st (inBuffers frames)) := by
  induction frames generalizing accepted fps st with
  | nil => exact ⟨fun _ => nofun, fun h => absurd trivial h⟩
  | cons f frames ih =>
    obtain ⟨s, srcLen⟩ := f
    have h0 : srcLen ≠ 0 := by
      have := hlen (s, srcLen) (by simp)
      simp only at this
      omega
    have ih := fun a p st' (h' : Seen tsproc a p st') =>
      ih h' fun f hf => hlen f (List.mem_cons_of_mem _ hf)
    unfold DivisorsNonzero
    by_cases hfd : s 4 = 0xfd
    · rw [if_pos hfd]
      exact verdict_cons (h.step_fd hfd h0) (ih _ _)
    · rw [if_neg hfd]
      exact verdict_cons (h.step_other hfd h0) (ih _ _)

/-- A raw H.264 unit divides by its height if it is an 0xfb unit. -/
theorem rawUnit_step {tsproc : Bool} {maxDstLen srcLen : ℕ} {st : Conversion} {s : ℕ → UInt8}
    (hlen : srcLen ≠ 0) :
    (¬ (s 3 = 0xfb → s 7 ≠ 0) ∧
      convertFrame .rawH264 tsproc maxDstLen st (.ofFn s) srcLen = .error .divZero) ∨
    ((s 3 = 0xfb → s 7 ≠ 0) ∧
      (convertFrame .rawH264 tsproc maxDstLen st (.ofFn s) srcLen = .error .overrun ∨
        ∃ st' out, convertFrame .rawH264 tsproc maxDstLen st (.ofFn s) srcLen = .ok (st', out) ∧
          True)) := by
  have hc : collectFrameInfo .rawH264 st.mc (.ofFn s) srcLen = _ :=
    collectRaw_eq (fun _ _ => rfl) hlen
  have hdone : ∀ {r mc}, collectFrameInfo .rawH264 st.mc (.ofFn s) srcLen = .ok (r, mc) →
      convertFrame .rawH264 tsproc maxDstLen st (.ofFn s) srcLen = .error .overrun ∨
        ∃ st' out, convertFrame .rawH264 tsproc maxDstLen st (.ofFn s) srcLen = .ok (st', out) ∧
          True := by
    intro r mc h
    have ht : correctTimestamp .rawH264 tsproc st.tsc mc = .ok (st.tsc, mc) := if_neg (by simp)
    rcases convertFrame_after maxDstLen h ht with ho | ⟨pending, out, ho⟩
    · exact .inl ho
    · exact .inr ⟨_, out, ho, trivial⟩
  simp only at hc
  by_cases hb6 : s 3 = 0xb6
  · rw [if_pos hb6] at hc
    exact .inr ⟨fun h => absurd (hb6.symm.trans h) (by decide), hdone hc⟩
  rw [if_neg hb6] at hc
  by_cases hf0 : s 3 = 0xf0
  · rw [if_pos hf0] at hc
    exact .inr ⟨fun h => absurd (hf0.symm.trans h) (by decide), hdone hc⟩
  rw [if_neg hf0] at hc
  by_cases hfb : s 3 = 0xfb
  swap
  · rw [if_neg hfb] at hc
    exact .inr ⟨fun h => absurd h hfb, hdone hc⟩
  have hheight : (s 7).toNat * 8 = 0 ↔ s 7 = 0 := by
    rw [← UInt8.toNat_inj]
    change _ ↔ (s 7).toNat = 0
    omega
  rw [if_pos hfb] at hc
  by_cases hh : s 7 = 0
  · rw [if_pos (hheight.2 hh)] at hc
    exact .inl ⟨fun h => h hfb hh, convertFrame_error hc⟩
  · rw [if_neg (mt hheight.1 hh)] at hc
    exact .inr ⟨fun _ => hh, hdone hc⟩

/-- Every raw H.264 run. -/
theorem rawUnit_run (tsproc : Bool) (maxDstLen : ℕ) (st : Conversion) (frames : List ((ℕ → UInt8) × ℕ))
    (hlen : ∀ f ∈ frames, 8 ≤ f.2) :
    Verdict (RawDivisorsNonzero frames)
      (convertFrames .rawH264 tsproc maxDstLen st (inBuffers frames)) := by
  induction frames generalizing st with
  | nil => exact ⟨fun _ => nofun, fun h => absurd (by simp [RawDivisorsNonzero]) h⟩
  | cons f frames ih =>
    obtain ⟨s, srcLen⟩ := f
    have h0 : srcLen ≠ 0 := by
      have := hlen (s, srcLen) (by simp)
      simp only at this
      omega
    have hcons : RawDivisorsNonzero ((s, srcLen) :: frames) ↔
        (s 3 = 0xfb → s 7 ≠ 0) ∧ RawDivisorsNonzero frames := by
      simp [RawDivisorsNonzero]
    rw [hcons]
    exact verdict_cons (rawUnit_step h0) fun st' _ =>
      ih st' fun f hf => hlen f (List.mem_cons_of_mem _ hf)

/-- **When the conversion divides by zero**: for all frames of either format, in buffers with any
content, a run does not divide by zero if the divisors in its frames are not zero; otherwise it ends
in a division by zero, unless a copy overran the output before. -/
theorem divisors_run (heap : McParms) (tscHeap : TsProc) (ntscExact60hz tsproc : Bool)
    (maxDstLen : ℕ) (frames : List ((ℕ → UInt8) × ℕ)) :
    ((∀ f ∈ frames, 32 ≤ f.2) → Verdict (DivisorsNonzero tsproc false 0 frames)
      (convertFrames .dhav tsproc maxDstLen (.start heap tscHeap ntscExact60hz) (inBuffers frames))) ∧
    ((∀ f ∈ frames, 8 ≤ f.2) → Verdict (RawDivisorsNonzero frames)
      (convertFrames .rawH264 tsproc maxDstLen (.start heap tscHeap ntscExact60hz)
        (inBuffers frames))) := by
  refine ⟨fun hlen => Seen.run maxDstLen ?_ frames hlen, rawUnit_run tsproc maxDstLen _ frames⟩
  exact ⟨rfl, fun h => absurd h (by decide), fun _ h => absurd h (by decide)⟩

/-- An I-frame with the subfields of `ext`, and an empty body. -/
def iFrame (ext : List UInt8) : List UInt8 :=
  [0x44, 0x48, 0x41, 0x56, 0xfd, 0, 0, 0, 0, 0, 0, 0, UInt8.ofNat (ext.length + 32), 0, 0, 0,
    0, 0, 0, 0, 0, 0, UInt8.ofNat ext.length, 0] ++ ext ++
  [0x64, 0x68, 0x61, 0x76, UInt8.ofNat (ext.length + 32), 0, 0, 0]

/-- A P-frame with an empty body. -/
def pFrame : List UInt8 :=
  [0x44, 0x48, 0x41, 0x56, 0xfc, 0, 0, 0, 0, 0, 0, 0, 32, 0, 0, 0, 0, 0, 0, 0, 0, 0, 0, 0,
    0x64, 0x68, 0x61, 0x76, 32, 0, 0, 0]

/-- 704x576 at 25 frames per second. -/
def palSubfields : List UInt8 := [0x80, 0, 88, 72, 0x81, 0, 1, 25]

/-- Frames in buffers that are zero after the frame. -/
def zeroPadded (frames : List (List UInt8)) : List ((ℕ → UInt8) × ℕ) :=
  frames.map fun f => (ofList f, f.length)

theorem divisors_run_pal :
    convertFrames .dhav true 3000000 (.start default default false)
        (inBuffers (zeroPadded [iFrame palSubfields, pFrame])) ≠ .error .divZero ∧
      convertFrames .rawH264 true 3000000 (.start default default false)
        (inBuffers (zeroPadded [[0, 0, 1, 0xfb, 0, 0, 88, 72]])) ≠ .error .divZero :=
  ⟨((divisors_run default default false true 3000000
      (zeroPadded [iFrame palSubfields, pFrame])).1 (by simp [zeroPadded, iFrame, pFrame])).1
      (by decide),
    ((divisors_run default default false true 3000000
      (zeroPadded [[0, 0, 1, 0xfb, 0, 0, 88, 72]])).2 (by simp [zeroPadded])).1
      (by decide)⟩

/-- The two divisions by zero: an I-frame with a frame rate and no picture size; and, with the
corrector on, a P-frame after an I-frame without a frame rate, after one with a rate. -/
theorem zero_divisors :
    faultOf (convertFrames .dhav false 3000000 (.start default default false)
        (inBuffers (zeroPadded [iFrame [0x81, 0, 1, 25]]))) = some .divZero ∧
      faultOf (convertFrames .dhav true 3000000 (.start default default false)
        (inBuffers (zeroPadded [iFrame palSubfields, iFrame [], pFrame]))) = some .divZero := by
  decide +kernel

end TaniDVR
