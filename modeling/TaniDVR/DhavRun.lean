import TaniDVR.StreamLoop

/-!
# DhavRun — invariants of the loop over DHAV input

A `RunInv` is a property of the queue, the reads to come and the frames handed on that a discarded
byte, an emitted frame and a loaded read keep.  It then holds along every run, and every run ends
(`RunInv.halts`); where the queue has space for each read that meets a short or waiting queue, the
run consumes its whole input without a negative result (`RunInv.complete`).
-/

namespace TaniDVR

open Lib Dstf StreamLoop

/-- What each of the three changes to a DHAV queue keeps. -/
structure RunInv (maxDstLen : ℕ) (I : Dstf → List (List UInt8) → List (List UInt8) → Prop) :
    Prop where
  fits : ∀ {d rs fs}, I d rs fs → d.Fits
  garbage : ∀ {d rs fs}, I d rs fs → d.check = .garbage → I (d.skip 1) rs fs
  frame : ∀ {d rs fs}, I d rs fs → d.check = .frame → 0 < d.repLen ∧ d.repLen ≤ maxDstLen ∧
    I (d.skip d.repLen) rs (fs ++ [slice d.sq d.sqOffs d.repLen])
  load : ∀ {d l c rs fs}, I d (c :: rs) fs → d.load c = some l → I l rs fs

namespace RunInv

variable {m : ℕ} {I : Dstf → List (List UInt8) → List (List UInt8) → Prop}
  {d l : Dstf} {rs fs : List (List UInt8)} {src : List UInt8}

theorem passed (hI : RunInv m I) {d' : Dstf} (hp : Passed d d') (h : I d rs fs) : I d' rs fs := by
  induction hp with
  | refl => exact h
  | step hg _ ih => exact ih (hI.garbage h hg)

theorem not_zeroFrame (hI : RunInv m I) (h : I d rs fs) : ¬ ZeroFrame .dhav d := by
  intro hz
  obtain ⟨hc, h0⟩ := zeroFrame_iff.mp hz
  have := (hI.frame h hc).1
  omega

/-- The reads to come are the last of all. -/
theorem suffix (hI : RunInv m I) (reads : List (List UInt8)) :
    RunInv m fun d rs fs => I d rs fs ∧ rs <:+ reads where
  fits h := hI.fits h.1
  garbage h hc := ⟨hI.garbage h.1 hc, h.2⟩
  frame h hc :=
    have hf := hI.frame h.1 hc
    ⟨hf.1, hf.2.1, hf.2.2, h.2⟩
  load h hl := ⟨hI.load h.1 hl, (List.suffix_cons _ _).trans h.2⟩

/-- A call that can load its data keeps the invariant and returns no negative value. -/
theorem call (hI : RunInv m I) (hl : d.load src = some l) (h : I l rs fs) :
    0 ≤ (streamToFrames .dhav d src m).ret ∧
    I (streamToFrames .dhav d src m).dstf rs
      (if (streamToFrames .dhav d src m).dst.length > 0 then
        fs ++ [(streamToFrames .dhav d src m).dst] else fs) := by
  rw [streamToFrames_dhav]
  have hc := dhav_call d src m
  generalize dstfProcessDhavStreamToFrames d src m = o at hc
  rcases hc.of_load hl with ⟨r, d', hs, rfl⟩ | ⟨d', hp, hf, ⟨hm, rfl⟩ | ⟨-, rfl⟩⟩
  · cases hs with
    | short _ => exact ⟨le_rfl, h⟩
    | wait hp _ => exact ⟨le_rfl, hI.passed hp h⟩
    | drained hp _ _ => exact ⟨(by decide : (0 : ℤ) ≤ 3), hI.passed hp h⟩
  · have := (hI.frame (hI.passed hp h) hf).2.1
    omega
  · obtain ⟨hpos, -, h1⟩ := hI.frame (hI.passed hp h) hf
    refine ⟨(by decide : (0 : ℤ) ≤ 1), ?_⟩
    dsimp only
    rw [if_pos (by rw [length_slice]; exact hpos)]
    exact h1

/-- Before a read the queue is short, or waiting, or the one the loop started with. -/
def Idle (d₀ : Dstf) (rs₀ : List (List UInt8)) (d : Dstf) (rs : List (List UInt8)) : Prop :=
  d.Short .dhav ∨ d.Waiting .dhav ∨ (d = d₀ ∧ rs = rs₀)

/-- The invariant on the states of the loop: a read that was refused is still to come. -/
def Carried (I : Dstf → List (List UInt8) → List (List UInt8) → Prop) (d₀ : Dstf)
    (rs₀ : List (List UInt8)) (s : StreamLoop) : Prop :=
  (0 ≤ s.dstfRet ∧ I s.dstf s.reads s.frames ∧ (s.dstfRet = 0 → Idle d₀ rs₀ s.dstf s.reads)) ∨
  (s.dstfRet < 0 ∧ ∃ c, I s.dstf (c :: s.reads) s.frames ∧ Idle d₀ rs₀ s.dstf (c :: s.reads) ∧
    s.dstf.load c = none)

variable {d₀ : Dstf} {rs₀ : List (List UInt8)}

theorem Carried.exists {s : StreamLoop} (h : Carried I d₀ rs₀ s) : ∃ rs, I s.dstf rs s.frames := by
  obtain ⟨-, h, -⟩ | ⟨-, c, h, -⟩ := h
  · exact ⟨_, h⟩
  · exact ⟨_, h⟩

theorem carried_step (hI : RunInv m I) {s t : StreamLoop} (h : Carried I d₀ rs₀ s)
    (hst : StreamLoop.step .dhav m s = some t) : Carried I d₀ rs₀ t := by
  have hcall : ∀ {s : StreamLoop} {c : List UInt8} {l : Dstf}, s.dstf.load c = some l →
      I l s.reads s.frames → Carried I d₀ rs₀ (s.call .dhav m c) := by
    intro s c l hl h
    obtain ⟨h1, h2⟩ := hI.call hl h
    exact Or.inl ⟨h1, h2, fun h0 => (ret_zero_cases h0).imp_right Or.inl⟩
  obtain ⟨hr, rfl⟩ | ⟨hr, c, cs, hc, rfl⟩ := step_eq_some hst
  · obtain ⟨-, h, -⟩ | ⟨hneg, -⟩ := h
    · exact hcall (load_nil _) h
    · omega
  · obtain ⟨-, h, hidle⟩ | ⟨hneg, -⟩ := h
    · rw [hc] at h hidle
      cases hl : s.dstf.load c with
      | none =>
        have hfull : streamToFrames .dhav s.dstf c m = ⟨-1, [], s.dstf⟩ := by
          rw [streamToFrames_dhav, dstfProcessDhavStreamToFrames, hl]
        refine Or.inr ⟨?_, c, ?_⟩
        · rw [call_dstfRet, hfull]
          exact (by decide : (-1 : ℤ) < 0)
        · rw [call_dstf, call_frames, call_reads, hfull]
          exact ⟨h, hidle hr, hl⟩
      | some l => exact hcall (s := { s with reads := cs }) hl (hI.load h hl)
    · omega

/-- **Every run ends**: with all reads used up, or at a read that does not fit. -/
theorem halts (hI : RunInv m I) (h : I d₀ rs₀ []) :
    ∃ l, Halts (StreamLoop.step .dhav m) (.start d₀ rs₀) l ∧ Carried I d₀ rs₀ l ∧
      (l.dstfRet < 0 ∨ (l.dstfRet = 0 ∧ l.reads = [])) := by
  have hrun : ∀ t, Reach (StreamLoop.step .dhav m) (.start d₀ rs₀) t → Carried I d₀ rs₀ t :=
    fun t ht => ht.invariant (fun _ _ hs hst => hI.carried_step hs hst)
      (Or.inl ⟨le_rfl, h, fun _ => Or.inr (Or.inr ⟨rfl, rfl⟩)⟩)
  obtain ⟨l, hl⟩ := (StreamLoop.halts_iff (m := m) (s := .start d₀ rs₀) (f := .dhav)
    (hI.fits h)).mpr fun t ht _ => by
      obtain ⟨rs', h'⟩ := (hrun t ht).exists
      exact hI.not_zeroFrame h'
  exact ⟨l, hl, hrun l hl.1, step_eq_none hl.2⟩

/-- **A run with space for its reads** consumes them all and returns no negative value. -/
theorem complete (hI : RunInv m I) (h : I d₀ rs₀ [])
    (hroom : ∀ {d c rs fs}, I d (c :: rs) fs → Idle d₀ rs₀ d (c :: rs) →
      d.sqLen + c.length ≤ d.sqMaxlen) :
    ∃ l, Halts (StreamLoop.step .dhav m) (.start d₀ rs₀) l ∧
      (∀ t, Reach (StreamLoop.step .dhav m) (.start d₀ rs₀) t → 0 ≤ t.dstfRet) ∧
      l.reads = [] ∧ I l.dstf [] l.frames ∧ Idle d₀ rs₀ l.dstf [] := by
  obtain ⟨l, hl, hcar, hend⟩ := hI.halts h
  have hnonneg : 0 ≤ l.dstfRet := by
    obtain ⟨h0, -⟩ | ⟨-, c, hIl, hidle, hfull⟩ := hcar
    · exact h0
    · have := (load_eq_none_iff.mp hfull).2
      have := hroom hIl hidle
      omega
  obtain ⟨-, hIl, hidle⟩ | ⟨hneg, -⟩ := hcar
  · obtain hneg | ⟨h0, hreads⟩ := hend
    · omega
    · rw [hreads] at hIl hidle
      refine ⟨l, hl, fun t ht => ?_, hreads, hIl, hidle h0⟩
      -- a negative result stops the loop, so its state would be the final one
      by_contra hneg
      have hstop : StreamLoop.step .dhav m t = none := by
        rw [StreamLoop.step, if_neg (by omega), if_pos (by omega)]
      have := Reach.eq_of_stopped hstop (hl.of_reach ht).1
      subst this
      exact hneg hnonneg
  · omega

end RunInv

end TaniDVR
