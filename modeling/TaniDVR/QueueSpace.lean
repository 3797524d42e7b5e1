import TaniDVR.StreamLoop

/-!
# QueueSpace — when a stream loop fills its queue

The stream routine returns -1 when the data of a read does not fit into the queue, and the loop is
left.  After a drained queue this can only happen while a frame is awaited: the parser holds back
what it has of it, up to the whole queue.

* `never_full_iff_waiting`: no call of a run returns -1 exactly when at every read that comes while a
  frame is awaited the held bytes and the read fit into the queue together.
* `never_full_of_repLen`: for DHAV it is enough that every awaited frame advertises a length that
  leaves one read of space.
-/

namespace TaniDVR

open Lib Dstf StreamLoop

theorem granularity_le (p : Program) : p.granularity + 16 ≤ tMcParmsDhavStf := by
  cases p <;> decide

/-- What identification leaves: the queue starts at the array's start and has space for a read, and
the reads to come are a tail of the reads. -/
theorem identifyLoop_spec {g : ℕ} (reads : List (List UInt8)) {d : Dstf} (ho : d.sqOffs = 0)
    (hsp : d.sqLen + g ≤ d.sqMaxlen) (hr : ∀ c ∈ reads, c.length ≤ g) :
    (identifyLoop g d reads).1.sqOffs = 0 ∧
    (identifyLoop g d reads).1.sqLen + g ≤ (identifyLoop g d reads).1.sqMaxlen ∧
    (identifyLoop g d reads).1.sqMaxlen = d.sqMaxlen ∧
    (identifyLoop g d reads).2.2 <:+ reads := by
  induction reads generalizing d with
  | nil => exact ⟨ho, hsp, rfl, List.suffix_rfl⟩
  | cons c cs ih =>
    have hc := hr c (by simp)
    have hcs : ∀ c ∈ cs, c.length ≤ g := fun x hx => hr x (by simp [hx])
    unfold identifyLoop
    split_ifs with h1 h2
    · dsimp only
      split_ifs with h3
      · exact ⟨ho, by dsimp only; omega, rfl, List.suffix_cons _ _⟩
      · obtain ⟨i1, i2, i3, i4⟩ := ih (d := { d with
            sq := blit d.sq (d.sqOffs + d.sqLen) c, sqLen := d.sqLen + c.length }) ho
          (by dsimp only; omega) hcs
        exact ⟨i1, i2, i3, i4.trans (List.suffix_cons _ _)⟩
    · obtain ⟨i1, i2, i3, i4⟩ := ih ho hsp hcs
      exact ⟨i1, i2, i3, i4.trans (List.suffix_cons _ _)⟩
    · exact ⟨ho, hsp, rfl, List.suffix_rfl⟩

/-- The invariant of the loop: when it is about to read, a whole read fits or a frame is awaited. -/
structure Roomy (f : McFormat) (g : ℕ) (s : StreamLoop) : Prop where
  fits : s.dstf.Fits
  maxlen : s.dstf.sqMaxlen = tMcParmsDhavStf
  reads : ∀ c ∈ s.reads, c.length ≤ g
  room : s.dstfRet = 0 → s.dstf.sqLen + g ≤ tMcParmsDhavStf ∨ Waiting f s.dstf

variable {f : McFormat} {g m : ℕ}

theorem Short.room {d : Dstf} (h : d.Short f) (hg : g + 16 ≤ tMcParmsDhavStf) :
    d.sqLen + g ≤ tMcParmsDhavStf := by
  unfold Short at h
  split_ifs at h <;> omega

theorem Roomy.call {s : StreamLoop} (h : Roomy f g s) (hg : g + 16 ≤ tMcParmsDhavStf)
    (cs : List (List UInt8)) (hcs : ∀ c ∈ cs, c.length ≤ g) (src : List UInt8) :
    Roomy f g ({ s with reads := cs }.call f m src) := by
  have hb := call_books f h.fits src m
  refine ⟨hb.fits h.fits, hb.sqMaxlen.trans h.maxlen, hcs, ?_⟩
  intro hr
  exact (ret_zero_cases hr).imp_left (fun hs => Short.room hs hg)

theorem Roomy.step {s t : StreamLoop} (h : Roomy f g s) (hg : g + 16 ≤ tMcParmsDhavStf)
    (hst : StreamLoop.step f m s = some t) : Roomy f g t := by
  obtain ⟨-, rfl⟩ | ⟨-, c, cs, hc, rfl⟩ := step_eq_some hst
  · exact h.call hg s.reads h.reads []
  · exact h.call hg cs (fun x hx => h.reads x (by rw [hc]; simp [hx])) c

/-- Identification leaves the space of a read. -/
theorem streamStart_room (p : Program) (sq below : ℕ → UInt8) (reads : List (List UInt8))
    (hr : ∀ c ∈ reads, c.length ≤ p.granularity) :
    (streamStart p (dstfInit sq below) reads).2.dstf.sqLen + p.granularity ≤ tMcParmsDhavStf := by
  have hg := granularity_le p
  obtain ⟨-, h2, h3, -⟩ := identifyLoop_spec reads (d := dstfInit sq below) rfl
    (show 0 + p.granularity ≤ tMcParmsDhavStf by omega) hr
  exact h2.trans_eq h3

/-- The loop after identification is roomy. -/
theorem streamStart_roomy (p : Program) (sq below : ℕ → UInt8) (reads : List (List UInt8))
    (hr : ∀ c ∈ reads, c.length ≤ p.granularity) :
    Roomy f p.granularity (streamStart p (dstfInit sq below) reads).2 := by
  have hg := granularity_le p
  have hroom := streamStart_room p sq below reads hr
  obtain ⟨h1, h2, h3, h4⟩ := identifyLoop_spec reads (d := dstfInit sq below) rfl
    (show 0 + p.granularity ≤ tMcParmsDhavStf by omega) hr
  have hmax : (identifyLoop p.granularity (dstfInit sq below) reads).1.sqMaxlen = tMcParmsDhavStf := h3
  have hfits : (identifyLoop p.granularity (dstfInit sq below) reads).1.Fits := by
    unfold Fits
    omega
  exact ⟨hfits, hmax, fun c hc => hr c (h4.subset hc), fun _ => Or.inl hroom⟩

/-- Where no call returns -1 every read fits. -/
theorem read_fits {s₀ s : StreamLoop} (hfull : ∀ s, Reach (StreamLoop.step f m) s₀ s → s.dstfRet ≠ -1)
    (hs : Reach (StreamLoop.step f m) s₀ s) (hf : s.dstf.Fits) (h0 : s.dstfRet = 0) {c : List UInt8}
    {cs : List (List UInt8)} (hc : s.reads = c :: cs) :
    s.dstf.sqLen + c.length ≤ s.dstf.sqMaxlen := by
  by_contra hlt
  unfold Fits at hf
  refine hfull _ (hs.tail (step_of_read h0 hc)) ((ret_full_iff hf).mpr ⟨?_, by omega⟩)
  rintro rfl
  rw [List.length_nil] at hlt
  omega

/-- **A full queue**: in a run of either program over any input, no call returns -1 if and only if
every read that comes to a waiting queue fits behind its data. -/
theorem never_full_iff_waiting (p : Program) (sq below : ℕ → UInt8) (reads : List (List UInt8))
    (hr : ∀ c ∈ reads, c.length ≤ p.granularity) :
    let f := (streamStart p (dstfInit sq below) reads).1
    let s₀ := (streamStart p (dstfInit sq below) reads).2
    (∀ s, Reach (StreamLoop.step f p.maxDstLen) s₀ s → s.dstfRet ≠ -1) ↔
      ∀ s c cs, Reach (StreamLoop.step f p.maxDstLen) s₀ s → s.dstfRet = 0 → s.reads = c :: cs →
        Waiting f s.dstf → s.dstf.sqLen + c.length ≤ tMcParmsDhavStf := by
  intro f s₀
  have hg := granularity_le p
  have hroomy : ∀ s, Reach (StreamLoop.step f p.maxDstLen) s₀ s → Roomy f p.granularity s :=
    fun s hs => hs.invariant (fun _ _ h hst => h.step hg hst) (streamStart_roomy p sq below reads hr)
  constructor
  · intro h s c cs hs hret hreads _
    exact (hroomy s hs).maxlen ▸ read_fits h hs (hroomy s hs).fits hret hreads
  · intro h t ht
    rcases Relation.ReflTransGen.cases_tail ht with rfl | ⟨s, hs, hst⟩
    · exact (by decide : (0 : ℤ) ≠ -1)
    have hrs := hroomy s hs
    obtain ⟨-, rfl⟩ | ⟨hret, c, cs, hc, rfl⟩ := step_eq_some hst
    · exact fun h1 => ((ret_full_iff hrs.fits).mp h1).1 rfl
    · intro h1
      have hfull := ((ret_full_iff hrs.fits).mp h1).2
      have hlen := hrs.reads c (by rw [hc]; simp)
      have hm := hrs.maxlen
      rcases hrs.room hret with hroom | hw
      · omega
      · have := h s c cs hs hret hc hw
        omega

/-- For DHAV: awaited frames that leave the space of one read never fill the queue. -/
theorem never_full_of_repLen (p : Program) (sq below : ℕ → UInt8) (reads : List (List UInt8))
    (hr : ∀ c ∈ reads, c.length ≤ p.granularity)
    (hf : (streamStart p (dstfInit sq below) reads).1 = .dhav)
    (hlen : ∀ s, Reach (StreamLoop.step .dhav p.maxDstLen)
      (streamStart p (dstfInit sq below) reads).2 s → Waiting .dhav s.dstf →
        s.dstf.repLen + p.granularity ≤ tMcParmsDhavStf + 1) :
    ∀ s, Reach (StreamLoop.step .dhav p.maxDstLen) (streamStart p (dstfInit sq below) reads).2 s →
      s.dstfRet ≠ -1 := by
  have hiff := never_full_iff_waiting p sq below reads hr
  rw [hf] at hiff
  refine hiff.mpr ?_
  intro s c cs hs hret hc hw
  have hroomy : Roomy .dhav p.granularity s :=
    hs.invariant (fun _ _ h hst => h.step (granularity_le p) hst)
      (streamStart_roomy p sq below reads hr)
  have h1 := hlen s hs hw
  have h2 := (check_wait_iff.mp hw).2.2.2
  have h3 := hroomy.reads c (by rw [hc]; simp)
  omega

end TaniDVR
