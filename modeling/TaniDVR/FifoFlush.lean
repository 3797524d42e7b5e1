import TaniDVR.FifoReturns

/-!
# FifoFlush — how much one call of the FIFO moves

One or two regions of cells are free, one or two are used; `btfifo_fd_to_fifo` and
`btfifo_fifo_to_fd` make up to two system calls so as to reach all of them.  `fillFrom_of_passes`
and `fifoToFd_writeAll` say that they do, where the descriptor has or takes enough; `fifo_moves_all`
says so of every FIFO that a run leads to.
-/

namespace TaniDVR

open Lib

/-- A descriptor that takes all it is offered. -/
def writeAll : WriteFn := fun bs => .ok ⟨bs.length, le_rfl⟩

/-- `btfifo_fd_to_fifo` on a descriptor that has the bytes `bs`; the second `read` finds what the
first one, of the cells behind the data, has left. -/
def fillFrom (f : Btfifo) (poll : PollAnswer) (bs : List UInt8) : FifoOut :=
  btfifoFdToFifo f poll (readGives bs) (readGives (bs.drop (f.bsize - (f.dpos + f.dlen))))

/-- Before the flush: `flags & (~BTFIFO_F_USE_WMIN)`. -/
def Btfifo.clearWmin (f : Btfifo) : Btfifo := { f with flags := f.flags &&& ~~~ btfifoFUseWmin }

/-- A call that reports a fatal error and does nothing. -/
structure Refuses (f : Btfifo) (o : FifoOut) : Prop where
  ret : o.ret ≤ -100
  moved : o.moved = []
  fifo : o.fifo = f

variable {f : Btfifo} {poll : PollAnswer} {bs : List UInt8}

/-! ### Reading -/

/-- The last `read` fills the free cells. -/
theorem readLastRegion_readGives (f : Btfifo) (bs : List UInt8) :
    (readLastRegion f (readGives bs)).moved = bs.take (f.bsize - f.dlen) := by
  unfold readLastRegion readGives
  dsimp only
  by_cases h0 : (bs.take (f.bsize - f.dlen)).length = 0
  · rw [if_pos h0]
    exact (List.eq_nil_of_length_eq_zero h0).symm
  · rw [if_neg h0]

/-- A call that the test of the descriptor lets pass reads as much as there is and fits. -/
theorem fillFrom_moved (hp : PollPasses f poll) (bs : List UInt8) :
    (fillFrom f poll bs).moved = bs.take (f.bsize - f.dlen) := by
  obtain ⟨hp1, hp2⟩ := pollPasses_iff.mp hp
  unfold fillFrom btfifoFdToFifo
  rw [if_neg hp1, if_neg hp2]
  by_cases hfull : f.bsize - f.dlen = 0
  · rw [if_pos hfull, hfull, List.take_zero]
  · rw [if_neg hfull]
    by_cases h2 : f.dpos ≠ 0 ∧ f.dpos + f.dlen < f.bsize
    · rw [if_pos h2]
      -- `k` cells behind the data, the others before it
      obtain ⟨k, hk⟩ : ∃ k, k = f.bsize - (f.dpos + f.dlen) := ⟨_, rfl⟩
      have hkpos : 0 < k := by omega
      have hfree : f.bsize - f.dlen = k + (f.bsize - (f.dlen + k)) := by omega
      dsimp only
      rw [← hk]
      unfold readGives
      dsimp only
      rw [List.length_take]
      by_cases h0 : min k bs.length = 0
      · have hnil : bs = [] := List.eq_nil_of_length_eq_zero (by omega)
        rw [if_pos h0, hnil, List.take_nil]
      · rw [if_neg h0]
        by_cases hshort : min k bs.length ≠ k
        · rw [if_pos hshort]
          show bs.take k = bs.take (f.bsize - f.dlen)
          rw [List.take_of_length_le (by omega), List.take_of_length_le (by omega)]
        · rw [if_neg hshort]
          have hmin : min k bs.length = k := not_not.mp hshort
          show bs.take k ++ (readLastRegion _ (readGives (bs.drop k))).moved = _
          rw [readLastRegion_readGives, hfree, List.take_add]
          dsimp only
          rw [hmin]
    · rw [if_neg h2]
      exact readLastRegion_readGives f bs

/-! ### Writing -/

/-- The last `write` takes all used cells. -/
theorem writeLastRegion_writeAll (f : Btfifo) : (writeLastRegion f writeAll).fifo.dlen = 0 := by
  unfold writeLastRegion writeAll
  dsimp only
  rw [length_slice]
  split_ifs with h0
  · exact h0
  all_goals exact Nat.sub_self _

/-- A call that the test of the descriptor lets pass empties the FIFO. -/
theorem fifoToFd_writeAll (hpos : f.dpos < f.bsize ∨ f.dlen = 0) (hp : PollPasses f poll)
    (hw : f.flags &&& btfifoFUseWmin = 0) :
    (btfifoFifoToFd f poll writeAll writeAll).fifo.dlen = 0 := by
  obtain ⟨hp1, hp2⟩ := pollPasses_iff.mp hp
  unfold btfifoFifoToFd
  rw [if_neg hp1, if_neg hp2]
  by_cases hempty : f.dlen = 0
  · rw [if_pos hempty]
    exact hempty
  · rw [if_neg hempty, if_neg (by simp [hw])]
    by_cases h2 : f.dpos ≠ 0 ∧ f.dpos + f.dlen > f.bsize
    · rw [if_pos h2]
      show (if (slice f.b f.dpos (f.bsize - f.dpos)).length = 0 then _
        else _ : FifoOut).fifo.dlen = 0
      rw [length_slice, if_neg (by omega), if_neg (by simp)]
      exact writeLastRegion_writeAll _
    · rw [if_neg h2]
      exact writeLastRegion_writeAll f

/-- What is stored goes out when nothing stays. -/
theorem Drains.moved_eq {o : FifoOut} (h : Drains f o) (h0 : o.fifo.dlen = 0) :
    o.moved = f.stored := by
  have hnil : o.fifo.stored = [] := List.eq_nil_of_length_eq_zero (by rw [Btfifo.length_stored, h0])
  rw [h.stored, hnil, List.append_nil]

/-! ### Descriptors that fail the test -/

theorem refuses_of_le {r : ℤ} (hr : r ≤ -100) : Refuses f ⟨r, f, [], []⟩ := ⟨hr, rfl, rfl⟩

/-- The two calls begin with the same test. -/
theorem refuses_of_not_passes (hp : ¬ PollPasses f poll) {r₁ r₂ : ℤ} (hr₁ : r₁ ≤ -100)
    (hr₂ : r₂ ≤ -100) (o : FifoOut) :
    Refuses f
      (if f.flags &&& btfifoFAssumeFdReady = 0 ∧ poll = .failed then ⟨r₁, f, [], []⟩
      else if f.flags &&& btfifoFAssumeFdReady = 0 ∧ poll = .collapsed then ⟨r₂, f, [], []⟩
      else o) := by
  rw [pollPasses_iff, not_and_or, not_not, not_not] at hp
  by_cases hp1 : f.flags &&& btfifoFAssumeFdReady = 0 ∧ poll = .failed
  · rw [if_pos hp1]
    exact refuses_of_le hr₁
  · rw [if_neg hp1, if_pos (hp.resolve_left hp1)]
    exact refuses_of_le hr₂

theorem fdToFifo_refuses (hp : ¬ PollPasses f poll) (read₁ read₂ : ReadFn) :
    Refuses f (btfifoFdToFifo f poll read₁ read₂) := by
  unfold btfifoFdToFifo
  exact refuses_of_not_passes hp (by decide) (by decide) _

theorem fifoToFd_refuses (hp : ¬ PollPasses f poll) (write₁ write₂ : WriteFn) :
    Refuses f (btfifoFifoToFd f poll write₁ write₂) := by
  unfold btfifoFifoToFd
  exact refuses_of_not_passes hp (by decide) (by decide) _

/-! ### Runs -/

/-- What a FIFO of any size keeps to. -/
def Btfifo.InBounds (f : Btfifo) : Prop := f.Valid ∨ f.bsize = 0 ∧ f.dlen = 0

/-- **A fill**: the bytes that are there and fit are stored behind the others. -/
theorem fillFrom_stored (hf : f.InBounds) (hp : PollPasses f poll) (bs : List UInt8) :
    (fillFrom f poll bs).fifo.stored = f.stored ++ bs.take (f.bsize - f.dlen) := by
  rcases hf with hv | ⟨hsize, hlen⟩
  · rw [← fillFrom_moved hp bs]
    exact (fdToFifo_fills hv poll _ _).stored
  · have hsame : (fillFrom f poll bs).fifo = f :=
      (FifoCall.out_of_no_cells hsize hlen (.fdToFifo poll _ _)).1
    rw [hsame, hsize, Nat.zero_sub, List.take_zero, List.append_nil]

/-- **A flush**: all stored bytes are written, in order. -/
theorem fifoToFd_flushes (hf : f.InBounds) (hp : PollPasses f poll)
    (hw : f.flags &&& btfifoFUseWmin = 0) :
    (btfifoFifoToFd f poll writeAll writeAll).moved = f.stored ∧
      (btfifoFifoToFd f poll writeAll writeAll).fifo.dlen = 0 := by
  rcases hf with hv | ⟨hsize, hlen⟩
  · have h0 := fifoToFd_writeAll (.inl hv.dpos_lt) hp hw
    exact ⟨(fifoToFd_drains hv poll writeAll writeAll).moved_eq h0, h0⟩
  · refine ⟨?_, fifoToFd_writeAll (.inr hlen) hp hw⟩
    rw [List.eq_nil_of_length_eq_zero (f.length_stored.trans hlen)]
    exact (FifoCall.out_of_no_cells hsize hlen (.fifoToFd poll writeAll writeAll)).2

/-- A reachable FIFO, of any size, with what went through it. -/
theorem runFifo_inBounds (bsize : ℕ) (flags : UInt32) (wmin : ℕ) (b : ℕ → UInt8)
    (cs : List FifoCall) :
    let s := runFifo (btfifoCreate bsize flags wmin b) cs
    s.fifo.InBounds ∧ s.fifo.bsize = bsize ∧ s.output ++ s.fifo.stored = s.input := by
  intro s
  rcases Nat.eq_zero_or_pos bsize with rfl | hb
  · obtain ⟨hs, hin, hout⟩ := runFifo_of_no_cells flags wmin b cs
    refine ⟨.inr (by rw [hs]; exact ⟨rfl, rfl⟩), by rw [hs]; rfl, ?_⟩
    show (runFifo (btfifoCreate 0 flags wmin b) cs).output ++ s.fifo.stored = _
    rw [hin, hout, hs]
    rfl
  · have h := runFifo_refines hb flags wmin b cs
    exact ⟨.inl h.valid, h.bsize_eq, (fifo_refines_queue hb flags wmin b cs).1⟩

theorem Btfifo.InBounds.clearWmin (hf : f.InBounds) : f.clearWmin.InBounds :=
  hf.imp (fun hv => ⟨hv.dlen_le, hv.dpos_lt⟩) id

theorem clearWmin_flags (f : Btfifo) : f.clearWmin.flags &&& btfifoFUseWmin = 0 := by
  show f.flags &&& ~~~ btfifoFUseWmin &&& btfifoFUseWmin = 0
  rw [UInt32.and_assoc, UInt32.not_and_self, UInt32.and_zero]

/-- **One call of the FIFO moves as much as possible**, after any calls with any answers of the
system.  Where the test of the descriptor lets the call pass, it stores as many of the bytes that
are there as are free, respectively writes all stored bytes in order and leaves none; the flush with
`BTFIFO_F_USE_WMIN` cleared completes the output.  Where the test stops the call, this is fatal and
nothing happens. -/
theorem fifo_moves_all (bsize : ℕ) (flags : UInt32) (wmin : ℕ) (b : ℕ → UInt8)
    (cs : List FifoCall) (poll : PollAnswer) (bs : List UInt8) :
    let s := runFifo (btfifoCreate bsize flags wmin b) cs
    let f := s.fifo
    let i := fillFrom f poll bs
    let o := btfifoFifoToFd f poll writeAll writeAll
    let e := btfifoFifoToFd f.clearWmin poll writeAll writeAll
    (PollPasses f poll → i.fifo.stored = f.stored ++ bs.take (bsize - f.dlen) ∧
        i.fifo.dlen = f.dlen + min bs.length (bsize - f.dlen)) ∧
      (PollPasses f poll → f.flags &&& btfifoFUseWmin = 0 →
        o.moved = f.stored ∧ o.fifo.dlen = 0) ∧
      (PollPasses f.clearWmin poll → s.output ++ e.moved = s.input ∧ e.fifo.dlen = 0) ∧
      (¬ PollPasses f poll → Refuses f i ∧ Refuses f o) := by
  intro s f i o e
  obtain ⟨hf, hsize, hconserves⟩ := runFifo_inBounds bsize flags wmin b cs
  refine ⟨fun hp => ?_, fifoToFd_flushes hf, fun hp => ?_, fun hp => ?_⟩
  · have hs := fillFrom_stored hf hp bs
    rw [hsize] at hs
    refine ⟨hs, ?_⟩
    have hlen := congrArg List.length hs
    rw [List.length_append, Btfifo.length_stored, Btfifo.length_stored, List.length_take,
      min_comm] at hlen
    exact hlen
  · obtain ⟨hmoved, h0⟩ := fifoToFd_flushes hf.clearWmin hp (clearWmin_flags f)
    refine ⟨?_, h0⟩
    rw [hmoved]
    exact hconserves
  · exact ⟨fdToFifo_refuses hp _ _, fifoToFd_refuses hp _ _⟩

/-- The calls that leave the second of four cells used. -/
def aroundCalls : List FifoCall :=
  [.fdToFifo .fine (readGives [1, 2]) (readGives []), .fifoToFd .fine (writeTakes 1) (writeTakes 0)]

/-- Three of five bytes are read around the end. -/
theorem fifo_moves_all_around :
    let s := runFifo (btfifoCreate 4 btfifoFAssumeFdReady 0 (fun _ => 0)) aroundCalls
    (fillFrom s.fifo .fine [3, 4, 5, 6, 7]).fifo.stored = s.fifo.stored ++ [3, 4, 5] ∧
      (fillFrom s.fifo .fine [3, 4, 5, 6, 7]).fifo.dlen = 4 := by
  have hall := fifo_moves_all 4 btfifoFAssumeFdReady 0 (fun _ => 0) aroundCalls .fine
    [3, 4, 5, 6, 7]
  have hlen : (runFifo (btfifoCreate 4 btfifoFAssumeFdReady 0 fun _ => 0) aroundCalls).fifo.dlen =
    1 := rfl
  generalize runFifo (btfifoCreate 4 btfifoFAssumeFdReady 0 fun _ => 0) aroundCalls = s
    at hall hlen ⊢
  have h := hall.1 fun _ => rfl
  rw [hlen] at h
  exact h

/-- The writer of a pipe has gone and left a byte: `poll` reports `POLLHUP`, and the byte that a
`read` would give is not stored. -/
theorem hung_up_not_read :
    ¬ ∀ (bsize : ℕ) (flags : UInt32) (wmin : ℕ) (b : ℕ → UInt8) (cs : List FifoCall)
      (poll : PollAnswer) (bs : List UInt8),
      let f := (runFifo (btfifoCreate bsize flags wmin b) cs).fifo
      (fillFrom f poll bs).fifo.dlen = f.dlen + min bs.length (bsize - f.dlen) := by
  intro h
  have hc := h 4 0 0 (fun _ => 0) [] .collapsed [1]
  exact absurd hc (by decide)

end TaniDVR
