import TaniDVR.Btfifo

/-!
# FifoReturns — what the calls of the FIFO return

`btfifo_fd_to_fifo` and `btfifo_fifo_to_fd` return the result of their last `read` or `write`.  Where
the free or used cells are in two regions and the first system call does all of its region, a second
one follows, and the bytes of the first are not in the result: `fifo_returns_iff`.
-/

namespace TaniDVR

open Lib

/-- The result is the number `n` of bytes moved, or negative and nothing happened. -/
structure ReturnsMoved (n : ℤ) (f : Btfifo) (o : FifoOut) : Prop where
  count : 0 ≤ o.ret → o.ret = n
  failed : o.ret < 0 → o.moved = [] ∧ o.fifo = f

/-- By how much `dlen` grew. -/
def grown (f : Btfifo) (o : FifoOut) : ℤ := (o.fifo.dlen : ℤ) - f.dlen

/-- By how much `dlen` shrank. -/
def shrunk (f : Btfifo) (o : FifoOut) : ℤ := (f.dlen : ℤ) - o.fifo.dlen

/-- The preliminary test of the descriptor lets the call go on. -/
def PollPasses (f : Btfifo) (poll : PollAnswer) : Prop :=
  f.flags &&& btfifoFAssumeFdReady = 0 → poll = .fine

namespace FifoCall

/-- The call on the FIFO `f`. -/
def out (f : Btfifo) : FifoCall → FifoOut
  | fdToFifo poll read₁ read₂ => btfifoFdToFifo f poll read₁ read₂
  | fifoToFd poll write₁ write₂ => btfifoFifoToFd f poll write₁ write₂

/-- The result accounts for the bytes moved. -/
def Accounts (f : Btfifo) : FifoCall → Prop
  | c@(fdToFifo _ _ _) => ReturnsMoved (grown f (c.out f)) f (c.out f)
  | c@(fifoToFd _ _ _) => ReturnsMoved (shrunk f (c.out f)) f (c.out f)

/-- The cells are in two regions and the first system call does the whole first one. -/
def GoesRound (f : Btfifo) : FifoCall → Prop
  | fdToFifo poll read₁ _ => PollPasses f poll ∧ f.dpos ≠ 0 ∧ f.dpos + f.dlen < f.bsize ∧
      ∃ bs, read₁ (f.bsize - (f.dpos + f.dlen)) = .ok bs ∧
        bs.1.length = f.bsize - (f.dpos + f.dlen)
  | fifoToFd poll write₁ _ => PollPasses f poll ∧ f.dpos ≠ 0 ∧ f.bsize < f.dpos + f.dlen ∧
      ¬ (f.flags &&& btfifoFUseWmin ≠ 0 ∧ f.wmin > f.dlen) ∧
      ∃ n, write₁ (slice f.b f.dpos (f.bsize - f.dpos)) = .ok n ∧ n.1 = f.bsize - f.dpos

end FifoCall

section OneCall

variable {f g : Btfifo} {o : FifoOut} {poll : PollAnswer} {n : ℤ}

/-- A call that moved nothing. -/
theorem returnsMoved_nothing {r : ℤ} {regions : List Region} (hr : r ≤ 0) (hn : n = 0) :
    ReturnsMoved n f ⟨r, f, [], regions⟩ := by
  refine ⟨fun h => ?_, fun _ => ⟨rfl, rfl⟩⟩
  dsimp only at h ⊢
  omega

/-- The code of a failed system call. -/
theorem errno_neg (e : Errno) {a b : ℤ} (ha : a < 0) (hb : b < 0) :
    (if e.again = true then a else b) < 0 := by
  split_ifs
  · exact ha
  · exact hb

/-- The last `read` accounts for itself. -/
theorem readLastRegion_returns (f : Btfifo) (read : ReadFn) :
    ReturnsMoved (grown f (readLastRegion f read)) f (readLastRegion f read) := by
  unfold readLastRegion
  dsimp only
  generalize (if f.dpos = 0 then (f.dlen : ℤ) else (f.dpos : ℤ) - (f.bsize - f.dlen : ℕ)) = wpos
  cases read (f.bsize - f.dlen) with
  | error e => exact returnsMoved_nothing (errno_neg e (by decide) (by decide)).le (sub_self _)
  | ok bs =>
    obtain ⟨bs, hbs⟩ := bs
    dsimp only
    split_ifs with h0
    · exact returnsMoved_nothing le_rfl (sub_self _)
    · refine ⟨fun _ => ?_, fun h => ?_⟩
      · simp [grown]
      · dsimp only at h
        omega

/-- So does the last `write`. -/
theorem writeLastRegion_returns (f : Btfifo) (write : WriteFn) :
    ReturnsMoved (shrunk f (writeLastRegion f write)) f (writeLastRegion f write) := by
  unfold writeLastRegion
  dsimp only
  cases write (slice f.b f.dpos f.dlen) with
  | error e => exact returnsMoved_nothing (errno_neg e (by decide) (by decide)).le (sub_self _)
  | ok n =>
    obtain ⟨n, hn⟩ := n
    rw [length_slice] at hn
    dsimp only
    split_ifs with h0 hd hb hb
    · exact returnsMoved_nothing le_rfl (sub_self _)
    all_goals
      refine ⟨fun _ => ?_, fun h => ?_⟩
      · simp only [shrunk]
        omega
      · dsimp only at h
        omega

/-- A result that accounts for what happened after `g` does not for what happened after `f`. -/
theorem ReturnsMoved.not_from {m : ℤ} (h : ReturnsMoved n g o) (hn : n ≠ m) (hfg : g ≠ f)
    {bs : List UInt8} {regions : List Region} :
    ¬ ReturnsMoved m f { o with moved := bs, regions := regions } := by
  intro h'
  rcases lt_or_ge o.ret 0 with hneg | hpos
  · exact hfg ((h.failed hneg).2.symm.trans (h'.failed hneg).2)
  · exact hn ((h.count hpos).symm.trans (h'.count hpos))

/-- The tests before the first system call. -/
theorem pollPasses_iff : PollPasses f poll ↔
    ¬ (f.flags &&& btfifoFAssumeFdReady = 0 ∧ poll = .failed) ∧
      ¬ (f.flags &&& btfifoFAssumeFdReady = 0 ∧ poll = .collapsed) := by
  unfold PollPasses
  cases poll <;> simp

/-- **`btfifo_fd_to_fifo`** accounts for the bytes read unless it goes round. -/
theorem fdToFifo_returns (f : Btfifo) (poll : PollAnswer) (read₁ read₂ : ReadFn) :
    (FifoCall.fdToFifo poll read₁ read₂).Accounts f ↔
      ¬ (FifoCall.fdToFifo poll read₁ read₂).GoesRound f := by
  unfold FifoCall.Accounts FifoCall.GoesRound FifoCall.out
  dsimp only
  rw [pollPasses_iff]
  unfold btfifoFdToFifo
  split_ifs with hp1 hp2 hfull h2
  · exact iff_of_true (returnsMoved_nothing (by decide) (sub_self _)) fun h => h.1.1 hp1
  · exact iff_of_true (returnsMoved_nothing (by decide) (sub_self _)) fun h => h.1.2 hp2
  · refine iff_of_true (returnsMoved_nothing (by decide) (sub_self _)) ?_
    rintro ⟨-, -, hlt, -⟩
    omega
  · dsimp only
    cases hread : read₁ (f.bsize - (f.dpos + f.dlen)) with
    | error e =>
      refine iff_of_true ?_ ?_
      · exact returnsMoved_nothing (errno_neg e (by decide) (by decide)).le (sub_self _)
      · rintro ⟨-, -, -, bs, hbs, -⟩
        cases hbs
    | ok bs =>
      obtain ⟨bs, hbs⟩ := bs
      dsimp only
      split_ifs with h0 hshort
      · refine iff_of_true (returnsMoved_nothing le_rfl (sub_self _)) ?_
        rintro ⟨-, -, hlt, bs', hbs', hlen⟩
        cases hbs'
        dsimp only at hlen
        omega
      · refine iff_of_true ⟨fun _ => ?_, fun h => ?_⟩ ?_
        · simp [grown]
        · dsimp only at h
          omega
        · rintro ⟨-, -, -, bs', hbs', hlen⟩
          cases hbs'
          exact hshort hlen
      · -- the bytes of the first region are not in the result
        refine iff_of_false ?_ ?_
        · refine (readLastRegion_returns _ read₂).not_from ?_ ?_
          · simp only [grown, Nat.cast_add]
            omega
          · intro heq
            have := congrArg Btfifo.dlen heq
            dsimp only at this
            omega
        · rw [not_not]
          exact ⟨⟨hp1, hp2⟩, h2.1, h2.2, _, rfl, not_not.mp hshort⟩
  · refine iff_of_true (readLastRegion_returns f read₁) ?_
    rintro ⟨-, h0, hlt, -⟩
    exact h2 ⟨h0, hlt⟩

/-- **`btfifo_fifo_to_fd`** accounts for the bytes written unless it goes round. -/
theorem fifoToFd_returns (hpos : f.dpos < f.bsize ∨ f.dpos = 0 ∧ f.dlen = 0) (poll : PollAnswer)
    (write₁ write₂ : WriteFn) :
    (FifoCall.fifoToFd poll write₁ write₂).Accounts f ↔
      ¬ (FifoCall.fifoToFd poll write₁ write₂).GoesRound f := by
  unfold FifoCall.Accounts FifoCall.GoesRound FifoCall.out
  dsimp only
  rw [pollPasses_iff]
  unfold btfifoFifoToFd
  split_ifs with hp1 hp2 hempty hw h2
  · exact iff_of_true (returnsMoved_nothing (by decide) (sub_self _)) fun h => h.1.1 hp1
  · exact iff_of_true (returnsMoved_nothing (by decide) (sub_self _)) fun h => h.1.2 hp2
  · refine iff_of_true (returnsMoved_nothing le_rfl (sub_self _)) ?_
    rintro ⟨-, -, hlt, -⟩
    omega
  · refine iff_of_true (returnsMoved_nothing le_rfl (sub_self _)) ?_
    rintro ⟨-, -, -, hnw, -⟩
    exact hnw hw
  · dsimp only
    cases hwrite : write₁ (slice f.b f.dpos (f.bsize - f.dpos)) with
    | error e =>
      refine iff_of_true ?_ ?_
      · exact returnsMoved_nothing (errno_neg e (by decide) (by decide)).le (sub_self _)
      · rintro ⟨-, -, -, -, n, hn, -⟩
        cases hn
    | ok n =>
      obtain ⟨n, hn⟩ := n
      rw [length_slice] at hn
      dsimp only
      split_ifs with h0 hshort
      · refine iff_of_true (returnsMoved_nothing le_rfl (sub_self _)) ?_
        rintro ⟨-, -, -, -, n', hn', hlen'⟩
        cases hn'
        dsimp only at hlen'
        omega
      · refine iff_of_true ⟨fun _ => ?_, fun h => ?_⟩ ?_
        · simp only [shrunk]
          omega
        · dsimp only at h
          omega
        · rintro ⟨-, -, -, -, n', hn', hlen'⟩
          cases hn'
          exact hshort hlen'
      · refine iff_of_false ?_ ?_
        · refine (writeLastRegion_returns _ write₂).not_from ?_ ?_
          · simp only [shrunk]
            omega
          · intro heq
            have := congrArg Btfifo.dlen heq
            dsimp only at this
            omega
        · rw [not_not]
          exact ⟨⟨hp1, hp2⟩, h2.1, h2.2, hw, _, rfl, not_not.mp hshort⟩
  · refine iff_of_true (writeLastRegion_returns f write₁) ?_
    rintro ⟨-, h0, hlt, -⟩
    exact h2 ⟨h0, hlt⟩

end OneCall

/-- A FIFO without cells stays as it is and moves nothing. -/
theorem FifoCall.out_of_no_cells {f : Btfifo} (hsize : f.bsize = 0) (hlen : f.dlen = 0)
    (c : FifoCall) : (c.out f).fifo = f ∧ (c.out f).moved = [] := by
  cases c with
  | fdToFifo poll read₁ read₂ =>
    have hfull : f.bsize - f.dlen = 0 := by omega
    unfold FifoCall.out btfifoFdToFifo
    simp only [hfull, if_true]
    split_ifs <;> exact ⟨rfl, rfl⟩
  | fifoToFd poll write₁ write₂ =>
    unfold FifoCall.out btfifoFifoToFd
    simp only [hlen, if_true]
    split_ifs <;> exact ⟨rfl, rfl⟩

/-- Nothing goes through it. -/
theorem runFifo_of_no_cells (flags : UInt32) (wmin : ℕ) (b : ℕ → UInt8) (cs : List FifoCall) :
    let s := runFifo (btfifoCreate 0 flags wmin b) cs
    s.fifo = btfifoCreate 0 flags wmin b ∧ s.input = [] ∧ s.output = [] := by
  induction cs using List.reverseRecOn with
  | nil => exact ⟨rfl, rfl, rfl⟩
  | append_singleton cs c ih =>
    obtain ⟨hfifo, hin, hout⟩ := ih
    obtain ⟨hsame, hmoved⟩ := @FifoCall.out_of_no_cells (btfifoCreate 0 flags wmin b) rfl rfl c
    rw [← hfifo] at hsame hmoved
    rw [runFifo, List.foldl_append]
    cases c with
    | fdToFifo poll read₁ read₂ =>
      exact ⟨hsame.trans hfifo, List.append_eq_nil_iff.mpr ⟨hin, hmoved⟩, hout⟩
    | fifoToFd poll write₁ write₂ =>
      exact ⟨hsame.trans hfifo, hin, List.append_eq_nil_iff.mpr ⟨hout, hmoved⟩⟩

/-- **The results of the FIFO account for the bytes moved exactly where no call goes round**, after any
calls with any answers of the system. -/
theorem fifo_returns_iff (bsize : ℕ) (flags : UInt32) (wmin : ℕ) (b : ℕ → UInt8)
    (cs : List FifoCall) (c : FifoCall) :
    let f := (runFifo (btfifoCreate bsize flags wmin b) cs).fifo
    c.Accounts f ↔ ¬ c.GoesRound f := by
  intro f
  have hpos : f.dpos < f.bsize ∨ f.dpos = 0 ∧ f.dlen = 0 := by
    rcases Nat.eq_zero_or_pos bsize with rfl | hb
    · right
      show (runFifo (btfifoCreate 0 flags wmin b) cs).fifo.dpos = 0 ∧
        (runFifo (btfifoCreate 0 flags wmin b) cs).fifo.dlen = 0
      rw [(runFifo_of_no_cells flags wmin b cs).1]
      exact ⟨rfl, rfl⟩
    · exact .inl (runFifo_refines hb flags wmin b cs).valid.dpos_lt
  cases c with
  | fdToFifo poll read₁ read₂ => exact fdToFifo_returns f poll read₁ read₂
  | fifoToFd poll write₁ write₂ => exact fifoToFd_returns hpos poll write₁ write₂

/-- Four cells with one stored byte, the second: the call reads two bytes behind it, then one before
it, and returns 1. -/
theorem fifo_returns_less :
    ¬ ∀ (bsize : ℕ) (flags : UInt32) (wmin : ℕ) (b : ℕ → UInt8) (cs : List FifoCall) (c : FifoCall),
      c.Accounts (runFifo (btfifoCreate bsize flags wmin b) cs).fifo := by
  intro h
  have hc := h 4 btfifoFAssumeFdReady 0 (fun _ => 0)
    [.fdToFifo .fine (readGives [1, 2]) (readGives []),
      .fifoToFd .fine (writeTakes 1) (writeTakes 0)]
    (.fdToFifo .fine (readGives [3, 4]) (readGives [5]))
  have hret := hc.count (by decide)
  exact absurd hret (by decide)

end TaniDVR
