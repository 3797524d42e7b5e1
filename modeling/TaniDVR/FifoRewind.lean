import TaniDVR.FifoFlush

/-!
# FifoRewind — the start of an empty FIFO

`btfifo_fifo_to_fd` means to set `dpos` back to 0 when it has emptied the FIFO, but asks for
`dlen == 0` before it has taken the written bytes from `dlen`.  So `dpos` is where the data ended.
An emptied FIFO starts at 0 only where the data ended at the end of the buffer: `fifo_rewound_iff`.
-/

namespace TaniDVR

open Lib

/-- An empty FIFO starts at the beginning of the buffer. -/
def Btfifo.Rewound (f : Btfifo) : Prop := f.dlen = 0 → f.dpos = 0

/-- A `write` that takes the `k` cells of `f` from `a` on. -/
def WriteFn.TakesCells (write : WriteFn) (f : Btfifo) (a k : ℕ) : Prop :=
  ∃ n, write (slice f.b a k) = .ok n ∧ n.1 = k

/-- The `write`s of one or two regions take all that is stored. -/
def WritesAll (f : Btfifo) (write₁ write₂ : WriteFn) : Prop :=
  if f.dpos ≠ 0 ∧ f.dpos + f.dlen > f.bsize then
    write₁.TakesCells f f.dpos (f.bsize - f.dpos) ∧
      write₂.TakesCells f 0 (f.dlen - (f.bsize - f.dpos))
  else write₁.TakesCells f f.dpos f.dlen

/-- The call writes all that is stored, and the data does not end at the end of the buffer. -/
def FifoCall.EmptiesMidway (f : Btfifo) : FifoCall → Prop
  | fdToFifo _ _ _ => False
  | fifoToFd poll write₁ write₂ => PollPasses f poll ∧ f.dlen ≠ 0 ∧
      ¬ (f.flags &&& btfifoFUseWmin ≠ 0 ∧ f.wmin > f.dlen) ∧ f.dpos + f.dlen ≠ f.bsize ∧
      WritesAll f write₁ write₂

variable {f : Btfifo} {poll : PollAnswer}

/-! ### One call -/

theorem WriteFn.takesCells_ok {write : WriteFn} {a k n : ℕ} {hn : n ≤ (slice f.b a k).length}
    (h : write (slice f.b a k) = .ok ⟨n, hn⟩) : write.TakesCells f a k ↔ n = k := by
  refine ⟨?_, fun hk => ⟨⟨n, hn⟩, h, hk⟩⟩
  rintro ⟨n', hn', hlen⟩
  rw [h] at hn'
  cases hn'
  exact hlen

theorem WriteFn.not_takesCells {write : WriteFn} {a k : ℕ} {e : Errno}
    (h : write (slice f.b a k) = .error e) : ¬ write.TakesCells f a k := by
  rintro ⟨n, hn, -⟩
  rw [h] at hn
  cases hn

/-- A FIFO that stores something need not be rewound. -/
theorem rewound_of_ne {f : Btfifo} (h : f.dlen ≠ 0) : f.Rewound := fun h0 => absurd h0 h

/-- The last `write` leaves `dpos` where the data ended when it takes all. -/
theorem writeLastRegion_rewound (h0 : f.dlen ≠ 0) (write : WriteFn) :
    (writeLastRegion f write).fifo.Rewound ↔
      ¬ (f.dpos + f.dlen ≠ f.bsize ∧ write.TakesCells f f.dpos f.dlen) := by
  unfold writeLastRegion
  dsimp only
  cases hwrite : write (slice f.b f.dpos f.dlen) with
  | error e => exact iff_of_true (rewound_of_ne h0) fun h => WriteFn.not_takesCells hwrite h.2
  | ok n =>
    obtain ⟨n, hn⟩ := n
    rw [WriteFn.takesCells_ok hwrite]
    rw [length_slice] at hn
    dsimp only
    rw [if_neg h0]
    split_ifs with hn0 hb
    · exact iff_of_true (rewound_of_ne h0) (by omega)
    · exact iff_of_true (fun _ => rfl) (by omega)
    · unfold Btfifo.Rewound
      dsimp only
      omega

/-- **A call of `btfifo_fifo_to_fd`** keeps an empty FIFO rewound unless it empties the FIFO
midway. -/
theorem fifoToFd_rewound (hf : f.InBounds) (hr : f.Rewound)
    (poll : PollAnswer) (write₁ write₂ : WriteFn) :
    (btfifoFifoToFd f poll write₁ write₂).fifo.Rewound ↔
      ¬ (FifoCall.fifoToFd poll write₁ write₂).EmptiesMidway f := by
  unfold FifoCall.EmptiesMidway
  dsimp only
  rw [pollPasses_iff]
  unfold btfifoFifoToFd
  split_ifs with hp1 hp2 hempty hw h2
  · exact iff_of_true hr fun h => h.1.1 hp1
  · exact iff_of_true hr fun h => h.1.2 hp2
  · exact iff_of_true hr fun h => h.2.1 hempty
  · exact iff_of_true hr fun h => h.2.2.1 hw
  · have hv : f.Valid := hf.resolve_right fun h => hempty h.2
    have hpos := hv.dpos_lt
    have hlen := hv.dlen_le
    rw [WritesAll, if_pos h2]
    dsimp only
    cases hwrite : write₁ (slice f.b f.dpos (f.bsize - f.dpos)) with
    | error e => exact iff_of_true hr fun h => WriteFn.not_takesCells hwrite h.2.2.2.2.1
    | ok n =>
      obtain ⟨n, hn⟩ := n
      rw [WriteFn.takesCells_ok hwrite]
      rw [length_slice] at hn
      dsimp only
      by_cases h0 : n = 0
      · rw [if_pos h0]
        exact iff_of_true hr (by omega)
      · rw [if_neg h0]
        by_cases hshort : n ≠ f.bsize - f.dpos
        · -- something is left in the second region
          rw [if_pos hshort]
          refine iff_of_true (rewound_of_ne ?_) fun h => hshort h.2.2.2.2.1
          show f.dlen - n ≠ 0
          omega
        · rw [if_neg hshort]
          obtain rfl := not_not.mp hshort
          have hlast := writeLastRegion_rewound
            (f := { f with dlen := f.dlen - (f.bsize - f.dpos), dpos := 0 })
            (by dsimp only; omega) write₂
          refine hlast.trans (not_congr ?_)
          constructor
          · rintro ⟨-, htakes⟩
            exact ⟨⟨hp1, hp2⟩, hempty, hw, by omega, rfl, htakes⟩
          · rintro ⟨-, -, -, -, -, htakes⟩
            exact ⟨by dsimp only; omega, htakes⟩
  · rw [WritesAll, if_neg h2]
    refine (writeLastRegion_rewound hempty write₁).trans (not_congr ?_)
    exact ⟨fun h => ⟨⟨hp1, hp2⟩, hempty, hw, h⟩, fun h => h.2.2.2⟩

/-- **One call** keeps an empty FIFO rewound unless it empties the FIFO midway. -/
theorem FifoCall.out_rewound (hf : f.InBounds) (hr : f.Rewound) (c : FifoCall) :
    (c.out f).fifo.Rewound ↔ ¬ c.EmptiesMidway f := by
  cases c with
  | fdToFifo poll read₁ read₂ =>
    refine iff_of_true ?_ id
    rcases hf with hv | ⟨hsize, hlen⟩
    · intro h0
      have hlen := congrArg List.length (fdToFifo_fills hv poll read₁ read₂).stored
      rw [List.length_append, Btfifo.length_stored, Btfifo.length_stored] at hlen
      have h0 : (btfifoFdToFifo f poll read₁ read₂).fifo.dlen = 0 := h0
      show (btfifoFdToFifo f poll read₁ read₂).fifo.dpos = 0
      rw [(fdToFifo_keeps f poll read₁ read₂).2]
      exact hr (by omega)
    · rw [(FifoCall.out_of_no_cells hsize hlen _).1]
      exact hr
  | fifoToFd poll write₁ write₂ =>
    exact fifoToFd_rewound hf hr poll write₁ write₂

/-- **The next fill of an empty FIFO that is rewound** goes to the whole buffer at once. -/
theorem fdToFifo_regions_of_rewound (hr : f.Rewound) (h0 : f.dlen = 0) (poll : PollAnswer)
    (read₁ read₂ : ReadFn) :
    (btfifoFdToFifo f poll read₁ read₂).regions ⊆ [⟨0, f.bsize, f⟩] := by
  have hpos : f.dpos = 0 := hr h0
  have hlast : (readLastRegion f read₁).regions = [⟨0, f.bsize, f⟩] := by
    unfold readLastRegion
    dsimp only
    rw [if_pos hpos, h0, Nat.sub_zero]
    cases read₁ f.bsize with
    | error e => rfl
    | ok bs =>
      dsimp only
      split_ifs <;> rfl
  unfold btfifoFdToFifo
  split_ifs with hp1 hp2 hfull h2
  · exact List.nil_subset _
  · exact List.nil_subset _
  · exact List.nil_subset _
  · exact absurd hpos h2.1
  · rw [hlast]
    exact List.Subset.refl _

/-! ### Runs -/

theorem runFifo_concat (f : Btfifo) (cs : List FifoCall) (c : FifoCall) :
    (runFifo f (cs ++ [c])).fifo = (c.out (runFifo f cs).fifo).fifo := by
  rw [runFifo, List.foldl_append]
  cases c <;> rfl

/-- **An empty FIFO is rewound exactly where no call empties it midway**: in every state of a run an
empty FIFO starts at the beginning of the buffer, and its next fill goes to the whole buffer at
once, if and only if no call writes all stored bytes while these end elsewhere than at the end of
the buffer. -/
theorem fifo_rewound_iff (bsize : ℕ) (flags : UInt32) (wmin : ℕ) (b : ℕ → UInt8)
    (cs : List FifoCall) :
    (∀ pre, pre <+: cs →
      let f := (runFifo (btfifoCreate bsize flags wmin b) pre).fifo
      f.dlen = 0 → f.dpos = 0 ∧ ∀ poll read₁ read₂,
        (btfifoFdToFifo f poll read₁ read₂).regions ⊆ [⟨0, bsize, f⟩]) ↔
    ∀ pre c, pre ++ [c] <+: cs →
      ¬ c.EmptiesMidway (runFifo (btfifoCreate bsize flags wmin b) pre).fifo := by
  constructor
  · intro hall pre c hp
    have hf := (runFifo_inBounds bsize flags wmin b pre).1
    have hr : (runFifo (btfifoCreate bsize flags wmin b) pre).fifo.Rewound := fun h0 =>
      (hall pre ((List.prefix_append pre [c]).trans hp) h0).1
    rw [← FifoCall.out_rewound hf hr c, ← runFifo_concat]
    exact fun h0 => (hall (pre ++ [c]) hp h0).1
  · intro hno pre hp f h0
    have hr : f.Rewound := by
      clear h0
      induction pre using List.reverseRecOn with
      | nil => exact fun _ => rfl
      | append_singleton pre c ih =>
        have hf := (runFifo_inBounds bsize flags wmin b pre).1
        have hr := ih ((List.prefix_append pre [c]).trans hp)
        show (runFifo (btfifoCreate bsize flags wmin b) (pre ++ [c])).fifo.Rewound
        rw [runFifo_concat, FifoCall.out_rewound hf hr c]
        exact hno pre c hp
    refine ⟨hr h0, fun poll read₁ read₂ => ?_⟩
    have hregions := fdToFifo_regions_of_rewound hr h0 poll read₁ read₂
    rwa [(runFifo_inBounds bsize flags wmin b pre).2.1] at hregions

/-- Four cells: one byte in and out leaves the FIFO empty at the second cell. -/
theorem emptied_not_rewound :
    ¬ ∀ (bsize : ℕ) (flags : UInt32) (wmin : ℕ) (b : ℕ → UInt8) (cs : List FifoCall),
      let f := (runFifo (btfifoCreate bsize flags wmin b) cs).fifo
      f.dlen = 0 → f.dpos = 0 := by
  intro h
  have hc := h 4 btfifoFAssumeFdReady 0 (fun _ => 0)
    [.fdToFifo .fine (readGives [1]) (readGives []),
      .fifoToFd .fine (writeTakes 1) (writeTakes 0)]
  exact absurd (hc rfl) (by decide)

end TaniDVR
