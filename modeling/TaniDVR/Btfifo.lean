import Mathlib.Data.Int.Notation
import Mathlib.Data.UInt
import TaniDVR.Lib.Ring

/-!
# Btfifo — the circular FIFO of `bufftools.c`

`btfifoFdToFifo` and `btfifoFifoToFd` take the answers of `poll`, `read` and `write` as arguments:
a `read` may fail or give any bytes up to the requested count, a `write` may fail or take any number
of the bytes offered.  A call makes up to two of them.

`Btfifo.stored` are the stored bytes; `Btfifo.Valid` is the invariant.  `fdToFifo_fills` and
`fifoToFd_drains` say what one call does to them, and `fifo_refines_queue` that every run is the run
of a queue of at most `bsize` bytes.
-/

namespace TaniDVR

open Lib

/-- `BTFIFO_F_USE_WMIN`. -/
def btfifoFUseWmin : UInt32 := (1 : UInt32) <<< 0

/-- `BTFIFO_F_ASSUME_FD_READY`. -/
def btfifoFAssumeFdReady : UInt32 := (1 : UInt32) <<< 1

/-- `btfifo_t`, but for the `pollfd`s. -/
structure Btfifo where
  bsize : ℕ
  flags : UInt32
  wmin : ℕ
  b : ℕ → UInt8
  dlen : ℕ
  dpos : ℕ

/-- `btfifo_create`, where `malloc` succeeds; the new buffer holds arbitrary bytes. -/
def btfifoCreate (bsize : ℕ) (flags : UInt32) (wmin : ℕ) (b : ℕ → UInt8) : Btfifo :=
  ⟨bsize, flags, wmin, b, 0, 0⟩

/-- The values of `errno` that the FIFO tells apart. -/
inductive Errno
  | eagain | ewouldblock | eintr
  | other (code : ℕ)
  deriving DecidableEq, Repr

/-- `(errno == EAGAIN) || (errno == EWOULDBLOCK) || (errno == EINTR)`. -/
def Errno.again : Errno → Bool
  | eagain | ewouldblock | eintr => true
  | other _ => false

/-- What `poll` says of a descriptor: the call failed, one of `POLLERR`, `POLLHUP` and `POLLNVAL` is
set, or neither. -/
inductive PollAnswer
  | failed | collapsed | fine
  deriving DecidableEq, Repr

/-- A `read` of at most `len` bytes. -/
def ReadFn : Type := (len : ℕ) → Except Errno {bs : List UInt8 // bs.length ≤ len}

/-- A `write` of some bytes: how many were taken. -/
def WriteFn : Type := (bs : List UInt8) → Except Errno {n : ℕ // n ≤ bs.length}

/-- A region of the buffer passed to `read`: its start as an offset to `b`, its length, and the FIFO
at that time. -/
structure Region where
  start : ℤ
  len : ℕ
  fifo : Btfifo

/-- What a call returns and leaves: the bytes that were read or written, and the regions read to. -/
structure FifoOut where
  ret : ℤ
  fifo : Btfifo
  moved : List UInt8
  regions : List Region

/-- `btfifo_fd_to_fifo` from "f_regions == 1 OR writing into the 2nd region" on. -/
def readLastRegion (f : Btfifo) (read : ReadFn) : FifoOut :=
  let fLen := f.bsize - f.dlen
  let wpos : ℤ := if f.dpos = 0 then f.dlen else (f.dpos : ℤ) - fLen
  match read fLen with
  | .error e => ⟨if e.again then -1 else -1401, f, [], [⟨wpos, fLen, f⟩]⟩
  | .ok ⟨bs, _⟩ =>
    if bs.length = 0 then ⟨0, f, [], [⟨wpos, fLen, f⟩]⟩
    else ⟨bs.length, { f with b := blit f.b wpos.toNat bs, dlen := f.dlen + bs.length }, bs,
      [⟨wpos, fLen, f⟩]⟩

/-- `btfifo_fd_to_fifo`. -/
def btfifoFdToFifo (f : Btfifo) (poll : PollAnswer) (read₁ read₂ : ReadFn) : FifoOut :=
  if f.flags &&& btfifoFAssumeFdReady = 0 ∧ poll = .failed then ⟨-103, f, [], []⟩
  else if f.flags &&& btfifoFAssumeFdReady = 0 ∧ poll = .collapsed then ⟨-1201, f, [], []⟩
  else if f.bsize - f.dlen = 0 then ⟨-2, f, [], []⟩
  else if f.dpos ≠ 0 ∧ f.dpos + f.dlen < f.bsize then
    -- two regions, the one behind the data first
    let fLen := f.bsize - (f.dpos + f.dlen)
    let wpos := f.dpos + f.dlen
    match read₁ fLen with
    | .error e => ⟨if e.again then -1 else -1301, f, [], [⟨wpos, fLen, f⟩]⟩
    | .ok ⟨bs, _⟩ =>
      if bs.length = 0 then ⟨0, f, [], [⟨wpos, fLen, f⟩]⟩
      else
        let g := { f with b := blit f.b wpos bs, dlen := f.dlen + bs.length }
        if bs.length ≠ fLen then ⟨bs.length, g, bs, [⟨wpos, fLen, f⟩]⟩
        else
          let o := readLastRegion g read₂
          { o with moved := bs ++ o.moved, regions := ⟨wpos, fLen, f⟩ :: o.regions }
  else readLastRegion f read₁

/-- `btfifo_fifo_to_fd` from "u_regions == 1 OR reading data from the 2nd region" on. -/
def writeLastRegion (f : Btfifo) (write : WriteFn) : FifoOut :=
  let uLen := f.dlen
  match write (slice f.b f.dpos uLen) with
  | .error e => ⟨if e.again then -1 else -101, f, [], []⟩
  | .ok ⟨n, _⟩ =>
    if n = 0 then ⟨0, f, [], []⟩
    else
      let f := if f.dlen = 0 then { f with dpos := 0 } else f
      let rpos := f.dpos
      let f := { f with dlen := f.dlen - n, dpos := f.dpos + n }
      let f := if f.dpos = f.bsize then { f with dpos := 0 } else f
      ⟨n, f, slice f.b rpos n, []⟩

/-- `btfifo_fifo_to_fd`. -/
def btfifoFifoToFd (f : Btfifo) (poll : PollAnswer) (write₁ write₂ : WriteFn) : FifoOut :=
  if f.flags &&& btfifoFAssumeFdReady = 0 ∧ poll = .failed then ⟨-103, f, [], []⟩
  else if f.flags &&& btfifoFAssumeFdReady = 0 ∧ poll = .collapsed then ⟨-101, f, [], []⟩
  else if f.dlen = 0 then ⟨0, f, [], []⟩
  else if f.flags &&& btfifoFUseWmin ≠ 0 ∧ f.wmin > f.dlen then ⟨0, f, [], []⟩
  else if f.dpos ≠ 0 ∧ f.dpos + f.dlen > f.bsize then
    -- two regions, up to the end of the buffer first
    let uLen := f.bsize - f.dpos
    match write₁ (slice f.b f.dpos uLen) with
    | .error e => ⟨if e.again then -1 else -101, f, [], []⟩
    | .ok ⟨n, _⟩ =>
      if n = 0 then ⟨0, f, [], []⟩
      else
        let g := { f with dlen := f.dlen - n }
        if n ≠ uLen then ⟨n, { g with dpos := g.dpos + n }, slice f.b f.dpos n, []⟩
        else
          let o := writeLastRegion { g with dpos := 0 } write₂
          { o with moved := slice f.b f.dpos n ++ o.moved }
  else writeLastRegion f write₁

namespace Btfifo

/-- The stored bytes, in order. -/
def stored (f : Btfifo) : List UInt8 := ring f.b f.bsize f.dpos f.dlen

/-- The invariant of the FIFO. -/
structure Valid (f : Btfifo) : Prop where
  dlen_le : f.dlen ≤ f.bsize
  dpos_lt : f.dpos < f.bsize

@[simp] theorem length_stored (f : Btfifo) : f.stored.length = f.dlen := length_ring _ _ _ _

end Btfifo

/-- A region inside the buffer, without a stored byte. -/
structure Region.Free (r : Region) : Prop where
  start_nonneg : 0 ≤ r.start
  end_le : r.start + r.len ≤ r.fifo.bsize
  disjoint : ∀ i < r.fifo.dlen, ¬ (r.start ≤ ((r.fifo.dpos + i) % r.fifo.bsize : ℕ) ∧
    ((r.fifo.dpos + i) % r.fifo.bsize : ℕ) < r.start + r.len)

/-- A call that moved bytes in. -/
structure Fills (f : Btfifo) (o : FifoOut) : Prop where
  valid : o.fifo.Valid
  bsize : o.fifo.bsize = f.bsize
  stored : o.fifo.stored = f.stored ++ o.moved
  regions : ∀ r ∈ o.regions, r.fifo.bsize = f.bsize ∧ r.Free

/-- A call that moved bytes out. -/
structure Drains (f : Btfifo) (o : FifoOut) : Prop where
  valid : o.fifo.Valid
  bsize : o.fifo.bsize = f.bsize
  stored : f.stored = o.moved ++ o.fifo.stored
  regions : o.regions = []

variable {f : Btfifo} {a k : ℕ} {bs : List UInt8}

/-! ### Reading -/

/-- The region behind the data is free. -/
theorem region_free (hv : f.Valid) (ha : a = (f.dpos + f.dlen) % f.bsize)
    (hk : f.dlen + k ≤ f.bsize)
    (hak : a + k ≤ f.bsize) : (⟨a, k, f⟩ : Region).Free := by
  refine ⟨Int.natCast_nonneg a, by dsimp only; omega, ?_⟩
  intro i hi h
  dsimp only at h hi
  exact ring_disjoint hv.dpos_lt ha hk hi (by omega)

/-- Bytes read to the region behind the data are stored behind the data. -/
theorem filled (hv : f.Valid) (ha : a = (f.dpos + f.dlen) % f.bsize) (bs : List UInt8)
    (hk : f.dlen + bs.length ≤ f.bsize) (hak : a + bs.length ≤ f.bsize) :
    ({ f with b := blit f.b a bs, dlen := f.dlen + bs.length } : Btfifo).Valid ∧
    ({ f with b := blit f.b a bs, dlen := f.dlen + bs.length } : Btfifo).stored = f.stored ++ bs :=
  ⟨⟨hk, hv.dpos_lt⟩, ring_blit hv.dpos_lt ha hk hak⟩

/-- A call that read nothing. -/
theorem fills_nothing (hv : f.Valid) {r : ℤ} {regions : List Region}
    (hr : ∀ r ∈ regions, r.fifo.bsize = f.bsize ∧ r.Free) : Fills f ⟨r, f, [], regions⟩ :=
  ⟨hv, rfl, (List.append_nil _).symm, hr⟩

/-- Where the last region starts. -/
theorem last_wpos (hv : f.Valid) (hfree : f.dlen < f.bsize)
    (h1 : ¬ (f.dpos ≠ 0 ∧ f.dpos + f.dlen < f.bsize)) :
    ∃ a : ℕ, (if f.dpos = 0 then (f.dlen : ℤ) else (f.dpos : ℤ) - (f.bsize - f.dlen : ℕ)) = a ∧
      a = (f.dpos + f.dlen) % f.bsize ∧ a + (f.bsize - f.dlen) ≤ f.bsize := by
  have hpos := hv.dpos_lt
  by_cases h0 : f.dpos = 0
  · refine ⟨f.dlen, if_pos h0, ?_, by omega⟩
    rw [h0, Nat.zero_add, Nat.mod_eq_of_lt hfree]
  · have hge : f.bsize ≤ f.dpos + f.dlen := by
      by_contra hlt
      exact h1 ⟨h0, by omega⟩
    refine ⟨f.dpos + f.dlen - f.bsize, ?_, ?_, by omega⟩
    · rw [if_neg h0]
      omega
    · rw [Nat.mod_eq_sub_mod hge, Nat.mod_eq_of_lt (by omega)]

theorem readLastRegion_fills (hv : f.Valid) (hfree : f.dlen < f.bsize)
    (h1 : ¬ (f.dpos ≠ 0 ∧ f.dpos + f.dlen < f.bsize)) (read : ReadFn) :
    Fills f (readLastRegion f read) := by
  obtain ⟨a, ha, hmod, hend⟩ := last_wpos hv hfree h1
  have hr : ∀ r ∈ [(⟨a, f.bsize - f.dlen, f⟩ : Region)], r.fifo.bsize = f.bsize ∧ r.Free := by
    intro r hr
    obtain rfl := List.mem_singleton.mp hr
    exact ⟨rfl, region_free hv hmod (by omega) hend⟩
  unfold readLastRegion
  dsimp only
  rw [ha]
  cases read (f.bsize - f.dlen) with
  | error e => exact fills_nothing hv hr
  | ok bs =>
    obtain ⟨bs, hbs⟩ := bs
    dsimp only
    split_ifs with h0
    · exact fills_nothing hv hr
    · obtain ⟨hv', hs⟩ := filled hv hmod bs (by omega) (by omega)
      exact ⟨hv', rfl, hs, hr⟩

/-- **`btfifo_fd_to_fifo`** stores what it reads behind the stored bytes. -/
theorem fdToFifo_fills (hv : f.Valid) (poll : PollAnswer) (read₁ read₂ : ReadFn) :
    Fills f (btfifoFdToFifo f poll read₁ read₂) := by
  have hnone : ∀ r ∈ ([] : List Region), r.fifo.bsize = f.bsize ∧ r.Free := by simp
  have hpos := hv.dpos_lt
  unfold btfifoFdToFifo
  split_ifs with hp1 hp2 hfull h2
  · exact fills_nothing hv hnone
  · exact fills_nothing hv hnone
  · exact fills_nothing hv hnone
  · have hmod : f.dpos + f.dlen = (f.dpos + f.dlen) % f.bsize := (Nat.mod_eq_of_lt h2.2).symm
    have hr : (⟨(f.dpos + f.dlen : ℕ), f.bsize - (f.dpos + f.dlen), f⟩ : Region).Free :=
      region_free hv hmod (by omega) (by omega)
    have hr1 : ∀ r ∈ [(⟨(f.dpos + f.dlen : ℕ), f.bsize - (f.dpos + f.dlen), f⟩ : Region)],
        r.fifo.bsize = f.bsize ∧ r.Free := by
      intro r hmem
      obtain rfl := List.mem_singleton.mp hmem
      exact ⟨rfl, hr⟩
    dsimp only
    cases read₁ (f.bsize - (f.dpos + f.dlen)) with
    | error e => exact fills_nothing hv hr1
    | ok bs =>
      obtain ⟨bs, hbs⟩ := bs
      dsimp only
      split_ifs with h0 hshort
      · exact fills_nothing hv hr1
      · obtain ⟨hv', hs⟩ := filled hv hmod bs (by omega) (by omega)
        exact ⟨hv', rfl, hs, hr1⟩
      · -- the first region is full: the data now ends at the end of the buffer
        obtain ⟨hv', hs⟩ := filled hv hmod bs (by omega) (by omega)
        have hlast := readLastRegion_fills hv' (by dsimp only; omega) (by dsimp only; omega) read₂
        refine ⟨hlast.valid, hlast.bsize, ?_, ?_⟩
        · rw [hlast.stored, hs, List.append_assoc]
        · intro r hmem
          rcases List.mem_cons.mp hmem with rfl | hmem
          · exact ⟨rfl, hr⟩
          · exact hlast.regions r hmem
  · exact readLastRegion_fills hv (by omega) h2 read₁

/-! ### Writing -/

/-- A call that wrote nothing. -/
theorem drains_nothing (hv : f.Valid) {r : ℤ} : Drains f ⟨r, f, [], []⟩ := ⟨hv, rfl, rfl, rfl⟩

/-- Bytes taken from the start, before the end of the buffer. -/
theorem stored_split (hk : k ≤ f.dlen) (hend : f.dpos + k ≤ f.bsize) :
    f.stored = slice f.b f.dpos k ++ ring f.b f.bsize (f.dpos + k) (f.dlen - k) := by
  have := ring_append f.b f.bsize f.dpos k (f.dlen - k)
  rw [show k + (f.dlen - k) = f.dlen by omega, ring_eq_slice hend] at this
  exact this.symm

theorem writeLastRegion_drains (hv : f.Valid) (hend : f.dpos + f.dlen ≤ f.bsize) (write : WriteFn) :
    Drains f (writeLastRegion f write) := by
  have hpos := hv.dpos_lt
  have hlen := hv.dlen_le
  unfold writeLastRegion
  dsimp only
  cases write (slice f.b f.dpos f.dlen) with
  | error e => exact drains_nothing hv
  | ok n =>
    obtain ⟨n, hn⟩ := n
    rw [length_slice] at hn
    dsimp only
    split_ifs with h0 hd hb hb
    · exact drains_nothing hv
    · omega
    · omega
    · exact ⟨⟨by dsimp only; omega, by dsimp only; omega⟩, rfl, by
        have := stored_split (f := f) hn (by omega)
        rw [hb, ring_self] at this
        exact this, rfl⟩
    · exact ⟨⟨by dsimp only; omega, by dsimp only; omega⟩, rfl, stored_split hn (by omega), rfl⟩

/-- **`btfifo_fifo_to_fd`** writes the oldest stored bytes and forgets these. -/
theorem fifoToFd_drains (hv : f.Valid) (poll : PollAnswer) (write₁ write₂ : WriteFn) :
    Drains f (btfifoFifoToFd f poll write₁ write₂) := by
  have hpos := hv.dpos_lt
  have hlen := hv.dlen_le
  unfold btfifoFifoToFd
  split_ifs with hp1 hp2 hempty hw h2
  · exact drains_nothing hv
  · exact drains_nothing hv
  · exact drains_nothing hv
  · exact drains_nothing hv
  · dsimp only
    cases write₁ (slice f.b f.dpos (f.bsize - f.dpos)) with
    | error e => exact drains_nothing hv
    | ok n =>
      obtain ⟨n, hn⟩ := n
      rw [length_slice] at hn
      dsimp only
      split_ifs with h0 hshort
      · exact drains_nothing hv
      · exact ⟨⟨by dsimp only; omega, by dsimp only; omega⟩, rfl,
          stored_split (by omega) (by omega), rfl⟩
      · have hlast := writeLastRegion_drains (f := { f with dlen := f.dlen - n, dpos := 0 })
          ⟨by dsimp only; omega, by dsimp only; omega⟩ (by dsimp only; omega) write₂
        refine ⟨hlast.valid, hlast.bsize, ?_, hlast.regions⟩
        have hsplit := stored_split (f := f) (k := n) (by omega) (by omega)
        rw [show f.dpos + n = f.bsize by omega, ring_self] at hsplit
        rw [hsplit, List.append_assoc, ← hlast.stored]
        rfl
  · exact writeLastRegion_drains hv (by omega) write₁

/-! ### What a call leaves -/

theorem readLastRegion_keeps (f : Btfifo) (read : ReadFn) :
    (readLastRegion f read).fifo.flags = f.flags ∧ (readLastRegion f read).fifo.dpos = f.dpos := by
  unfold readLastRegion
  dsimp only
  cases read (f.bsize - f.dlen) with
  | error e => exact ⟨rfl, rfl⟩
  | ok bs =>
    dsimp only
    split_ifs <;> exact ⟨rfl, rfl⟩

/-- Reading changes neither the flags nor where the data starts. -/
theorem fdToFifo_keeps (f : Btfifo) (poll : PollAnswer) (read₁ read₂ : ReadFn) :
    (btfifoFdToFifo f poll read₁ read₂).fifo.flags = f.flags ∧
      (btfifoFdToFifo f poll read₁ read₂).fifo.dpos = f.dpos := by
  unfold btfifoFdToFifo
  split_ifs
  · exact ⟨rfl, rfl⟩
  · exact ⟨rfl, rfl⟩
  · exact ⟨rfl, rfl⟩
  · dsimp only
    cases read₁ (f.bsize - (f.dpos + f.dlen)) with
    | error e => exact ⟨rfl, rfl⟩
    | ok bs =>
      dsimp only
      split_ifs
      · exact ⟨rfl, rfl⟩
      · exact ⟨rfl, rfl⟩
      · exact readLastRegion_keeps _ read₂
  · exact readLastRegion_keeps f read₁

theorem writeLastRegion_flags (f : Btfifo) (write : WriteFn) :
    (writeLastRegion f write).fifo.flags = f.flags := by
  unfold writeLastRegion
  dsimp only
  cases write (Lib.slice f.b f.dpos f.dlen) with
  | error e => rfl
  | ok n =>
    dsimp only
    split_ifs <;> rfl

theorem fifoToFd_flags (f : Btfifo) (poll : PollAnswer) (write₁ write₂ : WriteFn) :
    (btfifoFifoToFd f poll write₁ write₂).fifo.flags = f.flags := by
  unfold btfifoFifoToFd
  split_ifs
  · rfl
  · rfl
  · rfl
  · rfl
  · dsimp only
    cases write₁ (Lib.slice f.b f.dpos (f.bsize - f.dpos)) with
    | error e => rfl
    | ok n =>
      dsimp only
      split_ifs
      · rfl
      · rfl
      · exact writeLastRegion_flags _ write₂
  · exact writeLastRegion_flags f write₁

/-! ### Runs -/

/-- A call with the answers the system gives during it. -/
inductive FifoCall
  | fdToFifo (poll : PollAnswer) (read₁ read₂ : ReadFn)
  | fifoToFd (poll : PollAnswer) (write₁ write₂ : WriteFn)

/-- A FIFO with what went through it: the bytes read from all input descriptors, those written to
all output descriptors, and the regions read to. -/
structure FifoRun where
  fifo : Btfifo
  input : List UInt8
  output : List UInt8
  regions : List Region

/-- One call. -/
def FifoRun.call (s : FifoRun) : FifoCall → FifoRun
  | .fdToFifo poll read₁ read₂ =>
    let o := btfifoFdToFifo s.fifo poll read₁ read₂
    ⟨o.fifo, s.input ++ o.moved, s.output, s.regions ++ o.regions⟩
  | .fifoToFd poll write₁ write₂ =>
    let o := btfifoFifoToFd s.fifo poll write₁ write₂
    ⟨o.fifo, s.input, s.output ++ o.moved, s.regions ++ o.regions⟩

/-- The calls of any number of sessions, one after the other. -/
def runFifo (f : Btfifo) (cs : List FifoCall) : FifoRun := cs.foldl FifoRun.call ⟨f, [], [], []⟩

/-- The invariant of a run: it is a run of a bounded queue. -/
structure FifoRun.Refines (bsize : ℕ) (s : FifoRun) : Prop where
  valid : s.fifo.Valid
  bsize_eq : s.fifo.bsize = bsize
  regions : ∀ r ∈ s.regions, r.fifo.bsize = bsize ∧ r.Free
  queue : ∃ es, QueueRun bsize [] es s.fifo.stored ∧ es.flatMap QueueEvent.entered = s.input ∧
    es.flatMap QueueEvent.left = s.output

theorem FifoRun.Refines.call {bsize : ℕ} {s : FifoRun} (h : s.Refines bsize) (c : FifoCall) :
    (s.call c).Refines bsize := by
  obtain ⟨hv, hsize, hregions, es, hq, hin, hout⟩ := h
  cases c with
  | fdToFifo poll read₁ read₂ =>
    have ho := fdToFifo_fills hv poll read₁ read₂
    refine ⟨ho.valid, ho.bsize.trans hsize, fun r hr => ?_,
      es ++ [.enqueue (btfifoFdToFifo s.fifo poll read₁ read₂).moved], ?_, ?_, ?_⟩
    · rcases List.mem_append.mp hr with hr | hr
      · exact hregions r hr
      · exact hsize ▸ ho.regions r hr
    · refine hq.append (.enqueue _ ?_ ?_)
      · rw [← List.length_append, ← ho.stored, Btfifo.length_stored, ← hsize, ← ho.bsize]
        exact ho.valid.dlen_le
      · rw [← ho.stored]
        exact .nil _
    · simp [FifoRun.call, hin, QueueEvent.entered]
    · simp [FifoRun.call, hout, QueueEvent.left]
  | fifoToFd poll write₁ write₂ =>
    have ho := fifoToFd_drains hv poll write₁ write₂
    refine ⟨ho.valid, ho.bsize.trans hsize, fun r hr => ?_,
      es ++ [.dequeue (btfifoFifoToFd s.fifo poll write₁ write₂).moved], ?_, ?_, ?_⟩
    · rcases List.mem_append.mp hr with hr | hr
      · exact hregions r hr
      · rw [ho.regions] at hr
        simp at hr
    · refine hq.append ?_
      rw [ho.stored]
      exact .dequeue _ (.nil _)
    · simp [FifoRun.call, hin, QueueEvent.entered]
    · simp [FifoRun.call, hout, QueueEvent.left]

theorem runFifo_refines {bsize : ℕ} (hb : 0 < bsize) (flags : UInt32) (wmin : ℕ) (b : ℕ → UInt8)
    (cs : List FifoCall) : (runFifo (btfifoCreate bsize flags wmin b) cs).Refines bsize := by
  have hrun : ∀ s : FifoRun, s.Refines bsize → (cs.foldl FifoRun.call s).Refines bsize := by
    induction cs with
    | nil => exact fun s hs => hs
    | cons c cs ih => exact fun s hs => ih _ (hs.call c)
  exact hrun _ ⟨⟨Nat.zero_le _, hb⟩, rfl, by simp, [], .nil [], rfl, rfl⟩

/-- **The FIFO is a bounded byte queue.**  After any calls with any answers of the system, what was
written followed by what is stored is what was read; the FIFO's lengths are in their bounds; every
region passed to `read` lies inside the buffer and holds no stored byte; and the run is that of a
queue of at most `bsize` bytes. -/
theorem fifo_refines_queue {bsize : ℕ} (hb : 0 < bsize) (flags : UInt32) (wmin : ℕ) (b : ℕ → UInt8)
    (cs : List FifoCall) :
    let s := runFifo (btfifoCreate bsize flags wmin b) cs
    s.output ++ s.fifo.stored = s.input ∧ s.fifo.dlen ≤ bsize ∧ s.fifo.dpos < bsize ∧
    (∀ r ∈ s.regions, 0 ≤ r.start ∧ r.start + r.len ≤ bsize ∧
      ∀ i < r.fifo.dlen, ¬ (r.start ≤ ((r.fifo.dpos + i) % bsize : ℕ) ∧
        ((r.fifo.dpos + i) % bsize : ℕ) < r.start + r.len)) ∧
    ∃ es, QueueRun bsize [] es s.fifo.stored ∧ es.flatMap QueueEvent.entered = s.input ∧
      es.flatMap QueueEvent.left = s.output := by
  intro s
  obtain ⟨hv, hsize, hregions, es, hq, hin, hout⟩ := runFifo_refines hb flags wmin b cs
  refine ⟨?_, hsize ▸ hv.dlen_le, hsize ▸ hv.dpos_lt, fun r hr => ?_, es, hq, hin, hout⟩
  · rw [← hin, ← hout]
    exact hq.conserves.symm
  · obtain ⟨hrs, hfree⟩ := hregions r hr
    rw [← hrs]
    exact ⟨hfree.start_nonneg, hfree.end_le, hfree.disjoint⟩

/-- A descriptor with the bytes `bs` to read. -/
def readGives (bs : List UInt8) : ReadFn := fun len => .ok ⟨bs.take len, List.length_take_le _ _⟩

/-- A descriptor that takes up to `n` bytes. -/
def writeTakes (n : ℕ) : WriteFn := fun bs => .ok ⟨min n bs.length, Nat.min_le_right _ _⟩

/-- Four cells: three bytes in, two out, and three more in around the end. -/
theorem fifo_refines_queue_around :
    let s := runFifo (btfifoCreate 4 btfifoFAssumeFdReady 0 (fun _ => 0))
      [.fdToFifo .fine (readGives [1, 2, 3]) (readGives []),
        .fifoToFd .fine (writeTakes 2) (writeTakes 0),
        .fdToFifo .fine (readGives [4, 5, 6]) (readGives [5, 6])]
    s.output ++ s.fifo.stored = [1, 2, 3, 4, 5, 6] ∧ s.fifo.dlen ≤ 4 ∧ s.fifo.dpos < 4 := by
  have hb : 0 < 4 := by decide
  have h := fifo_refines_queue hb btfifoFAssumeFdReady 0 (fun _ => 0)
      [.fdToFifo .fine (readGives [1, 2, 3]) (readGives []),
        .fifoToFd .fine (writeTakes 2) (writeTakes 0),
        .fdToFifo .fine (readGives [4, 5, 6]) (readGives [5, 6])]
  exact ⟨h.1.trans (by decide), h.2.1, h.2.2.1⟩

end TaniDVR
