import TaniDVR.Identify

/-!
# Ledger — the stream queues conserve bytes

A ledger is the sequence of the byte runs that left the queue, each `skipped` or `emitted`.  For
every sequence of calls of either routine, with any data, lengths and output limits, the ledger
followed by the window is exactly the data accepted so far (`runCalls_ledger`); one call is
described by `call_books`.
-/

namespace TaniDVR

open Lib Dstf

/-- A run of bytes that left the queue. -/
inductive Entry
  | skipped (bytes : List UInt8)
  | emitted (bytes : List UInt8)

namespace Entry

def bytes : Entry → List UInt8
  | skipped bs => bs
  | emitted bs => bs

def frame : Entry → List (List UInt8)
  | skipped _ => []
  | emitted bs => [bs]

end Entry

/-- All bytes of a ledger, in order. -/
def ledgerBytes (l : List Entry) : List UInt8 := l.flatMap Entry.bytes

/-- The emitted runs of a ledger, in order. -/
def ledgerFrames (l : List Entry) : List (List UInt8) := l.flatMap Entry.frame

/-- The arguments of a call. -/
structure StfCall where
  src : List UInt8
  maxDstLen : ℕ

variable (f : McFormat)

/-- The queue after a sequence of calls. -/
def runCalls (d : Dstf) : List StfCall → Dstf
  | [] => d
  | c :: cs => runCalls (streamToFrames f d c.src c.maxDstLen).dstf cs

/-- The data accepted: that of the calls that do not return -1. -/
def acceptedBytes (d : Dstf) : List StfCall → List UInt8
  | [] => []
  | c :: cs =>
    let o := streamToFrames f d c.src c.maxDstLen
    (if o.ret = -1 then [] else c.src) ++ acceptedBytes o.dstf cs

/-- The frames emitted: what the calls that return 1 wrote. -/
def emittedFrames (d : Dstf) : List StfCall → List (List UInt8)
  | [] => []
  | c :: cs =>
    let o := streamToFrames f d c.src c.maxDstLen
    (if o.ret = 1 then [o.dst] else []) ++ emittedFrames o.dstf cs

/-- A frame of `n` bytes stands whole at the head of the queue: with room for it the routine emits
exactly these bytes. -/
def FrameAtHead (d : Dstf) (n : ℕ) : Prop :=
  n ≤ d.sqLen ∧ ∀ m, n ≤ m → streamToFrames f d [] m = ⟨1, d.window.take n, d.skip n⟩

/-- The books of one call: refused data leaves the queue as it was; otherwise the old window and the
data are some skipped bytes, the output and the new window. -/
inductive Books (d : Dstf) (src : List UInt8) (maxDstLen : ℕ) : StfOut → Prop
  | full : d.load src = none → Books d src maxDstLen ⟨-1, [], d⟩
  | kept {r : ℤ} {d' : Dstf} (skipped : List UInt8) : r = 0 ∨ r = 3 → d'.Fits →
      d'.sqMaxlen = d.sqMaxlen → d.window ++ src = skipped ++ d'.window →
      Books d src maxDstLen ⟨r, [], d'⟩
  | refused {d' : Dstf} {n : ℕ} (skipped : List UInt8) : d'.Fits → d'.sqMaxlen = d.sqMaxlen →
      d.window ++ src = skipped ++ d'.window → maxDstLen < n → FrameAtHead f d' n →
      Books d src maxDstLen ⟨-3, [], d'⟩
  | emitted {d' : Dstf} (skipped frame : List UInt8) : d'.Fits → d'.sqMaxlen = d.sqMaxlen →
      d.window ++ src = skipped ++ frame ++ d'.window → Books d src maxDstLen ⟨1, frame, d'⟩

variable {f}

theorem window_eq_of_passed {d d' : Dstf} (h : Passed d d') : ∃ bs, d.window = bs ++ d'.window := by
  obtain ⟨n, hn, rfl⟩ := h.exists_skip
  exact ⟨_, window_eq_take_append d hn⟩

theorem dhav_frameAtHead {d : Dstf} (h : d.check = .frame) : FrameAtHead .dhav d d.repLen := by
  have hle := repLen_le_of_check_frame h
  refine ⟨hle, ?_⟩
  intro m hm
  have hloop : checkLoop (d.sqLen + 1) d = (none, d) := by rw [checkLoop, h]
  rw [streamToFrames_dhav, dstfProcessDhavStreamToFrames, load_nil]
  dsimp only
  rw [hloop]
  dsimp only
  rw [if_neg (by omega), if_neg (by omega), window, take_slice _ _ _ _ hle]

theorem DhavCall.books {d : Dstf} {src : List UInt8} {m : ℕ} {o : StfOut} (h : DhavCall d src m o)
    (hf : d.Fits) : Books .dhav d src m o := by
  cases h with
  | full hl => exact .full hl
  | @more l d' r hl hs =>
    have hfl := load_fits hf hl
    have hmax := load_sqMaxlen hl
    cases hs with
    | short _ => exact .kept [] (Or.inl rfl) hfl hmax (load_window hl ▸ rfl)
    | wait hp _ =>
      obtain ⟨bs, hbs⟩ := window_eq_of_passed hp
      exact .kept bs (Or.inl rfl) (hp.fits hfl) (hp.sqMaxlen.trans hmax) (load_window hl ▸ hbs)
    | drained hp _ _ =>
      obtain ⟨bs, hbs⟩ := window_eq_of_passed hp
      exact .kept bs (Or.inr rfl) (hp.fits hfl) (hp.sqMaxlen.trans hmax) (load_window hl ▸ hbs)
  | @refused l d' hl hp hc hm =>
    obtain ⟨bs, hbs⟩ := window_eq_of_passed hp
    exact .refused bs (hp.fits (load_fits hf hl)) (hp.sqMaxlen.trans (load_sqMaxlen hl))
      (load_window hl ▸ hbs) hm (dhav_frameAtHead hc)
  | @frame l d' hl hp hc hm =>
    obtain ⟨bs, hbs⟩ := window_eq_of_passed hp
    have hle := repLen_le_of_check_frame hc
    have hmax : d'.sqMaxlen = d.sqMaxlen := hp.sqMaxlen.trans (load_sqMaxlen hl)
    refine .emitted bs _ (skip_fits (hp.fits (load_fits hf hl)) hle)
      ((skip_sqMaxlen _ _).trans hmax) ?_
    rw [← load_window hl, hbs, window_eq_take_append d' hle, List.append_assoc]

theorem raw_frameAtHead {d : Dstf} {n : ℕ} (hf : f ≠ .dhav) (hu : d.AtUnit)
    (hn : d.unitLen = some n) : FrameAtHead f d n := by
  obtain ⟨hb, hle⟩ := unitLen_bounds hn
  refine ⟨by omega, ?_⟩
  intro m hm
  obtain ⟨k, hk, hkn⟩ := Option.map_eq_some_iff.mp hn
  have h8 := hu.1
  rw [streamToFrames_of_ne hf, dstfProcessRawH264StreamToFrames, load_nil]
  dsimp only
  rw [if_neg (by omega), searchMpegNAL_zero hu.2 (by omega)]
  dsimp only
  rw [skip_zero, ite_self, if_neg (by omega), hk]
  dsimp only
  rw [hkn, if_neg (by omega), window, take_slice _ _ _ _ (by omega)]

theorem RawCall.books {d : Dstf} {src : List UInt8} {m : ℕ} {o : StfOut} (h : RawCall d src m o)
    (hne : f ≠ .dhav) (hf : d.Fits) : Books f d src m o := by
  cases h with
  | full hl => exact .full hl
  | @few l n hl hn _ =>
    have hmax := load_sqMaxlen hl
    exact .kept _ (Or.inl rfl) (skip_fits (load_fits hf hl) hn) hmax
      (load_window hl ▸ window_eq_take_append l hn)
  | @wait l n hl hn _ _ =>
    have hmax := load_sqMaxlen hl
    exact .kept _ (Or.inl rfl) (skip_fits (load_fits hf hl) hn) hmax
      (load_window hl ▸ window_eq_take_append l hn)
  | @refused l n k hl hn hu hk hm =>
    have hmax := load_sqMaxlen hl
    exact .refused _ (skip_fits (load_fits hf hl) hn) hmax
      (load_window hl ▸ window_eq_take_append l hn) hm (raw_frameAtHead hne hu hk)
  | @frame l n k hl hn hu hk hm =>
    have hmax := load_sqMaxlen hl
    have hb := unitLen_bounds hk
    refine .emitted (slice l.sq l.sqOffs n) _ (skip_fits (skip_fits (load_fits hf hl) hn) (by omega))
      hmax ?_
    rw [← load_window hl, window_eq_take_append l hn,
      window_eq_take_append (l.skip n) (show k ≤ (l.skip n).sqLen by omega), List.append_assoc]

/-- **One call** of either routine keeps the books. -/
theorem call_books (f : McFormat) {d : Dstf} (hf : d.Fits) (src : List UInt8) (maxDstLen : ℕ) :
    Books f d src maxDstLen (streamToFrames f d src maxDstLen) := by
  by_cases h : f = .dhav
  · subst h
    exact (dhav_call d src maxDstLen).books hf
  · rw [streamToFrames_of_ne h]
    exact (raw_call d src maxDstLen).books h hf

theorem Books.fits {d : Dstf} {src : List UInt8} {m : ℕ} {o : StfOut} (h : Books f d src m o)
    (hf : d.Fits) : o.dstf.Fits := by
  cases h with
  | full => exact hf
  | kept _ _ hf' => exact hf'
  | refused _ hf' => exact hf'
  | emitted _ _ hf' => exact hf'

theorem Books.sqMaxlen {d : Dstf} {src : List UInt8} {m : ℕ} {o : StfOut} (h : Books f d src m o) :
    o.dstf.sqMaxlen = d.sqMaxlen := by
  cases h with
  | full => rfl
  | kept _ _ _ hm => exact hm
  | refused _ _ hm => exact hm
  | emitted _ _ _ hm => exact hm

/-- A call holds at most what was there and what came. -/
theorem Books.sqLen_le {d : Dstf} {src : List UInt8} {m : ℕ} {o : StfOut} (h : Books f d src m o) :
    o.dstf.sqLen ≤ d.sqLen + src.length := by
  have hlen : ∀ {bs : List UInt8} {d' : Dstf}, d.window ++ src = bs ++ d'.window →
      d'.sqLen ≤ d.sqLen + src.length := by
    intro bs d' hw
    have := congrArg List.length hw
    simp only [List.length_append, length_window] at this
    omega
  cases h with
  | full => exact Nat.le_add_right _ _
  | kept _ _ _ _ hw => exact hlen hw
  | refused _ _ _ hw => exact hlen hw
  | emitted _ _ _ _ hw => exact hlen hw

/-- The entries of one call account for its accepted data. -/
theorem Books.entries {d : Dstf} {src : List UInt8} {m : ℕ} {o : StfOut} (h : Books f d src m o) :
    ∃ l, d.window ++ (if o.ret = -1 then [] else src) = ledgerBytes l ++ o.dstf.window ∧
      ledgerFrames l = if o.ret = 1 then [o.dst] else [] := by
  cases h with
  | full _ => exact ⟨[], by simp [ledgerBytes], rfl⟩
  | @kept r d' skipped hr _ _ hw =>
    have h1 : r ≠ -1 := by omega
    have h2 : r ≠ 1 := by omega
    refine ⟨[.skipped skipped], ?_, ?_⟩
    · simpa [h1, ledgerBytes, Entry.bytes] using hw
    · simp [h2, ledgerFrames, Entry.frame]
  | refused skipped _ _ hw =>
    exact ⟨[.skipped skipped], by simpa [ledgerBytes, Entry.bytes] using hw, rfl⟩
  | emitted skipped frame _ _ hw =>
    refine ⟨[.skipped skipped, .emitted frame], ?_, rfl⟩
    simpa [ledgerBytes, Entry.bytes] using hw

theorem runCalls_fits (f : McFormat) (cs : List StfCall) {d : Dstf} (hf : d.Fits) :
    (runCalls f d cs).Fits := by
  induction cs generalizing d with
  | nil => exact hf
  | cons c cs ih => exact ih ((call_books f hf c.src c.maxDstLen).fits hf)

theorem runCalls_sqMaxlen (f : McFormat) (cs : List StfCall) {d : Dstf} (hf : d.Fits) :
    (runCalls f d cs).sqMaxlen = d.sqMaxlen := by
  induction cs generalizing d with
  | nil => rfl
  | cons c cs ih =>
    have hb := call_books f hf c.src c.maxDstLen
    exact (ih (hb.fits hf)).trans hb.sqMaxlen

/-- **The ledger of a run**: the old window and all accepted data are the bytes that left the queue,
in order, and the final window; the emitted runs are the emitted frames. -/
theorem runCalls_ledger (f : McFormat) (cs : List StfCall) {d : Dstf} (hf : d.Fits) :
    ∃ l, d.window ++ acceptedBytes f d cs = ledgerBytes l ++ (runCalls f d cs).window ∧
      ledgerFrames l = emittedFrames f d cs := by
  induction cs generalizing d with
  | nil => exact ⟨[], by simp [acceptedBytes, ledgerBytes, runCalls], rfl⟩
  | cons c cs ih =>
    have hb := call_books f hf c.src c.maxDstLen
    obtain ⟨l1, hw1, hl1⟩ := hb.entries
    obtain ⟨l2, hw2, hl2⟩ := ih (hb.fits hf)
    refine ⟨l1 ++ l2, ?_, ?_⟩
    · simp only [acceptedBytes, runCalls]
      rw [← List.append_assoc, hw1, List.append_assoc, hw2, ← List.append_assoc]
      simp [ledgerBytes]
    · simp only [emittedFrames]
      rw [← hl1, ← hl2]
      simp [ledgerFrames]

theorem dstfInit_fits (sq below : ℕ → UInt8) : (dstfInit sq below).Fits := Nat.zero_le _

/-- **Both stream queues conserve bytes.**  After any sequence of calls: the accepted data is the
ledger of skipped and emitted bytes followed by the window, which lies inside the queue array; and
for any next call, the frame it emits is the accepted data at the head of the window at that moment,
-1 leaves the queue as it was, and -3 leaves the refused frame whole at the head. -/
theorem stream_queues_conserve (f : McFormat) (sq below : ℕ → UInt8) (cs : List StfCall)
    (c : StfCall) :
    let d := runCalls f (dstfInit sq below) cs
    let accepted := acceptedBytes f (dstfInit sq below) cs
    let o := streamToFrames f d c.src c.maxDstLen
    ∃ l : List Entry,
      accepted = ledgerBytes l ++ d.window ∧
      ledgerFrames l = emittedFrames f (dstfInit sq below) cs ∧
      d.sqOffs + d.sqLen ≤ d.sqMaxlen ∧ d.sqMaxlen = tMcParmsDhavStf ∧
      (o.ret = 1 → ∃ skipped,
        accepted ++ c.src = ledgerBytes l ++ skipped ++ o.dst ++ o.dstf.window) ∧
      (o.ret ≠ 1 → o.dst = []) ∧
      (o.ret = -1 → o.dstf = d) ∧
      (o.ret = -3 → ∃ skipped n, c.maxDstLen < n ∧ FrameAtHead f o.dstf n ∧
        accepted ++ c.src = ledgerBytes l ++ skipped ++ o.dstf.window) := by
  intro d accepted o
  have hinit := dstfInit_fits sq below
  have hfits : d.Fits := runCalls_fits f cs hinit
  obtain ⟨l, hw, hl⟩ := runCalls_ledger f cs hinit
  have hacc : accepted = ledgerBytes l ++ d.window := hw
  refine ⟨l, hacc, hl, hfits, runCalls_sqMaxlen f cs hinit, ?_⟩
  have hb : Books f d c.src c.maxDstLen o := call_books f hfits c.src c.maxDstLen
  generalize o = o' at hb
  cases hb with
  | full _ =>
    dsimp only
    exact ⟨fun h => absurd h (by decide), fun _ => rfl, fun _ => rfl, fun h => absurd h (by decide)⟩
  | @kept r d' skipped hr _ _ hw' =>
    dsimp only
    exact ⟨fun h => by omega, fun _ => rfl, fun h => by omega, fun h => by omega⟩
  | refused skipped _ _ hw' hn hhead =>
    dsimp only
    refine ⟨fun h => absurd h (by decide), fun _ => rfl, fun h => absurd h (by decide),
      fun _ => ⟨skipped, _, hn, hhead, ?_⟩⟩
    rw [hacc, List.append_assoc, hw', List.append_assoc]
  | emitted skipped frame _ _ hw' =>
    dsimp only
    refine ⟨fun _ => ⟨skipped, ?_⟩, fun h => absurd rfl h, fun h => absurd h (by decide),
      fun h => absurd h (by decide)⟩
    rw [hacc, List.append_assoc, hw']
    simp only [List.append_assoc]

end TaniDVR
