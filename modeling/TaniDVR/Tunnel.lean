import Mathlib.Logic.Relation
import TaniDVR.Btfifo

/-!
# Tunnel — `buffered_tunnel_pipe`

`Tunnel.turn` is one turn of the loop.  The environment (`TunnelEvent`) gives what the session
writes to the input pipe and when it closes it, when the reader of the output goes away, and the
answers of `poll`, `read` and `write`.  The `pollfd` array is not initialised, and an interrupted
`poll` may leave it as it is.

`Tunnel.turn_bytes` accounts for all the bytes of a call; `nothing_lost_iff` says when a call that
returns 10 leaves some of them in the pipe.
-/

namespace TaniDVR

/-- `revents`: `POLLIN | POLLPRI`, `POLLOUT`, and `POLLERR | POLLHUP | POLLNVAL`. -/
structure Revents where
  pollin : Bool
  pollout : Bool
  collapsed : Bool
  deriving DecidableEq, Repr

/-- What `poll` of the two descriptors gives: an error, an interruption (that leaves `revents`, or
clears them), a timeout, or the `revents`. -/
inductive TunnelPoll
  | failed
  | interrupted (kept : Bool)
  | timeout
  | ready (revIn revOut : Revents)
  deriving DecidableEq, Repr

def TunnelPoll.Interrupted (p : TunnelPoll) : Prop := ∃ kept, p = .interrupted kept

/-- What a `read` of the input pipe does: it fails, or gives at most so many of the unread bytes. -/
inductive PipeRead
  | fails (e : Errno)
  | gives (limit : ℕ)

/-- The `read` of a pipe with some unread bytes. -/
def PipeRead.fn (r : PipeRead) (unread : List UInt8) : ReadFn := fun len =>
  match r with
  | fails e => .error e
  | gives limit =>
    .ok ⟨unread.take (min limit len), (List.length_take_le _ _).trans (Nat.min_le_right _ _)⟩

/-- What happens in one turn, in this order. -/
structure TunnelEvent where
  /-- Bytes that the session writes before the `poll`. -/
  arrives : List UInt8
  closes : Bool
  /-- The reader of the output is gone at the `poll`. -/
  goneAtPoll : Bool
  poll : TunnelPoll
  sigchld : Bool
  /-- Bytes that the session writes after the `poll`. -/
  arrivesLate : List UInt8
  closesLate : Bool
  goneAtWrite₁ : Bool
  goneAtWrite₂ : Bool
  pollOut : PollAnswer
  write₁ : WriteFn
  write₂ : WriteFn
  pollIn : PollAnswer
  read₁ : PipeRead
  read₂ : PipeRead

/-- The state of the loop, and of the two pipes: what the session wrote since the call began (with
the bytes that were in the pipe), what of it is unread, whether it closed the pipe, what was written
to the output, and whether its reader is gone. -/
structure Tunnel where
  fifo : Btfifo
  revIn : Revents
  revOut : Revents
  ret : Option ℤ
  written : List UInt8
  unread : List UInt8
  closed : Bool
  out : List UInt8
  gone : Bool

namespace Tunnel

/-- The beginning of a call. -/
def start (fifo : Btfifo) (revIn revOut : Revents) (unread : List UInt8) (closed gone : Bool) :
    Tunnel :=
  ⟨fifo, revIn, revOut, none, unread, unread, closed, [], gone⟩

/-- The session writes some bytes, and may close the pipe. -/
def arrive (s : Tunnel) (bytes : List UInt8) (closes : Bool) : Tunnel :=
  { s with written := s.written ++ bytes, unread := s.unread ++ bytes, closed := s.closed || closes }

/-- `poll`, and what the loop does with its result. -/
def poll (s : Tunnel) (hasTimeout : Bool) (e : TunnelEvent) : Tunnel :=
  match e.poll with
  | .failed => { s with ret := some 2 }
  | .interrupted kept =>
    if kept then s
    else { s with revIn := ⟨false, false, false⟩, revOut := ⟨false, false, false⟩ }
  | .timeout =>
    let s := { s with revIn := ⟨false, false, false⟩, revOut := ⟨false, false, false⟩ }
    if hasTimeout then { s with ret := some 1 }
    else if e.sigchld then { s with ret := some 6 }
    else s
  | .ready revIn revOut => { s with revIn := revIn, revOut := revOut }

/-- FIFO -> fd_out. -/
def send (s : Tunnel) (e : TunnelEvent) : Tunnel :=
  if s.revOut.pollout then
    let o := btfifoFifoToFd s.fifo e.pollOut e.write₁ e.write₂
    let s := { s with fifo := o.fifo, out := s.out ++ o.moved }
    if o.ret ≤ -100 then { s with ret := some 4 } else s
  else if s.revOut.collapsed then { s with ret := some (-5) }
  else s

/-- fd_in -> FIFO; a second `read` comes after one that filled the space behind the data. -/
def receive (s : Tunnel) (e : TunnelEvent) : Tunnel :=
  if s.revIn.pollin then
    let o := btfifoFdToFifo s.fifo e.pollIn (e.read₁.fn s.unread)
      (e.read₂.fn (s.unread.drop (s.fifo.bsize - (s.fifo.dpos + s.fifo.dlen))))
    let s := { s with fifo := o.fifo, unread := s.unread.drop o.moved.length }
    if o.ret ≤ -100 then { s with ret := some 3 } else s
  else if s.revIn.collapsed then { s with ret := some 10 }
  else s

/-- What happens on the other ends after the `poll`. -/
def later (s : Tunnel) (e : TunnelEvent) : Tunnel :=
  { s.arrive e.arrivesLate e.closesLate with gone := e.goneAtWrite₂ }

/-- One turn of the loop. -/
def turn (hasTimeout : Bool) (s : Tunnel) (e : TunnelEvent) : Tunnel :=
  let s := ((s.arrive e.arrives e.closes).poll hasTimeout e).later e
  if s.ret ≠ none then s
  else
    let s := s.send e
    if s.ret ≠ none then s else s.receive e

end Tunnel

/-- What is known of the input pipe in a turn: nothing is written to a pipe that is closed; `poll`
reports `POLLHUP` when the session closed it, whatever was requested, and `POLLIN` when this was
requested (the FIFO has space) and there is something to read. -/
structure HonestIn (s : Tunnel) (e : TunnelEvent) : Prop where
  quiet : s.closed = true → e.arrives = []
  quietLate : (s.closed || e.closes) = true → e.arrivesLate = []
  pollhup : ∀ revIn revOut, e.poll = .ready revIn revOut →
    (revIn.collapsed = true ↔ (s.closed || e.closes) = true)
  pollin : ∀ revIn revOut, e.poll = .ready revIn revOut →
    (revIn.pollin = true ↔ s.fifo.bsize - s.fifo.dlen ≠ 0 ∧ s.unread ++ e.arrives ≠ [])

/-- The states of a call: turns until it returns. -/
def TunnelReach (hasTimeout : Bool) : Tunnel → Tunnel → Prop :=
  Relation.ReflTransGen fun s t =>
    s.ret = none ∧ ∃ e, HonestIn s e ∧ t = s.turn hasTimeout e

/-- A turn with unread bytes in which the FIFO was full at the `poll`, so that `POLLIN` was not
requested, or the `poll` was interrupted. -/
def Tunnel.LeavesBehind (s : Tunnel) (e : TunnelEvent) : Prop :=
  s.unread ++ e.arrives ++ e.arrivesLate ≠ [] ∧
    (s.fifo.bsize - s.fifo.dlen = 0 ∨ e.poll.Interrupted)

/-! ### The parts of a turn -/

namespace Tunnel

/-- `poll` writes the `revents`, and may end the call. -/
theorem poll_eq (s : Tunnel) (hasTimeout : Bool) (e : TunnelEvent) :
    ∃ revIn revOut ret,
      s.poll hasTimeout e = { s with revIn := revIn, revOut := revOut, ret := ret } ∧
        (s.ret = none → ret ≠ some 10) := by
  unfold poll
  cases e.poll with
  | failed => exact ⟨s.revIn, s.revOut, some 2, rfl, by simp⟩
  | interrupted kept =>
    cases kept with
    | true => exact ⟨s.revIn, s.revOut, s.ret, rfl, fun hn => by simp [hn]⟩
    | false => exact ⟨_, _, s.ret, rfl, fun hn => by simp [hn]⟩
  | timeout =>
    dsimp only
    split_ifs
    · exact ⟨_, _, some 1, rfl, by simp⟩
    · exact ⟨_, _, some 6, rfl, by simp⟩
    · exact ⟨_, _, s.ret, rfl, fun hn => by simp [hn]⟩
  | ready revIn revOut => exact ⟨revIn, revOut, s.ret, rfl, fun hn => by simp [hn]⟩

/-- The output branch writes from the FIFO, or tests for errors. -/
theorem send_eq (s : Tunnel) (e : TunnelEvent) :
    s.revOut.pollout = true ∧
        s.send e = { s with
          fifo := (btfifoFifoToFd s.fifo e.pollOut e.write₁ e.write₂).fifo
          out := s.out ++ (btfifoFifoToFd s.fifo e.pollOut e.write₁ e.write₂).moved
          ret := if (btfifoFifoToFd s.fifo e.pollOut e.write₁ e.write₂).ret ≤ -100 then some 4
            else s.ret } ∨
      s.revOut.pollout = false ∧
        s.send e = { s with ret := if s.revOut.collapsed then some (-5) else s.ret } := by
  unfold send
  dsimp only
  by_cases hp : s.revOut.pollout = true
  · rw [if_pos hp]
    refine .inl ⟨hp, ?_⟩
    split_ifs <;> rfl
  · rw [if_neg hp]
    refine .inr ⟨by simpa using hp, ?_⟩
    split_ifs <;> rfl

/-- The input branch reads into the FIFO, or tests for a hang-up. -/
theorem receive_eq (s : Tunnel) (e : TunnelEvent) :
    (∃ o, o = btfifoFdToFifo s.fifo e.pollIn (e.read₁.fn s.unread)
        (e.read₂.fn (s.unread.drop (s.fifo.bsize - (s.fifo.dpos + s.fifo.dlen)))) ∧
      s.revIn.pollin = true ∧
        s.receive e = { s with
          fifo := o.fifo
          unread := s.unread.drop o.moved.length
          ret := if o.ret ≤ -100 then some 3 else s.ret }) ∨
      s.revIn.pollin = false ∧
        s.receive e = { s with ret := if s.revIn.collapsed then some 10 else s.ret } := by
  unfold receive
  dsimp only
  by_cases hp : s.revIn.pollin = true
  · rw [if_pos hp]
    refine .inl ⟨_, rfl, hp, ?_⟩
    split_ifs <;> rfl
  · rw [if_neg hp]
    refine .inr ⟨by simpa using hp, ?_⟩
    split_ifs <;> rfl

end Tunnel

/-! ### The bytes of a call -/

theorem PipeRead.fn_prefix {r : PipeRead} {unread : List UInt8} {len : ℕ}
    {bs : {bs : List UInt8 // bs.length ≤ len}} (h : r.fn unread len = .ok bs) :
    bs.1 <+: unread := by
  cases r with
  | fails e => cases h
  | gives limit =>
    cases h
    exact List.take_prefix _ _

theorem readLastRegion_moved {f : Btfifo} {read : ReadFn} {unread : List UInt8}
    (hread : ∀ len bs, read len = .ok bs → bs.1 <+: unread) :
    (readLastRegion f read).moved <+: unread := by
  unfold readLastRegion
  dsimp only
  cases hr : read (f.bsize - f.dlen) with
  | error e => exact List.nil_prefix
  | ok bs =>
    obtain ⟨bs, hbs⟩ := bs
    dsimp only
    by_cases h0 : bs.length = 0
    · rw [if_pos h0]
      exact List.nil_prefix
    · rw [if_neg h0]
      exact hread _ _ hr

theorem append_prefix {a b l : List UInt8} (ha : a <+: l) (hb : b <+: l.drop a.length) :
    a ++ b <+: l := by
  have h := (List.prefix_append_right_inj a).mpr hb
  rwa [List.prefix_iff_eq_append.mp ha] at h

/-- What the FIFO takes from the pipe are the next unread bytes. -/
theorem fdToFifo_moved (f : Btfifo) (poll : PollAnswer) (read₁ read₂ : PipeRead)
    (unread : List UInt8) :
    (btfifoFdToFifo f poll (read₁.fn unread)
      (read₂.fn (unread.drop (f.bsize - (f.dpos + f.dlen))))).moved <+: unread := by
  unfold btfifoFdToFifo
  split_ifs
  · exact List.nil_prefix
  · exact List.nil_prefix
  · exact List.nil_prefix
  · dsimp only
    cases hr : read₁.fn unread (f.bsize - (f.dpos + f.dlen)) with
    | error e => exact List.nil_prefix
    | ok bs =>
      have hpre := PipeRead.fn_prefix hr
      obtain ⟨bs, hbs⟩ := bs
      dsimp only at hpre ⊢
      split_ifs with h0 hlen
      · exact List.nil_prefix
      · exact hpre
      · -- the second read begins where the first one ended
        refine append_prefix hpre (readLastRegion_moved fun len bs h => ?_)
        rw [not_not.mp hlen]
        exact PipeRead.fn_prefix h
  · exact readLastRegion_moved fun len bs h => PipeRead.fn_prefix h

/-- The bytes of a call: what was stored at its beginning and what the session wrote since is what
was written to the output, what is stored, and what is unread. -/
structure Tunnel.Accounts (f : Btfifo) (s : Tunnel) : Prop where
  valid : s.fifo.Valid
  bytes : f.stored ++ s.written = s.out ++ (s.fifo.stored ++ s.unread)

namespace Tunnel.Accounts

variable {f : Btfifo} {s : Tunnel}

theorem arrive (h : Accounts f s) (bytes : List UInt8) (closes : Bool) :
    Accounts f (s.arrive bytes closes) := by
  refine ⟨h.valid, ?_⟩
  show f.stored ++ (s.written ++ bytes) = s.out ++ (s.fifo.stored ++ (s.unread ++ bytes))
  rw [← List.append_assoc, h.bytes]
  simp

theorem of_eq {t : Tunnel} (h : Accounts f s) (hf : t.fifo = s.fifo) (hw : t.written = s.written)
    (ho : t.out = s.out) (hu : t.unread = s.unread) : Accounts f t := by
  refine ⟨hf ▸ h.valid, ?_⟩
  rw [hf, hw, ho, hu]
  exact h.bytes

theorem poll (h : Accounts f s) (hasTimeout : Bool) (e : TunnelEvent) :
    Accounts f (s.poll hasTimeout e) := by
  obtain ⟨revIn, revOut, ret, hp, -⟩ := s.poll_eq hasTimeout e
  rw [hp]
  exact h.of_eq rfl rfl rfl rfl

theorem send (h : Accounts f s) (e : TunnelEvent) : Accounts f (s.send e) := by
  have ho := fifoToFd_drains h.valid e.pollOut e.write₁ e.write₂
  rcases s.send_eq e with ⟨-, hs⟩ | ⟨-, hs⟩
  · rw [hs]
    refine ⟨ho.valid, ?_⟩
    rw [h.bytes, ho.stored]
    simp
  · rw [hs]
    exact h.of_eq rfl rfl rfl rfl

theorem receive (h : Accounts f s) (e : TunnelEvent) : Accounts f (s.receive e) := by
  rcases s.receive_eq e with ⟨o, ho, -, hs⟩ | ⟨-, hs⟩
  · have hfills := fdToFifo_fills h.valid e.pollIn (e.read₁.fn s.unread)
      (e.read₂.fn (s.unread.drop (s.fifo.bsize - (s.fifo.dpos + s.fifo.dlen))))
    have hmoved := fdToFifo_moved s.fifo e.pollIn e.read₁ e.read₂ s.unread
    rw [← ho] at hfills hmoved
    rw [hs]
    refine ⟨hfills.valid, ?_⟩
    show f.stored ++ s.written = s.out ++ (o.fifo.stored ++ s.unread.drop o.moved.length)
    rw [h.bytes, hfills.stored, List.append_assoc, List.prefix_iff_eq_append.mp hmoved]
  · rw [hs]
    exact h.of_eq rfl rfl rfl rfl

/-- **One turn** keeps the account. -/
theorem turn (h : Accounts f s) (hasTimeout : Bool) (e : TunnelEvent) :
    Accounts f (s.turn hasTimeout e) := by
  unfold Tunnel.turn
  dsimp only
  have hlate : Accounts f (((s.arrive e.arrives e.closes).poll hasTimeout e).later e) :=
    (((h.arrive e.arrives e.closes).poll hasTimeout e).arrive e.arrivesLate e.closesLate).of_eq
      rfl rfl rfl rfl
  split_ifs
  · exact hlate
  · exact hlate.send e
  · exact (hlate.send e).receive e

theorem of_reach {hasTimeout : Bool} {t : Tunnel} (h : Accounts f s)
    (hr : TunnelReach hasTimeout s t) : Accounts f t := by
  induction hr with
  | refl => exact h
  | tail _ hstep ih =>
    obtain ⟨-, e, -, rfl⟩ := hstep
    exact ih.turn hasTimeout e

end Tunnel.Accounts

/-! ### The end of a call -/

namespace Tunnel

variable {s : Tunnel} {e : TunnelEvent} {hasTimeout : Bool}

theorem send_ret (hn : s.ret = none) : (s.send e).ret ≠ some 10 := by
  rcases s.send_eq e with ⟨-, hs⟩ | ⟨-, hs⟩
  · rw [hs]
    dsimp only
    split_ifs <;> simp [hn]
  · rw [hs]
    dsimp only
    split_ifs <;> simp [hn]

theorem send_frame : (s.send e).unread = s.unread ∧ (s.send e).revIn = s.revIn := by
  rcases s.send_eq e with ⟨-, hs⟩ | ⟨-, hs⟩
  · rw [hs]
    exact ⟨rfl, rfl⟩
  · rw [hs]
    exact ⟨rfl, rfl⟩

/-- 10 is what the hang-up test returns. -/
theorem receive_ten (hn : s.ret = none) (h : (s.receive e).ret = some 10) :
    s.revIn.pollin = false ∧ s.revIn.collapsed = true ∧ (s.receive e).unread = s.unread := by
  rcases s.receive_eq e with ⟨o, -, -, hs⟩ | ⟨hp, hs⟩
  · rw [hs] at h
    dsimp only at h
    split_ifs at h
    · cases h
    · rw [hn] at h
      cases h
  · rw [hs] at h ⊢
    dsimp only at h
    split_ifs at h with hc
    · exact ⟨hp, hc, rfl⟩
    · rw [hn] at h
      cases h

/-- **A return of 10**: the `revents` in effect have `POLLHUP` and not `POLLIN`, and nothing was read
in this turn. -/
theorem turn_ten (hn : s.ret = none) (h : (s.turn hasTimeout e).ret = some 10) :
    ((s.arrive e.arrives e.closes).poll hasTimeout e).revIn.pollin = false ∧
      ((s.arrive e.arrives e.closes).poll hasTimeout e).revIn.collapsed = true ∧
      ((s.arrive e.arrives e.closes).poll hasTimeout e).ret = none ∧
      (s.turn hasTimeout e).unread = s.unread ++ e.arrives ++ e.arrivesLate := by
  have hpoll : ((s.arrive e.arrives e.closes).poll hasTimeout e).ret ≠ some 10 ∧
      ((s.arrive e.arrives e.closes).poll hasTimeout e).unread = s.unread ++ e.arrives := by
    obtain ⟨revIn, revOut, ret, hp, hret⟩ := (s.arrive e.arrives e.closes).poll_eq hasTimeout e
    rw [hp]
    exact ⟨hret hn, rfl⟩
  unfold turn at h ⊢
  dsimp only at h ⊢
  generalize (s.arrive e.arrives e.closes).poll hasTimeout e = p at h hpoll ⊢
  by_cases hp : p.ret = none
  · have hlate : (p.later e).ret = none := hp
    have hsend := send_ret (e := e) hlate
    rw [if_neg (not_not.mpr hlate)] at h ⊢
    split_ifs at h ⊢ with hs
    · exact absurd h hsend
    · obtain ⟨h1, h2, h3⟩ := receive_ten (not_not.mp hs) h
      rw [send_frame.2] at h1 h2
      refine ⟨h1, h2, hp, ?_⟩
      rw [h3, send_frame.1]
      show p.unread ++ e.arrivesLate = _
      rw [hpoll.2]
  · rw [if_pos (show (p.later e).ret ≠ none from hp)] at h
    exact absurd h hpoll.1

end Tunnel

/-- A hang-up that `poll` reported while the FIFO had space: the pipe was closed, and empty. -/
theorem HonestIn.unread_of_hangup {s : Tunnel} {e : TunnelEvent} {hasTimeout : Bool}
    (he : HonestIn s e) (hspace : s.fifo.bsize - s.fifo.dlen ≠ 0) (hint : ¬ e.poll.Interrupted)
    (hpollin : ((s.arrive e.arrives e.closes).poll hasTimeout e).revIn.pollin = false)
    (hcollapsed : ((s.arrive e.arrives e.closes).poll hasTimeout e).revIn.collapsed = true)
    (hret : ((s.arrive e.arrives e.closes).poll hasTimeout e).ret = none) :
    e.arrivesLate = [] ∧ s.unread ++ e.arrives = [] := by
  unfold Tunnel.poll at hpollin hcollapsed hret
  dsimp only at hpollin hcollapsed hret
  cases hp : e.poll with
  | failed =>
    rw [hp] at hret
    cases hret
  | interrupted kept => exact absurd ⟨kept, hp⟩ hint
  | timeout =>
    rw [hp] at hcollapsed
    dsimp only at hcollapsed
    split_ifs at hcollapsed
  | ready revIn revOut =>
    rw [hp] at hpollin hcollapsed
    refine ⟨he.quietLate ((he.pollhup revIn revOut hp).mp hcollapsed), ?_⟩
    by_contra hne
    have hin := (he.pollin revIn revOut hp).mpr ⟨hspace, hne⟩
    rw [show revIn.pollin = false from hpollin] at hin
    cases hin

/-- **Nothing is lost**, exactly when the turn that returns 10 does not leave bytes behind: all that
was stored at the beginning of the call and all that the session wrote was written to the output or
is stored in the FIFO. -/
theorem nothing_lost_iff (hasTimeout : Bool) {f : Btfifo} (hv : f.Valid) (revIn revOut : Revents)
    (unread : List UInt8) (closed gone : Bool) {s : Tunnel}
    (hr : TunnelReach hasTimeout (Tunnel.start f revIn revOut unread closed gone) s)
    (hn : s.ret = none) (e : TunnelEvent) (he : HonestIn s e)
    (h10 : (s.turn hasTimeout e).ret = some 10) :
    f.stored ++ (s.turn hasTimeout e).written =
        (s.turn hasTimeout e).out ++ (s.turn hasTimeout e).fifo.stored ↔ ¬ s.LeavesBehind e := by
  have hstart : Tunnel.Accounts f (Tunnel.start f revIn revOut unread closed gone) := ⟨hv, rfl⟩
  have hbytes := ((hstart.of_reach hr).turn hasTimeout e).bytes
  obtain ⟨hpollin, hcollapsed, hret, hunread⟩ := Tunnel.turn_ten hn h10
  rw [hbytes, ← List.append_assoc, List.append_right_eq_self, hunread, Tunnel.LeavesBehind,
    not_and_or, not_not]
  constructor
  · intro hnil
    exact .inl hnil
  · rintro (hnil | hpoll)
    · exact hnil
    · obtain ⟨hspace, hint⟩ := not_or.mp hpoll
      obtain ⟨hquiet, hempty⟩ := he.unread_of_hangup hspace hint hpollin hcollapsed hret
      rw [hempty, hquiet]
      rfl

/-- A FIFO of two bytes. -/
def twoBytes : Btfifo := btfifoCreate 2 btfifoFAssumeFdReady 0 fun _ => 0

/-- The beginning of a call with an empty FIFO and an empty pipe. -/
def emptyCall : Tunnel :=
  Tunnel.start twoBytes ⟨false, false, false⟩ ⟨false, false, false⟩ [] false false

/-- The session writes three bytes, and two of them are read. -/
def fillTurn : TunnelEvent where
  arrives := [1, 2, 3]
  closes := false
  goneAtPoll := false
  poll := .ready ⟨true, false, false⟩ ⟨false, false, false⟩
  sigchld := false
  arrivesLate := []
  closesLate := false
  goneAtWrite₁ := false
  goneAtWrite₂ := false
  pollOut := .fine
  write₁ := writeTakes 0
  write₂ := writeTakes 0
  pollIn := .fine
  read₁ := .gives 3
  read₂ := .gives 3

/-- The session closes the pipe, and the output is stalled. -/
def hangUpTurn : TunnelEvent :=
  { fillTurn with
    arrives := []
    closes := true
    poll := .ready ⟨false, false, true⟩ ⟨false, false, false⟩ }

theorem honest_fillTurn : HonestIn emptyCall fillTurn := by
  refine ⟨nofun, fun _ => rfl, ?_, ?_⟩
  · intro revIn revOut h
    cases h
    decide
  · intro revIn revOut h
    cases h
    decide

theorem honest_hangUpTurn : HonestIn (emptyCall.turn false fillTurn) hangUpTurn := by
  refine ⟨nofun, fun _ => rfl, ?_, ?_⟩
  · intro revIn revOut h
    cases h
    decide
  · intro revIn revOut h
    cases h
    decide

theorem reach_fillTurn : TunnelReach false emptyCall (emptyCall.turn false fillTurn) :=
  .single ⟨rfl, fillTurn, honest_fillTurn, rfl⟩

theorem nothing_lost_iff_full :
    twoBytes.stored ++ ((emptyCall.turn false fillTurn).turn false hangUpTurn).written =
        ((emptyCall.turn false fillTurn).turn false hangUpTurn).out ++
          ((emptyCall.turn false fillTurn).turn false hangUpTurn).fifo.stored ↔
      ¬ (emptyCall.turn false fillTurn).LeavesBehind hangUpTurn :=
  nothing_lost_iff false ⟨by decide, by decide⟩ ⟨false, false, false⟩ ⟨false, false, false⟩ [] false
    false reach_fillTurn rfl hangUpTurn honest_hangUpTurn rfl

/-- The third byte stays in the pipe, and the call returns 10. -/
theorem byte_left_in_pipe :
    TunnelReach false emptyCall (emptyCall.turn false fillTurn) ∧
      HonestIn (emptyCall.turn false fillTurn) hangUpTurn ∧
      ((emptyCall.turn false fillTurn).turn false hangUpTurn).ret = some 10 ∧
      ((emptyCall.turn false fillTurn).turn false hangUpTurn).unread = [3] ∧
      twoBytes.stored ++ ((emptyCall.turn false fillTurn).turn false hangUpTurn).written ≠
        ((emptyCall.turn false fillTurn).turn false hangUpTurn).out ++
          ((emptyCall.turn false fillTurn).turn false hangUpTurn).fifo.stored :=
  ⟨reach_fillTurn, honest_hangUpTurn, rfl, rfl, by decide⟩

end TaniDVR
