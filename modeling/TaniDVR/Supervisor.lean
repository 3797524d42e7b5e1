import TaniDVR.Tunnel

/-!
# Supervisor — `stream_dvr_subprocess_to_pipe`

The supervisor starts a DVR session in a child, moves its output to the parent with
`buffered_tunnel_pipe`, and starts the next one when this returns a code that is not negative.  The
FIFO outlives the sessions.  `Supervisor.step` is one fork, one turn of the tunnel, or the final
flush.

`broken_output_iff` says when the call that observes a broken output makes the supervisor leave its
loop.
-/

namespace TaniDVR

/-- `EPIPE`. -/
def epipe : Errno := .other 32

/-- What is known of the output in a turn: its reader does not come back; once it is gone `poll`
reports `POLLERR`, together with `POLLOUT` when this was requested (the FIFO is not empty), and every
`write` fails with `EPIPE`. -/
structure HonestOut (s : Tunnel) (e : TunnelEvent) : Prop where
  gone : s.gone = true → e.goneAtPoll = true
  goneAtPoll : e.goneAtPoll = true → e.goneAtWrite₁ = true
  goneAtWrite : e.goneAtWrite₁ = true → e.goneAtWrite₂ = true
  pollerr : ∀ revIn revOut, e.poll = .ready revIn revOut → e.goneAtPoll = true →
    revOut.collapsed = true ∧ (revOut.pollout = true ↔ s.fifo.dlen ≠ 0)
  write₁ : e.goneAtWrite₁ = true → ∀ bs, e.write₁ bs = .error epipe
  write₂ : e.goneAtWrite₂ = true → ∀ bs, e.write₂ bs = .error epipe

/-- Where the supervisor is. -/
inductive SupervisorPc
  | fork
  | tunnel
  | flush (retcode : ℤ)
  | returned (retcode : ℤ)
  deriving DecidableEq, Repr

/-- The state: the tunnel of the current session, with the FIFO and the output that the sessions
share, and the number of sessions started. -/
structure Supervisor where
  pc : SupervisorPc
  tunnel : Tunnel
  sessions : ℕ

/-- What happens: the fork succeeds or not, with the `pollfd` array that the next call finds on the
stack; a turn of the tunnel; the final flush. -/
inductive SupervisorEvent
  | fork (ok : Bool) (revIn revOut : Revents)
  | turn (e : TunnelEvent)
  | flush (poll : PollAnswer) (write₁ write₂ : WriteFn)

namespace Supervisor

/-- The beginning; `b` is the memory of the buffer (`none` when `malloc` fails). -/
def start (b : Option (ℕ → UInt8)) (gone : Bool) : Supervisor :=
  let fifo := btfifoCreate 1048576 btfifoFAssumeFdReady 0 (b.getD fun _ => 0)
  ⟨if b.isSome then .fork else .returned 101,
    Tunnel.start fifo ⟨false, false, false⟩ ⟨false, false, false⟩ [] false gone, 0⟩

/-- One step. -/
def step (timeoutUs : ℕ) (s : Supervisor) : SupervisorEvent → Supervisor
  | .fork ok revIn revOut =>
    if s.pc = .fork then
      if ok then
        { pc := .tunnel, sessions := s.sessions + 1,
          tunnel := { s.tunnel with
            revIn := revIn, revOut := revOut, ret := none, written := [], unread := [],
            closed := false } }
      else { s with pc := .flush 100 }
    else s
  | .turn e =>
    if s.pc = .tunnel then
      let t := s.tunnel.turn (timeoutUs ≠ 0) e
      match t.ret with
      | none => { s with tunnel := t }
      | some rettp => { s with tunnel := t, pc := if rettp < 0 then .flush 102 else .fork }
    else s
  | .flush poll write₁ write₂ =>
    match s.pc with
    | .flush retcode =>
      let fifo := { s.tunnel.fifo with flags := s.tunnel.fifo.flags &&& ~~~btfifoFUseWmin }
      let o := btfifoFifoToFd fifo poll write₁ write₂
      { s with
        pc := .returned retcode
        tunnel := { s.tunnel with fifo := o.fifo, out := s.tunnel.out ++ o.moved } }
    | _ => s

end Supervisor

/-- What is known of the output in a step. -/
def SupervisorEvent.Honest (s : Supervisor) : SupervisorEvent → Prop
  | .turn e => HonestOut s.tunnel e
  | _ => True

/-- The runs of the supervisor. -/
def SupervisorReach (timeoutUs : ℕ) : Supervisor → Supervisor → Prop :=
  Relation.ReflTransGen fun s t => ∃ e : SupervisorEvent, e.Honest s ∧ t = s.step timeoutUs e

/-- The turn observes that the reader of the output is gone: `poll` reports it, or a `write`
fails. -/
def Tunnel.Observes (s : Tunnel) (hasTimeout : Bool) (e : TunnelEvent) : Prop :=
  ((∃ revIn revOut, e.poll = .ready revIn revOut) ∧ e.goneAtPoll = true) ∨
    (((s.arrive e.arrives e.closes).poll hasTimeout e).ret = none ∧
      ((s.arrive e.arrives e.closes).poll hasTimeout e).revOut.pollout = true ∧
      (btfifoFifoToFd s.fifo e.pollOut e.write₁ e.write₂).ret = -101)

/-! ### The turn that observes it -/

namespace Tunnel

variable {s : Tunnel} {e : TunnelEvent} {hasTimeout : Bool}

theorem poll_fifo (s : Tunnel) (hasTimeout : Bool) (e : TunnelEvent) :
    (s.poll hasTimeout e).fifo = s.fifo := by
  obtain ⟨revIn, revOut, ret, hp, -⟩ := s.poll_eq hasTimeout e
  rw [hp]

theorem send_flags (s : Tunnel) (e : TunnelEvent) : (s.send e).fifo.flags = s.fifo.flags := by
  rcases s.send_eq e with ⟨-, hs⟩ | ⟨-, hs⟩
  · rw [hs]
    exact fifoToFd_flags s.fifo e.pollOut e.write₁ e.write₂
  · rw [hs]

theorem receive_flags (s : Tunnel) (e : TunnelEvent) :
    (s.receive e).fifo.flags = s.fifo.flags := by
  rcases s.receive_eq e with ⟨o, rfl, -, hs⟩ | ⟨-, hs⟩
  · rw [hs]
    exact (fdToFifo_keeps s.fifo e.pollIn _ _).1
  · rw [hs]

theorem turn_flags (s : Tunnel) (hasTimeout : Bool) (e : TunnelEvent) :
    (s.turn hasTimeout e).fifo.flags = s.fifo.flags := by
  have hlate : (((s.arrive e.arrives e.closes).poll hasTimeout e).later e).fifo.flags =
      s.fifo.flags :=
    congrArg Btfifo.flags (poll_fifo (s.arrive e.arrives e.closes) hasTimeout e)
  unfold turn
  dsimp only
  split_ifs
  · exact hlate
  · rw [send_flags, hlate]
  · rw [receive_flags, send_flags, hlate]

/-- What ends a turn in the output branch. -/
theorem turn_of_send {r : ℤ} (hpoll : ((s.arrive e.arrives e.closes).poll hasTimeout e).ret = none)
    (hsend : ((((s.arrive e.arrives e.closes).poll hasTimeout e).later e).send e).ret = some r) :
    (s.turn hasTimeout e).ret = some r := by
  have hlate : (((s.arrive e.arrives e.closes).poll hasTimeout e).later e).ret = none := hpoll
  unfold turn
  dsimp only
  rw [if_neg (not_not.mpr hlate), if_pos (by simp [hsend])]
  exact hsend

end Tunnel

/-- With `BTFIFO_F_ASSUME_FD_READY` alone neither the preliminary `poll` nor `wmin` plays a part. -/
theorem fifoToFd_of_assume {f : Btfifo} (hf : f.flags = btfifoFAssumeFdReady) (poll : PollAnswer)
    (write₁ write₂ : WriteFn) :
    btfifoFifoToFd f poll write₁ write₂ = btfifoFifoToFd f .fine write₁ write₂ ∧
      ¬ (f.flags &&& btfifoFUseWmin ≠ 0 ∧ f.wmin > f.dlen) := by
  have hassume : ¬ f.flags &&& btfifoFAssumeFdReady = 0 := by
    rw [hf]
    decide
  have hwmin : f.flags &&& btfifoFUseWmin = 0 := by
    rw [hf]
    decide
  refine ⟨?_, fun h => h.1 hwmin⟩
  unfold btfifoFifoToFd
  simp only [hassume, false_and, if_false]

/-- A `write` that fails for good. -/
theorem fifoToFd_of_gone {f : Btfifo} (hf : f.flags = btfifoFAssumeFdReady) (hd : f.dlen ≠ 0)
    (poll : PollAnswer) {write₁ : WriteFn} (write₂ : WriteFn)
    (hw : ∀ bs, write₁ bs = .error epipe) :
    (btfifoFifoToFd f poll write₁ write₂).ret = -101 := by
  obtain ⟨hfine, hwmin⟩ := fifoToFd_of_assume hf poll write₁ write₂
  rw [hfine]
  unfold btfifoFifoToFd writeLastRegion
  rw [if_neg (by simp), if_neg (by simp), if_neg hd, if_neg hwmin]
  dsimp only
  rw [hw, hw]
  split_ifs <;> rfl

/-- From an empty FIFO nothing is written. -/
theorem fifoToFd_of_empty {f : Btfifo} (hf : f.flags = btfifoFAssumeFdReady) (hd : f.dlen = 0)
    (poll : PollAnswer) (write₁ write₂ : WriteFn) :
    (btfifoFifoToFd f poll write₁ write₂).ret = 0 := by
  rw [(fifoToFd_of_assume hf poll write₁ write₂).1]
  unfold btfifoFifoToFd
  rw [if_neg (by simp), if_neg (by simp), if_pos hd]

namespace Tunnel

variable {s : Tunnel} {e : TunnelEvent} {hasTimeout : Bool}

theorem send_failed (hp : s.revOut.pollout = true)
    (hr : (btfifoFifoToFd s.fifo e.pollOut e.write₁ e.write₂).ret = -101) :
    (s.send e).ret = some 4 := by
  rcases s.send_eq e with ⟨-, hs⟩ | ⟨hp', -⟩
  · rw [hs, hr]
    rfl
  · rw [hp] at hp'
    cases hp'

theorem send_collapsed (hp : s.revOut.pollout = false) (hc : s.revOut.collapsed = true) :
    (s.send e).ret = some (-5) := by
  rcases s.send_eq e with ⟨hp', -⟩ | ⟨-, hs⟩
  · rw [hp] at hp'
    cases hp'
  · rw [hs, hc]
    rfl

theorem poll_of_ready (s : Tunnel) (hasTimeout : Bool) {revIn revOut : Revents}
    (hp : e.poll = .ready revIn revOut) :
    s.poll hasTimeout e = { s with revIn := revIn, revOut := revOut } := by
  rw [poll, hp]

/-- **The turn that observes a broken output** ends the call: with -5 when the FIFO is empty, and
with 4 when it is not. -/
theorem Observes.ret (ho : s.Observes hasTimeout e) (he : HonestOut s e) (hn : s.ret = none)
    (hf : s.fifo.flags = btfifoFAssumeFdReady) :
    (s.turn hasTimeout e).ret = some (if s.fifo.dlen = 0 then -5 else 4) := by
  rcases ho with ⟨⟨revIn, revOut, hp⟩, hgone⟩ | ⟨hret, hpollout, hwrite⟩
  · obtain ⟨hcollapsed, hpollout⟩ := he.pollerr revIn revOut hp hgone
    have hpoll := poll_of_ready (s.arrive e.arrives e.closes) hasTimeout hp
    refine turn_of_send (by rw [hpoll]; exact hn) ?_
    rw [hpoll]
    by_cases hd : s.fifo.dlen = 0
    · rw [if_pos hd]
      refine send_collapsed ?_ hcollapsed
      show revOut.pollout = false
      by_contra hne
      exact hpollout.mp (by simpa using hne) hd
    · rw [if_neg hd]
      exact send_failed (hpollout.mpr hd)
        (fifoToFd_of_gone hf hd e.pollOut e.write₂ (he.write₁ (he.goneAtPoll hgone)))
  · have hd : s.fifo.dlen ≠ 0 := by
      intro hd
      rw [fifoToFd_of_empty hf hd] at hwrite
      cases hwrite
    rw [if_neg hd]
    refine turn_of_send hret (send_failed hpollout ?_)
    have hfifo : (((s.arrive e.arrives e.closes).poll hasTimeout e).later e).fifo = s.fifo :=
      poll_fifo (s.arrive e.arrives e.closes) hasTimeout e
    rw [hfifo]
    exact hwrite

end Tunnel

/-! ### Runs -/

/-- The invariant of the supervisor while it runs. -/
structure Supervisor.Running (s : Supervisor) : Prop where
  flags : s.pc = .fork ∨ s.pc = .tunnel → s.tunnel.fifo.flags = btfifoFAssumeFdReady
  ret : s.pc = .tunnel → s.tunnel.ret = none

namespace Supervisor

variable {timeoutUs : ℕ} {s t : Supervisor}

theorem Running.start (b : Option (ℕ → UInt8)) (gone : Bool) : (start b gone).Running :=
  ⟨fun _ => rfl, fun _ => rfl⟩

theorem Running.step (h : s.Running) (e : SupervisorEvent) : (s.step timeoutUs e).Running := by
  cases e with
  | fork ok revIn revOut =>
    unfold Supervisor.step
    dsimp only
    split_ifs with hpc hok
    · exact ⟨fun _ => h.flags (.inl hpc), fun _ => rfl⟩
    · exact ⟨by simp, by simp⟩
    · exact h
  | turn e =>
    unfold Supervisor.step
    dsimp only
    by_cases hpc : s.pc = .tunnel
    · rw [if_pos hpc]
      have hflags := (Tunnel.turn_flags s.tunnel (timeoutUs ≠ 0) e).trans (h.flags (.inr hpc))
      cases hret : (s.tunnel.turn (timeoutUs ≠ 0) e).ret with
      | none => exact ⟨fun _ => hflags, fun _ => hret⟩
      | some rettp => exact ⟨fun _ => hflags, by dsimp only; split_ifs <;> simp⟩
    · rw [if_neg hpc]
      exact h
  | flush poll write₁ write₂ =>
    unfold Supervisor.step
    dsimp only
    cases hpc : s.pc with
    | flush retcode => exact ⟨by simp, by simp⟩
    | fork => exact h
    | tunnel => exact h
    | returned retcode => exact h

theorem Running.reach (h : s.Running) (hr : SupervisorReach timeoutUs s t) : t.Running := by
  induction hr with
  | refl => exact h
  | tail _ hstep ih =>
    obtain ⟨e, -, rfl⟩ := hstep
    exact ih.step e

/-- The supervisor has left its loop. -/
def Left (s : Supervisor) : Prop := ∃ retcode, s.pc = .flush retcode ∨ s.pc = .returned retcode

theorem Left.step (timeoutUs : ℕ) (h : s.Left) (e : SupervisorEvent) :
    (s.step timeoutUs e).Left ∧ (s.step timeoutUs e).sessions = s.sessions := by
  obtain ⟨retcode, hpc⟩ := h
  have hfork : s.pc ≠ .fork := by rcases hpc with h | h <;> simp [h]
  have htunnel : s.pc ≠ .tunnel := by rcases hpc with h | h <;> simp [h]
  cases e with
  | fork ok revIn revOut =>
    unfold Supervisor.step
    dsimp only
    rw [if_neg hfork]
    exact ⟨⟨retcode, hpc⟩, rfl⟩
  | turn e =>
    unfold Supervisor.step
    dsimp only
    rw [if_neg htunnel]
    exact ⟨⟨retcode, hpc⟩, rfl⟩
  | flush poll write₁ write₂ =>
    unfold Supervisor.step
    dsimp only
    rcases hpc with hpc | hpc
    · rw [hpc]
      exact ⟨⟨retcode, .inr rfl⟩, rfl⟩
    · rw [hpc]
      exact ⟨⟨retcode, .inr hpc⟩, rfl⟩

/-- The end of a call of the tunnel. -/
theorem step_of_ret {e : TunnelEvent} {rettp : ℤ} (hpc : s.pc = .tunnel)
    (hret : (s.tunnel.turn (timeoutUs ≠ 0) e).ret = some rettp) :
    s.step timeoutUs (.turn e) =
      { s with
        tunnel := s.tunnel.turn (timeoutUs ≠ 0) e
        pc := if rettp < 0 then .flush 102 else .fork } := by
  unfold Supervisor.step
  dsimp only
  rw [if_pos hpc, hret]

/-- Outside its loop no session is started. -/
theorem Left.reach (h : s.Left) (hr : SupervisorReach timeoutUs s t) :
    t.Left ∧ t.sessions = s.sessions := by
  induction hr with
  | refl => exact ⟨h, rfl⟩
  | tail _ hstep ih =>
    obtain ⟨e, -, rfl⟩ := hstep
    obtain ⟨h', hs⟩ := ih.1.step timeoutUs e
    exact ⟨h', hs.trans ih.2⟩

end Supervisor

/-- **A broken output stops the supervisor**, exactly when the FIFO is empty at the `poll` of the
turn that observes it: then the call returns a negative code, and no session is started any more. -/
theorem broken_output_iff (timeoutUs : ℕ) (b : Option (ℕ → UInt8)) (gone : Bool) {s : Supervisor}
    (hr : SupervisorReach timeoutUs (Supervisor.start b gone) s) (hpc : s.pc = .tunnel)
    (e : TunnelEvent) (he : HonestOut s.tunnel e)
    (ho : s.tunnel.Observes (timeoutUs ≠ 0) e) :
    ((∃ rettp < 0, (s.tunnel.turn (timeoutUs ≠ 0) e).ret = some rettp) ∧
      ∀ t, SupervisorReach timeoutUs (s.step timeoutUs (.turn e)) t → t.sessions = s.sessions) ↔
    s.tunnel.fifo.dlen = 0 := by
  have hrun := (Supervisor.Running.start b gone).reach hr
  have hret := ho.ret he (hrun.ret hpc) (hrun.flags (.inr hpc))
  constructor
  · rintro ⟨⟨rettp, hneg, hrettp⟩, -⟩
    by_contra hd
    rw [hret, if_neg hd] at hrettp
    cases hrettp
    omega
  · intro hd
    rw [if_pos hd] at hret
    refine ⟨⟨-5, by decide, hret⟩, ?_⟩
    intro t ht
    rw [Supervisor.step_of_ret hpc hret] at ht
    exact (Supervisor.Left.reach ⟨102, .inl rfl⟩ ht).2

/-- **It goes on** when the FIFO holds data: the call returns 4, and the supervisor forks again. -/
theorem reconnects_of_stored (timeoutUs : ℕ) (b : Option (ℕ → UInt8)) (gone : Bool) {s : Supervisor}
    (hr : SupervisorReach timeoutUs (Supervisor.start b gone) s) (hpc : s.pc = .tunnel)
    (e : TunnelEvent) (he : HonestOut s.tunnel e)
    (ho : s.tunnel.Observes (timeoutUs ≠ 0) e) (hd : s.tunnel.fifo.dlen ≠ 0)
    (revIn revOut : Revents) :
    (s.tunnel.turn (timeoutUs ≠ 0) e).ret = some 4 ∧
      ((s.step timeoutUs (.turn e)).step timeoutUs (.fork true revIn revOut)).sessions =
        s.sessions + 1 := by
  have hrun := (Supervisor.Running.start b gone).reach hr
  have hret := ho.ret he (hrun.ret hpc) (hrun.flags (.inr hpc))
  rw [if_neg hd] at hret
  refine ⟨hret, ?_⟩
  rw [Supervisor.step_of_ret hpc hret]
  rfl

/-- The reader of the output is gone while bytes are stored. -/
def goneTurn : TunnelEvent :=
  { fillTurn with
    arrives := []
    goneAtPoll := true
    poll := .ready ⟨false, false, false⟩ ⟨false, true, true⟩
    goneAtWrite₁ := true
    goneAtWrite₂ := true
    write₁ := fun _ => .error epipe
    write₂ := fun _ => .error epipe }

/-- The reader of the output is gone before anything is stored. -/
def goneEarlyTurn : TunnelEvent :=
  { goneTurn with poll := .ready ⟨false, false, false⟩ ⟨false, false, true⟩ }

/-- The first session. -/
def firstSession : Supervisor :=
  (Supervisor.start (some fun _ => 0) false).step 0
    (.fork true ⟨false, false, false⟩ ⟨false, false, false⟩)

theorem reach_firstSession :
    SupervisorReach 0 (Supervisor.start (some fun _ => 0) false) firstSession :=
  .single ⟨.fork true ⟨false, false, false⟩ ⟨false, false, false⟩, trivial, rfl⟩

theorem broken_output_iff_empty :
    ((∃ rettp < 0, (firstSession.tunnel.turn false goneEarlyTurn).ret = some rettp) ∧
      ∀ t, SupervisorReach 0 (firstSession.step 0 (.turn goneEarlyTurn)) t →
        t.sessions = firstSession.sessions) ↔
    firstSession.tunnel.fifo.dlen = 0 := by
  refine broken_output_iff 0 (some fun _ => 0) false reach_firstSession rfl goneEarlyTurn ?_ ?_
  · refine ⟨nofun, fun _ => rfl, fun _ => rfl, ?_, fun _ _ => rfl, fun _ _ => rfl⟩
    intro revIn revOut h _
    cases h
    decide
  · exact .inl ⟨⟨_, _, rfl⟩, rfl⟩

/-- The supervisor with three bytes in the FIFO. -/
def storing : Supervisor := firstSession.step 0 (.turn fillTurn)

/-- The `write` of the stored bytes fails, the call returns 4, and a second session is started. -/
theorem second_session_started :
    SupervisorReach 0 (Supervisor.start (some fun _ => 0) false) storing ∧
      HonestOut storing.tunnel goneTurn ∧ storing.tunnel.Observes false goneTurn ∧
      (storing.tunnel.turn false goneTurn).ret = some 4 ∧
      ((storing.step 0 (.turn goneTurn)).step 0
        (.fork true ⟨false, false, false⟩ ⟨false, false, false⟩)).sessions = 2 := by
  refine ⟨.tail reach_firstSession ⟨.turn fillTurn, ?_, rfl⟩, ?_, .inl ⟨⟨_, _, rfl⟩, rfl⟩, rfl, rfl⟩
  · exact HonestOut.mk nofun nofun nofun (fun _ _ _ h => nomatch h) nofun nofun
  · refine ⟨nofun, fun _ => rfl, fun _ => rfl, ?_, fun _ _ => rfl, fun _ _ => rfl⟩
    intro revIn revOut h _
    cases h
    decide

end TaniDVR
