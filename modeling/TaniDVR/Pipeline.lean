import TaniDVR.Lib.Relay
import TaniDVR.Reconnects
import TaniDVR.Session
import TaniDVR.Supervisor

/-!
# Pipeline — the processes of `tanidvr` together

The recorder forks a supervisor, and this one session after the other; what a session writes to its
pipe the supervisor moves to the pipe of the recorder.  `Pipeline` is the supervisor with its tunnel
and the session that runs, each with its own program counter; a step (`PipelineEvent`) is one of the
supervisor or one turn of the session, in any order.  All that a step takes for granted is how pipes
work (`PipelineEvent.Honest`).

The abstract model is `Relayed`: of each session in turn a prefix.  `sessions_relayed` says that the
processes refine it, and `recorded_sessions` what this means for the file that is recorded.
-/

namespace TaniDVR

open Lib

/-- The DVR: the parameters that the sessions are opened with, and the connections that the n-th
one gets. -/
structure Dvr where
  parms : SessionParms
  chipset : List UInt8
  control : ℕ → HlOpen
  stream : ℕ → HlOpen

/-- The supervisor, and the session that it forked, while this runs; one that cannot be set up writes
nothing, and is left out. -/
structure Pipeline where
  supervisor : Supervisor
  session : Option MediaStream

/-- A step of one of the processes. -/
inductive PipelineEvent
  | supervisor (e : SupervisorEvent)
  | session (e : StreamEvent)

namespace Pipeline

def start (b : Option (ℕ → UInt8)) (gone : Bool) : Pipeline := ⟨.start b gone, none⟩

/-- What the session wrote to its pipe. -/
def pipe (p : Pipeline) : List UInt8 := (p.session.map MediaStream.pipe).getD []

/-- One step.  The child begins a session of its own, and is killed when the call of the tunnel
returns. -/
def step (d : Dvr) (p : Pipeline) : PipelineEvent → Pipeline
  | .session e => { p with session := p.session.map fun s => s.step d.parms.toDvrcontrol e }
  | .supervisor e =>
    let supervisor := p.supervisor.step d.parms.timeoutUs e
    { supervisor := supervisor
      session :=
        if supervisor.pc ≠ .tunnel then none
        else if p.supervisor.pc = .tunnel then p.session
        else (MediaStream.setUp d.parms d.chipset (d.control p.supervisor.sessions)
          (d.stream p.supervisor.sessions)).toOption }

end Pipeline

/-- How pipes work: what arrives in the tunnel is what the session wrote, in order, and no earlier;
a write of the session, whose end of the pipe blocks, takes all of a frame, or fails. -/
def PipelineEvent.Honest (p : Pipeline) : PipelineEvent → Prop
  | .supervisor (.turn e) => p.supervisor.tunnel.written ++ e.arrives ++ e.arrivesLate <+: p.pipe
  | .supervisor _ => True
  | .session e => ∀ n, e.write n = some n ∨ e.write n = none

/-- The runs of the processes. -/
def PipelineReach (d : Dvr) : Pipeline → Pipeline → Prop :=
  Relation.ReflTransGen fun p q => ∃ e : PipelineEvent, e.Honest p ∧ q = p.step d e

/-- The messages `ms n` are what the DVR sends on the data connection of the n-th session, which may
end in the middle of one. -/
def Dvr.Sends (d : Dvr) (ms : ℕ → List LlMessage) : Prop :=
  ∀ n, (d.stream n).conn.ll.rest <+: encode LlMessage.bytes (ms n)

/-! ### The tunnel -/

/-- A FIFO that holds some bytes. -/
def fifoOf (bytes : List UInt8) : Btfifo := ⟨bytes.length, 0, 0, ofList bytes, bytes.length, 0⟩

theorem stored_fifoOf (bytes : List UInt8) : (fifoOf bytes).stored = bytes := by
  rw [Btfifo.stored, fifoOf, ring_eq_slice (Nat.zero_add _).le, slice_ofList_self]

namespace Tunnel

variable {s : Tunnel} {e : TunnelEvent} {hasTimeout : Bool}

theorem send_written : (s.send e).written = s.written := by
  rcases s.send_eq e with ⟨-, hs⟩ | ⟨-, hs⟩ <;> rw [hs]

theorem receive_reads :
    (s.receive e).written = s.written ∧ (s.receive e).unread <:+ s.unread := by
  rcases s.receive_eq e with ⟨o, -, -, hs⟩ | ⟨-, hs⟩
  · rw [hs]
    exact ⟨rfl, List.drop_suffix _ _⟩
  · rw [hs]
    exact ⟨rfl, List.suffix_rfl⟩

/-- What arrives in a turn, and what is taken from it: the tunnel reads the unread bytes in order. -/
theorem turn_reads (s : Tunnel) (hasTimeout : Bool) (e : TunnelEvent) :
    (s.turn hasTimeout e).written = s.written ++ e.arrives ++ e.arrivesLate ∧
      (s.turn hasTimeout e).unread <:+ s.unread ++ e.arrives ++ e.arrivesLate := by
  have hlate : (((s.arrive e.arrives e.closes).poll hasTimeout e).later e).written =
        s.written ++ e.arrives ++ e.arrivesLate ∧
      (((s.arrive e.arrives e.closes).poll hasTimeout e).later e).unread =
        s.unread ++ e.arrives ++ e.arrivesLate := by
    obtain ⟨revIn, revOut, ret, hp, -⟩ := (s.arrive e.arrives e.closes).poll_eq hasTimeout e
    rw [hp]
    exact ⟨rfl, rfl⟩
  unfold turn
  dsimp only
  generalize ((s.arrive e.arrives e.closes).poll hasTimeout e).later e = t at hlate ⊢
  rw [← hlate.1, ← hlate.2]
  split_ifs
  · exact ⟨rfl, List.suffix_rfl⟩
  · exact ⟨send_written, by rw [send_frame.1]⟩
  · obtain ⟨hw, hu⟩ := (t.send e).receive_reads (e := e)
    rw [send_written] at hw
    rw [send_frame.1] at hu
    exact ⟨hw, hu⟩

/-- **One turn** moves bytes along: those that were read before are passed on or stored, and so are
those that are read now. -/
theorem turn_relays (hv : s.fifo.Valid) {past read : List UInt8} (hw : s.written = read ++ s.unread)
    (hb : past ++ read = s.out ++ s.fifo.stored) (hasTimeout : Bool) (e : TunnelEvent) :
    (s.turn hasTimeout e).fifo.Valid ∧
      ∃ read', (s.turn hasTimeout e).written = read' ++ (s.turn hasTimeout e).unread ∧
        past ++ read' = (s.turn hasTimeout e).out ++ (s.turn hasTimeout e).fifo.stored := by
  have hacc : Accounts (fifoOf past) s := by
    refine ⟨hv, ?_⟩
    rw [stored_fifoOf, hw, ← List.append_assoc, hb, List.append_assoc]
  have hturn := hacc.turn hasTimeout e
  obtain ⟨hwritten, more, hunread⟩ := s.turn_reads hasTimeout e
  refine ⟨hturn.valid, read ++ more, ?_, ?_⟩
  · rw [hwritten, hw]
    simp only [List.append_assoc] at hunread ⊢
    rw [hunread]
  · have hbytes := hturn.bytes
    rw [stored_fifoOf, hwritten, hw] at hbytes
    simp only [List.append_assoc] at hunread hbytes ⊢
    rw [← hunread] at hbytes
    simpa only [← List.append_assoc, List.append_cancel_right_eq] using hbytes

end Tunnel

/-! ### The session -/

/-- A write that takes all or fails. -/
theorem MediaStream.write_all_or_none {e : StreamEvent} (s : MediaStream) (frame : List UInt8)
    (next : StreamPc) (hw : ∀ n, e.write n = some n ∨ e.write n = none) :
    s.write e frame next = s.write { e with write := some } frame next ∨
      s.write e frame next = { s with pc := .returned 105 } := by
  unfold write
  rcases hw frame.length with h | h
  · exact .inl (by rw [h])
  · exact .inr (by rw [h])

/-- A turn is one in which the write takes all, or the last one. -/
theorem MediaStream.step_all_or_none {e : StreamEvent} (dvrctl : Dvrcontrol) (s : MediaStream)
    (hw : ∀ n, e.write n = some n ∨ e.write n = none) :
    s.step dvrctl e = s.step dvrctl { e with write := some } ∨
      (s.step dvrctl e).pipe = s.pipe ∧ (s.step dvrctl e).pc = .returned 105 := by
  unfold step
  cases s.pc with
  | request =>
    dsimp only
    split_ifs
    · exact .inl rfl
    · refine (write_all_or_none _ _ _ hw).imp_right fun h => ?_
      rw [h]
      exact ⟨rfl, rfl⟩
  | collect =>
    dsimp only
    split_ifs
    all_goals
      first
      | exact .inl rfl
      | refine (write_all_or_none _ _ _ hw).imp_right fun h => ?_
        rw [h]
        exact ⟨rfl, rfl⟩
  | wait => exact .inl rfl
  | discard => exact .inl rfl
  | timers => exact .inl rfl
  | returned ret => exact .inl rfl

theorem Forwarded.step_all_or_none {ms : List LlMessage} {tail : List UInt8} {s : MediaStream}
    (hf : Forwarded ms tail s) (ht : CutOff tail) (dvrctl : Dvrcontrol) {e : StreamEvent}
    (hw : ∀ n, e.write n = some n ∨ e.write n = none) : Forwarded ms tail (s.step dvrctl e) := by
  rcases s.step_all_or_none dvrctl hw with h | ⟨hpipe, hpc⟩
  · rw [h]
    exact hf.step ht dvrctl fun _ => rfl
  · exact hf.of_eq hpipe fun hno => absurd hpc (hno 105)

/-- A session that was set up has read nothing of its data connection. -/
theorem Forwarded.setUp {ms : List LlMessage} {tail chipset : List UInt8} {dvrctl : SessionParms}
    {control stream : HlOpen} {s : MediaStream}
    (hrest : stream.conn.ll.rest = encode LlMessage.bytes ms ++ tail)
    (h : MediaStream.setUp dvrctl chipset control stream = .ok s) : Forwarded ms tail s := by
  unfold MediaStream.setUp at h
  dsimp only at h
  split_ifs at h
  cases h
  exact ⟨[], ms, rfl, rfl, nofun, fun _ => (llpSendHeader_rest _ _).trans hrest⟩

theorem Forwarded.pipe_begins {ms : List LlMessage} {tail : List UInt8} {s : MediaStream}
    (hf : Forwarded ms tail s) : s.pipe <+: mediaPayloads ms := by
  obtain ⟨pre, post, rfl, hpipe, -⟩ := hf
  rw [hpipe, mediaPayloads_append]
  exact List.prefix_append _ _

/-- The whole messages of a data connection, and the one in which it ends. -/
theorem Dvr.Sends.whole {d : Dvr} {ms : ℕ → List LlMessage} (h : d.Sends ms) (n : ℕ) :
    ∃ whole tail, whole <+: ms n ∧ CutOff tail ∧
      (d.stream n).conn.ll.rest = encode LlMessage.bytes whole ++ tail := by
  have hrest := List.prefix_iff_eq_take.mp (h n)
  obtain ⟨whole, post, hms, -, hcut⟩ :=
    take_encode LlMessage.bytes (ms n) (d.stream n).conn.ll.rest.length
  rw [← hrest] at hcut
  refine ⟨whole, ?_⟩
  rcases hcut with hcut | ⟨m, post', k, -, hk, hcut⟩
  · exact ⟨[], ⟨post, hms.symm⟩, .inl rfl, by rw [hcut, List.append_nil]⟩
  · exact ⟨_, ⟨post, hms.symm⟩, .inr ⟨m, k, hk, rfl⟩, hcut⟩

/-! ### The supervisor -/

/-- The tunnel at the beginning of a call for another session. -/
def Tunnel.anew (s : Tunnel) (revIn revOut : Revents) : Tunnel :=
  { s with
    revIn := revIn, revOut := revOut, ret := none, written := [], unread := [], closed := false }

/-- What a step of the supervisor does to the tunnel: nothing, the beginning of a call for the next
session, a turn of the call, or the final flush. -/
inductive SupervisorCase (timeoutUs : ℕ) (s : Supervisor) : SupervisorEvent → Supervisor → Prop
  | idle {e : SupervisorEvent} {t : Supervisor} (hpc : t.pc = .tunnel → s.pc = .tunnel)
      (ht : t.tunnel = s.tunnel) (hs : t.sessions = s.sessions) : SupervisorCase timeoutUs s e t
  | fork {e : SupervisorEvent} (revIn revOut : Revents) (hpc : s.pc = .fork) :
      SupervisorCase timeoutUs s e ⟨.tunnel, s.tunnel.anew revIn revOut, s.sessions + 1⟩
  | turn {t : Supervisor} (te : TunnelEvent) (hpc : s.pc = .tunnel)
      (ht : t.tunnel = s.tunnel.turn (timeoutUs ≠ 0) te) (hs : t.sessions = s.sessions) :
      SupervisorCase timeoutUs s (.turn te) t
  | flush {e : SupervisorEvent} {t : Supervisor} {f : Btfifo} (poll : PollAnswer)
      (write₁ write₂ : WriteFn) (hpc : t.pc ≠ .tunnel)
      (hf : f = { s.tunnel.fifo with flags := s.tunnel.fifo.flags &&& ~~~btfifoFUseWmin })
      (ht : t.tunnel = { s.tunnel with
        fifo := (btfifoFifoToFd f poll write₁ write₂).fifo
        out := s.tunnel.out ++ (btfifoFifoToFd f poll write₁ write₂).moved })
      (hs : t.sessions = s.sessions) : SupervisorCase timeoutUs s e t

theorem Supervisor.step_cases (timeoutUs : ℕ) (s : Supervisor) (e : SupervisorEvent) :
    SupervisorCase timeoutUs s e (s.step timeoutUs e) := by
  cases e with
  | fork ok revIn revOut =>
    unfold Supervisor.step
    dsimp only
    split_ifs with hpc hok
    · exact .fork revIn revOut hpc
    · exact .idle nofun rfl rfl
    · exact .idle id rfl rfl
  | turn te =>
    by_cases hpc : s.pc = .tunnel
    · have h : (s.step timeoutUs (.turn te)).tunnel = s.tunnel.turn (timeoutUs ≠ 0) te ∧
          (s.step timeoutUs (.turn te)).sessions = s.sessions := by
        unfold Supervisor.step
        dsimp only
        rw [if_pos hpc]
        split <;> exact ⟨rfl, rfl⟩
      exact .turn te hpc h.1 h.2
    · have h : s.step timeoutUs (.turn te) = s := by
        unfold Supervisor.step
        dsimp only
        rw [if_neg hpc]
      rw [h]
      exact .idle id rfl rfl
  | flush poll write₁ write₂ =>
    unfold Supervisor.step
    dsimp only
    split
    · exact .flush poll write₁ write₂ nofun rfl rfl rfl
    · exact .idle id rfl rfl

/-! ### The account of all sessions -/

/-- Of the sessions before the current one `past` was relayed; what the current one wrote arrived in
the tunnel, or is still to arrive. -/
inductive Serving (ms : ℕ → List LlMessage) (tail : ℕ → List UInt8) (p : Pipeline)
    (past : List UInt8) : Prop
  | none (h0 : p.supervisor.sessions = 0) (hpc : p.supervisor.pc ≠ .tunnel) (hpast : past = [])
      (hw : p.supervisor.tunnel.written = []) (hs : p.session = .none)
  | nth (n : ℕ) (hn : p.supervisor.sessions = n + 1)
      (hpast : Relayed (fun n => mediaPayloads (ms n)) n past)
      (hw : p.supervisor.tunnel.written <+: mediaPayloads (ms n))
      (hs : ∀ s, p.session = some s → Forwarded (ms n) (tail n) s)

/-- The account: what was read from the current session, behind what was relayed of those before it,
is what was passed on, and what is stored in the FIFO. -/
structure Ledger (ms : ℕ → List LlMessage) (tail : ℕ → List UInt8) (p : Pipeline) : Prop where
  valid : p.supervisor.tunnel.fifo.Valid
  bytes : ∃ past read, Serving ms tail p past ∧
    p.supervisor.tunnel.written = read ++ p.supervisor.tunnel.unread ∧
    past ++ read = p.supervisor.tunnel.out ++ p.supervisor.tunnel.fifo.stored

variable {d : Dvr} {ms : ℕ → List LlMessage} {tail : ℕ → List UInt8} {p q : Pipeline} {past : List UInt8}

theorem Pipeline.pipe_begins {n : ℕ}
    (h : ∀ s, p.session = some s → Forwarded (ms n) (tail n) s) : p.pipe <+: mediaPayloads (ms n) := by
  unfold Pipeline.pipe
  cases hsession : p.session with
  | none => exact List.nil_prefix
  | some s => exact (h s hsession).pipe_begins

/-- The same session goes on; what arrived is what it wrote. -/
theorem Serving.keep (h : Serving ms tail p past)
    (hn : q.supervisor.sessions = p.supervisor.sessions)
    (hpc : q.supervisor.pc = .tunnel → p.supervisor.pc = .tunnel)
    (hs : ∀ s, q.session = some s → p.session = some s)
    (hw : q.supervisor.tunnel.written = p.supervisor.tunnel.written ∨
      p.supervisor.pc = .tunnel ∧ q.supervisor.tunnel.written <+: p.pipe) :
    Serving ms tail q past := by
  cases h with
  | none h0 hno hpast hnil hnone =>
    refine .none (hn.trans h0) (fun h => hno (hpc h)) hpast ?_ ?_
    · rcases hw with hw | ⟨htunnel, -⟩
      · exact hw.trans hnil
      · exact absurd htunnel hno
    · refine Option.eq_none_iff_forall_ne_some.mpr fun s h => ?_
      rw [hs s h] at hnone
      cases hnone
  | nth n hn' hpast hpre hf =>
    refine .nth n (hn.trans hn') hpast ?_ fun s h => hf s (hs s h)
    rcases hw with hw | ⟨-, hw⟩
    · rwa [hw]
    · exact hw.trans (Pipeline.pipe_begins hf)

namespace Ledger

theorem start (b : Option (ℕ → UInt8)) (gone : Bool) : Ledger ms tail (.start b gone) := by
  refine ⟨⟨Nat.zero_le _, show 0 < 1048576 by decide⟩, [], [], ?_, rfl, rfl⟩
  refine .none rfl ?_ rfl rfl rfl
  show (if b.isSome then SupervisorPc.fork else .returned 101) ≠ .tunnel
  split_ifs <;> simp

/-- What the processes relayed. -/
theorem relayed (h : Ledger ms tail p) : Relayed (fun n => mediaPayloads (ms n)) p.supervisor.sessions
    (p.supervisor.tunnel.out ++ p.supervisor.tunnel.fifo.stored) := by
  obtain ⟨past, read, hserving, hwritten, hbytes⟩ := h.bytes
  rw [← hbytes]
  cases hserving with
  | none h0 hpc hpast hw hs =>
    rw [hw] at hwritten
    rw [h0, hpast, (List.append_eq_nil_iff.mp hwritten.symm).1]
    exact .none
  | nth n hn hpast hw hs =>
    rw [hn]
    exact hpast.session (List.IsPrefix.trans ⟨_, hwritten.symm⟩ hw)

theorem sessionTurn (h : Ledger ms tail p) (ht : ∀ n, CutOff (tail n)) (d : Dvr) {e : StreamEvent}
    (he : PipelineEvent.Honest p (.session e)) : Ledger ms tail (p.step d (.session e)) := by
  obtain ⟨past, read, hserving, hwritten, hbytes⟩ := h.bytes
  refine ⟨h.valid, past, read, ?_, hwritten, hbytes⟩
  cases hserving with
  | none h0 hpc hpast hw hs => exact .none h0 hpc hpast hw (by simp [Pipeline.step, hs])
  | nth n hn hpast hw hs =>
    refine .nth n hn hpast hw fun s hmap => ?_
    obtain ⟨s, hsome, rfl⟩ := Option.map_eq_some_iff.mp hmap
    exact (hs s hsome).step_all_or_none (ht n) _ he

/-- The session after a step of the supervisor is the one before it, or one that was just set up. -/
theorem session_cases {e : SupervisorEvent} {s : MediaStream}
    (h : (p.step d (.supervisor e)).session = some s) :
    (p.step d (.supervisor e)).supervisor.pc = .tunnel ∧
      (p.supervisor.pc = .tunnel ∧ p.session = some s ∨ p.supervisor.pc ≠ .tunnel ∧
        MediaStream.setUp d.parms d.chipset (d.control p.supervisor.sessions)
          (d.stream p.supervisor.sessions) = .ok s) := by
  unfold Pipeline.step at h ⊢
  dsimp only at h ⊢
  split_ifs at h with hpc hold
  · exact ⟨not_not.mp hpc, .inl ⟨hold, h⟩⟩
  · refine ⟨not_not.mp hpc, .inr ⟨hold, ?_⟩⟩
    generalize MediaStream.setUp d.parms d.chipset (d.control p.supervisor.sessions)
      (d.stream p.supervisor.sessions) = r at h ⊢
    cases r with
    | error code => cases h
    | ok t => exact congrArg Except.ok (Option.some.inj h)

theorem supervisorStep (h : Ledger ms tail p)
    (hrest : ∀ n, (d.stream n).conn.ll.rest = encode LlMessage.bytes (ms n) ++ tail n)
    {e : SupervisorEvent} (he : PipelineEvent.Honest p (.supervisor e)) :
    Ledger ms tail (p.step d (.supervisor e)) := by
  have hrelayed := h.relayed
  obtain ⟨past, read, hserving, hwritten, hbytes⟩ := h.bytes
  have hsession := fun s => session_cases (p := p) (d := d) (e := e) (s := s)
  have hcase := p.supervisor.step_cases d.parms.timeoutUs e
  rw [show p.supervisor.step d.parms.timeoutUs e = (p.step d (.supervisor e)).supervisor from rfl]
    at hcase
  generalize p.step d (.supervisor e) = q at hsession hcase ⊢
  obtain ⟨t, session⟩ := q
  dsimp only at hsession hcase
  have hold : (t.pc = .tunnel → p.supervisor.pc = .tunnel) →
      ∀ s, session = some s → p.session = some s := by
    intro hpc s hs
    obtain ⟨ht, ⟨-, hsame⟩ | ⟨hno, -⟩⟩ := hsession s hs
    · exact hsame
    · exact absurd (hpc ht) hno
  cases hcase with
  | idle hpc ht hs =>
    refine ⟨ht ▸ h.valid, past, read, hserving.keep hs hpc (hold hpc) (.inl (by rw [ht])), ?_, ?_⟩
    · rw [ht]
      exact hwritten
    · rw [ht]
      exact hbytes
  | fork revIn revOut hpc =>
    refine ⟨h.valid, _, [], .nth p.supervisor.sessions rfl hrelayed List.nil_prefix ?_, rfl,
      List.append_nil _⟩
    intro s hs
    obtain ⟨-, ⟨htunnel, -⟩ | ⟨-, hsetup⟩⟩ := hsession s hs
    · rw [hpc] at htunnel
      cases htunnel
    · exact .setUp (hrest _) hsetup
  | turn te hpc ht hs =>
    obtain ⟨hvalid, read', hwritten', hbytes'⟩ :=
      Tunnel.turn_relays h.valid hwritten hbytes (d.parms.timeoutUs ≠ 0) te
    rw [← ht] at hvalid hwritten' hbytes'
    refine ⟨hvalid, past, read', ?_, hwritten', hbytes'⟩
    refine hserving.keep hs (fun _ => hpc) (hold fun _ => hpc) (.inr ⟨hpc, ?_⟩)
    rw [ht, (Tunnel.turn_reads _ _ _).1]
    exact he
  | @flush _ _ f poll write₁ write₂ hpc hf ht hs =>
    have hvalid : f.Valid := hf ▸ ⟨h.valid.dlen_le, h.valid.dpos_lt⟩
    have hdrains := fifoToFd_drains hvalid poll write₁ write₂
    have hstored : p.supervisor.tunnel.fifo.stored = f.stored := by
      rw [hf]
      rfl
    refine ⟨ht ▸ hdrains.valid, past, read, ?_, ?_, ?_⟩
    · exact hserving.keep hs (fun h => absurd h hpc) (hold fun h => absurd h hpc)
        (.inl (by rw [ht]))
    · rw [ht]
      exact hwritten
    · rw [ht, hbytes, hstored, hdrains.stored, List.append_assoc]

/-- **One step**, of any of the processes, keeps the account. -/
theorem step (h : Ledger ms tail p)
    (hrest : ∀ n, (d.stream n).conn.ll.rest = encode LlMessage.bytes (ms n) ++ tail n)
    (ht : ∀ n, CutOff (tail n)) {e : PipelineEvent} (he : e.Honest p) :
    Ledger ms tail (p.step d e) := by
  cases e with
  | supervisor e => exact h.supervisorStep hrest he
  | session e => exact h.sessionTurn ht d he

/-- **A run** keeps it, in whatever order the processes take their steps. -/
theorem run (h : Ledger ms tail p)
    (hrest : ∀ n, (d.stream n).conn.ll.rest = encode LlMessage.bytes (ms n) ++ tail n)
    (ht : ∀ n, CutOff (tail n)) (hr : PipelineReach d p q) : Ledger ms tail q := by
  induction hr with
  | refl => exact h
  | tail _ hstep ih =>
    obtain ⟨e, he, rfl⟩ := hstep
    exact ih.step hrest ht he

end Ledger

/-! ### What arrived in a call of the tunnel -/

theorem MediaStream.write_pipe {s s' : MediaStream} (h : s'.pipe = s.pipe) (e : StreamEvent)
    (frame : List UInt8) (next : StreamPc) : s.pipe <+: (s'.write e frame next).pipe := by
  unfold write
  rw [← h]
  cases e.write frame.length with
  | none => exact List.prefix_rfl
  | some n => exact List.prefix_append _ _

/-- A session takes back nothing of what it wrote. -/
theorem MediaStream.step_pipe (dvrctl : Dvrcontrol) (s : MediaStream) (e : StreamEvent) :
    s.pipe <+: (s.step dvrctl e).pipe := by
  unfold step
  cases s.pc with
  | request =>
    dsimp only
    split_ifs
    · exact List.prefix_rfl
    · exact write_pipe (by rfl) e _ _
  | collect =>
    dsimp only
    split_ifs
    all_goals
      first
      | exact List.prefix_rfl
      | exact write_pipe (by rfl) e _ _
  | wait => exact List.prefix_rfl
  | discard => exact List.prefix_rfl
  | timers =>
    dsimp only
    split_ifs <;> exact List.prefix_rfl
  | returned ret => exact List.prefix_rfl

/-- What arrived in a call of the tunnel is the beginning of what the session wrote. -/
def Arrived (p : Pipeline) : Prop :=
  p.supervisor.pc = .tunnel → p.supervisor.tunnel.written <+: p.pipe

theorem Arrived.step (h : Arrived p) (d : Dvr) {e : PipelineEvent} (he : e.Honest p) :
    Arrived (p.step d e) := by
  cases e with
  | session e =>
    refine fun hpc => (h hpc).trans ?_
    unfold Pipeline.pipe Pipeline.step
    cases p.session with
    | none => exact List.prefix_rfl
    | some s => exact s.step_pipe _ e
  | supervisor e =>
    have hcase := p.supervisor.step_cases d.parms.timeoutUs e
    have hsession : p.supervisor.pc = .tunnel →
        (p.supervisor.step d.parms.timeoutUs e).pc = .tunnel →
        (p.step d (.supervisor e)).pipe = p.pipe := by
      intro hpc hpc'
      unfold Pipeline.pipe Pipeline.step
      dsimp only
      rw [if_neg (not_not.mpr hpc'), if_pos hpc]
    intro hpc'
    change (p.supervisor.step d.parms.timeoutUs e).pc = .tunnel at hpc'
    show (p.supervisor.step d.parms.timeoutUs e).tunnel.written <+: _
    generalize p.supervisor.step d.parms.timeoutUs e = t at hcase hsession hpc'
    cases hcase with
    | idle hpc ht hs =>
      rw [ht, hsession (hpc hpc') hpc']
      exact h (hpc hpc')
    | fork revIn revOut hpc => exact List.nil_prefix
    | turn te hpc ht hs =>
      rw [ht, (Tunnel.turn_reads _ _ _).1, hsession hpc hpc']
      exact he
    | flush poll write₁ write₂ hpc hf ht hs => exact absurd hpc' hpc

theorem Arrived.run (h : Arrived p) (hr : PipelineReach d p q) : Arrived q := by
  induction hr with
  | refl => exact h
  | tail _ hstep ih =>
    obtain ⟨e, he, rfl⟩ := hstep
    exact ih.step d he

theorem mediaPayloads_prefix {xs ys : List LlMessage} (h : xs <+: ys) :
    mediaPayloads xs <+: mediaPayloads ys := by
  obtain ⟨zs, rfl⟩ := h
  rw [mediaPayloads_append]
  exact List.prefix_append _ _

/-- The account of a run. -/
theorem Dvr.Sends.ledger (hd : d.Sends ms) {b : Option (ℕ → UInt8)} {gone : Bool}
    (hr : PipelineReach d (.start b gone) p) :
    ∃ whole tail, (∀ n, whole n <+: ms n) ∧ Ledger whole tail p := by
  choose whole tail hpre hcut hrest using hd.whole
  exact ⟨whole, tail, hpre, (Ledger.start b gone).run hrest hcut hr⟩

/-- **The processes refine the relay**: in whatever order they take their steps, what came to the
pipe of the recorder, with what the FIFO holds, is of each session in turn the beginning of the
payloads of its media messages.  While a session runs nothing of it is lost: what it wrote so far
is on its way to the tunnel, or was passed on, is stored, or is unread. -/
theorem sessions_relayed (d : Dvr) (ms : ℕ → List LlMessage) (hd : d.Sends ms)
    (b : Option (ℕ → UInt8)) (gone : Bool) (p : Pipeline)
    (hr : PipelineReach d (.start b gone) p) :
    Relayed (fun n => mediaPayloads (ms n)) p.supervisor.sessions
        (p.supervisor.tunnel.out ++ p.supervisor.tunnel.fifo.stored) ∧
      (p.supervisor.pc = .tunnel → ∃ n past, p.supervisor.sessions = n + 1 ∧
        Relayed (fun n => mediaPayloads (ms n)) n past ∧
        p.supervisor.tunnel.written <+: p.pipe ∧ p.pipe <+: mediaPayloads (ms n) ∧
        past ++ p.supervisor.tunnel.written = p.supervisor.tunnel.out ++
          (p.supervisor.tunnel.fifo.stored ++ p.supervisor.tunnel.unread)) := by
  obtain ⟨whole, tail, hpre, h⟩ := hd.ledger hr
  have hpay := fun n => mediaPayloads_prefix (hpre n)
  have harrived : Arrived p := Arrived.run (p := .start b gone) (fun _ => List.nil_prefix) hr
  refine ⟨h.relayed.mono hpay, fun hpc => ?_⟩
  obtain ⟨past, read, hserving, hwritten, hbytes⟩ := h.bytes
  cases hserving with
  | none h0 hno => exact absurd hpc hno
  | nth n hn hpast hw hs =>
    refine ⟨n, past, hn, hpast.mono hpay, harrived hpc, ?_, ?_⟩
    · exact (Pipeline.pipe_begins hs).trans (hpay n)
    · rw [hwritten, ← List.append_assoc, hbytes, List.append_assoc]

/-- A media message with an I-frame. -/
def palMessage : LlMessage where
  head := [0xbc, 0, 0, 0, 42] ++ List.replicate 27 0
  payload := palIFrame
  length_head := rfl
  le32_head := by decide

/-- A DVR that sends one in each session, and then breaks off. -/
def palDvr : Dvr where
  parms := shortUser
  chipset := []
  control _ := ⟨true, ⟨⟨encode LlMessage.bytes [lateReply, loginReply, chipsetReply, nopReply], false,
    List.replicate 261 true, [], []⟩, 0⟩⟩
  stream _ := ⟨true, ⟨⟨encode LlMessage.bytes [lateReply, palMessage] ++ palMessage.head, false, [true],
    [1, 1], []⟩, 0⟩⟩

theorem palDvr_sends : palDvr.Sends fun _ => [lateReply, palMessage, palMessage] := by
  intro n
  exact ⟨palIFrame, rfl⟩

/-- The frame arrives, and is read. -/
def palArrives : TunnelEvent :=
  { fillTurn with arrives := palIFrame, read₁ := .gives 42 }

/-- It is passed on, except for its last bytes. -/
def palPassed : TunnelEvent :=
  { fillTurn with
    arrives := []
    poll := .ready ⟨false, false, false⟩ ⟨false, true, false⟩
    write₁ := writeTakes 40 }

/-- The first session is forked and set up. -/
def palForked : Pipeline :=
  (Pipeline.start (some fun _ => 0) false).step palDvr
    (.supervisor (.fork true ⟨false, false, false⟩ ⟨false, false, false⟩))

/-- It has written its first frame, and most of this has come to the recorder. -/
def palRelayed : Pipeline :=
  ((palForked.step palDvr (.session busyTurn)).step palDvr (.supervisor (.turn palArrives))).step palDvr
    (.supervisor (.turn palPassed))

theorem reach_palRelayed : PipelineReach palDvr (.start (some fun _ => 0) false) palRelayed := by
  have harrives : PipelineEvent.Honest (palForked.step palDvr (.session busyTurn))
      (.supervisor (.turn palArrives)) := by
    show _ <+: _
    decide +kernel
  have hpassed : PipelineEvent.Honest ((palForked.step palDvr (.session busyTurn)).step palDvr
      (.supervisor (.turn palArrives))) (.supervisor (.turn palPassed)) := by
    show _ <+: _
    decide +kernel
  have hforked : PipelineReach palDvr (.start (some fun _ => 0) false) palForked :=
    .single ⟨.supervisor (.fork true ⟨false, false, false⟩ ⟨false, false, false⟩), trivial, rfl⟩
  exact .tail (.tail (.tail hforked ⟨.session busyTurn, fun n => .inl rfl, rfl⟩) ⟨_, harrives, rfl⟩)
    ⟨_, hpassed, rfl⟩

theorem sessions_relayed_pal :
    Relayed (fun _ => mediaPayloads [lateReply, palMessage, palMessage]) palRelayed.supervisor.sessions
        (palRelayed.supervisor.tunnel.out ++ palRelayed.supervisor.tunnel.fifo.stored) ∧
      (palRelayed.supervisor.pc = .tunnel → ∃ n past, palRelayed.supervisor.sessions = n + 1 ∧
        Relayed (fun _ => mediaPayloads [lateReply, palMessage, palMessage]) n past ∧
        palRelayed.supervisor.tunnel.written <+: palRelayed.pipe ∧
        palRelayed.pipe <+: mediaPayloads [lateReply, palMessage, palMessage] ∧
        past ++ palRelayed.supervisor.tunnel.written = palRelayed.supervisor.tunnel.out ++
          (palRelayed.supervisor.tunnel.fifo.stored ++ palRelayed.supervisor.tunnel.unread)) :=
  sessions_relayed palDvr _ palDvr_sends (some fun _ => 0) false palRelayed reach_palRelayed

example : palRelayed.supervisor.tunnel.out = palIFrame.take 40 := by decide +kernel

/-! ### The recorded file -/

/-- The first bytes of a frame. -/
def Piece.cut (q : Piece) (k : ℕ) (hpos : 0 < k) (hle : k ≤ q.frame.length) : Piece :=
  { q with kept := k, kept_pos := hpos, kept_le := hle }

/-- The first bytes of some pieces: whole pieces, and perhaps the first bytes of another one. -/
theorem pieces_of_prefix {qs : List Piece} {part : List UInt8} (h : part <+: fileBytes qs) :
    ∃ ps, fileBytes ps = part ∧ intactFrames ps <+: intactFrames qs := by
  have hpart := List.prefix_iff_eq_take.mp h
  obtain ⟨pre, post, rfl, -, hcut⟩ := take_encode Piece.bytes qs part.length
  rw [show encode Piece.bytes (pre ++ post) = fileBytes (pre ++ post) from rfl, ← hpart] at hcut
  have hpre : intactFrames pre <+: intactFrames (pre ++ post) := by
    rw [intactFrames_append]
    exact List.prefix_append _ _
  rcases hcut with hcut | ⟨q, post', k, rfl, hk, hcut⟩
  · exact ⟨pre, hcut.symm, hpre⟩
  · rw [q.length_bytes] at hk
    have hle := q.kept_le
    rcases Nat.eq_zero_or_pos k with rfl | hpos
    · exact ⟨pre, by rw [hcut, List.take_zero, List.append_nil]; rfl, hpre⟩
    · have hno : ¬ (q.cut k hpos (by omega)).Intact := by
        show k ≠ q.frame.length
        omega
      refine ⟨pre ++ [q.cut k hpos (by omega)], ?_, ?_⟩
      · rw [hcut, Piece.bytes, List.take_take, Nat.min_eq_left hk.le]
        simp [encode, fileBytes, Piece.bytes, Piece.cut]
      · rwa [intactFrames_append, intactFrames_cut hno, List.append_nil]

/-- What is relayed of sessions that send frames is a stream of frames, of which some are cut; the
intact ones are relayed of the intact ones. -/
theorem pieces_of_relayed {qs : ℕ → List Piece} {n : ℕ} {l : List UInt8}
    (h : Relayed (fun n => fileBytes (qs n)) n l) :
    ∃ ps, fileBytes ps = l ∧ Relayed (fun n => intactFrames (qs n)) n (intactFrames ps) :=
  h.lift fileBytes_nil rfl fileBytes_append intactFrames_append fun _ _ _ hpart =>
    pieces_of_prefix hpart

/-- **The file of a recording** over any number of sessions, in any order of the steps of all the
processes, whatever the recorder has read of its pipe and wherever it is: of each session in turn it
holds the first intact frames, each once and whole, and at most the beginning of another output. -/
theorem recorded_sessions (d : Dvr) (ms : ℕ → List LlMessage) (hd : d.Sends ms)
    (qs : ℕ → List Piece) (hq : ∀ n, mediaPayloads (ms n) = fileBytes (qs n))
    (b : Option (ℕ → UInt8)) (gone : Bool) (p : Pipeline)
    (hr : PipelineReach d (.start b gone) p) (c : Container) (tsproc : Bool) (w : Outside)
    (sq below sbuf : ℕ → UInt8) (hbelow : ∀ k < 8, below k ≠ 0x64) (heap : McParms)
    (tscHeap : TsProc) (ntscExact60hz : Bool)
    (hw : c = .mkv → ∀ n, ∀ f ∈ intactFrames (qs n), WellFormed Program.tanidvr.maxMkvLen f)
    (inputs : List TurnRead)
    (hlen : ∀ x ∈ readData inputs, x.length ≤ Program.tanidvr.granularity)
    (hin : (readData inputs).flatten <+: p.supervisor.tunnel.out) (r : Recording) (s₀ : Recorder)
    (hrec : recording .tanidvr c tsproc (dstfInit sq below) sbuf (.start heap tscHeap ntscExact60hz)
      inputs = (r, s₀)) (hi : r.mcFormatIn = .dhav) (s : Recorder)
    (hs : Reach (Recorder.step r w) s₀ s) :
    ∃ frames, Relayed (fun n => intactFrames (qs n)) p.supervisor.sessions frames ∧
      ∃ k before whole, HoldingFirst r (.start heap tscHeap ntscExact60hz) frames k s before whole := by
  obtain ⟨whole, tail, hpre, h⟩ := hd.ledger hr
  have hread : Relayed (fun n => fileBytes (qs n)) p.supervisor.sessions (readData inputs).flatten :=
    (h.relayed.of_prefix (hin.trans (List.prefix_append _ _))).mono fun n =>
      hq n ▸ mediaPayloads_prefix (hpre n)
  obtain ⟨ps, hps, hframes⟩ := pieces_of_relayed hread
  have hstart : Spliced ps Program.tanidvr.granularity (dstfInit sq below) (readData inputs ++ [])
      [] := by
    rw [List.append_nil]
    exact .start sq hbelow hps.symm hlen
  refine ⟨intactFrames ps, hframes, ?_⟩
  refine holdingFirst_of_runInv (spliced_runInv ps _ Program.tanidvr.sizes.1) (fun h => h.prefix) ?_
    hlen hstart hrec hi hs
  intro hmkv f hf
  obtain ⟨n, -, hn⟩ := hframes.mem hf
  exact hw hmkv n f hn

/-- The pieces that its sessions send. -/
def palPieces : List Piece := [palWhole, palWhole]

theorem recorded_sessions_pal :
    ∃ frames, Relayed (fun _ => intactFrames palPieces) palRelayed.supervisor.sessions frames ∧
      ∃ k before whole, HoldingFirst ⟨.tanidvr, .mkv, true, .dhav⟩ (.start default default false)
        frames k (runFor (Recorder.step ⟨.tanidvr, .mkv, true, .dhav⟩ .fullDisk) 3
          (recording .tanidvr .mkv true (dstfInit (fun _ => 0) fun _ => 0) (fun _ => 0)
            (.start default default false)
            [.data (palIFrame.take 38), .data ((palIFrame.take 40).drop 38), .readFailed]).2) before
        whole := by
  have hframe : ∀ f ∈ intactFrames palPieces, f = palIFrame := by decide
  exact recorded_sessions palDvr _ palDvr_sends (fun _ => palPieces) (fun _ => rfl) (some fun _ => 0)
    false palRelayed reach_palRelayed .mkv true .fullDisk (fun _ => 0) (fun _ => 0) (fun _ => 0)
    (by decide) default default false (fun _ _ f hf => hframe f hf ▸ wellFormed_palIFrame)
    [.data (palIFrame.take 38), .data ((palIFrame.take 40).drop 38), .readFailed]
    (by intro x hx; rcases List.mem_pair.mp hx with rfl | rfl <;> decide) (by decide +kernel)
    ⟨.tanidvr, .mkv, true, .dhav⟩ _ rfl rfl _ (reach_runFor 3 _)

end TaniDVR
