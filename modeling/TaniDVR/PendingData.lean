import TaniDVR.PacketReads

/-!
# PendingData — what "no pending data" means

`hlp_discard_incoming_data` and the inner loop of `stream_media_dvr_to_pipe` end when `poll` finds
nothing in the socket.  A message that an `fread` has pulled into the buffer of the `FILE` is not
found there (`second_message_overlooked`).

`no_pending` says when no received message is left: when no loop begins `Blind`, and no `fread` of a
packet in it overlooks a message (`DiscardOverlooks`, `InnerOverlooks`).  Both are about the connection
before the loop: the stream says in which sizes its packets are read (`discardPacket`,
`collectPacket`), and the socket and the buffer what these `fread`s find.  `pending_iff_overlooks`
says that the condition is exact where messages are read in order.  The steps of a run are the arrival
of bytes, an `fread` of any size (the other operations are made of these: `freadKeeps_steps`), and the
two loops.
-/

namespace TaniDVR

open Lib

/-! ### What `fread` keeps -/

/-- A property that `fread` keeps. -/
def FreadKeeps (P : BufConn → Prop) : Prop := ∀ c n, P c → P (c.fread n).2

section Keeps

variable {P : BufConn → Prop} {c : BufConn}

theorem FreadKeeps.getHeader (hf : FreadKeeps P) (h : P c) : P c.llpGetHeader.conn := by
  unfold BufConn.llpGetHeader
  dsimp only
  split_ifs <;> exact hf c _ h

theorem FreadKeeps.discard (hf : FreadKeeps P) (h : P c) (n : ℕ) : P (c.llpDiscardLoop n).2 := by
  induction n using Nat.strongRecOn generalizing c with
  | _ n ih =>
    unfold BufConn.llpDiscardLoop
    by_cases hn : n ≠ 0
    · have := discardToRead_bounds hn
      rw [dif_pos hn]
      dsimp only
      split_ifs
      · exact hf c _ h
      · exact ih _ (by omega) (hf c _ h)
    · rw [dif_neg hn]
      exact h

theorem FreadKeeps.getExtdata (hf : FreadKeeps P) (h : P c) (header : LlHeader) (buflen : ℕ) :
    P (c.llpGetExtdataSbuff header buflen).conn := by
  unfold BufConn.llpGetExtdataSbuff
  dsimp only
  split_ifs
  · exact h
  · exact h
  · exact hf c _ h
  · exact hf c _ h

theorem FreadKeeps.awaitHeader (hf : FreadKeeps P) (h : P c) (cmd : UInt8) :
    P (c.hlpGetHeader cmd).conn := by
  fun_induction BufConn.hlpGetHeader c cmd with
  | case1 c r hr => exact hf.getHeader h
  | case2 c r hr hcmd ih => exact ih (hf.discard (hf.getHeader h) _)
  | case3 c r hr hcmd => exact hf.getHeader h

theorem FreadKeeps.collect (hf : FreadKeeps P) (h : P c) (dest : Option ℕ) :
    P (c.hlpCollectMediaData dest).conn := by
  have hh := hf.awaitHeader h 0xbc
  unfold BufConn.hlpCollectMediaData
  dsimp only
  by_cases hr : (c.hlpGetHeader 0xbc).ret ≠ 0
  · rw [if_pos hr]
    exact hh
  · rw [if_neg hr]
    cases dest with
    | none =>
      dsimp only
      split_ifs <;> exact hf.discard hh _
    | some maxLen =>
      dsimp only
      split_ifs
      all_goals first | exact hf.discard hh _ | exact hf.getExtdata hh _ _

end Keeps

/-! ### What a poll does not see -/

/-- A message of `ms` was received completely and is not read: it lies in the socket, in the buffer
or across the two. -/
def BufConn.Pending (ms : List LlMessage) (c : BufConn) : Prop :=
  Received LlMessage.bytes ms (c.stdio.layers.buffer ++ c.stdio.layers.source) c.stdio.layers.coming

/-- The next `poll` does not see a message: it is whole in the buffer, the socket is empty, and nothing
arrives before the `poll`. -/
def BufConn.Blind (ms : List LlMessage) (c : BufConn) : Prop :=
  c.stdio.Hides LlMessage.bytes ms ∧ c.stdio.layers.coming.take c.nextCheck.before = []

/-- An `fread` of `n` bytes overlooks a message: it refills the buffer with all that the socket holds,
a whole message behind the first byte included, and nothing arrives before the next `poll`. -/
def BufConn.FreadOverlooks (ms : List LlMessage) (c : BufConn) (n : ℕ) : Prop :=
  ∃ f, c.stdio.refill n = some f ∧ f.Overlooks LlMessage.bytes ms ∧
    f.coming.take c.nextCheck.before = []

/-- One of several `fread`s overlooks a message. -/
def BufConn.FreadsOverlook (ms : List LlMessage) : BufConn → List ℕ → Prop
  | _, [] => False
  | c, n :: sizes => c.FreadOverlooks ms n ∨
    ((c.fread n).1.length = n ∧ (c.fread n).2.FreadsOverlook ms sizes)

/-- In the packets that `hlp_discard_incoming_data` discards, up to the first `poll` that finds
nothing, an `fread` overlooks a message. -/
inductive DiscardOverlooks (ms : List LlMessage) : BufConn → Prop
  | packet {c : BufConn} (finds : c.FindsSome)
      (overlooks : c.atPoll.FreadsOverlook ms (discardPacket c.flat)) : DiscardOverlooks ms c
  | later {c : BufConn} (finds : c.FindsSome)
      (whole : (c.atPoll.freads (discardPacket c.flat)).1 = true)
      (overlooks : DiscardOverlooks ms (c.atPoll.freads (discardPacket c.flat)).2) :
      DiscardOverlooks ms c

/-- The same for the packets that the inner loop of `stream_media_dvr_to_pipe` collects: after a `poll`
that found something, with the events of this turn and the coming ones. -/
inductive InnerOverlooks (ms : List LlMessage) (dvrctl : Dvrcontrol) :
    List StreamEvent → BufConn → Prop
  | packet {e : StreamEvent} {events : List StreamEvent} {c : BufConn}
      (overlooks : c.FreadsOverlook ms (collectPacket streamBufferLen c.flat)) :
      InnerOverlooks ms dvrctl (e :: events) c
  | skipped {events : List StreamEvent} {c c' : BufConn} (skips : Skips c c')
      (overlooks : InnerOverlooks ms dvrctl events c') : InnerOverlooks ms dvrctl events c
  | later {e : StreamEvent} {events : List StreamEvent} {c c' : BufConn}
      (cmd : (headerOf c.flat).cmd = 0xbc) (goesOn : GoesOn dvrctl e (headerOf c.flat))
      (whole : c.freads (collectPacket streamBufferLen c.flat) = (true, c'))
      (finds : c'.FindsSome) (reports : c'.nextCheck.poll ≠ .failed)
      (overlooks : InnerOverlooks ms dvrctl events c'.atPoll) :
      InnerOverlooks ms dvrctl (e :: events) c

section Blind

variable {ms : List LlMessage} {c c' : BufConn}

/-- What is hidden after a `poll` was not seen by it. -/
theorem blind_of_atPoll (h : c.atPoll.stdio.Hides LlMessage.bytes ms) : c.Blind ms :=
  Reader.Hides.of_arrive h

/-- **What an `fread` hides** was hidden before, or it overlooks it. -/
theorem BufConn.Blind.of_fread {n : ℕ} (h : (c.fread n).2.Blind ms) :
    c.Blind ms ∨ c.FreadOverlooks ms n := by
  obtain ⟨hhides, hquiet⟩ := h
  have hquiet : (c.stdio.read n).2.layers.coming.take c.nextCheck.before = [] := hquiet
  obtain ⟨f, hf, ho, hcoming⟩ | ⟨hhides, hcoming⟩ := hhides.of_read
  · rw [hcoming] at hquiet
    exact .inr ⟨f, hf, ho, hquiet⟩
  · rw [hcoming] at hquiet
    exact .inl ⟨hhides, hquiet⟩

theorem BufConn.Blind.of_freads {sizes : List ℕ} (h : (c.freads sizes).2.Blind ms) :
    c.Blind ms ∨ c.FreadsOverlook ms sizes := by
  induction sizes generalizing c with
  | nil => exact .inl h
  | cons n sizes ih =>
    rw [BufConn.freads] at h
    by_cases hlen : (c.fread n).1.length = n
    · rw [if_pos hlen] at h
      rcases ih h with hb | ho
      · exact hb.of_fread.imp_right .inl
      · exact .inr (.inr ⟨hlen, ho⟩)
    · rw [if_neg hlen] at h
      exact (BufConn.Blind.of_fread h).imp_right .inl

/-- A message that is left where a `poll` found nothing was not seen by it. -/
theorem blind_of_pending (h : ¬ c.FindsSome) (hp : c.atPoll.Pending ms) : c.Blind ms := by
  have hsource : c.atPoll.stdio.layers.source = [] := by
    by_contra hne
    exact h (.inr hne)
  unfold BufConn.Pending at hp
  rw [hsource, List.append_nil] at hp
  exact blind_of_atPoll ⟨hsource, hp⟩

end Blind

/-! ### Runs -/

/-- A step on a connection. -/
inductive BufStep
  | arrive (n : ℕ)
  | fread (n : ℕ)
  | discardIncomingData
  | innerLoop (dvrctl : Dvrcontrol) (pipe : List UInt8) (events : List StreamEvent)

/-- The connection after a step. -/
def BufStep.run (c : BufConn) : BufStep → BufConn
  | arrive n => { c with stdio := c.stdio.arrive n }
  | fread n => (c.fread n).2
  | discardIncomingData => c.hlpDiscardIncomingData.2
  | innerLoop dvrctl pipe events => (c.innerLoop dvrctl pipe events).conn

/-- The connection after some steps. -/
def runBufSteps (c : BufConn) (steps : List BufStep) : BufConn := steps.foldl BufStep.run c

/-- The step says that there is no pending data: `hlp_discard_incoming_data` returns at least 0, or
the inner loop ends because `hlp_check_incoming_data` returned 0. -/
def BufStep.FindsNone (c : BufConn) : BufStep → Prop
  | discardIncomingData => 0 ≤ c.hlpDiscardIncomingData.1
  | innerLoop dvrctl pipe events => (c.innerLoop dvrctl pipe events).ended = .checked 0
  | _ => False

/-- A step overlooks a message: its first `poll` does not see it, or an `fread` of one of its packets
overlooks it. -/
def BufStep.Overlooks (ms : List LlMessage) (c : BufConn) : BufStep → Prop
  | discardIncomingData => c.Blind ms ∨ DiscardOverlooks ms c
  | innerLoop dvrctl _ events => c.Blind ms ∨
    (c.FindsSome ∧ c.nextCheck.poll ≠ .failed ∧ InnerOverlooks ms dvrctl events c.atPoll)
  | _ => False

/-- A connection over which the messages `ms` come, before the first of them. -/
def BufConn.opened (cap : ℕ) (fetches : List Fetch) (checks : List PollCall)
    (ms : List LlMessage) : BufConn :=
  ⟨Reader.fresh cap fetches (encode LlMessage.bytes ms), checks⟩

theorem runBufSteps_append (c : BufConn) (steps : List BufStep) (s : BufStep) :
    runBufSteps c (steps ++ [s]) = s.run (runBufSteps c steps) := by
  rw [runBufSteps, List.foldl_append]
  rfl

/-- What keeps to `fread` is a run of `fread`s. -/
theorem freadKeeps_steps (c : BufConn) :
    FreadKeeps fun c' => ∃ sizes : List ℕ, c' = runBufSteps c (sizes.map .fread) := by
  rintro c' n ⟨sizes, rfl⟩
  refine ⟨sizes ++ [n], ?_⟩
  rw [List.map_append, List.map_singleton, runBufSteps_append]
  rfl

theorem hlpCollectMediaData_steps (c : BufConn) (dest : Option ℕ) :
    ∃ sizes : List ℕ, (c.hlpCollectMediaData dest).conn = runBufSteps c (sizes.map .fread) :=
  (freadKeeps_steps c).collect ⟨[], rfl⟩ dest

section Steps

variable {ms : List LlMessage} {c c' : BufConn} {dvrctl : Dvrcontrol} {e : StreamEvent}
  {events : List StreamEvent}

/-- **`hlp_discard_incoming_data`** leaves a message only when it overlooks one. -/
theorem discardIncoming_overlooks {i : ℤ} (h : 0 ≤ (c.discardIncoming i).1)
    (hp : (c.discardIncoming i).2.Pending ms) : c.Blind ms ∨ DiscardOverlooks ms c := by
  induction hn : c.flat.length using Nat.strongRecOn generalizing c i with
  | _ n ih =>
    by_cases hf : c.FindsSome
    · rw [discardIncoming_of_finds hf] at h hp
      by_cases hw : (c.atPoll.freads (discardPacket c.flat)).1 = true
      · rw [if_pos hw] at h hp
        have hlt := freads_discardPacket_shrinks hw
        rcases ih _ (hn ▸ hlt) h hp rfl with hb | ho
        · rcases hb.of_freads with hb | ho
          · exact .inl (blind_of_atPoll hb.1)
          · exact .inr (.packet hf ho)
        · exact .inr (.later hf hw ho)
      · rw [if_neg hw] at h
        exact absurd h (by simp)
    · rw [discardIncoming_of_none hf] at hp
      exact .inl (blind_of_pending hf hp)

/-- Packets that are skipped may overlook a message too. -/
theorem InnerOverlooks.of_skips (h : Relation.ReflTransGen Skips c c')
    (ho : InnerOverlooks ms dvrctl events c') : InnerOverlooks ms dvrctl events c := by
  induction h using Relation.ReflTransGen.head_induction_on with
  | refl => exact ho
  | head hs _ ih => exact .skipped hs ih

theorem blind_of_skips (h : Relation.ReflTransGen Skips c c') (hb : c'.Blind ms) :
    c.Blind ms ∨ InnerOverlooks ms dvrctl (e :: events) c := by
  induction h using Relation.ReflTransGen.head_induction_on with
  | refl => exact .inl hb
  | head hs _ ih =>
    rcases ih with hb | ho
    · rw [hs.left] at hb
      refine hb.of_freads.imp_right fun ho => .packet ?_
      rwa [collectPacket, if_pos (.inl hs.cmd)]
    · exact .inr (.skipped hs ho)

/-- **The inner loop** that ends because the check found nothing leaves a message only when it
overlooks one. -/
theorem innerLoop_overlooks {pipe : List UInt8}
    (h : (c.innerLoop dvrctl pipe events).ended = .checked 0)
    (hp : (c.innerLoop dvrctl pipe events).conn.Pending ms) :
    c.Blind ms ∨
      (c.FindsSome ∧ c.nextCheck.poll ≠ .failed ∧ InnerOverlooks ms dvrctl events c.atPoll) := by
  induction events generalizing c pipe with
  | nil => cases h
  | cons e events ih =>
    rw [BufConn.innerLoop] at h hp
    by_cases hrun : (c.innerTurn dvrctl pipe e).ended = .running
    · rw [if_pos hrun] at h hp
      obtain ⟨hf, hpoll, c', hskips, hcmd, hgo, hfreads⟩ := innerTurn_running hrun
      rcases ih h hp with hb | ⟨hf', hpoll', ho⟩
      · have hb : (c'.freads (collectPacket streamBufferLen c'.flat)).2.Blind ms := by
          rwa [hfreads]
        rcases hb.of_freads with hb | ho
        · rcases @blind_of_skips _ _ _ dvrctl e events hskips hb with hb | ho
          · exact .inl (blind_of_atPoll hb.1)
          · exact .inr ⟨hf, hpoll, ho⟩
        · exact .inr ⟨hf, hpoll, .of_skips hskips (.packet ho)⟩
      · exact .inr ⟨hf, hpoll, .of_skips hskips (.later hcmd hgo hfreads hf' hpoll' ho)⟩
    · rw [if_neg hrun] at h hp
      obtain ⟨hf, hconn⟩ := innerTurn_checked h
      rw [hconn] at hp
      exact .inl (blind_of_pending hf hp)

/-- **One step** that says that there is no pending data leaves a message only when it overlooks
one. -/
theorem BufStep.FindsNone.overlooks {s : BufStep} (h : s.FindsNone c)
    (hp : (s.run c).Pending ms) : s.Overlooks ms c := by
  cases s with
  | arrive n => exact h.elim
  | fread n => exact h.elim
  | discardIncomingData => exact discardIncoming_overlooks h hp
  | innerLoop dvrctl pipe events => exact innerLoop_overlooks h hp

end Steps

/-! ### Messages that are read in order -/

@[simp] theorem sum_discardSizes (n : ℕ) : (discardSizes n).sum = n := by
  induction n using Nat.strongRecOn with
  | _ n ih =>
    rw [discardSizes]
    by_cases hn : n ≠ 0
    · have := discardToRead_bounds hn
      rw [dif_pos hn, List.sum_cons, ih _ (by omega)]
      omega
    · rw [dif_neg hn, not_not.mp hn, List.sum_nil]

/-- A message at the head of the stream. -/
theorem discardPacket_of_message (m : LlMessage) (rest : List UInt8) :
    discardPacket (m.bytes ++ rest) = llpHeaderSize :: discardSizes m.payload.length := by
  have hhead := @llpGetHeader_of_message ⟨m.bytes ++ rest, false, [], [], []⟩ m rest rfl
  have hlen : llpHeaderSize ≤ (m.bytes ++ rest).length := by
    rw [List.length_append, m.length_bytes]
    omega
  have hval : headerOf (m.bytes ++ rest) = m.header := by
    refine Eq.trans ?_ (congrArg HeaderRead.header hhead)
    unfold llpGetHeader
    dsimp only
    rw [if_neg]
    · rfl
    · rw [not_not]
      exact List.length_take_of_le hlen
  rw [discardPacket, hval]
  rfl

/-- The buffer holds a message behind the next `k` bytes, and the next `poll` does not see it. -/
structure BufConn.BlindBehind (ms : List LlMessage) (k : ℕ) (c : BufConn) : Prop where
  hides : c.stdio.HidesBehind LlMessage.bytes ms k
  quiet : c.stdio.layers.coming.take c.nextCheck.before = []

section InOrder

variable {ms post : List LlMessage} {m : LlMessage} {c : BufConn} {x : List UInt8}

theorem BufConn.BlindBehind.fread {k n : ℕ} (h : c.BlindBehind ms k) (hn : n ≤ k) :
    (c.fread n).1.length = n ∧ (c.fread n).2.BlindBehind ms (k - n) := by
  obtain ⟨hhides, hcoming⟩ := h.hides.read hn
  constructor
  · have hle : n ≤ c.stdio.layers.buffer.length := hn.trans h.hides.le
    unfold BufConn.fread Reader.read
    rw [if_pos hle]
    exact List.length_take_of_le hle
  · refine ⟨hhides, ?_⟩
    show (c.stdio.read n).2.layers.coming.take c.nextCheck.before = []
    rw [hcoming]
    exact h.quiet

/-- What lies behind the bytes that are read is not seen then. -/
theorem BufConn.BlindBehind.freads {sizes : List ℕ} (h : c.BlindBehind ms sizes.sum) :
    (c.freads sizes).2.Blind ms := by
  induction sizes generalizing c with
  | nil => exact ⟨h.hides.hides, h.quiet⟩
  | cons n sizes ih =>
    obtain ⟨hlen, hnext⟩ := h.fread (n := n) (by rw [List.sum_cons]; exact Nat.le_add_right _ _)
    rw [List.sum_cons, Nat.add_sub_cancel_left] at hnext
    rw [BufConn.freads, if_pos hlen]
    exact ih hnext

/-- The connection is read up to the rest `x` of a message, behind which come `post`; no `fread` is
cut short, and every `poll` reports the descriptor. -/
structure InOrder (x : List UInt8) (post : List LlMessage) (c : BufConn) : Prop where
  flat : c.flat = x ++ encode LlMessage.bytes post
  waits : c.stdio.Waits
  plain : ∀ p ∈ c.checks, p.poll = .plain

theorem InOrder.fread (h : InOrder x post c) {n : ℕ} (hn : n ≤ x.length) :
    (c.fread n).1.length = n ∧ InOrder (x.drop n) post (c.fread n).2 := by
  obtain ⟨hgot, hleft⟩ := Reader.read_of_waits h.waits n
  have hflat : c.stdio.layers.flat = x ++ encode LlMessage.bytes post := h.flat
  rw [hflat] at hgot hleft
  refine ⟨?_, hleft.trans (List.drop_append_of_le_length hn), h.waits.read n, h.plain⟩
  show (c.stdio.read n).1.length = n
  rw [hgot, List.take_append_of_le_length hn]
  exact List.length_take_of_le hn

/-- **A message whose rest is read**: what one of the `fread`s overlooks is not seen then. -/
theorem InOrder.freads (h : InOrder x post c) (hm : m :: post <:+ ms)
    (hx : x.length ≤ m.bytes.length) {sizes : List ℕ} (hs : sizes.sum = x.length) :
    (c.freads sizes).1 = true ∧ InOrder [] post (c.freads sizes).2 ∧
      (c.FreadsOverlook ms sizes → (c.freads sizes).2.Blind ms) := by
  induction sizes generalizing c x with
  | nil =>
    obtain rfl := List.length_eq_zero_iff.mp hs.symm
    exact ⟨rfl, h, False.elim⟩
  | cons n sizes ih =>
    rw [List.sum_cons] at hs
    have hn : n ≤ x.length := by omega
    obtain ⟨hlen, hnext⟩ := h.fread hn
    have hdrop : (x.drop n).length = x.length - n := List.length_drop
    obtain ⟨hwhole, hleft, hlater⟩ := ih hnext (by omega) (by omega)
    rw [BufConn.freads, if_pos hlen]
    refine ⟨hwhole, hleft, ?_⟩
    rintro (⟨f, hf, ho, hquiet⟩ | ⟨-, ho⟩)
    · obtain ⟨hhides, hcoming⟩ := Reader.refill_hides hf ho LlMessage.bytes_ne_nil hm hx h.flat hn
      refine BufConn.BlindBehind.freads ⟨?_, ?_⟩
      · rw [show sizes.sum = x.length - n by omega]
        exact hhides
      · show (c.stdio.read n).2.layers.coming.take c.nextCheck.before = []
        rw [hcoming]
        exact hquiet
    · exact hlater ho

theorem InOrder.nextCheck (h : InOrder x post c) : c.nextCheck.poll = .plain := by
  unfold BufConn.nextCheck
  cases hc : c.checks with
  | nil => rfl
  | cons p checks => exact h.plain p (by rw [hc]; exact List.mem_cons_self)

theorem InOrder.atPoll (h : InOrder x post c) : InOrder x post c.atPoll :=
  ⟨(BufConn.llpCheckIncomingData_flat c).trans h.flat, h.waits,
    fun p hp => h.plain p (List.mem_of_mem_tail hp)⟩

/-- What a `poll` does not see is left when it finds nothing else. -/
theorem InOrder.blind (h : InOrder x post c) (hb : c.Blind ms) :
    ¬ c.FindsSome ∧ c.atPoll.Pending ms := by
  obtain ⟨⟨hsource, hr⟩, hquiet⟩ := hb
  have hempty : c.atPoll.stdio.layers.source = [] := by
    show c.stdio.layers.source ++ c.stdio.layers.coming.take c.nextCheck.before = []
    rw [hsource, hquiet]
    rfl
  have hcoming := List.take_append_drop c.nextCheck.before c.stdio.layers.coming
  rw [hquiet, List.nil_append] at hcoming
  constructor
  · rintro (hpoll | hne)
    · exact hpoll h.nextCheck
    · exact hne hempty
  · unfold BufConn.Pending
    rw [hempty, List.append_nil]
    show Received LlMessage.bytes ms c.stdio.layers.buffer
      (c.stdio.layers.coming.drop c.nextCheck.before)
    rwa [hcoming]

/-- Something is found only when a message follows. -/
theorem InOrder.exists_of_finds (h : InOrder [] post c) (hf : c.FindsSome) :
    ∃ m post', post = m :: post' := by
  cases post with
  | nil =>
    have hflat : c.atPoll.flat = [] := h.atPoll.flat
    have hsource := (List.append_eq_nil_iff.mp (List.append_eq_nil_iff.mp hflat).2).1
    rcases hf with hpoll | hne
    · exact absurd h.nextCheck hpoll
    · exact absurd hsource hne
  | cons m post' => exact ⟨m, post', rfl⟩

/-- **A turn of `hlp_discard_incoming_data`** at a message. -/
theorem InOrder.turn (h : InOrder [] (m :: post) c) (hm : m :: post <:+ ms) :
    (c.atPoll.freads (discardPacket c.flat)).1 = true ∧
      InOrder [] post (c.atPoll.freads (discardPacket c.flat)).2 ∧
      (c.atPoll.FreadsOverlook ms (discardPacket c.flat) →
        (c.atPoll.freads (discardPacket c.flat)).2.Blind ms) := by
  have hflat : c.flat = m.bytes ++ encode LlMessage.bytes post := h.flat
  have hin : InOrder m.bytes post c.atPoll := ⟨h.atPoll.flat, h.waits, h.atPoll.plain⟩
  refine hin.freads hm le_rfl ?_
  rw [hflat, discardPacket_of_message, List.sum_cons, sum_discardSizes, m.length_bytes]

/-- What is overlooked is left by `hlp_discard_incoming_data`. -/
theorem InOrder.discardIncoming (h : InOrder [] post c) (hpost : post <:+ ms) {i : ℤ}
    (hi : 0 ≤ i) : 0 ≤ (c.discardIncoming i).1 ∧
      (c.Blind ms ∨ DiscardOverlooks ms c → (c.discardIncoming i).2.Pending ms) := by
  induction post generalizing c i with
  | nil =>
    have hf : ¬ c.FindsSome := by
      intro hf
      obtain ⟨m, post', hnil⟩ := h.exists_of_finds hf
      cases hnil
    rw [discardIncoming_of_none hf]
    refine ⟨hi, ?_⟩
    rintro (hb | ho)
    · exact (h.blind hb).2
    · cases ho <;> contradiction
  | cons m post ih =>
    by_cases hf : c.FindsSome
    · obtain ⟨hwhole, hleft, hover⟩ := h.turn hpost
      obtain ⟨h0, hih⟩ := ih hleft ((List.suffix_cons m post).trans hpost) Int.one_nonneg
      rw [discardIncoming_of_finds hf, if_pos hwhole]
      refine ⟨h0, ?_⟩
      rintro (hb | ho)
      · exact absurd hf (h.blind hb).1
      · cases ho with
        | packet _ ho => exact hih (.inl (hover ho))
        | later _ _ ho => exact hih (.inr ho)
    · rw [discardIncoming_of_none hf]
      refine ⟨hi, ?_⟩
      rintro (hb | ho)
      · exact (h.blind hb).2
      · cases ho <;> contradiction

/-- **Where messages are read in order**, no `fread` is cut short and no `poll` fails,
`hlp_discard_incoming_data` leaves a received message exactly when it overlooks one. -/
theorem pending_iff_overlooks (hpost : post <:+ ms) (hflat : c.flat = encode LlMessage.bytes post)
    (hw : c.stdio.Waits) (hp : ∀ p ∈ c.checks, p.poll = .plain) :
    BufStep.discardIncomingData.FindsNone c ∧
      ((BufStep.discardIncomingData.run c).Pending ms ↔
        BufStep.discardIncomingData.Overlooks ms c) := by
  have hin : InOrder [] post c := ⟨hflat, hw, hp⟩
  obtain ⟨h0, hleft⟩ := hin.discardIncoming hpost (i := 0) le_rfl
  exact ⟨h0, BufStep.FindsNone.overlooks h0, hleft⟩

end InOrder

/-! ### Two messages -/

/-- A message without payload. -/
def capabilityReply : LlMessage where
  head := 0x83 :: List.replicate 31 0
  payload := []
  length_head := rfl
  le32_head := by decide

/-- A connection over which it comes twice; the first `fread` that goes to the socket takes up to
`ahead` bytes more than it is asked for. -/
def backToBack (ahead : ℕ) : BufConn :=
  .opened 4096 [⟨0, true, ahead⟩] [] [capabilityReply, capabilityReply]

theorem backToBack_waits (ahead : ℕ) : (backToBack ahead).stdio.Waits := by
  intro f hf
  rw [List.mem_singleton.mp hf]

theorem discardPacket_capabilityReply (rest : List UInt8) :
    discardPacket (capabilityReply.bytes ++ rest) = [llpHeaderSize] := by
  have hnone : ¬ capabilityReply.payload.length ≠ 0 := not_not.mpr rfl
  rw [discardPacket_of_message, discardSizes, dif_neg hnone]

/-- Nothing is overlooked in such a message when its `fread` overlooks nothing. -/
theorem not_discardOverlooks {ms : List LlMessage} {c : BufConn} {rest : List UInt8}
    (hflat : c.flat = capabilityReply.bytes ++ rest)
    (hread : ¬ c.atPoll.FreadOverlooks ms llpHeaderSize)
    (hnext : ¬ DiscardOverlooks ms (c.atPoll.fread llpHeaderSize).2) : ¬ DiscardOverlooks ms c := by
  intro h
  cases h with
  | packet _ ho =>
    rw [hflat, discardPacket_capabilityReply] at ho
    rcases ho with ho | ⟨-, ho⟩
    · exact hread ho
    · exact ho
  | later _ hw ho =>
    rw [hflat, discardPacket_capabilityReply, BufConn.freads] at hw ho
    split_ifs at hw ho
    exact hnext ho

/-- **No pending data**: in every run in which no step overlooks a message, the steps that say that
there is no pending data leave no received message. -/
theorem no_pending (cap : ℕ) (fetches : List Fetch) (checks : List PollCall) (ms : List LlMessage)
    (steps : List BufStep)
    (h : ∀ pre s, pre ++ [s] <+: steps →
      ¬ s.Overlooks ms (runBufSteps (.opened cap fetches checks ms) pre)) :
    ∀ pre s, pre ++ [s] <+: steps →
      s.FindsNone (runBufSteps (.opened cap fetches checks ms) pre) →
      ¬ (runBufSteps (.opened cap fetches checks ms) (pre ++ [s])).Pending ms := by
  intro pre s hpre hnone hp
  rw [runBufSteps_append] at hp
  exact h pre s hpre (hnone.overlooks hp)

/-- Bytes that are less than a header hold no message. -/
theorem not_received_short {ms : List LlMessage} {received later : List UInt8}
    (h : received.length < llpHeaderSize) : ¬ Received LlMessage.bytes ms received later := by
  intro hr
  obtain ⟨m, -, hm⟩ := hr.exists_le
  rw [m.length_bytes] at hm
  omega

/-- The first `fread` leaves half of the second message in the socket, the second one finds no more
than that. -/
theorem halfAhead_overlooks_none : ¬ BufStep.discardIncomingData.Overlooks
    [capabilityReply, capabilityReply] (runBufSteps (backToBack 16) [.arrive 64]) := by
  rintro (hb | ho)
  · exact not_received_short (by decide) hb.1.2
  · have hflat : (runBufSteps (backToBack 16) [.arrive 64]).flat =
        capabilityReply.bytes ++ capabilityReply.bytes := rfl
    refine not_discardOverlooks hflat ?_ ?_ ho
    · rintro ⟨f, hf, ⟨hleft, -⟩, -⟩
      cases hf
      exact absurd hleft (by decide)
    · have hleft : ((runBufSteps (backToBack 16) [.arrive 64]).atPoll.fread llpHeaderSize).2.flat =
          capabilityReply.bytes ++ [] := rfl
      refine not_discardOverlooks hleft ?_ ?_
      · rintro ⟨f, hf, ⟨-, hr⟩, -⟩
        cases hf
        exact not_received_short (by decide) hr
      · intro ho
        have hnone : ¬ BufConn.FindsSome (BufConn.fread (BufConn.atPoll (BufConn.fread
            (runBufSteps (backToBack 16) [.arrive 64]).atPoll llpHeaderSize).2) llpHeaderSize).2 := by
          rintro (hpoll | hne)
          · exact hpoll rfl
          · exact hne rfl
        cases ho <;> contradiction

/-- Both messages are read then. -/
theorem no_pending_half_ahead :
    BufStep.discardIncomingData.FindsNone (runBufSteps (backToBack 16) [.arrive 64]) ∧
      ¬ (runBufSteps (backToBack 16) [.arrive 64, .discardIncomingData]).Pending
        [capabilityReply, capabilityReply] := by
  have hnone := (@pending_iff_overlooks [capabilityReply, capabilityReply]
    [capabilityReply, capabilityReply] (runBufSteps (backToBack 16) [.arrive 64]) List.suffix_rfl rfl
    (backToBack_waits 16) (by simp [backToBack, BufConn.opened, runBufSteps, BufStep.run])).1
  refine ⟨hnone, no_pending 4096 [⟨0, true, 16⟩] [] [capabilityReply, capabilityReply]
    [.arrive 64, .discardIncomingData] ?_ [.arrive 64] .discardIncomingData List.prefix_rfl hnone⟩
  intro pre s hpre
  cases pre with
  | nil =>
    obtain rfl : s = .arrive 64 := by simpa using hpre
    exact id
  | cons s' pre =>
    obtain ⟨rfl, hpre⟩ : s' = .arrive 64 ∧ pre ++ [s] <+: [.discardIncomingData] := by
      simpa using hpre
    cases pre with
    | nil =>
      obtain rfl : s = .discardIncomingData := by simpa using hpre
      exact halfAhead_overlooks_none
    | cons s'' pre => simp at hpre

/-- `hlp_discard_incoming_data` returns 1 and leaves the second message in the buffer. -/
theorem second_message_overlooked :
    BufStep.discardIncomingData.FindsNone (runBufSteps (backToBack 4096) [.arrive 64]) ∧
      (runBufSteps (backToBack 4096) [.arrive 64, .discardIncomingData]).Pending
        [capabilityReply, capabilityReply] := by
  have hfinds : (runBufSteps (backToBack 4096) [.arrive 64]).FindsSome := .inr (by decide)
  obtain ⟨hnone, hpending⟩ := @pending_iff_overlooks [capabilityReply, capabilityReply]
    [capabilityReply, capabilityReply] (runBufSteps (backToBack 4096) [.arrive 64]) List.suffix_rfl
    rfl (backToBack_waits 4096) (by simp [backToBack, BufConn.opened, runBufSteps, BufStep.run])
  refine ⟨hnone, hpending.mpr (.inr (.packet hfinds ?_))⟩
  rw [show BufConn.flat (runBufSteps (backToBack 4096) [.arrive 64]) =
    capabilityReply.bytes ++ capabilityReply.bytes from rfl, discardPacket_capabilityReply]
  refine .inl ⟨⟨capabilityReply.bytes ++ capabilityReply.bytes, [], []⟩, rfl, ⟨rfl, ?_⟩, rfl⟩
  exact ⟨capabilityReply, [], capabilityReply.bytes.tail, [], ⟨[capabilityReply], rfl⟩, rfl, rfl⟩

end TaniDVR
