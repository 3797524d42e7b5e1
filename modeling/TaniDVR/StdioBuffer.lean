import TaniDVR.MediaStream
import TaniDVR.Lib.Layers

/-!
# StdioBuffer — the two layers under a connection

`Conn` holds the bytes to be read in one list.  Behind it there are two layers: `fread` reads through
the buffer of the `FILE`, and `poll` asks the descriptor.  `BufConn` has both; the functions of
`llprotocol.c`, `hlprotocol.c` and `dvrcontrol.c` that read and ask are repeated on it.

`Shows` relates the two models: where no `fread` is cut short, and `Conn` has the answers of the
checks in advance, the repeated functions return what those on `Conn` return
(`discardIncoming_shows`, `innerLoop_shows`).
-/

namespace TaniDVR

open Lib

/-- What `poll` reports: the descriptor as it is, a peer that has closed the connection, or a
failure. -/
inductive PollReport
  | plain
  | hangup
  | failed
  deriving DecidableEq, Repr

/-- A call of `poll`: how many bytes arrive before it, and the report. -/
structure PollCall where
  before : ℕ
  poll : PollReport

/-- A connection with its buffer, and the coming `poll`s (`plain` when there are no more). -/
structure BufConn where
  stdio : Reader UInt8
  checks : List PollCall

/-- What reading returns and leaves. -/
structure BufRead (α : Type) where
  ret : ℤ
  val : α
  conn : BufConn

namespace BufConn

/-- The bytes that are still to be read. -/
def flat (c : BufConn) : List UInt8 := c.stdio.layers.flat

def nextCheck (c : BufConn) : PollCall := c.checks.headD ⟨0, .plain⟩

/-- `fread` of `n` bytes. -/
def fread (c : BufConn) (n : ℕ) : List UInt8 × BufConn :=
  ((c.stdio.read n).1, { c with stdio := (c.stdio.read n).2 })

/-- The connection when the next `poll` is made. -/
def atPoll (c : BufConn) : BufConn :=
  { stdio := c.stdio.arrive c.nextCheck.before, checks := c.checks.tail }

/-- `llp_check_incoming_data`. -/
def llpCheckIncomingData (c : BufConn) : ℤ × BufConn :=
  let ret := match c.nextCheck.poll with
    | .plain => if c.atPoll.stdio.layers.source = [] then 0 else 1
    | .hangup => 1
    | .failed => -1
  (ret, c.atPoll)

/-! ### Headers and payloads -/

/-- `llp_get_header`. -/
def llpGetHeader (c : BufConn) : BufRead LlHeader :=
  let (got, c) := c.fread llpHeaderSize
  if got.length ≠ llpHeaderSize then ⟨1, ⟨ofList got, 0⟩, c⟩
  else ⟨0, ⟨ofList got, toUint32 (btLM2NVU32 fun i => ofList got (4 + i))⟩, c⟩

/-- `llp_get_extdata_sbuff`. -/
def llpGetExtdataSbuff (c : BufConn) (h : LlHeader) (buflen : ℕ) : BufRead (List UInt8) :=
  if h.extlen = 0 then ⟨0, [], c⟩
  else if buflen < h.extlen then ⟨-2, [], c⟩
  else
    let (got, c) := c.fread h.extlen
    if got.length ≠ h.extlen then ⟨-1, got, c⟩
    else ⟨toInt h.extlen, got, c⟩

/-- The loop of `llp_get_discard_extdata`. -/
def llpDiscardLoop (c : BufConn) (remExtlen : ℕ) : ℤ × BufConn :=
  if _h : remExtlen ≠ 0 then
    let (got, c) := c.fread (discardToRead remExtlen)
    if got.length ≠ discardToRead remExtlen then (2, c)
    else llpDiscardLoop c (remExtlen - discardToRead remExtlen)
  else (0, c)
termination_by remExtlen
decreasing_by
  have := discardToRead_bounds _h
  omega

/-- `llp_get_discard_extdata`. -/
def llpGetDiscardExtdata (c : BufConn) (h : LlHeader) : ℤ × BufConn := llpDiscardLoop c h.extlen

theorem fread_append_flat (c : BufConn) (n : ℕ) : (c.fread n).1 ++ (c.fread n).2.flat = c.flat :=
  c.stdio.read_append_flat n

theorem fread_shrinks (c : BufConn) (n : ℕ) :
    (c.fread n).1.length + (c.fread n).2.flat.length = c.flat.length := by
  rw [← fread_append_flat c n, List.length_append]

@[simp] theorem llpCheckIncomingData_flat (c : BufConn) :
    (llpCheckIncomingData c).2.flat = c.flat :=
  Layers.flat_arrive _ _

/-- A header that was read leaves fewer bytes. -/
theorem llpGetHeader_shrinks {c : BufConn} (h : (llpGetHeader c).ret = 0) :
    (llpGetHeader c).conn.flat.length < c.flat.length := by
  unfold llpGetHeader at h ⊢
  dsimp only at h ⊢
  have := fread_shrinks c llpHeaderSize
  split_ifs at h ⊢ with hlen
  · cases h
  · rw [not_not.mp hlen, llpHeaderSize] at this
    dsimp only
    rw [llpHeaderSize]
    omega

theorem llpDiscardLoop_shrinks (c : BufConn) (n : ℕ) :
    (llpDiscardLoop c n).2.flat.length ≤ c.flat.length := by
  induction n using Nat.strongRecOn generalizing c with
  | _ n ih =>
    unfold llpDiscardLoop
    by_cases hn : n ≠ 0
    · rw [dif_pos hn]
      dsimp only
      have hpos := discardToRead_bounds hn
      have := fread_shrinks c (discardToRead n)
      by_cases hlen : (c.fread (discardToRead n)).1.length ≠ discardToRead n
      · rw [if_pos hlen]
        dsimp only
        omega
      · rw [if_neg hlen]
        have := ih (n - discardToRead n) (by omega) (c.fread (discardToRead n)).2
        omega
    · rw [dif_neg hn]

/-- `hlp_get_header`. -/
def hlpGetHeader (c : BufConn) (expectedCmd : UInt8) : BufRead LlHeader :=
  let r := llpGetHeader c
  if _h : r.ret ≠ 0 then r
  else if r.val.cmd ≠ expectedCmd then
    hlpGetHeader (llpGetDiscardExtdata r.conn r.val).2 expectedCmd
  else ⟨0, r.val, r.conn⟩
termination_by c.flat.length
decreasing_by
  have := llpGetHeader_shrinks (not_not.mp _h)
  have := llpDiscardLoop_shrinks (llpGetHeader c).conn (llpGetHeader c).val.extlen
  rw [llpGetDiscardExtdata]
  omega

/-- `hlp_collect_media_data`. -/
def hlpCollectMediaData (c : BufConn) (dest : Option ℕ) : BufRead (List UInt8) :=
  let r := hlpGetHeader c 0xbc
  let remote : ℤ := if r.val.raw 16 ≠ 0 then (r.val.raw 16).toNat + remoteRetcodeOffset else 0
  if r.ret ≠ 0 then ⟨2, [], r.conn⟩
  else match dest with
    | none =>
      let d := llpGetDiscardExtdata r.conn r.val
      if d.1 ≠ 0 then ⟨12, [], d.2⟩ else ⟨remote, [], d.2⟩
    | some maxLen =>
      if r.val.extlen > maxLen then
        let d := llpGetDiscardExtdata r.conn r.val
        if d.1 ≠ 0 then ⟨13, [], d.2⟩ else ⟨10, [], d.2⟩
      else
        let e := llpGetExtdataSbuff r.conn r.val r.val.extlen
        if e.ret < 0 then ⟨11, e.val, e.conn⟩ else ⟨remote, e.val, e.conn⟩

/-! ### The two loops -/

/-- The loop of `hlp_discard_incoming_data`. -/
def discardIncoming (c : BufConn) (i : ℤ) : ℤ × BufConn :=
  let p := llpCheckIncomingData c
  if p.1 = 0 then (i, p.2)
  else
    let r := llpGetHeader p.2
    if _h : r.ret ≠ 0 then (-1, r.conn)
    else
      let d := llpGetDiscardExtdata r.conn r.val
      if d.1 ≠ 0 then (-1, d.2) else discardIncoming d.2 1
termination_by c.flat.length
decreasing_by
  have h1 := llpGetHeader_shrinks (c := (llpCheckIncomingData c).2) (not_not.mp _h)
  have h2 := llpDiscardLoop_shrinks (llpGetHeader (llpCheckIncomingData c).2).conn
    (llpGetHeader (llpCheckIncomingData c).2).val.extlen
  rw [llpCheckIncomingData_flat] at h1
  rw [llpGetDiscardExtdata]
  omega

/-- `hlp_discard_incoming_data`. -/
def hlpDiscardIncomingData (c : BufConn) : ℤ × BufConn := discardIncoming c 0

/-- How the inner loop of `stream_media_dvr_to_pipe` ends: with the answer of
`hlp_check_incoming_data`, for the keep-alive, with an error in `loopret`, or not yet. -/
inductive InnerEnd
  | checked (ret : ℤ)
  | keepAlive
  | error (loopret : ℤ)
  | running
  deriving DecidableEq, Repr

/-- What the inner loop leaves. -/
structure InnerLoop where
  ended : InnerEnd
  conn : BufConn
  pipe : List UInt8

/-- One turn of it. -/
def innerTurn (dvrctl : Dvrcontrol) (c : BufConn) (pipe : List UInt8) (e : StreamEvent) :
    InnerLoop :=
  let p := llpCheckIncomingData c
  if p.1 > 0 then
    let r := hlpCollectMediaData p.2 (some streamBufferLen)
    if r.ret ≠ 0 then ⟨.error 6, r.conn, pipe⟩
    else match e.write r.val.length with
      | none => ⟨.error 105, r.conn, pipe⟩
      | some n =>
        ⟨if dvrctl.keepAliveUs ≠ 0 ∧ e.kaSpent > dvrctl.keepAliveUs then .keepAlive else .running,
          r.conn, pipe ++ r.val.take n⟩
  else ⟨.checked p.1, p.2, pipe⟩

/-- The inner loop of `stream_media_dvr_to_pipe`. -/
def innerLoop (dvrctl : Dvrcontrol) (c : BufConn) (pipe : List UInt8) :
    List StreamEvent → InnerLoop
  | [] => ⟨.running, c, pipe⟩
  | e :: events =>
    let r := innerTurn dvrctl c pipe e
    if r.ended = .running then innerLoop dvrctl r.conn r.pipe events else r

end BufConn

/-! ### The two models -/

/-- The bytes to be read are those of `d`, no `fread` is cut short, and `d` has the answers `polls`
of the coming checks. -/
structure Shows (c : BufConn) (polls : List ℤ) (d : Conn) : Prop where
  flat : c.flat = d.rest
  waits : c.stdio.Waits
  polls : d.polls = polls

namespace Shows

variable {c : BufConn} {polls : List ℤ} {d : Conn}

theorem fread (h : Shows c polls d) (n : ℕ) :
    (c.fread n).1 = (d.fread n).1 ∧ Shows (c.fread n).2 polls (d.fread n).2 := by
  obtain ⟨hgot, hflat⟩ := Reader.read_of_waits h.waits n
  refine ⟨?_, ?_, h.waits.read n, h.polls⟩
  · show _ = d.rest.take n
    rw [← h.flat]
    exact hgot
  · show _ = d.rest.drop n
    rw [← h.flat]
    exact hflat

theorem check (h : Shows c (c.llpCheckIncomingData.1 :: polls) d) :
    (llpCheckIncomingData d).1 = c.llpCheckIncomingData.1 ∧
      Shows c.llpCheckIncomingData.2 polls (llpCheckIncomingData d).2 := by
  unfold TaniDVR.llpCheckIncomingData
  rw [h.polls]
  exact ⟨rfl, (BufConn.llpCheckIncomingData_flat c).trans h.flat, h.waits, rfl⟩

theorem getHeader (h : Shows c polls d) :
    c.llpGetHeader.ret = (llpGetHeader d).ret ∧ c.llpGetHeader.val = (llpGetHeader d).header ∧
      Shows c.llpGetHeader.conn polls (llpGetHeader d).conn := by
  obtain ⟨hgot, hs⟩ := h.fread llpHeaderSize
  unfold BufConn.llpGetHeader llpGetHeader
  dsimp only
  rw [hgot]
  by_cases hlen : (d.fread llpHeaderSize).1.length ≠ llpHeaderSize
  · rw [if_pos hlen, if_pos hlen]
    exact ⟨rfl, rfl, hs⟩
  · rw [if_neg hlen, if_neg hlen]
    exact ⟨rfl, rfl, hs⟩

theorem discard (h : Shows c polls d) (n : ℕ) :
    (c.llpDiscardLoop n).1 = (llpDiscardLoop d n).1 ∧
      Shows (c.llpDiscardLoop n).2 polls (llpDiscardLoop d n).2 := by
  induction n using Nat.strongRecOn generalizing c d with
  | _ n ih =>
    unfold BufConn.llpDiscardLoop llpDiscardLoop
    by_cases hn : n ≠ 0
    · obtain ⟨hgot, hs⟩ := h.fread (discardToRead n)
      rw [dif_pos hn, dif_pos hn]
      dsimp only
      rw [hgot]
      by_cases hlen : (d.fread (discardToRead n)).1.length ≠ discardToRead n
      · rw [if_pos hlen, if_pos hlen]
        exact ⟨rfl, hs⟩
      · have := discardToRead_bounds hn
        rw [if_neg hlen, if_neg hlen]
        exact ih _ (by omega) hs
    · rw [dif_neg hn, dif_neg hn]
      exact ⟨rfl, h⟩

theorem getExtdata (h : Shows c polls d) (header : LlHeader) (buflen : ℕ) :
    (c.llpGetExtdataSbuff header buflen).ret = (llpGetExtdataSbuff d header buflen).ret ∧
      (c.llpGetExtdataSbuff header buflen).val = (llpGetExtdataSbuff d header buflen).buf ∧
      Shows (c.llpGetExtdataSbuff header buflen).conn polls
        (llpGetExtdataSbuff d header buflen).conn := by
  obtain ⟨hgot, hs⟩ := h.fread header.extlen
  unfold BufConn.llpGetExtdataSbuff llpGetExtdataSbuff
  dsimp only
  rw [hgot]
  split_ifs
  · exact ⟨rfl, rfl, h⟩
  · exact ⟨rfl, rfl, h⟩
  · exact ⟨rfl, rfl, hs⟩
  · exact ⟨rfl, rfl, hs⟩

theorem awaitHeader (h : Shows c polls d) (cmd : UInt8) :
    (c.hlpGetHeader cmd).ret = (hlpGetHeader d cmd).ret ∧
      (c.hlpGetHeader cmd).val = (hlpGetHeader d cmd).header ∧
      Shows (c.hlpGetHeader cmd).conn polls (hlpGetHeader d cmd).conn := by
  fun_induction hlpGetHeader d cmd generalizing c with
  | case1 d hr =>
    obtain ⟨hret, hval, hs⟩ := h.getHeader
    rw [BufConn.hlpGetHeader, dif_pos (by rwa [hret])]
    exact ⟨hret, hval, hs⟩
  | case2 d hr hcmd ih =>
    obtain ⟨hret, hval, hs⟩ := h.getHeader
    rw [BufConn.hlpGetHeader, dif_neg (by rwa [hret]), if_pos (by rwa [hval]), hval]
    exact ih (hs.discard _).2
  | case3 d hr hcmd =>
    obtain ⟨hret, hval, hs⟩ := h.getHeader
    rw [BufConn.hlpGetHeader, dif_neg (by rwa [hret]), if_neg (by rwa [hval])]
    exact ⟨rfl, hval, hs⟩

theorem collect (h : Shows c polls d) (u : ℕ) (dest : Option ℕ) :
    (c.hlpCollectMediaData dest).ret = (hlpCollectMediaData ⟨d, u⟩ dest).ret ∧
      (c.hlpCollectMediaData dest).val = (hlpCollectMediaData ⟨d, u⟩ dest).data ∧
      Shows (c.hlpCollectMediaData dest).conn polls
        (hlpCollectMediaData ⟨d, u⟩ dest).conn.ll := by
  obtain ⟨hret, hval, hs⟩ := h.awaitHeader 0xbc
  unfold BufConn.hlpCollectMediaData hlpCollectMediaData collectFrame BufConn.llpGetDiscardExtdata
    llpGetDiscardExtdata
  dsimp only
  rw [hret, hval]
  obtain ⟨hdret, hds⟩ := hs.discard (hlpGetHeader d 0xbc).header.extlen
  obtain ⟨here, hev, hes⟩ :=
    hs.getExtdata (hlpGetHeader d 0xbc).header (hlpGetHeader d 0xbc).header.extlen
  by_cases hr : (hlpGetHeader d 0xbc).ret ≠ 0
  · rw [if_pos hr, if_pos hr]
    exact ⟨rfl, rfl, hs⟩
  · rw [if_neg hr, if_neg hr]
    cases dest with
    | none =>
      dsimp only
      rw [hdret]
      split_ifs <;> exact ⟨rfl, rfl, hds⟩
    | some maxLen =>
      dsimp only
      rw [hdret, here, hev]
      split_ifs
      all_goals first | exact ⟨rfl, rfl, hds⟩ | exact ⟨rfl, rfl, hes⟩

/-- A message that is discarded. -/
theorem discardMessage (h : Shows c polls d) :
    (c.llpGetHeader.ret = (llpGetHeader d).ret ∧
        Shows c.llpGetHeader.conn polls (llpGetHeader d).conn) ∧
      (c.llpGetHeader.conn.llpGetDiscardExtdata c.llpGetHeader.val).1 =
          (llpGetDiscardExtdata (llpGetHeader d).conn (llpGetHeader d).header).1 ∧
        Shows (c.llpGetHeader.conn.llpGetDiscardExtdata c.llpGetHeader.val).2 polls
          (llpGetDiscardExtdata (llpGetHeader d).conn (llpGetHeader d).header).2 := by
  obtain ⟨hret, hval, hs⟩ := h.getHeader
  refine ⟨⟨hret, hs⟩, ?_⟩
  rw [hval]
  exact hs.discard _

end Shows

/-- **`hlp_discard_incoming_data`** on the two models. -/
theorem discardIncoming_shows (c : BufConn) (i : ℤ) :
    ∃ polls, ∀ d, Shows c polls d →
      (c.discardIncoming i).1 = (discardIncoming d i).1 ∧
        Shows (c.discardIncoming i).2 [] (discardIncoming d i).2 := by
  induction hn : c.flat.length using Nat.strongRecOn generalizing c i with
  | _ n ih =>
    rw [BufConn.discardIncoming]
    dsimp only
    by_cases hp : c.llpCheckIncomingData.1 = 0
    · refine ⟨[c.llpCheckIncomingData.1], ?_⟩
      intro d h
      obtain ⟨hret, hs⟩ := h.check
      rw [discardIncoming, if_pos hp, if_pos (by rwa [hret])]
      exact ⟨rfl, hs⟩
    · rw [if_neg hp]
      by_cases hr : c.llpCheckIncomingData.2.llpGetHeader.ret ≠ 0
      · refine ⟨[c.llpCheckIncomingData.1], ?_⟩
        intro d h
        obtain ⟨hret, hs⟩ := h.check
        obtain ⟨⟨hhret, hhs⟩, -⟩ := hs.discardMessage
        rw [discardIncoming, dif_pos hr, if_neg (by rwa [hret]), dif_pos (by rwa [← hhret])]
        exact ⟨rfl, hhs⟩
      · rw [dif_neg hr]
        have hlt := BufConn.llpGetHeader_shrinks (not_not.mp hr)
        rw [BufConn.llpCheckIncomingData_flat] at hlt
        have hle := BufConn.llpDiscardLoop_shrinks c.llpCheckIncomingData.2.llpGetHeader.conn
          c.llpCheckIncomingData.2.llpGetHeader.val.extlen
        rw [← BufConn.llpGetDiscardExtdata] at hle
        generalize hleft : BufConn.llpGetDiscardExtdata c.llpCheckIncomingData.2.llpGetHeader.conn
          c.llpCheckIncomingData.2.llpGetHeader.val = left at hle
        by_cases hd : left.1 ≠ 0
        · refine ⟨[c.llpCheckIncomingData.1], ?_⟩
          intro d h
          obtain ⟨hret, hs⟩ := h.check
          obtain ⟨⟨hhret, -⟩, hdret, hds⟩ := hs.discardMessage
          rw [hleft] at hdret hds
          rw [discardIncoming, if_pos hd, if_neg (by rwa [hret]), dif_neg (by rwa [← hhret]),
            if_pos (by rwa [← hdret])]
          exact ⟨rfl, hds⟩
        · obtain ⟨polls, ih⟩ := ih _ (by omega) left.2 1 rfl
          refine ⟨c.llpCheckIncomingData.1 :: polls, ?_⟩
          intro d h
          obtain ⟨hret, hs⟩ := h.check
          obtain ⟨⟨hhret, -⟩, hdret, hds⟩ := hs.discardMessage
          rw [hleft] at hdret hds
          rw [discardIncoming, if_neg hd, if_neg (by rwa [hret]), dif_neg (by rwa [← hhret]),
            if_neg (by rwa [← hdret])]
          exact ih _ hds

/-- Where `stream_media_dvr_to_pipe` goes on. -/
def BufConn.InnerEnd.pc : BufConn.InnerEnd → StreamPc
  | .checked _ => .discard
  | .keepAlive => .discard
  | .error loopret => .returned loopret
  | .running => .collect

section InnerLoop

variable (dvrctl : Dvrcontrol) (c : BufConn) (pipe : List UInt8)

/-- One turn of the inner loop. -/
theorem innerTurn_shows (e : StreamEvent) {polls : List ℤ} (control stream : HlConn)
    (h : Shows c (c.llpCheckIncomingData.1 :: polls) stream.ll) :
    ∃ stream', MediaStream.step dvrctl ⟨.collect, control, stream, pipe⟩ e =
        ⟨(c.innerTurn dvrctl pipe e).ended.pc, control, stream', (c.innerTurn dvrctl pipe e).pipe⟩ ∧
      Shows (c.innerTurn dvrctl pipe e).conn polls stream'.ll := by
  obtain ⟨hret, hs⟩ := h.check
  obtain ⟨hcret, hcval, hcs⟩ := hs.collect stream.uniqueLoginSymbol (some streamBufferLen)
  unfold MediaStream.step BufConn.innerTurn
  dsimp only
  rw [hret, hcret, hcval]
  by_cases hp : c.llpCheckIncomingData.1 > 0
  · rw [if_pos hp, if_pos hp]
    by_cases hc : (hlpCollectMediaData ⟨(llpCheckIncomingData stream.ll).2,
        stream.uniqueLoginSymbol⟩ (some streamBufferLen)).ret ≠ 0
    · rw [if_pos hc, if_pos hc]
      exact ⟨_, rfl, hcs⟩
    · rw [if_neg hc, if_neg hc]
      unfold MediaStream.write
      dsimp only
      cases e.write (hlpCollectMediaData ⟨(llpCheckIncomingData stream.ll).2,
        stream.uniqueLoginSymbol⟩ (some streamBufferLen)).data.length with
      | none => exact ⟨_, rfl, hcs⟩
      | some n =>
        dsimp only
        split_ifs <;> exact ⟨_, rfl, hcs⟩
  · rw [if_neg hp, if_neg hp]
    exact ⟨_, rfl, hs⟩

/-- **The inner loop of `stream_media_dvr_to_pipe`** on the two models: it is the turns of
`MediaStream` up to the one that leaves it. -/
theorem innerLoop_shows (events : List StreamEvent) :
    ∃ polls turns, turns <+: events ∧ ∀ control stream, Shows c polls stream.ll →
      ∃ stream', MediaStream.run dvrctl ⟨.collect, control, stream, pipe⟩ turns =
          ⟨(c.innerLoop dvrctl pipe events).ended.pc, control, stream',
            (c.innerLoop dvrctl pipe events).pipe⟩ ∧
        Shows (c.innerLoop dvrctl pipe events).conn [] stream'.ll := by
  induction events generalizing c pipe with
  | nil => exact ⟨[], [], List.prefix_rfl, fun control stream h => ⟨stream, rfl, h⟩⟩
  | cons e events ih =>
    rw [BufConn.innerLoop]
    by_cases hrun : (c.innerTurn dvrctl pipe e).ended = .running
    · obtain ⟨polls, turns, hturns, ih⟩ :=
        ih (c.innerTurn dvrctl pipe e).conn (c.innerTurn dvrctl pipe e).pipe
      refine ⟨c.llpCheckIncomingData.1 :: polls, e :: turns, List.cons_prefix_cons.mpr ⟨rfl, hturns⟩,
        ?_⟩
      intro control stream h
      obtain ⟨stream', hstep, hs⟩ := innerTurn_shows dvrctl c pipe e control stream h
      rw [if_pos hrun, MediaStream.run, List.foldl_cons, hstep, hrun]
      exact ih control stream' hs
    · refine ⟨[c.llpCheckIncomingData.1], [e], List.cons_prefix_cons.mpr ⟨rfl, List.nil_prefix⟩, ?_⟩
      intro control stream h
      rw [if_neg hrun]
      exact innerTurn_shows dvrctl c pipe e control stream h

end InnerLoop

end TaniDVR
