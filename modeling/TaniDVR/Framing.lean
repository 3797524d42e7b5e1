import TaniDVR.HlProtocol

/-!
# Framing — the reading position of a connection

A peer sends whole messages.  `OnBoundary` says that a connection is read up to the beginning of a
message, `InMessage` that it is read up to the payload of one; `HlCall.run_onBoundary` says that a
call keeps the first unless it `Loses` the payload of a message, and `framing_iff` that these are
the only calls that lose the framing.
-/

namespace TaniDVR

open Lib

/-- The connection is read up to a message boundary of the stream `ms`. -/
structure OnBoundary (ms : List LlMessage) (c : Conn) : Prop where
  pos : AtBoundary LlMessage.bytes ms [] c.rest
  eof : c.eof = true → c.rest = []

/-- The header `h` of a message of `ms` was read, and nothing of its payload. -/
structure InMessage (ms : List LlMessage) (h : LlHeader) (c : Conn) : Prop where
  pos : ∃ m, h = m.header ∧ Inside LlMessage.bytes ms [] m llpHeaderSize c.rest
  eof : c.eof = false

/-- `m` is the first message with the command `cmd`; `more` comes after it. -/
def FirstOf (cmd : UInt8) (rest : List UInt8) (m : LlMessage) (more : List UInt8) : Prop :=
  m.cmd = cmd ∧ ∃ skipped, (∀ x ∈ skipped, x.cmd ≠ cmd) ∧
    rest = encode LlMessage.bytes skipped ++ (m.bytes ++ more)

variable {ms : List LlMessage} {c : Conn} {h : LlHeader} {cmd : UInt8} {m : LlMessage}
  {more : List UInt8}

/-! ### The reading functions -/

theorem OnBoundary.of_nil (hr : c.rest = []) : OnBoundary ms c :=
  ⟨⟨[], List.nil_suffix, by rw [hr]; rfl⟩, fun _ => hr⟩

theorem OnBoundary.of_eq {c' : Conn} (hb : OnBoundary ms c) (hr : c'.rest = c.rest)
    (he : c'.eof = c.eof) : OnBoundary ms c' := by
  refine ⟨hr ▸ hb.pos, ?_⟩
  intro h'
  rw [hr]
  exact hb.eof (he ▸ h')

theorem OnBoundary.sendHeader (hb : OnBoundary ms c) (out : LlHeader) :
    OnBoundary ms (llpSendHeader c out).2 := hb.of_eq (by simp) (by simp)

theorem OnBoundary.sendNop (hb : OnBoundary ms c) : OnBoundary ms (llpSendNop c).2 :=
  hb.of_eq (by simp) (by simp)

theorem OnBoundary.sendExtdata (hb : OnBoundary ms c) (payload : List UInt8) :
    OnBoundary ms (llpSendExtdata c payload).2 := hb.of_eq (by simp) (by simp)

theorem OnBoundary.poll (hb : OnBoundary ms c) : OnBoundary ms (llpCheckIncomingData c).2 :=
  hb.of_eq (by simp) (by simp)

/-- The position after the header of a message that is found. -/
theorem OnBoundary.inMessage (hb : OnBoundary ms c) (hf : FirstOf cmd c.rest m more) :
    InMessage ms m.header { c with rest := m.payload ++ more } := by
  obtain ⟨⟨post, hp, hr⟩, heof⟩ := hb
  obtain ⟨-, skipped, -, hs⟩ := hf
  have hcut : encode LlMessage.bytes (skipped ++ [m]) ++ more = encode LlMessage.bytes post := by
    rw [encode_append, encode_cons, encode_nil, List.append_nil, List.append_assoc, ← hs, hr,
      List.append_nil]
  obtain ⟨zs, hz, hmore⟩ := encode_append_eq LlMessage.delimited LlMessage.bytes_ne_nil hcut
  have hmem : m :: zs <:+ ms := by
    refine List.IsSuffix.trans ?_ hp
    rw [hz, List.append_assoc, List.singleton_append]
    exact List.suffix_append _ _
  refine ⟨⟨m, rfl, zs, hmem, ?_⟩, ?_⟩
  · rw [LlMessage.drop_bytes, List.append_nil, hmore]
  · cases he : c.eof with
    | false => rfl
    | true =>
      have := heof he
      rw [hs] at this
      simp [LlMessage.bytes_ne_nil] at this

theorem FirstOf.of_head (hr : c.rest = m.bytes ++ more) : FirstOf m.cmd c.rest m more :=
  ⟨rfl, [], by simp, hr⟩

/-- At a boundary, either the input is at its end or a message begins. -/
theorem OnBoundary.cases (hb : OnBoundary ms c) :
    c.rest = [] ∨ ∃ (m : LlMessage) (more : List UInt8), c.rest = m.bytes ++ more := by
  obtain ⟨⟨post, -, hr⟩, -⟩ := hb
  cases post with
  | nil => exact .inl hr
  | cons m post => exact .inr ⟨m, encode LlMessage.bytes post, by rw [hr, List.append_nil]; rfl⟩

theorem OnBoundary.getHeader (hb : OnBoundary ms c) :
    (llpGetHeader c).ret ≠ 0 ∧ OnBoundary ms (llpGetHeader c).conn ∨
      ¬ (llpGetHeader c).ret ≠ 0 ∧ InMessage ms (llpGetHeader c).header (llpGetHeader c).conn := by
  rcases hb.cases with hr | ⟨m, more, hr⟩
  · refine .inl ⟨by simp [llpGetHeader_ret, hr, llpHeaderSize], .of_nil ?_⟩
    rw [llpGetHeader_conn, Conn.skip_rest, hr, List.drop_nil]
  · rw [llpGetHeader_of_message hr]
    exact .inr ⟨by simp, hb.inMessage (.of_head hr)⟩

/-- Waiting for a command ends at the first message that has it. -/
theorem hlpGetHeader_of_first (hf : FirstOf cmd c.rest m more) :
    hlpGetHeader c cmd = ⟨0, m.header, { c with rest := m.payload ++ more }⟩ := by
  obtain ⟨hc, skipped, hs, hr⟩ := hf
  rw [hlpGetHeader_skips hr hs, hlpGetHeader_of_cmd rfl hc]

/-- Without such a message it ends at the end of the input. -/
theorem first_or_ended (cmd : UInt8) (post : List LlMessage)
    (hr : c.rest = encode LlMessage.bytes post) :
    (∃ m more, FirstOf cmd c.rest m more) ∨
      (hlpGetHeader c cmd).ret = 1 ∧ (hlpGetHeader c cmd).conn.rest = [] := by
  induction post generalizing c with
  | nil => exact .inr (hlpGetHeader_of_short (by simp [hr, llpHeaderSize]))
  | cons x post ih =>
    rw [encode_cons] at hr
    by_cases hc : x.cmd = cmd
    · exact .inl ⟨x, encode LlMessage.bytes post, hc, [], by simp, hr⟩
    · rw [hlpGetHeader_of_other hr hc]
      rcases ih (c := { c with rest := encode LlMessage.bytes post }) rfl with
        ⟨m, more, hm, skipped, hs, hmore⟩ | hend
      · refine .inl ⟨m, more, hm, x :: skipped, ?_, ?_⟩
        · intro y hy
          rcases List.mem_cons.mp hy with rfl | hy
          · exact hc
          · exact hs y hy
        · rw [hr, encode_cons, List.append_assoc]
          exact congrArg _ hmore
      · exact .inr hend

theorem OnBoundary.await (hb : OnBoundary ms c) (cmd : UInt8) :
    (hlpGetHeader c cmd).ret ≠ 0 ∧ OnBoundary ms (hlpGetHeader c cmd).conn ∨
      ¬ (hlpGetHeader c cmd).ret ≠ 0 ∧
        InMessage ms (hlpGetHeader c cmd).header (hlpGetHeader c cmd).conn := by
  obtain ⟨post, -, hr⟩ := hb.pos
  rw [List.append_nil] at hr
  rcases first_or_ended cmd post hr with ⟨m, more, hf⟩ | ⟨hret, hend⟩
  · rw [hlpGetHeader_of_first hf]
    exact .inr ⟨by simp, hb.inMessage hf⟩
  · exact .inl ⟨by rw [hret]; simp, .of_nil hend⟩

theorem InMessage.length_le (hm : InMessage ms h c) : h.extlen ≤ c.rest.length := by
  obtain ⟨⟨m, rfl, post, -, hr⟩, -⟩ := hm
  rw [hr, LlMessage.drop_bytes, List.length_append, LlMessage.header_extlen]
  omega

/-- The payload read to its end. -/
theorem InMessage.skip (hm : InMessage ms h c) : OnBoundary ms (c.skip h.extlen) := by
  have hle := hm.length_le
  obtain ⟨⟨m, rfl, hin⟩, heof⟩ := hm
  have hlen : m.bytes.length - llpHeaderSize = m.header.extlen := by
    rw [LlMessage.length_bytes, LlMessage.header_extlen]
    omega
  refine ⟨?_, fun he => ?_⟩
  · rw [Conn.skip_rest, ← hlen]
    exact hin.drop
  · rw [Conn.skip_eof_of_le hle, heof] at he
    cases he

theorem InMessage.discard (hm : InMessage ms h c) :
    (llpGetDiscardExtdata c h).1 = 0 ∧ OnBoundary ms (llpGetDiscardExtdata c h).2 := by
  have hle := hm.length_le
  rw [llpGetDiscardExtdata_eq]
  exact ⟨if_neg (by omega), hm.skip⟩

theorem InMessage.sbuff {buflen : ℕ} (hm : InMessage ms h c) (hl : h.extlen ≤ buflen) :
    OnBoundary ms (llpGetExtdataSbuff c h buflen).conn := by
  rw [llpGetExtdataSbuff_conn hl]
  exact hm.skip

/-- A payload that does not fit in a buffer is discarded afterwards. -/
theorem InMessage.sbuff_or_discard (hm : InMessage ms h c) (buflen : ℕ) (hn : buflen < 2 ^ 31) :
    (llpGetExtdataSbuff c h buflen).ret < 0 ∧
        OnBoundary ms (llpGetDiscardExtdata (llpGetExtdataSbuff c h buflen).conn h).2 ∨
      ¬ (llpGetExtdataSbuff c h buflen).ret < 0 ∧
        OnBoundary ms (llpGetExtdataSbuff c h buflen).conn := by
  by_cases hl : buflen < h.extlen
  · rw [llpGetExtdataSbuff_of_large hl]
    exact .inl ⟨by simp, hm.discard.2⟩
  · refine .inr ⟨?_, hm.sbuff (Nat.not_lt.mp hl)⟩
    rw [llpGetExtdataSbuff_of_le (Nat.not_lt.mp hl) hm.length_le, toInt_of_lt (by omega)]
    dsimp only
    omega

/-! ### The calls -/

theorem OnBoundary.collectFrame {hc : HlConn} (hb : OnBoundary ms hc.ll) (codes : CollectCodes)
    (dest : Option ℕ) : OnBoundary ms (collectFrame codes hc dest).conn.ll := by
  unfold TaniDVR.collectFrame
  dsimp only
  rcases hb.await 0xbc with ⟨hr, hb⟩ | ⟨hr, hm⟩
  · rw [if_pos hr]
    exact hb
  · rw [if_neg hr]
    cases dest with
    | none =>
      dsimp only
      split_ifs <;> exact hm.discard.2
    | some maxLen =>
      dsimp only
      split_ifs
      all_goals first | exact hm.discard.2 | exact hm.sbuff le_rfl

theorem OnBoundary.requestAndDiscard {hc : HlConn} (hb : OnBoundary ms hc.ll) (out : LlHeader)
    (extdata : List UInt8) (replyCmd : UInt8) :
    OnBoundary ms (requestAndDiscard hc out extdata replyCmd).conn.ll := by
  unfold TaniDVR.requestAndDiscard
  dsimp only
  by_cases hs : (llpSendHeader hc.ll out).1 ≠ 0
  · rw [if_pos hs]
    exact hb.sendHeader out
  · rw [if_neg hs]
    rcases ((hb.sendHeader out).sendExtdata extdata).await replyCmd with ⟨hr, hb⟩ | ⟨hr, hm⟩
    · rw [if_pos hr]
      exact hb
    · rw [if_neg hr]
      split_ifs <;> exact hm.discard.2

theorem OnBoundary.discardNopReply (hb : OnBoundary ms c) (issueNop : Bool) :
    OnBoundary ms (discardNopReply c issueNop).2 := by
  unfold TaniDVR.discardNopReply
  dsimp only
  cases issueNop with
  | false => exact hb
  | true =>
    rw [if_pos rfl]
    rcases hb.getHeader with ⟨hr, hb⟩ | ⟨hr, hm⟩
    · rw [if_pos hr]
      exact hb
    · rw [if_neg hr]
      split_ifs <;> exact hm.discard.2

/-- `hlp_get_header_and_extdata`, but for an expected payload that does not fit in the buffer. -/
theorem OnBoundary.getHeaderAndExtdata (hb : OnBoundary ms c) (cmd : UInt8) (issueNop : Bool)
    (buflen : Option ℕ)
    (hfit : ∀ n ∈ buflen, ∀ m more, c.rest = LlMessage.bytes m ++ more → m.cmd = cmd →
      m.payload.length ≤ n) :
    OnBoundary ms (hlpGetHeaderAndExtdata c cmd issueNop buflen).conn := by
  unfold hlpGetHeaderAndExtdata
  dsimp only
  have hrest : (if issueNop = true then (llpSendNop c).2 else c).rest = c.rest := by
    split_ifs <;> simp
  have hb' : OnBoundary ms (if issueNop = true then (llpSendNop c).2 else c) := by
    split_ifs
    · exact hb.sendNop
    · exact hb
  generalize (if issueNop = true then (llpSendNop c).2 else c) = c' at hrest hb' ⊢
  rcases hb'.cases with hr | ⟨m, more, hr⟩
  · have hret : (llpGetHeader c').ret ≠ 0 := by simp [llpGetHeader_ret, hr, llpHeaderSize]
    rw [if_pos hret, llpGetHeader_conn]
    exact .of_nil (by rw [Conn.skip_rest, hr, List.drop_nil])
  · have hm := hb'.inMessage (.of_head hr)
    rw [llpGetHeader_of_message hr]
    dsimp only
    rw [if_neg (by simp)]
    by_cases hcmd : m.cmd = cmd
    · rw [if_neg (by simpa using hcmd)]
      cases buflen with
      | none => exact hm.discard.2.discardNopReply issueNop
      | some n =>
        have hl : m.payload.length ≤ n := hfit n rfl m more (hrest ▸ hr) hcmd
        dsimp only
        split_ifs
        · exact hm.sbuff hl
        · exact (hm.sbuff hl).discardNopReply issueNop
    · rw [if_pos (by simpa using hcmd)]
      split_ifs <;> exact hm.discard.2

theorem OnBoundary.login {hc : HlConn} (hb : OnBoundary ms hc.ll) (devinfo : Option Devinfo)
    (user passwd : List UInt8) : OnBoundary ms (hlpLogin hc devinfo user passwd).conn.ll := by
  unfold hlpLogin
  dsimp only
  by_cases hlen : user.length + passwd.length > maxUserPasswdLen
  · rw [if_pos hlen]
    exact hb
  · rw [if_neg hlen]
    rcases ((hb.sendHeader (loginHeader user passwd)).sendExtdata (loginExtdata user passwd)).await
      0xb0 with ⟨hr, hb⟩ | ⟨hr, hm⟩
    · rw [if_pos hr]
      exact hb
    · rw [if_neg hr]
      split_ifs <;> exact hm.discard.2

theorem OnBoundary.mediaDataRequest {hc : HlConn} (hb : OnBoundary ms hc.ll) (ctrl : HlConn)
    (channel : ℕ) (subChannel : ℤ) (dest : Option ℕ) :
    OnBoundary ms (hlpMediaDataRequest ctrl hc channel subChannel dest).conn.ll := by
  unfold hlpMediaDataRequest
  dsimp only
  split_ifs
  · exact hb
  · exact hb
  · exact hb.collectFrame _ dest

theorem OnBoundary.getSystemInformation {hc : HlConn} (hb : OnBoundary ms hc.ll)
    (devinfo : Option Devinfo) (infotype bitstream : UInt8) :
    OnBoundary ms (hlpGetSystemInformation hc devinfo infotype bitstream).conn.ll := by
  unfold hlpGetSystemInformation
  dsimp only
  generalize ((llpInitHeader.set 0 0xa4).set 8 infotype).set 12 bitstream = out
  by_cases hs : (llpSendHeader hc.ll out).1 ≠ 0
  · rw [if_pos hs]
    exact hb.sendHeader out
  · rw [if_neg hs]
    rcases (hb.sendHeader out).await 0xb4 with ⟨hr, hb⟩ | ⟨hr, hm⟩
    · rw [if_pos hr]
      exact hb
    · rw [if_neg hr]
      rcases hm.sbuff_or_discard sysinfoEdLen (by decide) with ⟨he, hb⟩ | ⟨he, hb⟩
      · rw [if_pos he]
        exact hb
      · rw [if_neg he]
        exact hb

theorem OnBoundary.sendInfoRequests (hb : OnBoundary ms c) (infotype count : ℕ) :
    OnBoundary ms (sendInfoRequests c infotype count).2 := by
  induction count generalizing c infotype with
  | zero => exact hb
  | succ count ih =>
    rw [TaniDVR.sendInfoRequests]
    split_ifs
    · exact hb.sendHeader _
    · exact ih (hb.sendHeader _) _

theorem OnBoundary.collectReplies (hb : OnBoundary ms c) (devinfo : Option Devinfo) :
    OnBoundary ms (collectReplies c devinfo).2.2 := by
  induction hn : c.rest.length using Nat.strongRecOn generalizing c devinfo with
  | _ n ih =>
    rw [TaniDVR.collectReplies]
    rcases hb.getHeader with ⟨hr, hb⟩ | ⟨hr, hm⟩
    · rw [dif_pos hr]
      exact hb
    · rw [dif_neg hr]
      have hlt := llpGetHeader_shrinks (not_not.mp hr)
      have hle := llpGetExtdataSbuff_shrinks (llpGetHeader c).conn (llpGetHeader c).header
        sysinfoEdLen
      rcases hm.sbuff_or_discard sysinfoEdLen (by decide) with ⟨he, hb⟩ | ⟨he, hb⟩
      · rw [if_pos he]
        exact hb
      · rw [if_neg he]
        split_ifs
        · exact hb
        · exact ih _ (by omega) hb _ rfl

theorem OnBoundary.getSystemInformationMultiple {hc : HlConn} (hb : OnBoundary ms hc.ll)
    (devinfo : Option Devinfo) (firstInfotype : UInt8) (totalInfotype : ℤ) :
    OnBoundary ms
      (hlpGetSystemInformationMultiple hc devinfo firstInfotype totalInfotype).conn.ll := by
  unfold hlpGetSystemInformationMultiple
  dsimp only
  have hb := hb.sendInfoRequests firstInfotype.toNat totalInfotype.toNat
  split_ifs
  · exact hb
  · exact hb.sendNop
  · exact hb.sendNop.collectReplies devinfo

theorem OnBoundary.awaitAlarm (hb : OnBoundary ms c) (out : LlHeader) (alarmType : UInt8) :
    (awaitAlarm c out alarmType).ret ≠ 0 ∧ OnBoundary ms (awaitAlarm c out alarmType).conn ∨
      ¬ (awaitAlarm c out alarmType).ret ≠ 0 ∧
        InMessage ms (awaitAlarm c out alarmType).header (awaitAlarm c out alarmType).conn := by
  induction hn : c.rest.length using Nat.strongRecOn generalizing c with
  | _ n ih =>
    rw [TaniDVR.awaitAlarm]
    rcases hb.await 0x69 with ⟨hr, hb⟩ | ⟨hr, hm⟩
    · rw [dif_pos hr]
      exact .inl ⟨by simp, hb⟩
    · rw [dif_neg hr]
      have hlt := hlpGetHeader_shrinks (not_not.mp hr)
      have hle := llpGetDiscardExtdata_shrinks (hlpGetHeader c 0x69).conn
        (hlpGetHeader c 0x69).header
      have hnext := ih _ (by omega) hm.discard.2 rfl
      split_ifs
      · exact hnext
      · exact .inl ⟨by simp, hm.discard.2⟩
      · exact hnext
      · exact .inr ⟨by simp, hm⟩

theorem OnBoundary.setAlarm {hc : HlConn} (hb : OnBoundary ms hc.ll) (alarmType : UInt8) :
    OnBoundary ms (hlpSetAlarm hc alarmType).conn.ll := by
  unfold hlpSetAlarm
  dsimp only
  generalize ((llpInitHeader.set 0 0x68).set 8 2).set 12 alarmType = out
  by_cases hs : (llpSendHeader hc.ll out).1 ≠ 0
  · rw [if_pos hs]
    exact hb.sendHeader out
  · rw [if_neg hs]
    rcases (hb.sendHeader out).awaitAlarm out alarmType with ⟨hr, hb⟩ | ⟨hr, hm⟩
    · rw [if_pos hr]
      exact hb
    · rw [if_neg hr]
      split_ifs <;> exact hm.discard.2

/-- Of two headers the second is sent when the second `fwrite` succeeds. -/
theorem second_sent (c : Conn) (h h' : LlHeader) :
    (llpSendHeader (llpSendHeader c h).2 h').1 = 0 ↔ c.sends[1]? = some true := by
  rw [llpSendHeader_ret, llpSendHeader_sends, List.head?_tail]
  split_ifs with hs
  · simp [hs]
  · simp [hs]

/-- `hlp_get_channel_names`, but for a reply that does not fit in the buffer. -/
theorem OnBoundary.getChannelNames {hc : HlConn} (hb : OnBoundary ms hc.ll)
    (outstr : Option (List UInt8))
    (hfit : outstr ≠ none → hc.ll.sends[1]? = some true → ∀ m more, FirstOf 0xb8 hc.ll.rest m more →
      m.payload.length ≤ chnamesSize) :
    OnBoundary ms (hlpGetChannelNames hc outstr).conn.ll := by
  unfold hlpGetChannelNames
  cases outstr with
  | none => exact hb
  | some outstr =>
    dsimp only
    generalize hout : llpInitHeader.set 0 0xa8 = out
    have hb := (hb.sendHeader out).sendHeader (out.set 8 1)
    by_cases hs : (llpSendHeader (llpSendHeader hc.ll out).2 (out.set 8 1)).1 ≠ 0
    · rw [if_pos hs]
      exact hb
    · rw [if_neg hs]
      obtain ⟨post, -, hr⟩ := hb.pos
      rw [List.append_nil] at hr
      rcases first_or_ended 0xb8 post hr with ⟨m, more, hf⟩ | ⟨hret, hend⟩
      · have hm := hb.inMessage hf
        rw [hlpGetHeader_of_first hf, if_neg (by simp)]
        have hl : m.payload.length ≤ chnamesSize :=
          hfit (by simp) ((second_sent hc.ll out (out.set 8 1)).mp (not_not.mp hs)) m more
            (by simpa using hf)
        split_ifs <;> exact hm.sbuff hl
      · rw [if_pos (by rw [hret]; simp)]
        exact .of_nil hend

theorem OnBoundary.discardIncoming (hb : OnBoundary ms c) (i : ℤ) :
    OnBoundary ms (discardIncoming c i).2 := by
  induction hn : c.rest.length using Nat.strongRecOn generalizing c i with
  | _ n ih =>
    rw [TaniDVR.discardIncoming]
    dsimp only
    by_cases hp : (llpCheckIncomingData c).1 = 0
    · rw [if_pos hp]
      exact hb.poll
    · rw [if_neg hp]
      rcases hb.poll.getHeader with ⟨hr, hb⟩ | ⟨hr, hm⟩
      · rw [dif_pos hr]
        exact hb
      · rw [dif_neg hr]
        have hlt := llpGetHeader_shrinks (not_not.mp hr)
        rw [llpCheckIncomingData_rest] at hlt
        have hle := llpGetDiscardExtdata_shrinks (llpGetHeader (llpCheckIncomingData c).2).conn
          (llpGetHeader (llpCheckIncomingData c).2).header
        rw [if_neg (by simpa using hm.discard.1)]
        exact ih _ (by omega) hm.discard.2 _ rfl

theorem OnBoundary.discardIncomingData {hc : HlConn} (hb : OnBoundary ms hc.ll) :
    OnBoundary ms (hlpDiscardIncomingData hc).conn.ll := hb.discardIncoming 0

/-! ### Runs -/

/-- A call of an operation on the connection, with its other arguments. -/
inductive HlCall
  | login (devinfo : Option Devinfo) (user passwd : List UInt8)
  | logout
  | mediaDataRequest (ctrl : HlConn) (channel : ℕ) (subChannel : ℤ) (dest : Option ℕ)
  | collectMediaData (dest : Option ℕ)
  | sendExtensionString (extstr : List UInt8)
  | getWorkAlarmStatus
  | getSystemInformation (devinfo : Option Devinfo) (infotype bitstream : UInt8)
  | getSystemInformationMultiple (devinfo : Option Devinfo) (firstInfotype : UInt8)
      (totalInfotype : ℤ)
  | getMediaCapability (infotype : UInt8)
  | getConfigParameter (infotype : UInt8)
  | setAlarm (alarmType : UInt8)
  | getChannelNames (outstr : Option (List UInt8))
  | getHeaderAndExtdata (expectedCmd : UInt8) (issueNop : Bool) (buflen : Option ℕ)
  | discardIncomingData

/-- The call, up to what it returns besides the code. -/
def HlCall.run (hc : HlConn) : HlCall → Reply
  | login devinfo user passwd =>
    let r := hlpLogin hc devinfo user passwd
    ⟨r.ret, r.conn⟩
  | logout => hlpLogout hc
  | mediaDataRequest ctrl channel subChannel dest =>
    let r := hlpMediaDataRequest ctrl hc channel subChannel dest
    ⟨r.ret, r.conn⟩
  | collectMediaData dest =>
    let r := hlpCollectMediaData hc dest
    ⟨r.ret, r.conn⟩
  | sendExtensionString extstr => hlpSendExtensionString hc extstr
  | getWorkAlarmStatus => hlpGetWorkAlarmStatus hc
  | getSystemInformation devinfo infotype bitstream =>
    let r := hlpGetSystemInformation hc devinfo infotype bitstream
    ⟨r.ret, r.conn⟩
  | getSystemInformationMultiple devinfo firstInfotype totalInfotype =>
    let r := hlpGetSystemInformationMultiple hc devinfo firstInfotype totalInfotype
    ⟨r.ret, r.conn⟩
  | getMediaCapability infotype => hlpGetMediaCapability hc infotype
  | getConfigParameter infotype => hlpGetConfigParameter hc infotype
  | setAlarm alarmType => hlpSetAlarm hc alarmType
  | getChannelNames outstr =>
    let r := hlpGetChannelNames hc outstr
    ⟨r.ret, r.conn⟩
  | getHeaderAndExtdata expectedCmd issueNop buflen =>
    let r := hlpGetHeaderAndExtdata hc.ll expectedCmd issueNop buflen
    ⟨r.ret, { hc with ll := r.conn }⟩
  | discardIncomingData => hlpDiscardIncomingData hc

/-- The connection after some calls, whatever they return. -/
def runHlCalls (hc : HlConn) (calls : List HlCall) : HlConn :=
  calls.foldl (fun hc call => (call.run hc).conn) hc

/-- The calls that leave a payload behind that is larger than their buffer. -/
def HlCall.Loses (hc : HlConn) : HlCall → Prop
  | getHeaderAndExtdata expectedCmd _ (some buflen) =>
    ∃ m more, hc.ll.rest = LlMessage.bytes m ++ more ∧ m.cmd = expectedCmd ∧
      buflen < m.payload.length
  | getChannelNames (some _) =>
    hc.ll.sends[1]? = some true ∧
      ∃ m more, FirstOf 0xb8 hc.ll.rest m more ∧ chnamesSize < m.payload.length
  | _ => False

/-- **A call that does not lose a payload** ends at a message boundary, whatever it returns. -/
theorem HlCall.run_onBoundary {hc : HlConn} (hb : OnBoundary ms hc.ll) (call : HlCall)
    (hl : ¬ call.Loses hc) : OnBoundary ms (call.run hc).conn.ll := by
  cases call with
  | login devinfo user passwd => exact hb.login devinfo user passwd
  | logout => exact (hb.sendHeader _).getHeaderAndExtdata 0x0b true none nofun
  | mediaDataRequest ctrl channel subChannel dest =>
    exact hb.mediaDataRequest ctrl channel subChannel dest
  | collectMediaData dest => exact hb.collectFrame _ dest
  | sendExtensionString extstr => exact hb.requestAndDiscard _ _ _
  | getWorkAlarmStatus => exact hb.requestAndDiscard _ _ _
  | getSystemInformation devinfo infotype bitstream =>
    exact hb.getSystemInformation devinfo infotype bitstream
  | getSystemInformationMultiple devinfo firstInfotype totalInfotype =>
    exact hb.getSystemInformationMultiple devinfo firstInfotype totalInfotype
  | getMediaCapability infotype => exact hb.requestAndDiscard _ _ _
  | getConfigParameter infotype => exact hb.requestAndDiscard _ _ _
  | setAlarm alarmType => exact hb.setAlarm alarmType
  | getChannelNames outstr =>
    refine hb.getChannelNames outstr ?_
    intro ho hs m more hf
    cases outstr with
    | none => exact absurd rfl ho
    | some outstr => exact Nat.not_lt.mp fun hlt => hl ⟨hs, m, more, hf, hlt⟩
  | getHeaderAndExtdata expectedCmd issueNop buflen =>
    refine hb.getHeaderAndExtdata expectedCmd issueNop buflen ?_
    intro n hn m more hr hc
    cases hn
    exact Nat.not_lt.mp fun hlt => hl ⟨m, more, hr, hc, hlt⟩
  | discardIncomingData => exact hb.discardIncomingData

theorem getHeaderAndExtdata_of_large {cmd : UInt8} {buflen : ℕ} (issueNop : Bool)
    (hr : c.rest = m.bytes ++ more) (hcmd : m.cmd = cmd) (hlt : buflen < m.payload.length) :
    (hlpGetHeaderAndExtdata c cmd issueNop (some buflen)).conn.rest = m.payload ++ more ∧
      (hlpGetHeaderAndExtdata c cmd issueNop (some buflen)).conn.eof = c.eof := by
  unfold hlpGetHeaderAndExtdata
  dsimp only
  have hrest : (if issueNop = true then (llpSendNop c).2 else c).rest = m.bytes ++ more := by
    split_ifs <;> simp [hr]
  have heof : (if issueNop = true then (llpSendNop c).2 else c).eof = c.eof := by
    split_ifs <;> simp
  generalize (if issueNop = true then (llpSendNop c).2 else c) = c' at hrest heof ⊢
  rw [llpGetHeader_of_message hrest]
  dsimp only
  rw [if_neg (by simp), if_neg (by simpa using hcmd), llpGetExtdataSbuff_of_large hlt,
    if_pos (by simp)]
  exact ⟨rfl, heof⟩

theorem getChannelNames_of_large {hc : HlConn} (outstr : List UInt8)
    (hs : hc.ll.sends[1]? = some true) (hf : FirstOf 0xb8 hc.ll.rest m more)
    (hlt : chnamesSize < m.payload.length) :
    (hlpGetChannelNames hc (some outstr)).conn.ll.rest = m.payload ++ more ∧
      (hlpGetChannelNames hc (some outstr)).conn.ll.eof = hc.ll.eof := by
  unfold hlpGetChannelNames
  dsimp only
  generalize llpInitHeader.set 0 0xa8 = out
  have hsent := (second_sent hc.ll out (out.set 8 1)).mpr hs
  have hf' : FirstOf 0xb8 (llpSendHeader (llpSendHeader hc.ll out).2 (out.set 8 1)).2.rest m
      more := by
    simpa using hf
  rw [if_neg (by simpa using hsent), hlpGetHeader_of_first hf', if_neg (by simp),
    llpGetExtdataSbuff_of_large hlt, if_pos (by simp)]
  exact ⟨rfl, by simp⟩

/-- A call that loses a payload stops in front of it. -/
theorem HlCall.run_of_loses {hc : HlConn} {call : HlCall} (hl : call.Loses hc) :
    ∃ cmd m more, FirstOf cmd hc.ll.rest m more ∧ 0 < m.payload.length ∧
      (call.run hc).conn.ll.rest = m.payload ++ more ∧
      (call.run hc).conn.ll.eof = hc.ll.eof := by
  cases call with
  | getHeaderAndExtdata cmd issueNop buflen =>
    cases buflen with
    | none => exact hl.elim
    | some buflen =>
      obtain ⟨m, more, hr, hcmd, hlt⟩ := hl
      exact ⟨m.cmd, m, more, .of_head hr, by omega,
        getHeaderAndExtdata_of_large issueNop hr hcmd hlt⟩
  | getChannelNames outstr =>
    cases outstr with
    | none => exact hl.elim
    | some outstr =>
      obtain ⟨hs, m, more, hf, hlt⟩ := hl
      exact ⟨0xb8, m, more, hf, by omega, getChannelNames_of_large outstr hs hf hlt⟩
  | _ => exact hl.elim

/-- **A call that loses a payload** leaves the connection in the middle of a message. -/
theorem HlCall.run_not_atBoundary {hc : HlConn} {call : HlCall} (hb : OnBoundary ms hc.ll)
    (hl : call.Loses hc) :
    (call.run hc).conn.ll.eof = false ∧
      ¬ AtBoundary LlMessage.bytes ms [] (call.run hc).conn.ll.rest := by
  obtain ⟨cmd, m, more, hf, hpos, hrest, heof⟩ := HlCall.run_of_loses hl
  obtain ⟨⟨m', hm', hin⟩, hno⟩ := hb.inMessage hf
  have hlen : m.payload.length = m'.payload.length := congrArg LlHeader.extlen hm'
  refine ⟨heof.trans hno, ?_⟩
  rw [hrest]
  refine hin.not_atBoundary (by decide) ?_
  rw [LlMessage.length_bytes]
  omega

theorem runHlCalls_append (hc : HlConn) (calls calls' : List HlCall) :
    runHlCalls hc (calls ++ calls') = runHlCalls (runHlCalls hc calls) calls' := List.foldl_append

/-- A run of calls that lose nothing. -/
theorem runHlCalls_onBoundary {hc : HlConn} (hb : OnBoundary ms hc.ll) (calls : List HlCall)
    (hl : ∀ pre call, pre ++ [call] <+: calls → ¬ call.Loses (runHlCalls hc pre)) :
    OnBoundary ms (runHlCalls hc calls).ll := by
  induction calls using List.reverseRecOn with
  | nil => exact hb
  | append_singleton calls call ih =>
    rw [runHlCalls_append]
    refine HlCall.run_onBoundary (ih fun pre call' hp => ?_) call (hl calls call List.prefix_rfl)
    exact hl pre call' (hp.trans (List.prefix_append _ _))

/-- **Framing**: after every call that does not meet the end of the input the connection is at a
message boundary, exactly when no call is asked to store a payload that is larger than its
buffer. -/
theorem framing_iff (hc : HlConn) (ms : List LlMessage) (hr : hc.ll.rest = encode LlMessage.bytes ms)
    (heof : hc.ll.eof = false) (calls : List HlCall) :
    (∀ pre call, pre ++ [call] <+: calls → (runHlCalls hc (pre ++ [call])).ll.eof = false →
      AtBoundary LlMessage.bytes ms [] (runHlCalls hc (pre ++ [call])).ll.rest) ↔
    ∀ pre call, pre ++ [call] <+: calls → ¬ call.Loses (runHlCalls hc pre) := by
  have hb : OnBoundary ms hc.ll :=
    ⟨⟨ms, List.suffix_rfl, by rw [hr, List.append_nil]⟩, fun h => by rw [heof] at h; cases h⟩
  constructor
  · intro hall pre
    induction hn : pre.length using Nat.strongRecOn generalizing pre with
    | _ n ih =>
      intro call hp hl
      have hpre : OnBoundary ms (runHlCalls hc pre).ll := by
        refine runHlCalls_onBoundary hb pre ?_
        intro pre' call' hp'
        have hlen := hp'.length_le
        rw [List.length_append, List.length_singleton] at hlen
        exact ih pre'.length (by omega) pre' rfl call'
          (hp'.trans ((List.prefix_append pre [call]).trans hp))
      obtain ⟨hno, hnot⟩ := HlCall.run_not_atBoundary hpre hl
      have := hall pre call hp
      rw [runHlCalls_append] at this
      exact hnot (this hno)
  · intro hl pre call hp _
    exact (runHlCalls_onBoundary hb (pre ++ [call]) fun pre' call' hp' =>
      hl pre' call' (hp'.trans hp)).pos

/-- Two channel names, and the answers to the logout and to the `NOP` behind it. -/
def twoNames : LlMessage where
  head := [0xb8, 0, 0, 0, 6] ++ List.replicate 27 0
  payload := [0x41, 0x26, 0x26, 0x42, 0x26, 0]
  length_head := rfl
  le32_head := by decide

def logoutReply : LlMessage where
  head := 0x0b :: List.replicate 31 0
  payload := []
  length_head := rfl
  le32_head := by decide

def logoutNopReply : LlMessage where
  head := llpHdNopReply :: List.replicate 31 0
  payload := []
  length_head := rfl
  le32_head := by decide

/-- A connection on which the three come. -/
def twoNamesConn : HlConn :=
  ⟨⟨encode LlMessage.bytes [twoNames, logoutReply, logoutNopReply], false, [true, true, true], [], []⟩,
    0⟩

theorem framing_iff_twoNames :
    AtBoundary LlMessage.bytes [twoNames, logoutReply, logoutNopReply] []
        (runHlCalls twoNamesConn [.getChannelNames (some [])]).ll.rest ∧
      AtBoundary LlMessage.bytes [twoNames, logoutReply, logoutNopReply] []
        (runHlCalls twoNamesConn [.getChannelNames (some []), .logout]).ll.rest := by
  have hnone : ∀ pre call, pre ++ [call] <+: [HlCall.getChannelNames (some []), .logout] →
      ¬ call.Loses (runHlCalls twoNamesConn pre) := by
    intro pre call hp
    cases pre with
    | nil =>
      obtain rfl : call = .getChannelNames (some []) := by simpa using hp
      rintro ⟨-, m, more, ⟨-, skipped, -, hr⟩, hlt⟩
      -- there are less than 513 bytes
      have hlen := congrArg List.length hr
      have hm := m.length_bytes
      have hrest : twoNamesConn.ll.rest.length = 102 := by decide
      have hsize : chnamesSize = 512 := rfl
      have hnil : runHlCalls twoNamesConn [] = twoNamesConn := rfl
      rw [hnil, hrest, List.length_append, List.length_append] at hlen
      omega
    | cons x pre =>
      obtain ⟨-, hp⟩ : x = .getChannelNames (some []) ∧ pre ++ [call] <+: [.logout] := by
        simpa using hp
      obtain rfl : call = .logout := by
        simpa using hp.subset (List.mem_append_right pre (List.mem_singleton_self call))
      exact id
  have hall := (framing_iff twoNamesConn [twoNames, logoutReply, logoutNopReply] rfl rfl _).mpr hnone
  refine ⟨hall [] _ (by simp) ?_, hall [.getChannelNames (some [])] _ (by simp) ?_⟩
  · decide +kernel
  · decide +kernel

/-- A list of channel names, one byte longer than the buffer for it. -/
def longNames : LlMessage where
  head := [0xb8, 0, 0, 0, 1, 2] ++ List.replicate 26 0
  payload := List.replicate 513 0x41
  length_head := rfl
  le32_head := by rw [List.length_replicate]; decide

/-- A connection on which it is the answer. -/
def namesConn : HlConn := ⟨⟨encode LlMessage.bytes [longNames], false, [true, true], [], []⟩, 0⟩

/-- The channel names are not read: the next header is taken from the middle of them. -/
theorem channel_names_left_behind :
    namesConn.ll.rest = encode LlMessage.bytes [longNames] ∧
      (runHlCalls namesConn [.getChannelNames (some [])]).ll.eof = false ∧
      ¬ AtBoundary LlMessage.bytes [longNames] []
        (runHlCalls namesConn [.getChannelNames (some [])]).ll.rest := by
  have hb : OnBoundary [longNames] namesConn.ll :=
    ⟨⟨[longNames], List.suffix_rfl, by rw [List.append_nil]; rfl⟩, nofun⟩
  have hf : FirstOf 0xb8 namesConn.ll.rest longNames [] := FirstOf.of_head (encode_cons longNames [])
  have hlt : chnamesSize < longNames.payload.length := by
    rw [longNames, List.length_replicate]
    decide
  have hs : namesConn.ll.sends[1]? = some true := rfl
  have hl : (HlCall.getChannelNames (some [])).Loses namesConn := by
    rw [HlCall.Loses]
    exact ⟨hs, longNames, [], hf, hlt⟩
  refine ⟨rfl, ?_⟩
  exact HlCall.run_not_atBoundary hb hl

end TaniDVR
