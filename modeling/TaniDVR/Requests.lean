import TaniDVR.Framing

/-!
# Requests — what the program writes to a connection

`SentFramed` says that the bytes written are whole packets, or, when a write has failed, the
beginning of such a sequence.  What reads a connection keeps it because `Conn.written` stays the
same; a request keeps it because its header, as it is sent, gives the length of its extra data
(`packet`).  A connection that fails once keeps failing.
-/

namespace TaniDVR

open Lib

/-! ### Packets -/

/-- The length field written is the one that is read. -/
theorem le32_btNV2LMU32 {n : ℕ} (hn : n < 2 ^ 32) {m : ℕ → UInt8}
    (hm : ∀ i < 4, m i = ofList (btNV2LMU32 n) i) : le32 m = n := by
  rw [le32, hm 0 (by omega), hm 1 (by omega), hm 2 (by omega), hm 3 (by omega)]
  simp only [ofList, btNV2LMU32, List.getD_cons_zero, List.getD_cons_succ, UInt8.toNat_ofNat',
    Nat.shiftRight_eq_div_pow]
  omega

theorem le32_packet {out : LlHeader} {payload : List UInt8} (hlen : out.extlen = payload.length)
    (hlt : payload.length < 2 ^ 32) :
    le32 (ofList (slice (blit out.raw 4 (btNV2LMU32 out.extlen)) 0 llpHeaderSize) <| 4 + ·) =
      payload.length := by
  refine le32_btNV2LMU32 hlt fun i hi => ?_
  have hi' : i < (btNV2LMU32 out.extlen).length := hi
  rw [ofList_slice (by rw [llpHeaderSize]; omega), Nat.zero_add, blit_add hi', ← ofList_of_lt hi',
    hlen]

/-- A packet as it is sent. -/
def packet (out : LlHeader) (payload : List UInt8) (hlen : out.extlen = payload.length)
    (hlt : payload.length < 2 ^ 32) : LlMessage where
  head := slice (blit out.raw 4 (btNV2LMU32 out.extlen)) 0 llpHeaderSize
  payload := payload
  length_head := length_slice _ _ _
  le32_head := le32_packet hlen hlt

/-- Outside the length field the header is sent as it is. -/
theorem packet_raw {out : LlHeader} {payload : List UInt8} (hlen : out.extlen = payload.length)
    (hlt : payload.length < 2 ^ 32) {i : ℕ} (hi : i < llpHeaderSize) (hi' : i < 4 ∨ 8 ≤ i) :
    (packet out payload hlen hlt).header.raw i = out.raw i := by
  have hraw : (packet out payload hlen hlt).header.raw i =
      blit out.raw 4 (btNV2LMU32 out.extlen) (0 + i) := ofList_slice hi
  rw [hraw, Nat.zero_add]
  rcases hi' with hi' | hi'
  · exact blit_of_lt hi'
  · exact blit_of_ge hi'

theorem mediaHeader_extlen (channel : ℕ) (subChannel : ℤ) :
    (mediaHeader channel subChannel).extlen = (mediaExtdata channel subChannel).length := by
  unfold mediaHeader
  split_ifs <;> rfl

theorem mediaExtdata_length_lt (channel : ℕ) (subChannel : ℤ) :
    (mediaExtdata channel subChannel).length < 2 ^ 32 := by
  unfold mediaExtdata
  split_ifs
  · simp
  · have := List.length_take_le 62 (textBytes ("ChannelName:" ++ toString channel ++ "\r\nStream:" ++
      toString subChannel ++ "\r\nOperate:1\r\nProtocol:tcp\r\n\r\n"))
    omega

/-- The media request as it is sent. -/
def mediaRequest (channel : ℕ) (subChannel : ℤ) : LlMessage :=
  packet (mediaHeader channel subChannel) (mediaExtdata channel subChannel)
    (mediaHeader_extlen channel subChannel) (mediaExtdata_length_lt channel subChannel)

/-! ### Reading writes nothing -/

/-- What was written, and the answers that are left. -/
def Conn.written (c : Conn) : List (List UInt8) × List Bool := (c.sent, c.sends)

variable {c c' : Conn} {hc : HlConn}

@[simp] theorem skip_written (c : Conn) (n : ℕ) : (c.skip n).written = c.written := rfl

@[simp] theorem llpGetHeader_written (c : Conn) : (llpGetHeader c).conn.written = c.written := by
  rw [llpGetHeader_conn, skip_written]

@[simp] theorem llpGetDiscardExtdata_written (c : Conn) (h : LlHeader) :
    (llpGetDiscardExtdata c h).2.written = c.written := by
  rw [llpGetDiscardExtdata_eq, skip_written]

@[simp] theorem llpGetExtdataSbuff_written (c : Conn) (h : LlHeader) (buflen : ℕ) :
    (llpGetExtdataSbuff c h buflen).conn.written = c.written := by
  by_cases hl : buflen < h.extlen
  · rw [llpGetExtdataSbuff_of_large hl]
  · rw [llpGetExtdataSbuff_conn (by omega), skip_written]

@[simp] theorem llpCheckIncomingData_written (c : Conn) :
    (llpCheckIncomingData c).2.written = c.written := by
  unfold llpCheckIncomingData
  split <;> rfl

@[simp] theorem hlpGetHeader_written (c : Conn) (cmd : UInt8) :
    (hlpGetHeader c cmd).conn.written = c.written := by
  fun_induction hlpGetHeader c cmd with
  | case1 c hr => exact llpGetHeader_written c
  | case2 c hr hcmd ih =>
    rw [ih, llpGetDiscardExtdata_written]
    exact llpGetHeader_written c
  | case3 c hr hcmd => exact llpGetHeader_written c

@[simp] theorem collectFrame_written (codes : CollectCodes) (hc : HlConn) (dest : Option ℕ) :
    (collectFrame codes hc dest).conn.ll.written = hc.ll.written := by
  unfold collectFrame
  cases dest with
  | none =>
    dsimp only
    split_ifs <;> simp
  | some maxLen =>
    dsimp only
    split_ifs <;> simp

@[simp] theorem collectReplies_written (c : Conn) (devinfo : Option Devinfo) :
    (collectReplies c devinfo).2.2.written = c.written := by
  fun_induction collectReplies c devinfo with
  | case1 c devinfo r hr => exact llpGetHeader_written c
  | case2 c devinfo r hr e he => simp [e, r]
  | case3 c devinfo r hr e he hnop => simp [e, r]
  | case4 c devinfo r hr e he hnop ih =>
    rw [ih]
    simp [e, r]

@[simp] theorem awaitAlarm_written (c : Conn) (out : LlHeader) (alarmType : UInt8) :
    (awaitAlarm c out alarmType).conn.written = c.written := by
  fun_induction awaitAlarm c out alarmType with
  | case1 c r hr => exact hlpGetHeader_written c 0x69
  | case2 c r hr hout ih =>
    rw [ih]
    simp [r]
  | case3 c r hr hout halarm hd => simp [r]
  | case4 c r hr hout halarm hd ih =>
    rw [ih]
    simp [r]
  | case5 c r hr hout halarm => exact hlpGetHeader_written c 0x69

@[simp] theorem discardIncoming_written (c : Conn) (i : ℤ) :
    (discardIncoming c i).2.written = c.written := by
  fun_induction discardIncoming c i with
  | case1 c i p hp => exact llpCheckIncomingData_written c
  | case2 c i p hp r hr => simp [r, p]
  | case3 c i p hp r hr d hd => simp [d, r, p]
  | case4 c i p hp r hr d hd ih =>
    rw [ih]
    simp [d, r, p]

@[simp] theorem discardNopReply_written (c : Conn) (issueNop : Bool) :
    (discardNopReply c issueNop).2.written = c.written := by
  unfold discardNopReply
  dsimp only
  split_ifs <;> simp

/-! ### Requests -/

/-- The cases of a write of some bytes. -/
theorem Conn.fwrite_cases (c : Conn) {bytes : List UInt8} (hne : bytes ≠ []) :
    c.sends = [] ∧ c.fwrite bytes = (false, c) ∨
    (∃ sends, c.sends = false :: sends ∧ c.fwrite bytes = (false, { c with sends := sends })) ∨
    ∃ sends, c.sends = true :: sends ∧
      c.fwrite bytes = (true, { c with sends := sends, sent := c.sent ++ [bytes] }) := by
  obtain ⟨b, bs, rfl⟩ := List.exists_cons_of_ne_nil hne
  unfold Conn.fwrite
  cases hs : c.sends with
  | nil => exact .inl ⟨rfl, rfl⟩
  | cons ok sends =>
    cases ok with
    | false => exact .inr (.inl ⟨sends, rfl, rfl⟩)
    | true => exact .inr (.inr ⟨sends, rfl, rfl⟩)

/-- The header as it is written. -/
theorem llpSendHeader_eq (c : Conn) (out : LlHeader) :
    llpSendHeader c out =
      (if (c.fwrite (slice (blit out.raw 4 (btNV2LMU32 out.extlen)) 0 llpHeaderSize)).1 then 0 else 1,
        (c.fwrite (slice (blit out.raw 4 (btNV2LMU32 out.extlen)) 0 llpHeaderSize)).2) := by
  unfold llpSendHeader
  dsimp only
  split_ifs <;> rfl

theorem llpSendExtdata_conn (c : Conn) (payload : List UInt8) :
    (llpSendExtdata c payload).2 = (c.fwrite payload).2 := by
  unfold llpSendExtdata
  dsimp only
  split_ifs <;> rfl

theorem head_ne_nil (raw : ℕ → UInt8) : slice raw 0 llpHeaderSize ≠ [] :=
  List.ne_nil_of_length_pos (by rw [length_slice, llpHeaderSize]; omega)

/-- The bytes written are whole packets, or the beginning of such, and then nothing is written any
more. -/
structure SentFramed (c : Conn) : Prop where
  breaks_once : c.sends.Pairwise fun a b => b = true → a = true
  framed : ∃ ms more, c.sent.flatten ++ more = encode LlMessage.bytes ms ∧
    (more ≠ [] → ∀ ok ∈ c.sends, ok = false)

namespace SentFramed

/-- A connection that was only read. -/
theorem of_written (h : SentFramed c) (hw : c'.written = c.written) : SentFramed c' := by
  obtain ⟨hsent, hsends⟩ := Prod.ext_iff.mp hw
  dsimp only [Conn.written] at hsent hsends
  refine ⟨hsends ▸ h.breaks_once, ?_⟩
  rw [hsent, hsends]
  exact h.framed

/-- After a write that fails nothing is written any more. -/
theorem fwrite_failed (h : SentFramed c) {bytes : List UInt8} (hne : bytes ≠ [])
    (hf : (c.fwrite bytes).1 = false) :
    SentFramed (c.fwrite bytes).2 ∧ ∀ ok ∈ (c.fwrite bytes).2.sends, ok = false := by
  rcases c.fwrite_cases hne with ⟨hs, he⟩ | ⟨sends, hs, he⟩ | ⟨sends, hs, he⟩
  · rw [he]
    exact ⟨h, by simp [hs]⟩
  · rw [he]
    obtain ⟨ms, more, hms, hmore⟩ := h.framed
    have hb := h.breaks_once
    rw [hs, List.pairwise_cons] at hb
    have hall : ∀ ok ∈ sends, ok = false := fun ok hok => by simpa using hb.1 ok hok
    exact ⟨⟨hb.2, ms, more, hms, fun _ => hall⟩, hall⟩
  · rw [he] at hf
    cases hf

/-- A header that is not sent. -/
theorem header_failed (h : SentFramed c) {out : LlHeader} (hr : (llpSendHeader c out).1 ≠ 0) :
    SentFramed (llpSendHeader c out).2 ∧ ∀ ok ∈ (llpSendHeader c out).2.sends, ok = false := by
  rw [llpSendHeader_eq] at hr ⊢
  refine h.fwrite_failed (head_ne_nil _) ?_
  by_contra hok
  exact hr (if_pos (by simpa using hok))

/-- The extra data after a header that was not sent. -/
theorem extdata_failed (h : SentFramed c) (hall : ∀ ok ∈ c.sends, ok = false) (payload : List UInt8) :
    SentFramed (llpSendExtdata c payload).2 := by
  rw [llpSendExtdata_conn]
  by_cases hp : payload = []
  · subst hp
    exact h
  · refine (h.fwrite_failed hp ?_).1
    rcases c.fwrite_cases hp with ⟨-, he⟩ | ⟨sends, -, he⟩ | ⟨sends, hs, -⟩
    · rw [he]
    · rw [he]
    · have := hall true (by simp [hs])
      cases this

/-- The extra data of a header that was sent. -/
theorem extdata_of_header {ms : List LlMessage} {out : LlHeader}
    {payload : List UInt8} (hlen : out.extlen = payload.length) (hlt : payload.length < 2 ^ 32)
    (hms : c.sent.flatten = encode LlMessage.bytes ms ++
      slice (blit out.raw 4 (btNV2LMU32 out.extlen)) 0 llpHeaderSize)
    (hb : c.sends.Pairwise fun a b => b = true → a = true) :
    SentFramed (llpSendExtdata c payload).2 := by
  rw [llpSendExtdata_conn]
  have hnext : encode LlMessage.bytes (ms ++ [TaniDVR.packet out payload hlen hlt]) =
      c.sent.flatten ++ payload := by
    rw [encode_append, encode_cons, encode_nil, List.append_nil, hms, List.append_assoc]
    rfl
  by_cases hp : payload = []
  · subst hp
    exact ⟨hb, _, [], hnext.symm, fun hno => absurd rfl hno⟩
  · rcases c.fwrite_cases hp with ⟨hs, he⟩ | ⟨sends, hs, he⟩ | ⟨sends, hs, he⟩
    · rw [he]
      exact ⟨hb, _, payload, hnext.symm, by simp [hs]⟩
    · rw [he]
      rw [hs, List.pairwise_cons] at hb
      exact ⟨hb.2, _, payload, hnext.symm, fun _ ok hok => by simpa using hb.1 ok hok⟩
    · rw [he]
      rw [hs, List.pairwise_cons] at hb
      have hsent : (c.sent ++ [payload]).flatten ++ [] =
          encode LlMessage.bytes (ms ++ [TaniDVR.packet out payload hlen hlt]) := by
        rw [hnext, List.append_nil, List.flatten_append, List.flatten_singleton]
      exact ⟨hb.2, _, [], hsent, fun hno => absurd rfl hno⟩

/-- **A request** is one packet more, or the last thing that is written. -/
theorem packet (h : SentFramed c) {out : LlHeader} {payload : List UInt8}
    (hlen : out.extlen = payload.length) (hlt : payload.length < 2 ^ 32) :
    SentFramed (llpSendExtdata (llpSendHeader c out).2 payload).2 := by
  by_cases hr : (llpSendHeader c out).1 ≠ 0
  · obtain ⟨h1, hall⟩ := h.header_failed hr
    exact h1.extdata_failed hall payload
  · rw [llpSendHeader_eq] at hr ⊢
    dsimp only at hr ⊢
    rcases c.fwrite_cases (head_ne_nil (blit out.raw 4 (btNV2LMU32 out.extlen))) with
      ⟨-, he⟩ | ⟨sends, -, he⟩ | ⟨sends, hs, he⟩
    · rw [he] at hr
      exact absurd hr (by simp)
    · rw [he] at hr
      exact absurd hr (by simp)
    · rw [he]
      obtain ⟨ms, more, hms, hmore⟩ := h.framed
      have hb := h.breaks_once
      have hnil : more = [] := by
        by_contra hne
        have := hmore hne true (by simp [hs])
        cases this
      rw [hs, List.pairwise_cons] at hb
      rw [hnil, List.append_nil] at hms
      have hsent : (c.sent ++ [slice (blit out.raw 4 (btNV2LMU32 out.extlen)) 0
          llpHeaderSize]).flatten = encode LlMessage.bytes ms ++
            slice (blit out.raw 4 (btNV2LMU32 out.extlen)) 0 llpHeaderSize := by
        rw [List.flatten_append, List.flatten_singleton, hms]
      exact extdata_of_header hlen hlt hsent hb.2

/-- A request without extra data. -/
theorem header (h : SentFramed c) {out : LlHeader} (hout : out.extlen = 0) :
    SentFramed (llpSendHeader c out).2 := by
  have hlen : out.extlen = ([] : List UInt8).length := hout
  exact h.packet hlen (by decide)

theorem nop (h : SentFramed c) : SentFramed (llpSendNop c).2 := h.header rfl

/-! ### The operations -/

theorem requestAndDiscard (h : SentFramed hc.ll) {out : LlHeader} {extdata : List UInt8}
    (hlen : out.extlen = extdata.length) (hlt : extdata.length < 2 ^ 32) (replyCmd : UInt8) :
    SentFramed (requestAndDiscard hc out extdata replyCmd).conn.ll := by
  have hp := h.packet hlen hlt
  unfold TaniDVR.requestAndDiscard
  dsimp only
  split_ifs with hs
  · exact (h.header_failed hs).1
  · exact hp.of_written (by simp)
  · exact hp.of_written (by simp)
  · exact hp.of_written (by simp)

theorem getHeaderAndExtdata (h : SentFramed c) (cmd : UInt8) (issueNop : Bool) (buflen : Option ℕ) :
    SentFramed (hlpGetHeaderAndExtdata c cmd issueNop buflen).conn := by
  have hn : SentFramed (if issueNop = true then (llpSendNop c).2 else c) := by
    split_ifs
    · exact h.nop
    · exact h
  unfold hlpGetHeaderAndExtdata
  generalize (if issueNop = true then (llpSendNop c).2 else c) = c' at hn ⊢
  refine hn.of_written ?_
  cases buflen with
  | none =>
    dsimp only
    split_ifs <;> simp
  | some buflen =>
    dsimp only
    split_ifs <;> simp

theorem login (h : SentFramed hc.ll) (devinfo : Option Devinfo) (user passwd : List UInt8) :
    SentFramed (hlpLogin hc devinfo user passwd).conn.ll := by
  unfold hlpLogin
  dsimp only
  by_cases hlen : user.length + passwd.length > maxUserPasswdLen
  · rw [if_pos hlen]
    exact h
  · rw [if_neg hlen]
    rw [maxUserPasswdLen] at hlen
    have hp : SentFramed (llpSendExtdata (llpSendHeader hc.ll (loginHeader user passwd)).2
        (loginExtdata user passwd)).2 := by
      refine h.packet ?_ ?_
      · simp only [loginHeader, loginExtdata, LlHeader.set]
        split_ifs <;> rfl
      · unfold loginExtdata
        split_ifs
        · exact (by decide : 0 < 2 ^ 32)
        · simp only [List.length_append, List.length_cons, List.length_nil]
          omega
    split_ifs <;> exact hp.of_written (by simp)

theorem logout (h : SentFramed hc.ll) : SentFramed (hlpLogout hc).conn.ll :=
  (h.header rfl).getHeaderAndExtdata 0x0b true none

theorem collectFrame (h : SentFramed hc.ll) (codes : CollectCodes) (dest : Option ℕ) :
    SentFramed (collectFrame codes hc dest).conn.ll := h.of_written (by simp)

/-- The control connection of a media request. -/
theorem mediaDataRequest (h : SentFramed hc.ll) (data : HlConn) (channel : ℕ) (subChannel : ℤ)
    (dest : Option ℕ) :
    SentFramed (hlpMediaDataRequest hc data channel subChannel dest).ctrl.ll := by
  have hp := h.packet (mediaHeader_extlen channel subChannel)
    (mediaExtdata_length_lt channel subChannel)
  unfold hlpMediaDataRequest
  dsimp only
  split_ifs with hs
  · exact (h.header_failed hs).1
  · exact hp
  · exact hp

theorem getSystemInformation (h : SentFramed hc.ll) (devinfo : Option Devinfo)
    (infotype bitstream : UInt8) :
    SentFramed (hlpGetSystemInformation hc devinfo infotype bitstream).conn.ll := by
  have hp : SentFramed (llpSendHeader hc.ll
      (((llpInitHeader.set 0 0xa4).set 8 infotype).set 12 bitstream)).2 := h.header rfl
  unfold hlpGetSystemInformation
  dsimp only
  split_ifs
  · exact hp
  · exact hp.of_written (by simp)
  · exact hp.of_written (by simp)
  · exact hp.of_written (by simp)

theorem sendInfoRequests (h : SentFramed c) (infotype count : ℕ) :
    SentFramed (sendInfoRequests c infotype count).2 := by
  induction count generalizing c infotype with
  | zero => exact h
  | succ count ih =>
    have hp : SentFramed (llpSendHeader c ((llpInitHeader.set 0 0xa4).set 8 (UInt8.ofNat infotype))).2 :=
      h.header rfl
    rw [TaniDVR.sendInfoRequests]
    split_ifs
    · exact hp
    · exact ih hp _

theorem getSystemInformationMultiple (h : SentFramed hc.ll) (devinfo : Option Devinfo)
    (firstInfotype : UInt8) (totalInfotype : ℤ) :
    SentFramed
      (hlpGetSystemInformationMultiple hc devinfo firstInfotype totalInfotype).conn.ll := by
  have hp := h.sendInfoRequests firstInfotype.toNat totalInfotype.toNat
  unfold hlpGetSystemInformationMultiple
  dsimp only
  split_ifs
  · exact hp
  · exact hp.nop
  · exact hp.nop.of_written (by simp)

theorem setAlarm (h : SentFramed hc.ll) (alarmType : UInt8) :
    SentFramed (hlpSetAlarm hc alarmType).conn.ll := by
  have hp : SentFramed (llpSendHeader hc.ll
      (((llpInitHeader.set 0 0x68).set 8 2).set 12 alarmType)).2 := h.header rfl
  unfold hlpSetAlarm
  dsimp only
  split_ifs
  · exact hp
  · exact hp.of_written (by simp)
  · exact hp.of_written (by simp)
  · exact hp.of_written (by simp)

/-- `hlp_get_channel_names` sends its header twice. -/
theorem getChannelNames (h : SentFramed hc.ll) (outstr : Option (List UInt8)) :
    SentFramed (hlpGetChannelNames hc outstr).conn.ll := by
  cases outstr with
  | none => exact h
  | some outstr =>
    have hfirst : SentFramed (llpSendHeader hc.ll (llpInitHeader.set 0 0xa8)).2 := h.header rfl
    have hp : SentFramed (llpSendHeader (llpSendHeader hc.ll (llpInitHeader.set 0 0xa8)).2
        ((llpInitHeader.set 0 0xa8).set 8 1)).2 := hfirst.header rfl
    unfold hlpGetChannelNames
    dsimp only
    split_ifs
    · exact hp
    · exact hp.of_written (by simp)
    · exact hp.of_written (by simp)
    · exact hp.of_written (by simp)

theorem discardIncomingData (h : SentFramed hc.ll) :
    SentFramed (hlpDiscardIncomingData hc).conn.ll := h.of_written (discardIncoming_written _ _)

end SentFramed

/-- The extension string has a length that its header can hold. -/
def HlCall.Sendable : HlCall → Prop
  | sendExtensionString extstr => extstr.length < 2 ^ 32
  | _ => True

/-- **Every call writes packets**, whatever it reads and returns. -/
theorem HlCall.run_sentFramed (h : SentFramed hc.ll) {call : HlCall} (hs : call.Sendable) :
    SentFramed (call.run hc).conn.ll := by
  cases call with
  | login devinfo user passwd => exact h.login devinfo user passwd
  | logout => exact h.logout
  | mediaDataRequest ctrl channel subChannel dest =>
    show SentFramed (hlpMediaDataRequest ctrl hc channel subChannel dest).conn.ll
    unfold hlpMediaDataRequest
    dsimp only
    split_ifs
    · exact h
    · exact h
    · exact h.collectFrame _ dest
  | collectMediaData dest => exact h.collectFrame _ dest
  | sendExtensionString extstr => exact h.requestAndDiscard rfl hs _
  | getWorkAlarmStatus => exact h.requestAndDiscard rfl (by decide) _
  | getSystemInformation devinfo infotype bitstream =>
    exact h.getSystemInformation devinfo infotype bitstream
  | getSystemInformationMultiple devinfo firstInfotype totalInfotype =>
    exact h.getSystemInformationMultiple devinfo firstInfotype totalInfotype
  | getMediaCapability infotype => exact h.requestAndDiscard rfl (by decide) _
  | getConfigParameter infotype => exact h.requestAndDiscard rfl (by decide) _
  | setAlarm alarmType => exact h.setAlarm alarmType
  | getChannelNames outstr => exact h.getChannelNames outstr
  | getHeaderAndExtdata expectedCmd issueNop buflen =>
    exact h.getHeaderAndExtdata expectedCmd issueNop buflen
  | discardIncomingData => exact h.discardIncomingData

end TaniDVR
