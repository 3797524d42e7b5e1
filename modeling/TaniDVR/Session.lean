import TaniDVR.MediaStream
import TaniDVR.Requests
import TaniDVR.SystemInfo

/-!
# Session — sessions of `dvrcontrol.c` from their first byte

`openSession` and `MediaStream.setUp` are what `open_session` and `stream_media_dvr_to_pipe` do on
fresh connections, in both dialects; `closeSession` is `close_session`.  `hlp_open` is the
environment's: it connects or not, and the answers of the peer are in the connection.  A session
that cannot be set up returns, and nothing is said of it here.

A session keeps in step with its peer (`session_in_step`): whatever the peer sends, both connections
are read up to message boundaries and written in whole packets, in every state of every run.
-/

namespace TaniDVR

open Lib

/-- `dvrcontrol_t`, as far as a session reads it. -/
structure SessionParms extends Dvrcontrol where
  user : List UInt8
  passwd : List UInt8
  netProtocolDialect : ℕ

/-- What `hlp_open` does: whether it connects, and the connection. -/
structure HlOpen where
  connects : Bool
  conn : HlConn

/-- The header of the relationship request. -/
def relationshipHeader (uniqueLoginSymbol : ℕ) (reqtype reqchnumber : UInt8) : LlHeader :=
  let out := llpInitHeader.set 0 0xf1
  let out := { out with raw := blit out.raw 8 (btNV2LMU32 uniqueLoginSymbol) }
  ((out.set 12 reqtype).set 13 (reqchnumber + 1)).set 17 0

/-- `hlp_connection_relationship`: no reply is awaited. -/
def hlpConnectionRelationship (orig new : HlConn) (reqtype reqchnumber : UInt8) : Reply :=
  let s := llpSendHeader new.ll
    (relationshipHeader orig.uniqueLoginSymbol reqtype reqchnumber)
  ⟨if s.1 ≠ 0 then 4 else 0, { new with ll := s.2 }⟩

/-- The requests with which the OEM client begins a session. -/
inductive Chat
  | workAlarmStatus
  | sysinfo (code bstr : UInt8)
  | mediacap (code : UInt8)
  | confparm (code : UInt8)
  | extensionString (extstr : List UInt8)
  | setalarm (code : UInt8)

/-- A request; what it returns is only logged. -/
def Chat.run (devinfo : Option Devinfo) (conn : HlConn) : Chat → Option Devinfo × HlConn
  | workAlarmStatus => (devinfo, (hlpGetWorkAlarmStatus conn).conn)
  | sysinfo code bstr =>
    let r := hlpGetSystemInformation conn devinfo code bstr
    (r.devinfo, r.conn)
  | mediacap code => (devinfo, (hlpGetMediaCapability conn code).conn)
  | confparm code => (devinfo, (hlpGetConfigParameter conn code).conn)
  | extensionString extstr => (devinfo, (hlpSendExtensionString conn extstr).conn)
  | setalarm code => (devinfo, (hlpSetAlarm conn code).conn)

/-- The requests of dialect 1. -/
def oemChat : List Chat :=
  [.workAlarmStatus, .sysinfo 1 0, .sysinfo 7 0, .sysinfo 2 0, .mediacap 0, .mediacap 1,
    .confparm 0x10, .sysinfo 0x20 0, .sysinfo 0x04 0xff,
    .extensionString (textBytes ("TransactionID:1\r\nMethod:GetParameterNames\r\n" ++
      "ParameterName:Dahua.Device.VideoOut.General\r\n\r\n")),
    .sysinfo 0x0a 0, .sysinfo 2 0] ++
  [0x01, 0x02, 0x03, 0x04, 0x05, 0x06, 0x07, 0x08, 0x09, 0x0a, 0x0b, 0x0c, 0x0d, 0x0e, 0x0f, 0x10,
    0x12, 0x13, 0x14, 0x9c, 0xa1, 0xa2].map .setalarm ++
  (List.range 40).map (fun j => .sysinfo (UInt8.ofNat j) 0) ++ [.workAlarmStatus]

/-- What `open_session` returns and leaves. -/
structure SessionReply where
  ret : ℤ
  devinfo : Option Devinfo
  conn : HlConn

/-- `open_session`. -/
def openSession (opened : HlOpen) (devinfo : Option Devinfo) (dvrctl : SessionParms) :
    SessionReply :=
  if ¬ opened.connects then ⟨1, devinfo, opened.conn⟩
  else
    let l := hlpLogin opened.conn devinfo dvrctl.user dvrctl.passwd
    if l.ret ≠ 0 then ⟨1, l.devinfo, l.conn⟩
    else if dvrctl.netProtocolDialect = 0 then
      let r := hlpGetSystemInformationMultiple l.conn l.devinfo 0 256
      ⟨0, r.devinfo, r.conn⟩
    else
      let r := oemChat.foldl (fun s c => c.run s.1 s.2) (l.devinfo, l.conn)
      ⟨0, r.1, r.2⟩

/-- `close_session`, up to the closing of the connection. -/
def closeSession (conn : HlConn) : Reply :=
  let r := hlpLogout conn
  ⟨if r.ret ≠ 0 then 1 else 0, r.conn⟩

/-- `stream_media_dvr_to_pipe` up to the media request; `chipset` is what `di_init` leaves. -/
def MediaStream.setUp (dvrctl : SessionParms) (chipset : List UInt8) (control stream : HlOpen) :
    Except ℤ MediaStream :=
  let s := openSession control (some (diInit chipset)) dvrctl
  if s.ret ≠ 0 then .error 4
  else if ¬ stream.connects then .error 1
  else
    let r := hlpConnectionRelationship s.conn stream.conn 1 (UInt8.ofNat dvrctl.channel)
    if r.ret ≠ 0 then .error 2 else .ok (.start s.conn r.conn)

/-! ### In step with the peer -/

/-- A connection is read up to a boundary of the peer's messages, and written in whole packets. -/
structure ConnInStep (ms : List LlMessage) (c : HlConn) : Prop where
  read : OnBoundary ms c.ll
  written : SentFramed c.ll

/-- Both connections of a session are in step. -/
structure InStep (msControl msStream : List LlMessage) (s : MediaStream) : Prop where
  control : ConnInStep msControl s.control
  stream : ConnInStep msStream s.stream

/-- A connection that was just opened to a peer that sends whole messages. -/
structure Fresh (ms : List LlMessage) (o : HlOpen) : Prop where
  rest : o.conn.ll.rest = encode LlMessage.bytes ms
  eof : o.conn.ll.eof = false
  sent : o.conn.ll.sent = []
  breaks_once : o.conn.ll.sends.Pairwise fun a b => b = true → a = true

variable {ms msControl msStream : List LlMessage} {c : HlConn} {s : MediaStream}

theorem Fresh.inStep {o : HlOpen} (h : Fresh ms o) : ConnInStep ms o.conn where
  read := by
    refine ⟨⟨ms, List.suffix_rfl, by rw [h.rest, List.append_nil]⟩, fun he => ?_⟩
    rw [h.eof] at he
    cases he
  written := ⟨h.breaks_once, [], [], by simp [h.sent], fun hno => absurd rfl hno⟩

namespace ConnInStep

/-- A call that does not lose the payload of a message. -/
theorem call (h : ConnInStep ms c) (call : HlCall) (hl : ¬ call.Loses c) (hs : call.Sendable) :
    ConnInStep ms (call.run c).conn :=
  ⟨HlCall.run_onBoundary h.read call hl, HlCall.run_sentFramed h.written hs⟩

theorem batch (h : ConnInStep ms c) (devinfo : Option Devinfo) (firstInfotype : UInt8)
    (totalInfotype : ℤ) :
    ConnInStep ms (hlpGetSystemInformationMultiple c devinfo firstInfotype totalInfotype).conn :=
  h.call (.getSystemInformationMultiple devinfo firstInfotype totalInfotype) id trivial

theorem relationship (h : ConnInStep ms c) (orig : HlConn) (reqtype reqchnumber : UInt8) :
    ConnInStep ms (hlpConnectionRelationship orig c reqtype reqchnumber).conn :=
  ⟨h.read.sendHeader _, h.written.header rfl⟩

theorem chat (h : ConnInStep ms c) (devinfo : Option Devinfo) {q : Chat}
    (hq : ∀ extstr, q = .extensionString extstr → extstr.length < 2 ^ 32) :
    ConnInStep ms (q.run devinfo c).2 := by
  cases q with
  | workAlarmStatus => exact h.call .getWorkAlarmStatus id trivial
  | sysinfo code bstr => exact h.call (.getSystemInformation devinfo code bstr) id trivial
  | mediacap code => exact h.call (.getMediaCapability code) id trivial
  | confparm code => exact h.call (.getConfigParameter code) id trivial
  | extensionString extstr => exact h.call (.sendExtensionString extstr) id (hq extstr rfl)
  | setalarm code => exact h.call (.setAlarm code) id trivial

theorem chats (h : ConnInStep ms c) (devinfo : Option Devinfo) {qs : List Chat}
    (hq : ∀ extstr, .extensionString extstr ∈ qs → extstr.length < 2 ^ 32) :
    ConnInStep ms (qs.foldl (fun s q => q.run s.1 s.2) (devinfo, c)).2 := by
  induction qs generalizing devinfo c with
  | nil => exact h
  | cons q qs ih =>
    refine ih (h.chat devinfo fun extstr he => hq extstr (by simp [he])) _ ?_
    exact fun extstr he => hq extstr (by simp [he])

theorem oemChat_strings : ∀ extstr, Chat.extensionString extstr ∈ oemChat → extstr.length < 2 ^ 32 := by
  intro extstr he
  simp only [oemChat, List.mem_append, List.mem_cons, List.mem_map, List.not_mem_nil,
    reduceCtorEq, Chat.extensionString.injEq, and_false, exists_false, or_false, false_or] at he
  subst he
  decide +kernel

theorem openSession {opened : HlOpen} (h : ConnInStep ms opened.conn) (devinfo : Option Devinfo)
    (dvrctl : SessionParms) : ConnInStep ms (openSession opened devinfo dvrctl).conn := by
  have hlogin : ConnInStep ms (hlpLogin opened.conn devinfo dvrctl.user dvrctl.passwd).conn :=
    h.call (.login devinfo dvrctl.user dvrctl.passwd) id trivial
  unfold TaniDVR.openSession
  by_cases hopen : ¬ opened.connects
  · rw [if_pos hopen]
    exact h
  rw [if_neg hopen]
  generalize hlpLogin opened.conn devinfo dvrctl.user dvrctl.passwd = l at hlogin ⊢
  have hchats := fun devinfo => hlogin.chats devinfo oemChat_strings
  generalize oemChat = qs at hchats ⊢
  dsimp only
  split_ifs
  · exact hlogin
  · exact hlogin.batch l.devinfo 0 256
  · exact hchats l.devinfo

theorem closeSession (h : ConnInStep ms c) : ConnInStep ms (closeSession c).conn :=
  h.call .logout id trivial

end ConnInStep

/-- The set-up of a session keeps both connections in step. -/
theorem InStep.setUp {dvrctl : SessionParms} {chipset : List UInt8} {control stream : HlOpen}
    (hc : Fresh msControl control) (hs : Fresh msStream stream)
    (h : MediaStream.setUp dvrctl chipset control stream = .ok s) : InStep msControl msStream s := by
  unfold MediaStream.setUp at h
  dsimp only at h
  split_ifs at h
  cases h
  exact ⟨hc.inStep.openSession _ dvrctl, hs.inStep.relationship _ _ _⟩

namespace InStep

theorem write (h : InStep msControl msStream s) (e : StreamEvent) (frame : List UInt8)
    (next : StreamPc) : InStep msControl msStream (s.write e frame next) := by
  unfold MediaStream.write
  split
  · exact ⟨h.control, h.stream⟩
  · exact ⟨h.control, h.stream⟩

/-- **One turn** keeps both connections in step. -/
theorem step (h : InStep msControl msStream s) (dvrctl : Dvrcontrol) (e : StreamEvent) :
    InStep msControl msStream (s.step dvrctl e) := by
  obtain ⟨hc, hs⟩ := h
  unfold MediaStream.step
  cases hpc : s.pc with
  | request =>
    have hctrl : ConnInStep msControl (hlpMediaDataRequest s.control s.stream dvrctl.channel
        dvrctl.subChannel (some streamBufferLen)).ctrl := by
      refine ⟨hc.read.of_eq ?_ ?_, hc.written.mediaDataRequest _ _ _ _⟩
      · unfold hlpMediaDataRequest
        dsimp only
        split_ifs <;> simp
      · unfold hlpMediaDataRequest
        dsimp only
        split_ifs <;> simp
    have hstream := hs.call (.mediaDataRequest s.control dvrctl.channel dvrctl.subChannel
      (some streamBufferLen)) id trivial
    dsimp only
    split_ifs
    · exact ⟨hctrl, hstream⟩
    · exact write (s := { s with control := _, stream := _ }) ⟨hctrl, hstream⟩ e _ _
  | wait => exact ⟨hc, hs⟩
  | collect =>
    have hpoll : ConnInStep msStream { s.stream with ll := (llpCheckIncomingData s.stream.ll).2 } :=
      ⟨hs.read.poll, hs.written.of_written (by simp)⟩
    have hcollect : ConnInStep msStream (hlpCollectMediaData
        { s.stream with ll := (llpCheckIncomingData s.stream.ll).2 } (some streamBufferLen)).conn :=
      hpoll.call (.collectMediaData (some streamBufferLen)) id trivial
    dsimp only
    generalize hlpCollectMediaData { s.stream with ll := (llpCheckIncomingData s.stream.ll).2 }
      (some streamBufferLen) = r at hcollect ⊢
    by_cases hp : (llpCheckIncomingData s.stream.ll).1 > 0
    · rw [if_pos hp]
      by_cases hr : r.ret ≠ 0
      · rw [if_pos hr]
        exact ⟨hc, hcollect⟩
      · rw [if_neg hr]
        exact write (s := { s with stream := r.conn }) ⟨hc, hcollect⟩ e _ _
    · rw [if_neg hp]
      exact ⟨hc, hpoll⟩
  | discard =>
    exact ⟨hc.call .discardIncomingData id trivial, hs⟩
  | timers =>
    have halive := hc.call .getWorkAlarmStatus id trivial
    dsimp only
    split_ifs
    all_goals first | exact ⟨halive, hs⟩ | exact ⟨hc, hs⟩
  | returned ret => exact ⟨hc, hs⟩

theorem run (h : InStep msControl msStream s) (dvrctl : Dvrcontrol) (events : List StreamEvent) :
    InStep msControl msStream (s.run dvrctl events) := by
  induction events generalizing s with
  | nil => exact h
  | cons e events ih => exact ih (h.step dvrctl e)

end InStep

/-! ### A peer that answers -/

theorem llpSendExtdata_sends (c : Conn) (payload : List UInt8) :
    (llpSendExtdata c payload).2.sends = if payload = [] then c.sends else c.sends.tail := by
  unfold llpSendExtdata Conn.fwrite
  cases payload with
  | nil => rfl
  | cons b bs =>
    cases hs : c.sends with
    | nil => simp [hs]
    | cons ok sends => cases ok <;> rfl

/-- **The login** ends at the first reply to it; one that accepts gives the session its symbol. -/
theorem hlpLogin_of_reply {h : HlConn} (devinfo : Option Devinfo) {user passwd : List UInt8}
    {m : LlMessage} {more : List UInt8} (hcred : user.length + passwd.length ≤ maxUserPasswdLen)
    (hf : FirstOf 0xb0 h.ll.rest m more) (haccept : m.header.raw 8 = 0) :
    ∃ ll, hlpLogin h devinfo user passwd =
        ⟨0, devinfo.map fun d => loginDevinfo d m.header,
          ⟨ll, le32 fun i => m.header.raw (16 + i)⟩⟩ ∧
      ll.rest = more ∧ ∃ k ≤ 2, ll.sends = h.ll.sends.drop k := by
  have hfirst : FirstOf 0xb0 (llpSendExtdata (llpSendHeader h.ll (loginHeader user passwd)).2
      (loginExtdata user passwd)).2.rest m more := by
    simpa using hf
  have hsends : ∃ k ≤ 2, (llpSendExtdata (llpSendHeader h.ll (loginHeader user passwd)).2
      (loginExtdata user passwd)).2.sends = h.ll.sends.drop k := by
    rw [llpSendExtdata_sends, llpSendHeader_sends]
    split_ifs
    · exact ⟨1, by omega, by simp⟩
    · exact ⟨2, le_rfl, by rw [← List.drop_one, ← List.drop_one, List.drop_drop]⟩
  unfold hlpLogin
  rw [if_neg (by omega)]
  dsimp only
  generalize (llpSendExtdata (llpSendHeader h.ll (loginHeader user passwd)).2
    (loginExtdata user passwd)).2 = c at hfirst hsends ⊢
  rw [hlpGetHeader_of_first hfirst, if_neg (by simp)]
  dsimp only
  rw [llpGetDiscardExtdata_of_message rfl, if_neg (by simpa using haccept), toUint32_btLM2NVU32]
  exact ⟨_, rfl, rfl, hsends⟩

/-- **The batch query** that is answered up to its `NOP`. -/
theorem batch_of_replies (hc : HlConn) (d : Devinfo) (firstInfotype : UInt8) {totalInfotype : ℤ}
    {replies : List LlMessage} {nop : LlMessage} {later : List UInt8}
    (hsent : ∀ i < totalInfotype.toNat + 1, hc.ll.sends[i]? = some true)
    (hr : hc.ll.rest = encode LlMessage.bytes (replies ++ [nop]) ++ later)
    (hn : nop.cmd = llpHdNopReply) (hcmd : ∀ m ∈ replies, m.cmd ≠ llpHdNopReply)
    (hl : ∀ m ∈ replies ++ [nop], m.payload.length ≤ sysinfoEdLen) :
    ∃ ll, hlpGetSystemInformationMultiple hc (some d) firstInfotype totalInfotype =
        ⟨0, some (replies.foldl (fun d m => updateDevinfo d m.payload m.header) d),
          ⟨ll, hc.uniqueLoginSymbol⟩⟩ ∧ ll.rest = later := by
  obtain ⟨h1, h2, h3⟩ := sendInfoRequests_of_sends (c := hc.ll) firstInfotype.toNat
    totalInfotype.toNat fun i hi => hsent i (by omega)
  unfold hlpGetSystemInformationMultiple
  generalize sendInfoRequests hc.ll firstInfotype.toNat totalInfotype.toNat = q at h1 h2 h3 ⊢
  have hnop : (llpSendNop q.2).1 = 0 := by
    rw [llpSendNop, llpSendHeader_ret, h3, if_pos]
    rw [List.head?_drop]
    exact hsent _ (by omega)
  have hrest : (llpSendNop q.2).2.rest = encode LlMessage.bytes (replies ++ [nop]) ++ later := by
    rw [llpSendNop_rest, h2, hr]
  rw [if_neg (by simpa using h1), if_neg (by simpa using hnop),
    collectReplies_of_replies hrest hn hcmd hl]
  exact ⟨_, rfl, rfl⟩

/-- The messages of a DVR that accepts the login and answers the batch query. -/
structure Answers (ms : List LlMessage) (login : LlMessage) (replies : List LlMessage) : Prop where
  split : ∃ spurious nop, ms = spurious ++ login :: replies ++ [nop] ∧
    (∀ m ∈ spurious, m.cmd ≠ 0xb0) ∧ nop.cmd = llpHdNopReply ∧ nop.payload.length ≤ sysinfoEdLen
  login_cmd : login.cmd = 0xb0
  accepts : login.header.raw 8 = 0
  replies_cmd : ∀ m ∈ replies, m.cmd ≠ llpHdNopReply
  replies_len : ∀ m ∈ replies, m.payload.length ≤ sysinfoEdLen

/-- What `open_session` and the set-up of the stream leave. -/
structure SetUp (dvrctl : SessionParms) (login : LlMessage) (later : List UInt8) (stream : HlOpen)
    (s : MediaStream) : Prop where
  pc : s.pc = .request
  control_rest : s.control.ll.rest = later
  symbol : s.control.uniqueLoginSymbol = le32 fun i => login.header.raw (16 + i)
  stream_rest : s.stream.ll.rest = stream.conn.ll.rest
  tied : ∃ request : LlMessage, s.stream.ll.sent = stream.conn.ll.sent ++ [request.bytes] ∧
    request.cmd = 0xf1 ∧ request.payload = [] ∧
    (∀ i < 4, request.header.raw (8 + i) = login.header.raw (16 + i)) ∧
    request.header.raw 12 = 1 ∧ request.header.raw 13 = UInt8.ofNat dvrctl.channel + 1

/-- The bytes of a value that was read. -/
theorem btNV2LMU32_le32 (m : ℕ → UInt8) {i : ℕ} (hi : i < 4) :
    ofList (btNV2LMU32 (le32 m)) i = m i := by
  have h0 := (m 0).toNat_lt
  have h1 := (m 1).toNat_lt
  have h2 := (m 2).toNat_lt
  have h3 := (m 3).toNat_lt
  apply UInt8.toNat.inj
  obtain rfl | rfl | rfl | rfl : i = 0 ∨ i = 1 ∨ i = 2 ∨ i = 3 := by omega
  all_goals
    simp only [ofList, btNV2LMU32, List.getD_cons_zero, List.getD_cons_succ, UInt8.toNat_ofNat',
      Nat.shiftRight_eq_div_pow, le32]
    omega

theorem relationshipHeader_symbol (uniqueLoginSymbol : ℕ) (reqtype reqchnumber : UInt8) {i : ℕ}
    (hi : i < 4) : (relationshipHeader uniqueLoginSymbol reqtype reqchnumber).raw (8 + i) =
      ofList (btNV2LMU32 uniqueLoginSymbol) i := by
  have hi' : i < (btNV2LMU32 uniqueLoginSymbol).length := hi
  simp only [relationshipHeader, LlHeader.set]
  rw [Function.update_of_ne (by omega), Function.update_of_ne (by omega),
    Function.update_of_ne (by omega), blit_add hi', ofList_of_lt hi']

/-- The request that ties a connection to the session with the symbol `login` gave. -/
theorem relationship_of_sends (orig new : HlConn) (login : LlMessage) (reqtype reqchnumber : UInt8)
    (hsym : orig.uniqueLoginSymbol = le32 fun i => login.header.raw (16 + i))
    (hs : new.ll.sends.head? = some true) :
    (hlpConnectionRelationship orig new reqtype reqchnumber).conn.ll.rest = new.ll.rest ∧
    ∃ request : LlMessage,
      (hlpConnectionRelationship orig new reqtype reqchnumber).conn.ll.sent =
        new.ll.sent ++ [request.bytes] ∧
      request.cmd = 0xf1 ∧ request.payload = [] ∧
      (∀ i < 4, request.header.raw (8 + i) = login.header.raw (16 + i)) ∧
      request.header.raw 12 = reqtype ∧ request.header.raw 13 = reqchnumber + 1 := by
  have hext : (relationshipHeader orig.uniqueLoginSymbol reqtype reqchnumber).extlen = 0 := rfl
  unfold hlpConnectionRelationship
  refine ⟨llpSendHeader_rest _ _, packet _ [] hext (by decide), ?_, ?_⟩
  · rcases new.ll.fwrite_cases (head_ne_nil (blit (relationshipHeader orig.uniqueLoginSymbol reqtype
      reqchnumber).raw 4 (btNV2LMU32 0))) with ⟨hnil, -⟩ | ⟨sends, hno, -⟩ | ⟨sends, -, he⟩
    · simp [hnil] at hs
    · simp [hno] at hs
    · dsimp only
      rw [llpSendHeader_eq]
      dsimp only
      rw [hext, he]
      simp [LlMessage.bytes, packet, hext]
  · have hraw : ∀ i < 32, i < 4 ∨ 8 ≤ i → (packet (relationshipHeader orig.uniqueLoginSymbol reqtype
        reqchnumber) [] hext (by decide)).header.raw i =
          (relationshipHeader orig.uniqueLoginSymbol reqtype reqchnumber).raw i :=
      fun i hi hi' => packet_raw hext (by decide) hi hi'
    refine ⟨(hraw 0 (by omega) (by omega)).trans rfl, rfl, fun i hi => ?_,
      (hraw 12 (by omega) (by omega)).trans rfl, (hraw 13 (by omega) (by omega)).trans rfl⟩
    rw [hraw (8 + i) (by omega) (by omega), ← btNV2LMU32_le32 (fun i => login.header.raw (16 + i)) hi,
      ← hsym, relationshipHeader_symbol _ _ _ hi]

/-- **The session is opened** when the DVR accepts the login and answers the batch query, in
dialect 0. -/
theorem openSession_of_answers {dvrctl : SessionParms} {control : HlOpen} (d : Devinfo)
    {ms replies : List LlMessage} {login : LlMessage} {later : List UInt8}
    (hdialect : dvrctl.netProtocolDialect = 0)
    (hcred : dvrctl.user.length + dvrctl.passwd.length ≤ maxUserPasswdLen)
    (hconnects : control.connects = true) (hans : Answers ms login replies)
    (hrest : control.conn.ll.rest = encode LlMessage.bytes ms ++ later)
    (hsends : ∀ i < 259, control.conn.ll.sends[i]? = some true) :
    ∃ ll, openSession control (some d) dvrctl =
        ⟨0, some (replies.foldl (fun d m => updateDevinfo d m.payload m.header)
          (loginDevinfo d login.header)), ⟨ll, le32 fun i => login.header.raw (16 + i)⟩⟩ ∧
      ll.rest = later := by
  obtain ⟨spurious, nop, rfl, hsp, hnop, hnoplen⟩ := hans.split
  have hfirst : FirstOf 0xb0 control.conn.ll.rest login
      (encode LlMessage.bytes (replies ++ [nop]) ++ later) := by
    refine ⟨hans.login_cmd, spurious, hsp, ?_⟩
    rw [hrest]
    simp
  obtain ⟨ll, hlogin, hll, k, hk, hks⟩ := hlpLogin_of_reply (some d) hcred hfirst hans.accepts
  have hsent : ∀ i < (256 : ℤ).toNat + 1, ll.sends[i]? = some true := by
    intro i hi
    have h256 : (256 : ℤ).toNat = 256 := rfl
    rw [hks, List.getElem?_drop]
    exact hsends (k + i) (by omega)
  have hfits : ∀ m ∈ replies ++ [nop], m.payload.length ≤ sysinfoEdLen := by
    intro m hm
    rcases List.mem_append.mp hm with hm | hm
    · exact hans.replies_len m hm
    · exact List.mem_singleton.mp hm ▸ hnoplen
  obtain ⟨ll', hbatch, hll'⟩ := batch_of_replies ⟨ll, le32 fun i => login.header.raw (16 + i)⟩
    (loginDevinfo d login.header) 0 hsent hll hnop hans.replies_cmd hfits
  refine ⟨ll', ?_, hll'⟩
  unfold openSession
  rw [if_neg (by simp [hconnects]), hlogin]
  dsimp only
  rw [if_neg (by simp), if_pos hdialect]
  exact congrArg (fun r : InfoReply => (⟨0, r.devinfo, r.conn⟩ : SessionReply)) hbatch

theorem setUp_of_open {dvrctl : SessionParms} {chipset : List UInt8} {control stream : HlOpen}
    {devinfo : Option Devinfo} {conn : HlConn}
    (hopen : openSession control (some (diInit chipset)) dvrctl = ⟨0, devinfo, conn⟩)
    (hconnects : stream.connects = true) (hsend : stream.conn.ll.sends.head? = some true) :
    MediaStream.setUp dvrctl chipset control stream =
      .ok (.start conn
        (hlpConnectionRelationship conn stream.conn 1 (UInt8.ofNat dvrctl.channel)).conn) := by
  have hret : (hlpConnectionRelationship conn stream.conn 1 (UInt8.ofNat dvrctl.channel)).ret = 0 := by
    unfold hlpConnectionRelationship
    dsimp only
    rw [if_neg]
    rw [llpSendHeader_ret, if_pos hsend]
    simp
  unfold MediaStream.setUp
  rw [hopen]
  dsimp only
  rw [if_neg (by simp), if_neg (by simp [hconnects]), if_neg (by simpa using hret)]

/-- **The set-up of a session** with a DVR that accepts the login and answers the batch query, in
dialect 0: the device information is the replies taken in their order, a later one over an earlier
one, the input is consumed up to what follows them, and the request on the stream connection names
the session by the symbol the DVR gave. -/
theorem session_set_up (dvrctl : SessionParms) (chipset : List UInt8) (control stream : HlOpen)
    (ms : List LlMessage) (login : LlMessage) (replies : List LlMessage) (later : List UInt8)
    (hdialect : dvrctl.netProtocolDialect = 0)
    (hcred : dvrctl.user.length + dvrctl.passwd.length ≤ 250)
    (hcontrol : control.connects = true) (hstream : stream.connects = true)
    (hans : Answers ms login replies)
    (hrest : control.conn.ll.rest = encode LlMessage.bytes ms ++ later)
    (hsends : ∀ i < 259, control.conn.ll.sends[i]? = some true)
    (hsend : stream.conn.ll.sends.head? = some true) :
    (openSession control (some (diInit chipset)) dvrctl).devinfo =
      some (replies.foldl (fun d m => updateDevinfo d m.payload m.header)
        (loginDevinfo (diInit chipset) login.header)) ∧
    ∃ s, MediaStream.setUp dvrctl chipset control stream = .ok s ∧
      SetUp dvrctl login later stream s := by
  obtain ⟨ll, hopen, hll⟩ := openSession_of_answers (diInit chipset) hdialect hcred hcontrol hans
    hrest hsends
  have hsetup := setUp_of_open hopen hstream hsend
  obtain ⟨hsrest, request, htied⟩ := relationship_of_sends
    ⟨ll, le32 fun i => login.header.raw (16 + i)⟩ stream.conn login 1 (UInt8.ofNat dvrctl.channel) rfl
    hsend
  rw [hopen]
  exact ⟨rfl, _, hsetup, rfl, hll, rfl, hsrest, request, htied⟩

/-- The reply to the login of a session with the symbol 0x04030201. -/
def loginReply : LlMessage where
  head := 0xb0 :: List.replicate 15 0 ++ [1, 2, 3, 4] ++ List.replicate 12 0
  payload := []
  length_head := rfl
  le32_head := by decide

/-- A control connection of that session; a late reply comes first. -/
def openedControl : HlOpen :=
  ⟨true, ⟨⟨encode LlMessage.bytes [lateReply, loginReply, chipsetReply, nopReply], false,
    List.replicate 259 true, [], []⟩, 0⟩⟩

/-- Its stream connection. -/
def openedStream : HlOpen := ⟨true, ⟨⟨encode LlMessage.bytes [lateReply, oneByteFrame], false, [true],
  [1, 1], []⟩, 0⟩⟩

/-- The session of a short user name, in dialect 0. -/
def shortUser : SessionParms := ⟨⟨0, 0, 0, 0⟩, [0x61], [0x62], 0⟩

theorem openedControl_answers :
    Answers [lateReply, loginReply, chipsetReply, nopReply] loginReply [chipsetReply] where
  split := ⟨[lateReply], nopReply, rfl, by
    intro m hm
    rw [List.mem_singleton.mp hm]
    decide, by decide, by decide⟩
  login_cmd := by decide
  accepts := by decide
  replies_cmd m hm := by
    rw [List.mem_singleton.mp hm]
    decide
  replies_len m hm := by
    rw [List.mem_singleton.mp hm]
    decide

theorem openedControl_sends : ∀ i < 259, openedControl.conn.ll.sends[i]? = some true := by
  intro i hi
  show (List.replicate 259 true)[i]? = some true
  rw [List.getElem?_replicate, if_pos hi]

theorem session_set_up_short :
    (openSession openedControl (some (diInit [])) shortUser).devinfo =
      some ([chipsetReply].foldl (fun d m => updateDevinfo d m.payload m.header)
        (loginDevinfo (diInit []) loginReply.header)) ∧
    ∃ s, MediaStream.setUp shortUser [] openedControl openedStream = .ok s ∧
      SetUp shortUser loginReply [] openedStream s :=
  session_set_up shortUser [] openedControl openedStream
    [lateReply, loginReply, chipsetReply, nopReply] loginReply [chipsetReply] [] rfl (by decide) rfl rfl
    openedControl_answers (List.append_nil _).symm openedControl_sends rfl

/-! ### Every session -/

/-- **A session keeps in step with its peer**, in either dialect, from its first byte and in every
state of every run: whatever messages the peer sends, both connections are read up to a boundary of
them, and what was written is a sequence of whole packets, up to a write that fails. -/
theorem session_in_step (dvrctl : SessionParms) (chipset : List UInt8) (control stream : HlOpen)
    (msControl msStream : List LlMessage) (hc : Fresh msControl control) (hs : Fresh msStream stream)
    (s : MediaStream) (h : MediaStream.setUp dvrctl chipset control stream = .ok s)
    (events : List StreamEvent) :
    InStep msControl msStream (s.run dvrctl.toDvrcontrol events) :=
  (InStep.setUp hc hs h).run dvrctl.toDvrcontrol events

theorem fresh_openedControl : Fresh [lateReply, loginReply, chipsetReply, nopReply] openedControl :=
  ⟨rfl, rfl, rfl, List.pairwise_replicate.mpr (Or.inr id)⟩

theorem fresh_openedStream : Fresh [lateReply, oneByteFrame] openedStream :=
  ⟨rfl, rfl, rfl, List.pairwise_singleton _ _⟩

theorem session_in_step_short :
    ∃ s, MediaStream.setUp shortUser [] openedControl openedStream = .ok s ∧
      InStep [lateReply, loginReply, chipsetReply, nopReply] [lateReply, oneByteFrame]
        (s.run shortUser.toDvrcontrol [busyTurn, busyTurn]) := by
  obtain ⟨ll, hopen, -⟩ := openSession_of_answers (diInit [])
    (show shortUser.netProtocolDialect = 0 from rfl) (by decide)
    (show openedControl.connects = true from rfl) openedControl_answers (List.append_nil _).symm
    openedControl_sends
  have hsetup := setUp_of_open hopen (show openedStream.connects = true from rfl) rfl
  exact ⟨_, hsetup, session_in_step shortUser [] openedControl openedStream _ _ fresh_openedControl
    fresh_openedStream _ hsetup [busyTurn, busyTurn]⟩

end TaniDVR
