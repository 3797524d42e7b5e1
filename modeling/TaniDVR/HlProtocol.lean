import TaniDVR.LlProtocol

/-!
# HlProtocol — the requests and replies of `hlprotocol.c`

Each function takes the connection it works on and returns it with the code.  A `t_devinfo *` that
may be `NULL` is an `Option`; a string is the list of its bytes without the final zero.
-/

namespace TaniDVR

open Lib

/-! ### Device information -/

/-- `DI_STR_MAXLEN`. -/
def diStrMaxlen : ℕ := 1024

inductive DiVideoSys
  | undefined | ntsc | pal | unknown
  deriving DecidableEq, Repr

inductive DiVideoEnc
  | undefined | mpeg4 | h264 | unknown
  deriving DecidableEq, Repr

inductive DiMwPreview
  | undefined | yes | no | unknown
  deriving DecidableEq, Repr

inductive DiHdtype
  | undefined | ata | sata | unknown
  deriving DecidableEq, Repr

/-- `t_devinfo`. -/
structure Devinfo where
  videoSys : DiVideoSys
  videoEnc : DiVideoEnc
  mwPreview : DiMwPreview
  nChannels : ℤ
  devType : ℤ
  devSubtype : ℤ
  hdType : DiHdtype
  devSn : List UInt8
  devVer : List UInt8
  devTypeChipset : List UInt8
  langSup : List UInt8
  funcList : List UInt8
  oemInfo : List UInt8
  netrunStat : List UInt8
  splitScreen : List UInt8
  funcCapability : List UInt8
  hdPartCap : List UInt8
  wiAlarm : List UInt8
  accessUrl : List UInt8

/-- `di_init`: the chipset is not initialised. -/
def diInit (devTypeChipset : List UInt8) : Devinfo where
  videoSys := .undefined
  videoEnc := .undefined
  mwPreview := .undefined
  nChannels := -1
  devType := -1
  devSubtype := -1
  hdType := .undefined
  devSn := []
  devVer := []
  devTypeChipset := devTypeChipset
  langSup := []
  funcList := []
  oemInfo := []
  netrunStat := []
  splitScreen := []
  funcCapability := []
  hdPartCap := []
  wiAlarm := []
  accessUrl := []

/-- One character of `extract_string`; `char` is signed. -/
def extractChar (c : UInt8) : UInt8 := if (c < 0x20 ∨ 0x80 ≤ c) ∧ c ≠ 9 then 0x20 else c

/-- `extract_string`. -/
def extractString (src : List UInt8) (dstMaxlen : ℕ) : List UInt8 :=
  (src.take (dstMaxlen - 1)).map extractChar

/-- `update_devinfo_from_system_information`, for a `devinfo` that is not `NULL`. -/
def updateDevinfo (devinfo : Devinfo) (extdata : List UInt8) (header : LlHeader) : Devinfo :=
  let text := extractString extdata diStrMaxlen
  match header.raw 8 with
  | 2 => { devinfo with hdType := match header.raw 13 with
      | 0 => .ata
      | 1 => .sata
      | _ => .unknown }
  | 7 => { devinfo with devSn := text }
  | 8 => { devinfo with devVer := text }
  -- the cases 11 and 19 have no `break`
  | 11 => { devinfo with devTypeChipset := text, splitScreen := text, langSup := text }
  | 19 => { devinfo with splitScreen := text, langSup := text }
  | 20 => { devinfo with langSup := text }
  | 26 => { devinfo with funcList := text }
  | 27 => { devinfo with wiAlarm := text }
  | 29 => { devinfo with oemInfo := text }
  | 30 => { devinfo with netrunStat := text }
  | 31 => { devinfo with funcCapability := text }
  | 33 => { devinfo with hdPartCap := text }
  | 39 => { devinfo with accessUrl := text }
  | _ => devinfo

/-- `update_devinfo_from_system_information`. -/
def updateDevinfoFromSystemInformation (devinfo : Option Devinfo) (extdata : List UInt8)
    (header : LlHeader) : Option Devinfo :=
  devinfo.map fun d => updateDevinfo d extdata header

/-! ### Headers and payloads -/

/-- `REMOTE_RETCODE_OFFSET`. -/
def remoteRetcodeOffset : ℤ := 256

/-- `t_hlp_connection`. -/
structure HlConn where
  ll : Conn
  uniqueLoginSymbol : ℕ

/-- What a call returns and leaves. -/
structure Reply where
  ret : ℤ
  conn : HlConn

/-- A header that was read leaves fewer bytes. -/
theorem llpGetHeader_shrinks {c : Conn} (h : (llpGetHeader c).ret = 0) :
    (llpGetHeader c).conn.rest.length < c.rest.length := by
  rw [llpGetHeader_conn, Conn.skip_rest, List.length_drop]
  rw [llpGetHeader_ret] at h
  split at h
  · cases h
  · rw [llpHeaderSize] at *
    omega

theorem llpGetDiscardExtdata_shrinks (c : Conn) (h : LlHeader) :
    (llpGetDiscardExtdata c h).2.rest.length ≤ c.rest.length := by
  rw [llpGetDiscardExtdata_eq, Conn.skip_rest, List.length_drop]
  omega

/-- `hlp_get_header`: what discarding returns is not looked at. -/
def hlpGetHeader (c : Conn) (expectedCmd : UInt8) : HeaderRead :=
  if _h : (llpGetHeader c).ret ≠ 0 then llpGetHeader c
  else if (llpGetHeader c).header.cmd ≠ expectedCmd then
    hlpGetHeader (llpGetDiscardExtdata (llpGetHeader c).conn (llpGetHeader c).header).2 expectedCmd
  else ⟨0, (llpGetHeader c).header, (llpGetHeader c).conn⟩
termination_by c.rest.length
decreasing_by
  have := llpGetHeader_shrinks (not_not.mp _h)
  have := llpGetDiscardExtdata_shrinks (llpGetHeader c).conn (llpGetHeader c).header
  omega

/-- What `hlp_get_header_and_extdata` returns and leaves: `extdataLen` when it is updated. -/
structure PacketRead where
  ret : ℤ
  header : LlHeader
  buf : List UInt8
  extdataLen : Option ℤ
  conn : Conn

/-- The end of `hlp_get_header_and_extdata`: the reply to the `NOP` is discarded. -/
def discardNopReply (c : Conn) (issueNop : Bool) : ℤ × Conn :=
  if issueNop then
    let r := llpGetHeader c
    if r.ret ≠ 0 then (4, r.conn)
    else
      let d := llpGetDiscardExtdata r.conn r.header
      if d.1 ≠ 0 then (5, d.2) else (0, d.2)
  else (0, c)

/-- `hlp_get_header_and_extdata`, with the size of `buf` when it is not `NULL`. -/
def hlpGetHeaderAndExtdata (c : Conn) (expectedCmd : UInt8) (issueNop : Bool) (buflen : Option ℕ) :
    PacketRead :=
  let c := if issueNop then (llpSendNop c).2 else c
  let r := llpGetHeader c
  if r.ret ≠ 0 then ⟨1, r.header, [], none, r.conn⟩
  else if r.header.cmd ≠ expectedCmd then
    let d := llpGetDiscardExtdata r.conn r.header
    if d.1 ≠ 0 then ⟨2, r.header, [], none, d.2⟩
    else if issueNop ∧ r.header.cmd = llpHdNopReply then ⟨-1, r.header, [], none, d.2⟩
    else ⟨1, r.header, [], none, d.2⟩
  else match buflen with
    | none =>
      let n := discardNopReply (llpGetDiscardExtdata r.conn r.header).2 issueNop
      ⟨n.1, r.header, [], none, n.2⟩
    | some buflen =>
      let e := llpGetExtdataSbuff r.conn r.header buflen
      if e.ret < 0 then ⟨3, r.header, e.buf, none, e.conn⟩
      else
        let n := discardNopReply e.conn issueNop
        ⟨n.1, r.header, e.buf, some e.ret, n.2⟩

/-! ### Sessions -/

/-- `MAX_USER_PASSWD_LEN`. -/
def maxUserPasswdLen : ℕ := 250

/-- What `hlp_login` returns and leaves. -/
structure LoginReply where
  ret : ℤ
  devinfo : Option Devinfo
  conn : HlConn

/-- The login request; `strncpy` copies at most 8 bytes and pads with zeros. -/
def loginHeader (user passwd : List UInt8) : LlHeader :=
  let h := if user.length ≤ 8 ∧ passwd.length ≤ 8 then
      { llpInitHeader with raw := blit (blit llpInitHeader.raw 8 user) 16 passwd }
    else { llpInitHeader with extlen := (user ++ [0x26, 0x26] ++ passwd).length }
  (((((h.set 0 0xa0).set 3 llpHdVerIhl).set 24 0x04).set 25 0x01).set 30 0xa1).set 31 0xaa

/-- The extra data of the login request: `user&&passwd` when the two do not fit in the header. -/
def loginExtdata (user passwd : List UInt8) : List UInt8 :=
  if user.length ≤ 8 ∧ passwd.length ≤ 8 then [] else user ++ [0x26, 0x26] ++ passwd

/-- What `hlp_login` learns from the reply. -/
def loginDevinfo (devinfo : Devinfo) (header : LlHeader) : Devinfo :=
  { devinfo with
    videoSys := match header.raw 28 with
      | 0 => .pal
      | 1 => .ntsc
      | _ => .unknown
    videoEnc := match header.raw 11 with
      | 8 => .mpeg4
      | 9 => .h264
      | _ => .unknown
    mwPreview := match header.raw 1 with
      | 0 => .no
      | 1 => .yes
      | _ => .unknown
    nChannels := (header.raw 10).toNat
    devType := (header.raw 12).toNat
    devSubtype := (header.raw 13).toNat }

/-- `hlp_login`. -/
def hlpLogin (h : HlConn) (devinfo : Option Devinfo) (user passwd : List UInt8) : LoginReply :=
  if user.length + passwd.length > maxUserPasswdLen then ⟨1, devinfo, h⟩
  else
    let c := (llpSendHeader h.ll (loginHeader user passwd)).2
    let c := (llpSendExtdata c (loginExtdata user passwd)).2
    let r := hlpGetHeader c 0xb0
    if r.ret ≠ 0 then ⟨2, devinfo, { h with ll := r.conn }⟩
    else
      let c := (llpGetDiscardExtdata r.conn r.header).2
      let devinfo := devinfo.map fun d => loginDevinfo d r.header
      if r.header.raw 8 ≠ 0 then
        ⟨(r.header.raw 9).toNat + remoteRetcodeOffset, devinfo, { h with ll := c }⟩
      else ⟨0, devinfo, ⟨c, toUint32 (btLM2NVU32 fun i => r.header.raw (16 + i))⟩⟩

/-- `hlp_logout`. -/
def hlpLogout (h : HlConn) : Reply :=
  let out := llpInitHeader.set 0 0x0a
  let out := { out with raw := blit out.raw 8 (btNV2LMU32 h.uniqueLoginSymbol) }
  let c := (llpSendHeader h.ll out).2
  ⟨0, { h with ll := (hlpGetHeaderAndExtdata c 0x0b true none).conn }⟩

/-! ### Media -/

/-- What collecting a frame returns and leaves; the frame has `*dest_data_len` bytes. -/
structure MediaRead where
  ret : ℤ
  data : List UInt8
  conn : HlConn

/-- The codes in which the two functions that collect a frame differ. -/
structure CollectCodes where
  discard : ℤ
  large : ℤ
  read : ℤ

/-- The reply part of the two functions: one frame is collected, or discarded when there is no
destination; `dest` is the size of the destination. -/
def collectFrame (codes : CollectCodes) (h : HlConn) (dest : Option ℕ) : MediaRead :=
  let r := hlpGetHeader h.ll 0xbc
  let remote : ℤ :=
    if r.header.raw 16 ≠ 0 then (r.header.raw 16).toNat + remoteRetcodeOffset else 0
  if r.ret ≠ 0 then ⟨2, [], { h with ll := r.conn }⟩
  else match dest with
    | none =>
      let d := llpGetDiscardExtdata r.conn r.header
      if d.1 ≠ 0 then ⟨codes.discard, [], { h with ll := d.2 }⟩
      else ⟨remote, [], { h with ll := d.2 }⟩
    | some maxLen =>
      if r.header.extlen > maxLen then
        let d := llpGetDiscardExtdata r.conn r.header
        if d.1 ≠ 0 then ⟨codes.large, [], { h with ll := d.2 }⟩
        else ⟨10, [], { h with ll := d.2 }⟩
      else
        let e := llpGetExtdataSbuff r.conn r.header r.header.extlen
        if e.ret < 0 then ⟨codes.read, e.buf, { h with ll := e.conn }⟩
        else ⟨remote, e.buf, { h with ll := e.conn }⟩

/-- The bytes of a text. -/
def textBytes (s : String) : List UInt8 := s.toList.map fun c => UInt8.ofNat c.toNat

/-- The extra data of the media request: 16 bytes of sub-channels, or the text of `snprintf` (at
most 62 bytes). -/
def mediaExtdata (channel : ℕ) (subChannel : ℤ) : List UInt8 :=
  if channel < 16 then (List.replicate 16 0).set channel (UInt8.ofInt subChannel)
  else (textBytes ("ChannelName:" ++ toString channel ++ "\r\nStream:" ++ toString subChannel ++
    "\r\nOperate:1\r\nProtocol:tcp\r\n\r\n")).take 62

/-- The header of the media request. -/
def mediaHeader (channel : ℕ) (subChannel : ℤ) : LlHeader :=
  let h : LlHeader :=
    { llpInitHeader.set 0 0x11 with extlen := (mediaExtdata channel subChannel).length }
  if channel < 16 then h.set (8 + channel) 1 else h.set 26 8

/-- What `hlp_media_data_request` returns and leaves. -/
structure MediaReply where
  ret : ℤ
  data : List UInt8
  ctrl : HlConn
  conn : HlConn

/-- `hlp_media_data_request`. -/
def hlpMediaDataRequest (ctrl h : HlConn) (channel : ℕ) (subChannel : ℤ) (dest : Option ℕ) :
    MediaReply :=
  let s := llpSendHeader ctrl.ll (mediaHeader channel subChannel)
  if s.1 ≠ 0 then ⟨4, [], { ctrl with ll := s.2 }, h⟩
  else
    let e := llpSendExtdata s.2 (mediaExtdata channel subChannel)
    if e.1 ≠ 0 then ⟨3, [], { ctrl with ll := e.2 }, h⟩
    else
      let m := collectFrame ⟨3, 5, 4⟩ h dest
      ⟨m.ret, m.data, { ctrl with ll := e.2 }, m.conn⟩

/-- `hlp_collect_media_data`. -/
def hlpCollectMediaData (h : HlConn) (dest : Option ℕ) : MediaRead :=
  collectFrame ⟨12, 13, 11⟩ h dest

/-! ### Requests -/

/-- The requests whose reply is only awaited: header, extra data (what sending it returns is not
looked at), the reply and its payload. -/
def requestAndDiscard (h : HlConn) (out : LlHeader) (extdata : List UInt8) (replyCmd : UInt8) :
    Reply :=
  let s := llpSendHeader h.ll out
  if s.1 ≠ 0 then ⟨4, { h with ll := s.2 }⟩
  else
    let r := hlpGetHeader (llpSendExtdata s.2 extdata).2 replyCmd
    if r.ret ≠ 0 then ⟨2, { h with ll := r.conn }⟩
    else
      let d := llpGetDiscardExtdata r.conn r.header
      if d.1 ≠ 0 then ⟨3, { h with ll := d.2 }⟩ else ⟨0, { h with ll := d.2 }⟩

/-- `hlp_send_extension_string`. -/
def hlpSendExtensionString (h : HlConn) (extstr : List UInt8) : Reply :=
  requestAndDiscard h { llpInitHeader.set 0 0xf4 with extlen := extstr.length } extstr 0xf4

/-- `hlp_get_work_alarm_status`, which is also `hlp_keep_alive`. -/
def hlpGetWorkAlarmStatus (h : HlConn) : Reply :=
  requestAndDiscard h (llpInitHeader.set 0 0xa1) [] 0xb1

/-- `hlp_get_media_capability`. -/
def hlpGetMediaCapability (h : HlConn) (infotype : UInt8) : Reply :=
  requestAndDiscard h ((llpInitHeader.set 0 0x83).set 9 infotype) [] 0x83

/-- `hlp_get_config_parameter`: the name asked for is `config`. -/
def hlpGetConfigParameter (h : HlConn) (infotype : UInt8) : Reply :=
  let out := llpInitHeader.set 0 0xa3
  let out := { out with raw := blit out.raw 8 (textBytes "config") }
  requestAndDiscard h (out.set 16 infotype) [] 0xb3

/-- `SYSINFO_ED_LEN`. -/
def sysinfoEdLen : ℕ := 1024

/-- What a query of system information returns and leaves. -/
structure InfoReply where
  ret : ℤ
  devinfo : Option Devinfo
  conn : HlConn

/-- `hlp_get_system_information`. -/
def hlpGetSystemInformation (h : HlConn) (devinfo : Option Devinfo) (infotype bitstream : UInt8) :
    InfoReply :=
  let s := llpSendHeader h.ll (((llpInitHeader.set 0 0xa4).set 8 infotype).set 12 bitstream)
  if s.1 ≠ 0 then ⟨4, devinfo, { h with ll := s.2 }⟩
  else
    let r := hlpGetHeader s.2 0xb4
    if r.ret ≠ 0 then ⟨2, devinfo, { h with ll := r.conn }⟩
    else
      let e := llpGetExtdataSbuff r.conn r.header sysinfoEdLen
      if e.ret < 0 then ⟨3, devinfo, { h with ll := (llpGetDiscardExtdata e.conn r.header).2 }⟩
      else ⟨0, updateDevinfoFromSystemInformation devinfo e.buf r.header, { h with ll := e.conn }⟩

/-- The requests of `hlp_get_system_information_multiple`, for `count` infotypes from `infotype`
on. -/
def sendInfoRequests (c : Conn) (infotype : ℕ) : ℕ → ℤ × Conn
  | 0 => (0, c)
  | count + 1 =>
    let s := llpSendHeader c ((llpInitHeader.set 0 0xa4).set 8 (UInt8.ofNat infotype))
    if s.1 ≠ 0 then (4, s.2) else sendInfoRequests s.2 (infotype + 1) count

theorem llpGetExtdataSbuff_shrinks (c : Conn) (h : LlHeader) (buflen : ℕ) :
    (llpGetExtdataSbuff c h buflen).conn.rest.length ≤ c.rest.length := by
  by_cases hl : buflen < h.extlen
  · rw [llpGetExtdataSbuff_of_large hl]
  · rw [llpGetExtdataSbuff_conn (by omega), Conn.skip_rest, List.length_drop]
    omega

/-- The loop of `hlp_get_system_information_multiple`: the replies are collected up to that of the
`NOP`. -/
def collectReplies (c : Conn) (devinfo : Option Devinfo) : ℤ × Option Devinfo × Conn :=
  let r := llpGetHeader c
  if _h : r.ret ≠ 0 then (2, devinfo, r.conn)
  else
    let e := llpGetExtdataSbuff r.conn r.header sysinfoEdLen
    if e.ret < 0 then (3, devinfo, (llpGetDiscardExtdata e.conn r.header).2)
    else if r.header.cmd = llpHdNopReply then (0, devinfo, e.conn)
    else collectReplies e.conn (updateDevinfoFromSystemInformation devinfo e.buf r.header)
termination_by c.rest.length
decreasing_by
  have := llpGetHeader_shrinks (not_not.mp _h)
  have := llpGetExtdataSbuff_shrinks (llpGetHeader c).conn (llpGetHeader c).header sysinfoEdLen
  omega

/-- `hlp_get_system_information_multiple`. -/
def hlpGetSystemInformationMultiple (h : HlConn) (devinfo : Option Devinfo) (firstInfotype : UInt8)
    (totalInfotype : ℤ) : InfoReply :=
  let s := sendInfoRequests h.ll firstInfotype.toNat totalInfotype.toNat
  if s.1 ≠ 0 then ⟨s.1, devinfo, { h with ll := s.2 }⟩
  else
    let n := llpSendNop s.2
    if n.1 ≠ 0 then ⟨5, devinfo, { h with ll := n.2 }⟩
    else
      let r := collectReplies n.2 devinfo
      ⟨r.1, r.2.1, { h with ll := r.2.2 }⟩

theorem hlpGetHeader_shrinks {c : Conn} {expectedCmd : UInt8}
    (h : (hlpGetHeader c expectedCmd).ret = 0) :
    (hlpGetHeader c expectedCmd).conn.rest.length < c.rest.length := by
  fun_induction hlpGetHeader c expectedCmd with
  | case1 c hr => exact absurd h hr
  | case2 c hr hcmd ih =>
    have h1 := ih h
    have h2 := llpGetHeader_shrinks (not_not.mp hr)
    have h3 := llpGetDiscardExtdata_shrinks (llpGetHeader c).conn (llpGetHeader c).header
    omega
  | case3 c hr hcmd => exact llpGetHeader_shrinks (not_not.mp hr)

/-- The loop of `hlp_set_alarm`, after the request `out`; the test of the operation type reads the
request. -/
def awaitAlarm (c : Conn) (out : LlHeader) (alarmType : UInt8) : HeaderRead :=
  let r := hlpGetHeader c 0x69
  if _h : r.ret ≠ 0 then ⟨2, r.header, r.conn⟩
  else if out.raw 8 ≠ 2 then awaitAlarm (llpGetDiscardExtdata r.conn r.header).2 out alarmType
  else if r.header.raw 12 ≠ alarmType then
    if (llpGetDiscardExtdata r.conn r.header).1 ≠ 0 then
      ⟨5, r.header, (llpGetDiscardExtdata r.conn r.header).2⟩
    else awaitAlarm (llpGetDiscardExtdata r.conn r.header).2 out alarmType
  else ⟨0, r.header, r.conn⟩
termination_by c.rest.length
decreasing_by
  all_goals
    have := hlpGetHeader_shrinks (not_not.mp _h)
    have := llpGetDiscardExtdata_shrinks (hlpGetHeader c 0x69).conn (hlpGetHeader c 0x69).header
    omega

/-- `hlp_set_alarm`. -/
def hlpSetAlarm (h : HlConn) (alarmType : UInt8) : Reply :=
  let out := ((llpInitHeader.set 0 0x68).set 8 2).set 12 alarmType
  let s := llpSendHeader h.ll out
  if s.1 ≠ 0 then ⟨4, { h with ll := s.2 }⟩
  else
    let r := awaitAlarm s.2 out alarmType
    if r.ret ≠ 0 then ⟨r.ret, { h with ll := r.conn }⟩
    else
      let d := llpGetDiscardExtdata r.conn r.header
      if d.1 ≠ 0 then ⟨3, { h with ll := d.2 }⟩ else ⟨0, { h with ll := d.2 }⟩

/-! ### Channel names -/

/-- `CHNAMES_SIZE`. -/
def chnamesSize : ℕ := 512

/-- The loop that turns every run of `&` into a line break, up to the zero.  The text is rewritten
in place, but never ahead of the byte that is read. -/
def channelNamesText (prevWasAmp : Bool) : List UInt8 → List UInt8
  | [] => []
  | 0 :: _ => []
  | 0x26 :: src => if prevWasAmp then channelNamesText true src
    else 0x0a :: channelNamesText true src
  | b :: src => b :: channelNamesText false src

/-- What `hlp_get_channel_names` returns and leaves. -/
structure NamesReply where
  ret : ℤ
  outb : Option (List UInt8)
  conn : HlConn

/-- `hlp_get_channel_names`; `outstr` is the memory from the address on that `malloc` returned
(`none` for a failure). -/
def hlpGetChannelNames (h : HlConn) (outstr : Option (List UInt8)) : NamesReply :=
  match outstr with
  | none => ⟨10, none, h⟩
  | some outstr =>
    let out := llpInitHeader.set 0 0xa8
    let s := llpSendHeader (llpSendHeader h.ll out).2 (out.set 8 1)
    if s.1 ≠ 0 then ⟨4, none, { h with ll := s.2 }⟩
    else
      let r := hlpGetHeader s.2 0xb8
      if r.ret ≠ 0 then ⟨2, none, { h with ll := r.conn }⟩
      else
        let e := llpGetExtdataSbuff r.conn r.header chnamesSize
        if e.ret < 0 then ⟨3, none, { h with ll := e.conn }⟩
        else
          ⟨0, some (channelNamesText false (overwrite outstr 0 e.buf) ++ [0x0a]),
            { h with ll := e.conn }⟩

/-! ### Pending input -/

/-- The loop of `hlp_discard_incoming_data`. -/
def discardIncoming (c : Conn) (i : ℤ) : ℤ × Conn :=
  let p := llpCheckIncomingData c
  if p.1 = 0 then (i, p.2)
  else
    let r := llpGetHeader p.2
    if _h : r.ret ≠ 0 then (-1, r.conn)
    else
      let d := llpGetDiscardExtdata r.conn r.header
      if d.1 ≠ 0 then (-1, d.2) else discardIncoming d.2 1
termination_by c.rest.length
decreasing_by
  have h1 := llpGetHeader_shrinks (c := (llpCheckIncomingData c).2) (not_not.mp _h)
  have h2 := llpGetDiscardExtdata_shrinks (llpGetHeader (llpCheckIncomingData c).2).conn
    (llpGetHeader (llpCheckIncomingData c).2).header
  rw [llpCheckIncomingData_rest] at h1
  omega

/-- `hlp_discard_incoming_data`. -/
def hlpDiscardIncomingData (h : HlConn) : Reply :=
  let d := discardIncoming h.ll 0
  ⟨d.1, { h with ll := d.2 }⟩

/-! ### Waiting for a message -/

theorem hlpGetHeader_of_cmd {c : Conn} {m : LlMessage} {more : List UInt8} {cmd : UInt8}
    (h : c.rest = m.bytes ++ more) (hc : m.cmd = cmd) :
    hlpGetHeader c cmd = ⟨0, m.header, { c with rest := m.payload ++ more }⟩ := by
  rw [hlpGetHeader, llpGetHeader_of_message h, dif_neg (by simp), if_neg (by simpa using hc)]

theorem hlpGetHeader_of_other {c : Conn} {m : LlMessage} {more : List UInt8} {cmd : UInt8}
    (h : c.rest = m.bytes ++ more) (hc : m.cmd ≠ cmd) :
    hlpGetHeader c cmd = hlpGetHeader { c with rest := more } cmd := by
  rw [hlpGetHeader, llpGetHeader_of_message h, dif_neg (by simp), if_pos (by simpa using hc),
    llpGetDiscardExtdata_of_message rfl]

/-- **Other messages are skipped.** -/
theorem hlpGetHeader_skips {c : Conn} {skipped : List LlMessage} {more : List UInt8} {cmd : UInt8}
    (h : c.rest = encode LlMessage.bytes skipped ++ more) (hc : ∀ m ∈ skipped, m.cmd ≠ cmd) :
    hlpGetHeader c cmd = hlpGetHeader { c with rest := more } cmd := by
  induction skipped generalizing c with
  | nil =>
    rw [encode_nil, List.nil_append] at h
    rw [← h]
  | cons m skipped ih =>
    rw [encode_cons, List.append_assoc] at h
    rw [hlpGetHeader_of_other h (hc m (by simp)), ih rfl fun x hx => hc x (by simp [hx])]

/-- Nothing is found in input that is too short for a header. -/
theorem hlpGetHeader_of_short {c : Conn} {cmd : UInt8} (h : c.rest.length < llpHeaderSize) :
    (hlpGetHeader c cmd).ret = 1 ∧ (hlpGetHeader c cmd).conn.rest = [] := by
  have hr : (llpGetHeader c).ret = 1 := by rw [llpGetHeader_ret, if_pos h]
  rw [hlpGetHeader, dif_pos (by simp [hr]), hr, llpGetHeader_conn, Conn.skip_rest]
  exact ⟨rfl, List.drop_eq_nil_of_le h.le⟩

end TaniDVR
