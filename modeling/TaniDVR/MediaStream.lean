import TaniDVR.HlProtocol

/-!
# MediaStream — the forwarding loop of `stream_media_dvr_to_pipe`

`MediaStream.step` is one turn of the function after the session set-up: the media request with the
first frame, the two nested loops, and the timers.  The environment chooses what `poll`, the timers
and `write` give (`StreamEvent`); the messages come from the data connection, which may end in the
middle of one.

`media_forwarded` says what was written to the pipe in any state of any run.
-/

namespace TaniDVR

open Lib

/-- `STREAM_BUFFER_LEN`. -/
def streamBufferLen : ℕ := 1000000

/-- `dvrcontrol_t`, as far as the loop reads it. -/
structure Dvrcontrol where
  channel : ℕ
  subChannel : ℤ
  keepAliveUs : ℕ
  timeoutUs : ℕ

/-- Where the function is. -/
inductive StreamPc
  | request
  | wait
  | collect
  | discard
  | timers
  | returned (ret : ℤ)
  deriving DecidableEq, Repr

/-- The state of the function; `pipe` are the bytes written to it so far. -/
structure MediaStream where
  pc : StreamPc
  control : HlConn
  stream : HlConn
  pipe : List UInt8

/-- What the environment answers in a turn: `hlp_wait_for_incoming_data`, the two timers, and how
many of the bytes offered `write` takes (`none` for a failure). -/
structure StreamEvent where
  wait : ℤ
  kaSpent : ℕ
  toSpent : ℕ
  write : ℕ → Option ℕ

namespace MediaStream

def start (control stream : HlConn) : MediaStream := ⟨.request, control, stream, []⟩

/-- `write` of a frame, and where the function goes on after it; nothing looks at a short count. -/
def write (s : MediaStream) (e : StreamEvent) (frame : List UInt8) (next : StreamPc) :
    MediaStream :=
  match e.write frame.length with
  | none => { s with pc := .returned 105 }
  | some n => { s with pc := next, pipe := s.pipe ++ frame.take n }

/-- One turn. -/
def step (dvrctl : Dvrcontrol) (s : MediaStream) (e : StreamEvent) : MediaStream :=
  match s.pc with
  | .request =>
    let r := hlpMediaDataRequest s.control s.stream dvrctl.channel dvrctl.subChannel
      (some streamBufferLen)
    let s := { s with control := r.ctrl, stream := r.conn }
    if r.ret ≠ 0 then { s with pc := .returned 3 }
    else s.write e r.data .wait
  | .wait => { s with pc := if e.wait ≠ 0 then .collect else .timers }
  | .collect =>
    let p := llpCheckIncomingData s.stream.ll
    let s := { s with stream := { s.stream with ll := p.2 } }
    if p.1 > 0 then
      let r := hlpCollectMediaData s.stream (some streamBufferLen)
      let s := { s with stream := r.conn }
      if r.ret ≠ 0 then { s with pc := .returned 6 }
      else s.write e r.data
        (if dvrctl.keepAliveUs ≠ 0 ∧ e.kaSpent > dvrctl.keepAliveUs then .discard else .collect)
    else { s with pc := .discard }
  | .discard =>
    let r := hlpDiscardIncomingData s.control
    { s with control := r.conn, pc := if r.ret < 0 then .returned 7 else .timers }
  | .timers =>
    if dvrctl.keepAliveUs ≠ 0 ∧ e.kaSpent > dvrctl.keepAliveUs ∧
        (hlpGetWorkAlarmStatus s.control).ret ≠ 0 then
      { s with control := (hlpGetWorkAlarmStatus s.control).conn, pc := .returned 8 }
    else
      let s := if dvrctl.keepAliveUs ≠ 0 ∧ e.kaSpent > dvrctl.keepAliveUs then
        { s with control := (hlpGetWorkAlarmStatus s.control).conn } else s
      if dvrctl.timeoutUs ≠ 0 ∧ e.toSpent > dvrctl.timeoutUs then { s with pc := .returned 9 }
      else { s with pc := .wait }
  | .returned _ => s

/-- A run. -/
def run (dvrctl : Dvrcontrol) (s : MediaStream) (events : List StreamEvent) : MediaStream :=
  events.foldl (step dvrctl) s

end MediaStream

/-! ### Collecting a frame -/

/-- The payloads of the media messages among some messages. -/
def mediaPayloads (ms : List LlMessage) : List UInt8 :=
  (ms.filter fun m => m.cmd = 0xbc).flatMap LlMessage.payload

/-- A media message that is forwarded. -/
def LlMessage.Forwardable (m : LlMessage) : Prop :=
  m.payload.length ≤ streamBufferLen ∧ m.header.raw 16 = 0

/-- The input ends between two messages or in the middle of one. -/
def CutOff (tail : List UInt8) : Prop :=
  tail = [] ∨ ∃ (m : LlMessage) (k : ℕ), k < m.bytes.length ∧ tail = m.bytes.take k

theorem collectFrame_congr {h h' : HlConn} (codes : CollectCodes) (dest : Option ℕ)
    (hh : hlpGetHeader h.ll 0xbc = hlpGetHeader h'.ll 0xbc)
    (hu : h.uniqueLoginSymbol = h'.uniqueLoginSymbol) :
    collectFrame codes h dest = collectFrame codes h' dest := by
  obtain ⟨ll, u⟩ := h
  obtain ⟨ll', u'⟩ := h'
  cases hu
  unfold collectFrame
  rw [hh]

/-- Without a header there is no frame. -/
theorem collectFrame_of_no_header {h : HlConn} (codes : CollectCodes) (dest : Option ℕ)
    (hr : (hlpGetHeader h.ll 0xbc).ret ≠ 0) : (collectFrame codes h dest).ret ≠ 0 := by
  unfold collectFrame
  rw [if_pos hr]
  simp

/-- The header of a message that is cut off behind it. -/
theorem CutOff.cases {tail : List UInt8} (ht : CutOff tail) :
    tail.length < llpHeaderSize ∨
      ∃ (m : LlMessage) (part : List UInt8), tail = m.head ++ part ∧
        part.length < m.payload.length := by
  rcases ht with rfl | ⟨m, k, hk, rfl⟩
  · exact .inl (by decide)
  · rw [LlMessage.length_bytes] at hk
    by_cases h32 : k < llpHeaderSize
    · exact .inl (by rw [List.length_take]; omega)
    · refine .inr ⟨m, m.payload.take (k - llpHeaderSize), ?_, by rw [List.length_take]; omega⟩
      rw [LlMessage.bytes, List.take_append, m.length_head,
        List.take_of_length_le (by rw [m.length_head]; omega)]

/-- A message that is not complete is not forwarded. -/
theorem collectFrame_of_cutOff {h : HlConn} {codes : CollectCodes} {maxLen : ℕ} {tail : List UInt8}
    (hlarge : codes.large ≠ 0) (hread : codes.read ≠ 0) (ht : CutOff tail)
    (hr : h.ll.rest = tail) : (collectFrame codes h (some maxLen)).ret ≠ 0 := by
  rcases ht.cases with hlen | ⟨m, part, rfl, hpart⟩
  · refine collectFrame_of_no_header codes _ ?_
    rw [(hlpGetHeader_of_short (by rwa [hr])).1]
    simp
  · by_cases hc : m.cmd = 0xbc
    · have hh : hlpGetHeader h.ll 0xbc = ⟨0, m.header, { h.ll with rest := part }⟩ := by
        rw [hlpGetHeader, llpGetHeader_of_head hr, dif_neg (by simp), if_neg (by simpa using hc)]
      unfold collectFrame
      rw [hh]
      dsimp only
      rw [if_neg (by simp)]
      by_cases hl : m.header.extlen > maxLen
      · rw [if_pos hl, llpGetDiscardExtdata_of_short hpart, if_pos (by simp)]
        exact hlarge
      · rw [if_neg hl, llpGetExtdataSbuff_of_short le_rfl hpart, if_pos (by simp)]
        exact hread
    · refine collectFrame_of_no_header codes _ ?_
      rw [hlpGetHeader, llpGetHeader_of_head hr, dif_neg (by simp), if_pos (by simpa using hc),
        llpGetDiscardExtdata_of_short hpart, (hlpGetHeader_of_short (by simp [llpHeaderSize])).1]
      simp

/-- A media message at the reading position. -/
theorem collectFrame_of_media {h : HlConn} {codes : CollectCodes} {m : LlMessage}
    {more : List UInt8} (hr : h.ll.rest = m.bytes ++ more) (hc : m.cmd = 0xbc)
    (hz : (collectFrame codes h (some streamBufferLen)).ret = 0) :
    m.Forwardable ∧ (collectFrame codes h (some streamBufferLen)).data = m.payload ∧
      (collectFrame codes h (some streamBufferLen)).conn.ll.rest = more := by
  unfold collectFrame at hz ⊢
  rw [hlpGetHeader_of_cmd hr hc] at hz ⊢
  dsimp only at hz ⊢
  rw [if_neg (by simp)] at hz ⊢
  by_cases hl : m.header.extlen > streamBufferLen
  · rw [if_pos hl, llpGetDiscardExtdata_of_message rfl, if_neg (by simp)] at hz
    cases hz
  · have hle : m.payload.length ≤ streamBufferLen := Nat.not_lt.mp hl
    have hlt : m.payload.length < 2 ^ 31 := by
      rw [streamBufferLen] at hle
      omega
    have hbuf : llpGetExtdataSbuff { h.ll with rest := m.payload ++ more } m.header
        m.header.extlen = ⟨m.payload.length, m.payload, { h.ll with rest := more }⟩ := by
      rw [← toInt_of_lt hlt]
      exact llpGetExtdataSbuff_of_message le_rfl rfl
    have hn : ¬ (m.payload.length : ℤ) < 0 := by omega
    rw [if_neg hl, hbuf, if_neg hn] at hz ⊢
    refine ⟨⟨hle, ?_⟩, rfl, rfl⟩
    by_contra hne
    rw [if_pos hne, remoteRetcodeOffset] at hz
    dsimp only at hz
    omega

/-- **A frame**: when collecting it succeeds, the first media message is forwardable, and it is
taken from the input with all that precedes it. -/
theorem collectFrame_zero {h : HlConn} {codes : CollectCodes} {post : List LlMessage}
    {tail : List UInt8} (hlarge : codes.large ≠ 0) (hread : codes.read ≠ 0) (ht : CutOff tail)
    (hr : h.ll.rest = encode LlMessage.bytes post ++ tail)
    (hz : (collectFrame codes h (some streamBufferLen)).ret = 0) :
    ∃ skipped m post', post = skipped ++ m :: post' ∧ (∀ x ∈ skipped, x.cmd ≠ 0xbc) ∧
      m.cmd = 0xbc ∧ m.Forwardable ∧ (collectFrame codes h (some streamBufferLen)).data = m.payload ∧
      (collectFrame codes h (some streamBufferLen)).conn.ll.rest =
        encode LlMessage.bytes post' ++ tail := by
  induction post generalizing h with
  | nil =>
    rw [encode_nil, List.nil_append] at hr
    exact absurd hz (collectFrame_of_cutOff hlarge hread ht hr)
  | cons m post ih =>
    rw [encode_cons, List.append_assoc] at hr
    by_cases hc : m.cmd = 0xbc
    · exact ⟨[], m, post, rfl, nofun, hc, collectFrame_of_media hr hc hz⟩
    · have hskip : collectFrame codes h (some streamBufferLen) =
          collectFrame codes ⟨{ h.ll with rest := encode LlMessage.bytes post ++ tail },
            h.uniqueLoginSymbol⟩ (some streamBufferLen) :=
        collectFrame_congr codes _ (hlpGetHeader_of_other hr hc) rfl
      rw [hskip] at hz ⊢
      obtain ⟨skipped, m', post', rfl, hs, hm⟩ := ih rfl hz
      refine ⟨m :: skipped, m', post', rfl, fun x hx => ?_, hm⟩
      rcases List.mem_cons.mp hx with rfl | hx
      · exact hc
      · exact hs x hx

/-! ### Runs -/

/-- The invariant of a run on the messages `ms`: those before the reading position were dealt with,
and the media messages among them forwarded. -/
structure Forwarded (ms : List LlMessage) (tail : List UInt8) (s : MediaStream) : Prop where
  cut : ∃ pre post, ms = pre ++ post ∧ s.pipe = mediaPayloads pre ∧
    (∀ m ∈ pre, m.cmd = 0xbc → m.Forwardable) ∧
    ((∀ ret, s.pc ≠ .returned ret) → s.stream.ll.rest = encode LlMessage.bytes post ++ tail)

theorem mediaPayloads_append (xs ys : List LlMessage) :
    mediaPayloads (xs ++ ys) = mediaPayloads xs ++ mediaPayloads ys := by
  rw [mediaPayloads, List.filter_append, List.flatMap_append]
  rfl

theorem mediaPayloads_skipped {skipped : List LlMessage} (hs : ∀ x ∈ skipped, x.cmd ≠ 0xbc)
    {m : LlMessage} (hm : m.cmd = 0xbc) : mediaPayloads (skipped ++ [m]) = m.payload := by
  have hnil : skipped.filter (fun m => decide (m.cmd = 0xbc)) = [] := by
    rw [List.filter_eq_nil_iff]
    intro x hx
    simpa using hs x hx
  rw [mediaPayloads, List.filter_append, hnil]
  simp [hm]

theorem MediaStream.write_of_all {e : StreamEvent} (hw : ∀ n, e.write n = some n) (s : MediaStream)
    (frame : List UInt8) (next : StreamPc) :
    s.write e frame next = { s with pc := next, pipe := s.pipe ++ frame } := by
  rw [MediaStream.write, hw]
  dsimp only
  rw [List.take_length]

/-- The media request succeeds when both of its packets are sent and a frame is collected. -/
theorem hlpMediaDataRequest_zero {ctrl h : HlConn} {channel : ℕ} {subChannel : ℤ}
    {dest : Option ℕ} (hz : (hlpMediaDataRequest ctrl h channel subChannel dest).ret = 0) :
    (collectFrame ⟨3, 5, 4⟩ h dest).ret = 0 ∧
      (hlpMediaDataRequest ctrl h channel subChannel dest).data =
        (collectFrame ⟨3, 5, 4⟩ h dest).data ∧
      (hlpMediaDataRequest ctrl h channel subChannel dest).conn =
        (collectFrame ⟨3, 5, 4⟩ h dest).conn := by
  unfold hlpMediaDataRequest at hz ⊢
  dsimp only at hz ⊢
  split_ifs at hz ⊢
  · cases hz
  · cases hz
  · exact ⟨hz, rfl, rfl⟩

/-- The invariant after a frame was collected and offered to the pipe. -/
theorem Forwarded.write {ms : List LlMessage} {tail : List UInt8} {s : MediaStream}
    (hf : Forwarded ms tail s) (t : MediaStream) (hpc : ∀ ret, s.pc ≠ .returned ret) (ht : CutOff tail)
    {codes : CollectCodes} (hlarge : codes.large ≠ 0) (hread : codes.read ≠ 0) {h : HlConn}
    (hh : h.ll.rest = s.stream.ll.rest)
    (hz : (collectFrame codes h (some streamBufferLen)).ret = 0)
    (hs : t.stream = (collectFrame codes h (some streamBufferLen)).conn) (hp : t.pipe = s.pipe)
    {e : StreamEvent} (hw : ∀ n, e.write n = some n) (next : StreamPc) :
    Forwarded ms tail
      (t.write e (collectFrame codes h (some streamBufferLen)).data next) := by
  obtain ⟨pre, post, rfl, hpipe, hfwd, hrest⟩ := hf
  obtain ⟨skipped, m, post', rfl, hskip, hm, hfm, hdata, hconn⟩ :=
    collectFrame_zero hlarge hread ht (hh.trans (hrest hpc)) hz
  refine ⟨pre ++ (skipped ++ [m]), post', by simp, ?_, ?_, fun _ => ?_⟩
  · rw [MediaStream.write_of_all hw, hdata, hp, hpipe, mediaPayloads_append,
      mediaPayloads_skipped hskip hm]
  · intro x hx hxc
    rcases List.mem_append.mp hx with hx | hx
    · exact hfwd x hx hxc
    · rcases List.mem_append.mp hx with hx | hx
      · exact absurd hxc (hskip x hx)
      · rw [List.mem_singleton.mp hx]
        exact hfm
  · rw [MediaStream.write_of_all hw]
    exact hs ▸ hconn

/-- A turn that reads and writes nothing. -/
theorem Forwarded.of_eq {ms : List LlMessage} {tail : List UInt8} {s s' : MediaStream}
    (hf : Forwarded ms tail s) (hp : s'.pipe = s.pipe)
    (hr : (∀ ret, s'.pc ≠ .returned ret) → (∀ ret, s.pc ≠ .returned ret) ∧
      s'.stream.ll.rest = s.stream.ll.rest) : Forwarded ms tail s' := by
  obtain ⟨pre, post, rfl, hpipe, hfwd, hrest⟩ := hf
  refine ⟨pre, post, rfl, hp.trans hpipe, hfwd, ?_⟩
  intro hpc
  rw [(hr hpc).2]
  exact hrest (hr hpc).1

/-- **One turn** forwards at most one frame, the next one. -/
theorem Forwarded.step {ms : List LlMessage} {tail : List UInt8} {s : MediaStream}
    (hf : Forwarded ms tail s) (ht : CutOff tail) (dvrctl : Dvrcontrol) {e : StreamEvent}
    (hw : ∀ n, e.write n = some n) : Forwarded ms tail (s.step dvrctl e) := by
  unfold MediaStream.step
  cases hpc : s.pc with
  | request =>
    dsimp only
    by_cases hz : (hlpMediaDataRequest s.control s.stream dvrctl.channel dvrctl.subChannel
      (some streamBufferLen)).ret ≠ 0
    · rw [if_pos hz]
      exact hf.of_eq rfl fun h => absurd rfl (h 3)
    · rw [if_neg hz]
      obtain ⟨hz, hdata, hconn⟩ := hlpMediaDataRequest_zero (not_not.mp hz)
      rw [hdata]
      exact hf.write { s with control := _, stream := _ } (by simp [hpc]) ht (by simp) (by simp) rfl
        hz hconn rfl hw _
  | wait =>
    exact hf.of_eq rfl fun _ => ⟨by simp [hpc], rfl⟩
  | collect =>
    dsimp only
    by_cases hp : (llpCheckIncomingData s.stream.ll).1 > 0
    · rw [if_pos hp]
      by_cases hz : (hlpCollectMediaData { s.stream with ll := (llpCheckIncomingData s.stream.ll).2 }
        (some streamBufferLen)).ret ≠ 0
      · rw [if_pos hz]
        exact hf.of_eq rfl fun h => absurd rfl (h 6)
      · rw [if_neg hz]
        exact hf.write { s with stream := _ } (by simp [hpc]) ht (by simp) (by simp) (by simp)
          (not_not.mp hz) rfl rfl hw _
    · rw [if_neg hp]
      exact hf.of_eq rfl fun _ => ⟨by simp [hpc], by simp⟩
  | discard =>
    exact hf.of_eq rfl fun _ => ⟨by simp [hpc], rfl⟩
  | timers =>
    dsimp only
    split_ifs <;> exact hf.of_eq rfl fun _ => ⟨by simp [hpc], rfl⟩
  | returned ret => exact hf

theorem Forwarded.run {ms : List LlMessage} {tail : List UInt8} {s : MediaStream}
    (hf : Forwarded ms tail s) (ht : CutOff tail) (dvrctl : Dvrcontrol) (events : List StreamEvent)
    (hw : ∀ e ∈ events, ∀ n, e.write n = some n) : Forwarded ms tail (s.run dvrctl events) := by
  induction events generalizing s with
  | nil => exact hf
  | cons e events ih =>
    exact ih (hf.step ht dvrctl (hw e (by simp))) fun x hx => hw x (by simp [hx])

/-- **Forwarding**: as long as `write` takes all it is offered, the pipe has received the payloads
of the media messages among the first messages of the data connection, each once and in order; these
messages are complete, and the media messages among them fit in the buffer and carry no error
code. -/
theorem media_forwarded (dvrctl : Dvrcontrol) (control stream : HlConn) (ms : List LlMessage) (n : ℕ)
    (hr : stream.ll.rest = (encode LlMessage.bytes ms).take n) (events : List StreamEvent)
    (hw : ∀ e ∈ events, ∀ len, e.write len = some len) :
    ∃ pre, pre <+: ms ∧ (encode LlMessage.bytes pre).length ≤ n ∧
      (∀ m ∈ pre, m.cmd = 0xbc → m.Forwardable) ∧
      ((MediaStream.start control stream).run dvrctl events).pipe = mediaPayloads pre := by
  obtain ⟨whole, post, rfl, hlen, hcut⟩ := take_encode LlMessage.bytes ms n
  have htail : ∃ tail, CutOff tail ∧
      (encode LlMessage.bytes (whole ++ post)).take n = encode LlMessage.bytes whole ++ tail := by
    rcases hcut with hcut | ⟨m, post', k, -, hk, hcut⟩
    · exact ⟨[], .inl rfl, by rw [hcut, List.append_nil]⟩
    · exact ⟨_, .inr ⟨m, k, hk, rfl⟩, hcut⟩
  obtain ⟨tail, ht, htake⟩ := htail
  have hstart : Forwarded whole tail (.start control stream) :=
    ⟨[], whole, rfl, rfl, nofun, fun _ => hr.trans htake⟩
  obtain ⟨pre, rest, rfl, hpipe, hfwd, -⟩ := hstart.run ht dvrctl events hw
  refine ⟨pre, ?_, ?_, hfwd, hpipe⟩
  · rw [List.append_assoc]
    exact List.prefix_append _ _
  · rw [encode_append, List.length_append] at hlen
    omega

/-- The late reply to the relationship request. -/
def lateReply : LlMessage where
  head := 0xf1 :: List.replicate 31 0
  payload := []
  length_head := rfl
  le32_head := by decide

/-- A media message with one byte. -/
def oneByteFrame : LlMessage where
  head := [0xbc, 0, 0, 0, 1] ++ List.replicate 27 0
  payload := [7]
  length_head := rfl
  le32_head := by decide

/-- A data connection that ends in the header of the second frame. -/
def frameConn : HlConn :=
  ⟨⟨(encode LlMessage.bytes [lateReply, oneByteFrame, oneByteFrame]).take 70, false, [], [1], []⟩, 0⟩

/-- A control connection that accepts the media request. -/
def controlConn : HlConn := ⟨⟨[], false, [true, true], [], []⟩, 0⟩

/-- Turns in which data arrives and all of it is written. -/
def busyTurn : StreamEvent := ⟨1, 0, 0, some⟩

theorem media_forwarded_cut :
    ∃ pre, pre <+: [lateReply, oneByteFrame, oneByteFrame] ∧
      (encode LlMessage.bytes pre).length ≤ 70 ∧ (∀ m ∈ pre, m.cmd = 0xbc → m.Forwardable) ∧
      ((MediaStream.start controlConn frameConn).run ⟨0, 0, 0, 0⟩
        [busyTurn, busyTurn, busyTurn]).pipe = mediaPayloads pre :=
  media_forwarded ⟨0, 0, 0, 0⟩ controlConn frameConn [lateReply, oneByteFrame, oneByteFrame] 70 rfl
    [busyTurn, busyTurn, busyTurn] (by
      intro e he len
      simp only [List.mem_cons, List.not_mem_nil, or_false, or_self] at he
      rw [he]
      rfl)

example : ((MediaStream.start controlConn frameConn).run ⟨0, 0, 0, 0⟩
    [busyTurn, busyTurn, busyTurn]).pipe = [7] := by decide +kernel

example : ((MediaStream.start controlConn frameConn).run ⟨0, 0, 0, 0⟩
    [busyTurn, busyTurn, busyTurn]).pc = .returned 6 := by decide +kernel

end TaniDVR
