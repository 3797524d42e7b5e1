import TaniDVR.MediaStream

/-!
# AlarmReply — the reply that `hlp_set_alarm` waits for

A reply to the alarm request has the command 0x69, operation type 2 and the alarm type.  Its loop
tests the operation type of the request it has sent, not that of the reply.  So it takes the first
0x69 message with the alarm type: `alarm_confirmed_iff`.
-/

namespace TaniDVR

open Lib

namespace LlMessage

/-- The reply is for the alarm type `a`. -/
def NamesAlarm (a : UInt8) (m : LlMessage) : Prop := m.cmd = 0x69 ∧ m.header.raw 12 = a

/-- The reply to the request for the alarm type `a`. -/
def ConfirmsAlarm (a : UInt8) (m : LlMessage) : Prop :=
  m.cmd = 0x69 ∧ m.header.raw 8 = 2 ∧ m.header.raw 12 = a

instance (a : UInt8) : DecidablePred (NamesAlarm a) := fun _ => inferInstanceAs (Decidable (_ ∧ _))

theorem ConfirmsAlarm.names {a : UInt8} {m : LlMessage} (h : m.ConfirmsAlarm a) : m.NamesAlarm a :=
  ⟨h.1, h.2.2⟩

theorem NamesAlarm.confirms {a : UInt8} {m : LlMessage} (h : m.NamesAlarm a) :
    m.ConfirmsAlarm a ↔ m.header.raw 8 = 2 :=
  ⟨fun hc => hc.2.1, fun h8 => ⟨h.1, h8, h.2⟩⟩

end LlMessage

/-- The request. -/
def alarmRequest (a : UInt8) : LlHeader := ((llpInitHeader.set 0 0x68).set 8 2).set 12 a

theorem alarmRequest_raw_eight (a : UInt8) : (alarmRequest a).raw 8 = 2 := rfl

variable {c : Conn} {h : HlConn} {out : LlHeader} {a : UInt8} {m : LlMessage}
  {skipped : List LlMessage} {more tail : List UInt8}

/-! ### The loop -/

/-- The loop depends on the next header with the command 0x69 only. -/
theorem awaitAlarm_congr {c' : Conn} (hh : hlpGetHeader c 0x69 = hlpGetHeader c' 0x69) :
    awaitAlarm c out a = awaitAlarm c' out a := by
  conv_lhs => rw [awaitAlarm]
  conv_rhs => rw [awaitAlarm]
  rw [hh]

theorem awaitAlarm_of_names (hr : c.rest = m.bytes ++ more) (hout : out.raw 8 = 2)
    (hm : m.NamesAlarm a) :
    awaitAlarm c out a = ⟨0, m.header, { c with rest := m.payload ++ more }⟩ := by
  rw [awaitAlarm, hlpGetHeader_of_cmd hr hm.1]
  dsimp only
  rw [dif_neg (by simp), if_neg (by simp [hout]), if_neg (by simp [hm.2])]

/-- **Any other message is skipped.** -/
theorem awaitAlarm_of_other (hr : c.rest = m.bytes ++ more) (hout : out.raw 8 = 2)
    (hm : ¬ m.NamesAlarm a) : awaitAlarm c out a = awaitAlarm { c with rest := more } out a := by
  by_cases hc : m.cmd = 0x69
  · have h12 : m.header.raw 12 ≠ a := fun h12 => hm ⟨hc, h12⟩
    rw [awaitAlarm, hlpGetHeader_of_cmd hr hc]
    dsimp only
    rw [dif_neg (by simp), if_neg (by simp [hout]), if_pos h12, llpGetDiscardExtdata_of_message rfl,
      if_neg (by simp)]
  · exact awaitAlarm_congr (hlpGetHeader_of_other hr hc)

theorem awaitAlarm_skips (hr : c.rest = encode LlMessage.bytes skipped ++ more)
    (hout : out.raw 8 = 2) (hs : ∀ x ∈ skipped, ¬ x.NamesAlarm a) :
    awaitAlarm c out a = awaitAlarm { c with rest := more } out a := by
  induction skipped generalizing c with
  | nil =>
    rw [encode_nil, List.nil_append] at hr
    rw [← hr]
  | cons m skipped ih =>
    rw [encode_cons, List.append_assoc] at hr
    rw [awaitAlarm_of_other hr hout (hs m (by simp)), ih rfl fun x hx => hs x (by simp [hx])]

/-! ### The function -/

theorem hlpSetAlarm_of_not_sent (hs : h.ll.sends.head? ≠ some true) :
    (hlpSetAlarm h a).ret = 4 := by
  unfold hlpSetAlarm
  dsimp only
  rw [llpSendHeader_ret, if_neg hs, if_pos (by simp)]

/-- The end of `hlp_set_alarm`: the payload of the message `r` that the loop found. -/
def finishAlarm (h : HlConn) (r : HeaderRead) : Reply :=
  if r.ret ≠ 0 then ⟨r.ret, { h with ll := r.conn }⟩
  else
    let d := llpGetDiscardExtdata r.conn r.header
    if d.1 ≠ 0 then ⟨3, { h with ll := d.2 }⟩ else ⟨0, { h with ll := d.2 }⟩

/-- A request that is sent is followed by the loop. -/
theorem hlpSetAlarm_of_sent (hs : h.ll.sends.head? = some true) :
    ∃ c : Conn, c.rest = h.ll.rest ∧
      hlpSetAlarm h a = finishAlarm h (awaitAlarm c (alarmRequest a) a) := by
  refine ⟨(llpSendHeader h.ll (alarmRequest a)).2, llpSendHeader_rest _ _, ?_⟩
  have hret : (llpSendHeader h.ll (alarmRequest a)).1 = 0 := by rw [llpSendHeader_ret, if_pos hs]
  unfold hlpSetAlarm
  exact if_neg (not_not.mpr hret)

theorem finishAlarm_of_none {r : HeaderRead} (hr : r.ret ≠ 0) : (finishAlarm h r).ret ≠ 0 := by
  rw [finishAlarm, if_pos hr]
  exact hr

theorem finishAlarm_of_message :
    finishAlarm h ⟨0, m.header, { c with rest := m.payload ++ more }⟩ =
      ⟨0, { h with ll := { c with rest := more } }⟩ := by
  rw [finishAlarm, if_neg (by simp)]
  dsimp only
  rw [llpGetDiscardExtdata_of_message rfl, if_neg (by simp)]

theorem finishAlarm_of_short {r : HeaderRead} (hl : r.conn.rest.length < r.header.extlen) :
    (finishAlarm h r).ret ≠ 0 := by
  by_cases hr : r.ret ≠ 0
  · exact finishAlarm_of_none hr
  · rw [finishAlarm, if_neg hr]
    dsimp only
    rw [llpGetDiscardExtdata_of_short hl, if_pos (by simp)]
    simp

/-- **The first message for the alarm type is taken.** -/
theorem hlpSetAlarm_of_first (hs : h.ll.sends.head? = some true)
    (hr : h.ll.rest = encode LlMessage.bytes skipped ++ (m.bytes ++ more))
    (hskip : ∀ x ∈ skipped, ¬ x.NamesAlarm a) (hm : m.NamesAlarm a) :
    (hlpSetAlarm h a).ret = 0 ∧ (hlpSetAlarm h a).conn.ll.rest = more := by
  obtain ⟨c, hc, heq⟩ := hlpSetAlarm_of_sent (a := a) hs
  rw [heq, awaitAlarm_skips (hc.trans hr) (alarmRequest_raw_eight a) hskip,
    awaitAlarm_of_names rfl (alarmRequest_raw_eight a) hm, finishAlarm_of_message]
  exact ⟨rfl, rfl⟩

/-- The loop ends with the waiting for the next header. -/
theorem awaitAlarm_of_none (hr : (hlpGetHeader c 0x69).ret ≠ 0) : (awaitAlarm c out a).ret ≠ 0 := by
  rw [awaitAlarm, dif_pos hr]
  simp

/-- A message that is cut off completes no subscription. -/
theorem finishAlarm_of_cutOff (hout : out.raw 8 = 2) (ht : CutOff tail) (hr : c.rest = tail) :
    (finishAlarm h (awaitAlarm c out a)).ret ≠ 0 := by
  rcases ht.cases with hlen | ⟨m, part, rfl, hpart⟩
  · refine finishAlarm_of_none (awaitAlarm_of_none ?_)
    rw [(hlpGetHeader_of_short (by rwa [hr])).1]
    simp
  · by_cases hc : m.cmd = 0x69
    · have hh : hlpGetHeader c 0x69 = ⟨0, m.header, { c with rest := part }⟩ := by
        rw [hlpGetHeader, llpGetHeader_of_head hr, dif_neg (by simp), if_neg (by simpa using hc)]
      rw [awaitAlarm, hh]
      dsimp only
      rw [dif_neg (by simp), if_neg (by simp [hout])]
      by_cases h12 : m.header.raw 12 ≠ a
      · rw [if_pos h12, llpGetDiscardExtdata_of_short hpart, if_pos (by simp)]
        exact finishAlarm_of_none (by simp)
      · rw [if_neg h12]
        exact finishAlarm_of_short hpart
    · refine finishAlarm_of_none (awaitAlarm_of_none ?_)
      rw [hlpGetHeader, llpGetHeader_of_head hr, dif_neg (by simp), if_pos (by simpa using hc),
        llpGetDiscardExtdata_of_short hpart, (hlpGetHeader_of_short (by simp [llpHeaderSize])).1]
      simp

/-- **Without a message for the alarm type the subscription fails.** -/
theorem hlpSetAlarm_of_none (ht : CutOff tail)
    (hr : h.ll.rest = encode LlMessage.bytes skipped ++ tail)
    (hskip : ∀ x ∈ skipped, ¬ x.NamesAlarm a) : (hlpSetAlarm h a).ret ≠ 0 := by
  by_cases hs : h.ll.sends.head? = some true
  · obtain ⟨c, hc, heq⟩ := hlpSetAlarm_of_sent (a := a) hs
    rw [heq, awaitAlarm_skips (hc.trans hr) (alarmRequest_raw_eight a) hskip]
    exact finishAlarm_of_cutOff (alarmRequest_raw_eight a) ht rfl
  · rw [hlpSetAlarm_of_not_sent hs]
    simp

/-- The function returns 0 exactly when the reply to its request is among the messages, and has then
read up to the end of the first such reply. -/
structure Subscribes (a : UInt8) (ms : List LlMessage) (tail : List UInt8) (r : Reply) : Prop where
  succeeds : r.ret = 0 ↔ ∃ m ∈ ms, m.ConfirmsAlarm a
  consumed : r.ret = 0 → ∃ skipped m more, ms = skipped ++ m :: more ∧
    (∀ x ∈ skipped, ¬ x.ConfirmsAlarm a) ∧ m.ConfirmsAlarm a ∧
    r.conn.ll.rest = encode LlMessage.bytes more ++ tail

/-- The first message for the alarm type. -/
def firstNamed (a : UInt8) (ms : List LlMessage) : Option LlMessage :=
  ms.find? fun m => decide (m.NamesAlarm a)

variable {ms : List LlMessage}

theorem firstNamed_none (hf : firstNamed a ms = none) : ∀ m ∈ ms, ¬ m.NamesAlarm a := by
  intro m hm
  simpa using List.find?_eq_none.mp hf m hm

theorem firstNamed_some (hf : firstNamed a ms = some m) :
    m.NamesAlarm a ∧
      ∃ skipped more, ms = skipped ++ m :: more ∧ ∀ x ∈ skipped, ¬ x.NamesAlarm a := by
  obtain ⟨hm, skipped, more, heq, hskip⟩ := List.find?_eq_some_iff_append.mp hf
  exact ⟨of_decide_eq_true hm, skipped, more, heq, fun x hx => by simpa using hskip x hx⟩

/-- A request that is sent. -/
theorem subscribes_of_sent (ht : CutOff tail) (hr : h.ll.rest = encode LlMessage.bytes ms ++ tail)
    (hs : h.ll.sends.head? = some true) :
    Subscribes a ms tail (hlpSetAlarm h a) ↔ ∀ m ∈ firstNamed a ms, m.header.raw 8 = 2 := by
  cases hf : firstNamed a ms with
  | none =>
    have hnone := firstNamed_none hf
    have hret := hlpSetAlarm_of_none ht hr hnone
    refine iff_of_true ⟨iff_of_false hret ?_, fun h0 => absurd h0 hret⟩ nofun
    rintro ⟨m, hm, hc⟩
    exact hnone m hm hc.names
  | some m =>
    obtain ⟨hm, skipped, more, rfl, hskip⟩ := firstNamed_some hf
    have hr' : h.ll.rest = encode LlMessage.bytes skipped ++
        (m.bytes ++ (encode LlMessage.bytes more ++ tail)) := by
      rw [hr, encode_append, encode_cons, List.append_assoc, List.append_assoc]
    obtain ⟨hret, hrest⟩ := hlpSetAlarm_of_first hs hr' hskip hm
    constructor
    · rintro ⟨-, hconsumed⟩ x hx
      cases hx
      obtain ⟨skipped', m', more', heq, -, hm', hrest'⟩ := hconsumed hret
      -- the position tells which message was taken
      have hsuffix : more <:+ skipped ++ m :: more := ⟨skipped ++ [m], by simp⟩
      have hsuffix' : more' <:+ skipped ++ m :: more := ⟨skipped' ++ [m'], by simp [heq]⟩
      obtain rfl := suffix_eq_of_encode_eq LlMessage.bytes_ne_nil hsuffix hsuffix'
        (List.append_cancel_right (hrest.symm.trans hrest'))
      have hlast : skipped ++ [m] ++ more = skipped' ++ [m'] ++ more := by simpa using heq
      have hlast := List.append_cancel_right hlast
      obtain ⟨-, hmm⟩ := List.append_inj' hlast rfl
      obtain rfl := List.singleton_inj.mp hmm
      exact hm'.2.1
    · intro h8
      have hc : m.ConfirmsAlarm a := hm.confirms.mpr (h8 m rfl)
      refine ⟨iff_of_true hret ⟨m, by simp, hc⟩, fun _ => ?_⟩
      exact ⟨skipped, m, more, rfl, fun x hx hx' => hskip x hx hx'.names, hc, hrest⟩

/-- **An alarm subscription succeeds on its own reply** exactly when the first 0x69 message for the
alarm type has operation type 2, or there is none; and if the request cannot be sent, exactly when
its reply does not come. -/
theorem alarm_confirmed_iff (h : HlConn) (a : UInt8) (ms : List LlMessage) (tail : List UInt8)
    (ht : CutOff tail) (hr : h.ll.rest = encode LlMessage.bytes ms ++ tail) :
    Subscribes a ms tail (hlpSetAlarm h a) ↔
      (h.ll.sends.head? = some true → ∀ m ∈ firstNamed a ms, m.header.raw 8 = 2) ∧
      (h.ll.sends.head? ≠ some true → ∀ m ∈ ms, ¬ m.ConfirmsAlarm a) := by
  by_cases hs : h.ll.sends.head? = some true
  · rw [subscribes_of_sent ht hr hs]
    exact ⟨fun hf => ⟨fun _ => hf, fun hn => absurd hs hn⟩, fun hf => hf.1 hs⟩
  · have hret : (hlpSetAlarm h a).ret ≠ 0 := by
      rw [hlpSetAlarm_of_not_sent hs]
      simp
    constructor
    · rintro ⟨hsucceeds, -⟩
      refine ⟨fun hs' => absurd hs' hs, fun _ m hm hc => ?_⟩
      exact hret (hsucceeds.mpr ⟨m, hm, hc⟩)
    · rintro ⟨-, hnone⟩
      refine ⟨iff_of_false hret ?_, fun h0 => absurd h0 hret⟩
      rintro ⟨m, hm, hc⟩
      exact hnone hs m hm hc

/-- The reply for alarm type 1, and one for alarm type 2. -/
def alarmReply : LlMessage where
  head := [0x69, 0, 0, 0, 0, 0, 0, 0, 2, 0, 0, 0, 1] ++ List.replicate 19 0
  payload := []
  length_head := rfl
  le32_head := by decide

def otherAlarm : LlMessage where
  head := [0x69, 0, 0, 0, 0, 0, 0, 0, 2, 0, 0, 0, 2] ++ List.replicate 19 0
  payload := []
  length_head := rfl
  le32_head := by decide

/-- A connection on which the reply for the other type comes first. -/
def alarmConn : HlConn :=
  ⟨⟨encode LlMessage.bytes [otherAlarm, alarmReply], false, [true], [], []⟩, 0⟩

theorem alarm_confirmed_iff_alarmReply :
    Subscribes 1 [otherAlarm, alarmReply] [] (hlpSetAlarm alarmConn 1) := by
  refine (alarm_confirmed_iff alarmConn 1 [otherAlarm, alarmReply] [] (.inl rfl) (by
    rw [List.append_nil]
    rfl)).mpr ⟨fun _ m hm => ?_, fun hs => absurd rfl hs⟩
  have hfirst : firstNamed 1 [otherAlarm, alarmReply] = some alarmReply := rfl
  rw [hfirst] at hm
  obtain rfl : alarmReply = m := by simpa using hm
  rfl

/-- A message for alarm type 1 that does not have operation type 2. -/
def otherOperation : LlMessage where
  head := [0x69, 0, 0, 0, 0, 0, 0, 0, 1, 0, 0, 0, 1] ++ List.replicate 19 0
  payload := []
  length_head := rfl
  le32_head := by decide

/-- A connection on which it comes. -/
def otherOperationConn : HlConn :=
  ⟨⟨encode LlMessage.bytes [otherOperation], false, [true], [], []⟩, 0⟩

/-- The subscription succeeds although its reply does not come. -/
theorem subscribed_by_other_operation :
    otherOperationConn.ll.sends.head? = some true ∧ (hlpSetAlarm otherOperationConn 1).ret = 0 ∧
      ¬ ∃ m ∈ [otherOperation], m.ConfirmsAlarm 1 := by
  refine ⟨rfl, ?_, ?_⟩
  · have hr : otherOperationConn.ll.rest =
        encode LlMessage.bytes [] ++ (otherOperation.bytes ++ []) := rfl
    exact (hlpSetAlarm_of_first rfl hr nofun ⟨rfl, rfl⟩).1
  · rintro ⟨m, hm, hc⟩
    obtain rfl := List.mem_singleton.mp hm
    exact absurd hc.2.1 (by decide)

end TaniDVR
