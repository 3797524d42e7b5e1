import TaniDVR.SystemInfo

/-!
# BatchReplies — where a batch query leaves the connection

`hlp_get_system_information_multiple` sends its requests and a `NOP`, and reads replies up to that
of the `NOP`.  A reply that does not fit in the buffer ends it before, as does a request that cannot
be sent: `batch_position_iff`.
-/

namespace TaniDVR

open Lib

variable {c : Conn} {h : HlConn} {m : LlMessage} {more tail : List UInt8}
  {pre post : List LlMessage}

/-! ### The requests -/

/-- The requests are sent when the next `fwrite`s succeed. -/
theorem sendInfoRequests_ret (c : Conn) (infotype count : ℕ) :
    (sendInfoRequests c infotype count).1 = 0 ↔ ∀ k < count, c.sends[k]? = some true := by
  refine ⟨?_, fun hs => (sendInfoRequests_of_sends infotype count hs).1⟩
  induction count generalizing c infotype with
  | zero => exact fun _ => nofun
  | succ count ih =>
    intro hz k hk
    rw [sendInfoRequests] at hz
    by_cases hs : c.sends.head? = some true
    · have hret : ∀ out, ¬ (llpSendHeader c out).1 ≠ 0 := by
        intro out
        rw [llpSendHeader_ret, if_pos hs]
        simp
      rw [if_neg (hret _)] at hz
      have hall := ih _ _ hz
      cases k with
      | zero => rwa [← List.head?_eq_getElem?]
      | succ k =>
        have := hall k (by omega)
        rwa [llpSendHeader_sends, List.getElem?_tail] at this
    · have hret : ∀ out, (llpSendHeader c out).1 ≠ 0 := by
        intro out
        rw [llpSendHeader_ret, if_neg hs]
        simp
      rw [if_pos (hret _)] at hz
      cases hz

@[simp] theorem sendInfoRequests_rest (c : Conn) (infotype count : ℕ) :
    (sendInfoRequests c infotype count).2.rest = c.rest := by
  induction count generalizing c infotype with
  | zero => rfl
  | succ count ih =>
    rw [sendInfoRequests]
    split_ifs
    · simp
    · rw [ih, llpSendHeader_rest]

/-! ### The replies -/

/-- A reply that does not fit in the buffer is the last one. -/
theorem collectReplies_of_large (devinfo : Option Devinfo) (hr : c.rest = m.bytes ++ more)
    (hl : sysinfoEdLen < m.payload.length) :
    collectReplies c devinfo = (3, devinfo, { c with rest := more }) := by
  rw [collectReplies, llpGetHeader_of_message hr]
  dsimp only
  rw [dif_neg (by simp), llpGetExtdataSbuff_of_large hl, if_pos (by simp),
    llpGetDiscardExtdata_of_message rfl]

/-- The replies before that of the `NOP`, and the position that is to be reached behind it. -/
theorem collectReplies_rest (devinfo : Option Devinfo)
    (hr : c.rest = encode LlMessage.bytes (pre ++ m :: post) ++ tail)
    (hpre : ∀ x ∈ pre, x.cmd ≠ llpHdNopReply) (hm : m.cmd = llpHdNopReply)
    (hfit : ∀ x ∈ pre, x.payload.length ≤ sysinfoEdLen) :
    (collectReplies c devinfo).2.2.rest = encode LlMessage.bytes post ++ tail := by
  induction pre generalizing c devinfo with
  | nil =>
    rw [List.nil_append, encode_cons, List.append_assoc] at hr
    by_cases hl : m.payload.length ≤ sysinfoEdLen
    · rw [collectReplies_of_message hl hr, if_pos hm]
    · rw [collectReplies_of_large _ hr (by omega)]
  | cons x pre ih =>
    rw [List.cons_append, encode_cons, List.append_assoc] at hr
    rw [collectReplies_of_message (hfit x (by simp)) hr, if_neg (hpre x (by simp))]
    exact ih _ rfl (fun y hy => hpre y (by simp [hy])) fun y hy => hfit y (by simp [hy])

/-- A reply that does not fit leaves the others behind. -/
theorem collectReplies_stops (devinfo : Option Devinfo)
    (hr : c.rest = encode LlMessage.bytes (pre ++ m :: post) ++ tail)
    (hpre : ∀ x ∈ pre, x.cmd ≠ llpHdNopReply)
    (hlarge : ∃ x ∈ pre, sysinfoEdLen < x.payload.length) :
    ∃ left, (collectReplies c devinfo).2.2.rest =
      encode LlMessage.bytes (left ++ m :: post) ++ tail := by
  induction pre generalizing c devinfo with
  | nil =>
    obtain ⟨x, hx, -⟩ := hlarge
    cases hx
  | cons y pre ih =>
    rw [List.cons_append, encode_cons, List.append_assoc] at hr
    by_cases hl : y.payload.length ≤ sysinfoEdLen
    · rw [collectReplies_of_message hl hr, if_neg (hpre y (by simp))]
      have hlarge' : ∃ x ∈ pre, sysinfoEdLen < x.payload.length := by
        obtain ⟨x, hx, hlt⟩ := hlarge
        rcases List.mem_cons.mp hx with rfl | hx
        · omega
        · exact ⟨x, hx, hlt⟩
      exact ih _ (c := { c with rest := encode LlMessage.bytes (pre ++ m :: post) ++ tail }) rfl
        (fun x hx => hpre x (by simp [hx])) hlarge'
    · rw [collectReplies_of_large _ hr (by omega)]
      exact ⟨pre, rfl⟩

/-! ### The query -/

/-- All requests and the `NOP` are sent. -/
def BatchSent (c : Conn) (count : ℕ) : Prop := ∀ k ≤ count, c.sends[k]? = some true

theorem batchSent_iff (c : Conn) (infotype count : ℕ) :
    BatchSent c count ↔ (sendInfoRequests c infotype count).1 = 0 ∧
      (llpSendNop (sendInfoRequests c infotype count).2).1 = 0 := by
  have hnop : (sendInfoRequests c infotype count).1 = 0 →
      ((llpSendNop (sendInfoRequests c infotype count).2).1 = 0 ↔
        c.sends[count]? = some true) := by
    intro hz
    have hs := (sendInfoRequests_ret c infotype count).mp hz
    rw [llpSendNop, llpSendHeader_ret, (sendInfoRequests_of_sends infotype count hs).2.2,
      List.head?_drop]
    split_ifs with hs <;> simp [hs]
  constructor
  · intro hs
    have hz := (sendInfoRequests_ret c infotype count).mpr fun k hk => hs k hk.le
    exact ⟨hz, (hnop hz).mpr (hs count le_rfl)⟩
  · rintro ⟨hz, hn⟩ k hk
    rcases Nat.lt_or_eq_of_le hk with hlt | rfl
    · exact (sendInfoRequests_ret c infotype count).mp hz k hlt
    · exact (hnop hz).mp hn

/-- A query that is not sent reads nothing. -/
theorem batch_of_not_sent (devinfo : Option Devinfo) (firstInfotype : UInt8) {totalInfotype : ℤ}
    (hs : ¬ BatchSent h.ll totalInfotype.toNat) :
    (hlpGetSystemInformationMultiple h devinfo firstInfotype totalInfotype).conn.ll.rest =
      h.ll.rest := by
  rw [batchSent_iff _ firstInfotype.toNat] at hs
  unfold hlpGetSystemInformationMultiple
  dsimp only
  by_cases hz : (sendInfoRequests h.ll firstInfotype.toNat totalInfotype.toNat).1 = 0
  · have hn := fun hn => hs ⟨hz, hn⟩
    rw [if_neg (not_not.mpr hz), if_pos hn]
    simp
  · rw [if_pos hz]
    simp

/-- A query that is sent collects replies. -/
theorem batch_of_sent (devinfo : Option Devinfo) (firstInfotype : UInt8) {totalInfotype : ℤ}
    (hs : BatchSent h.ll totalInfotype.toNat) : ∃ c : Conn, c.rest = h.ll.rest ∧
      (hlpGetSystemInformationMultiple h devinfo firstInfotype totalInfotype).conn.ll =
        (collectReplies c devinfo).2.2 := by
  obtain ⟨hz, hn⟩ := (batchSent_iff _ firstInfotype.toNat _).mp hs
  refine ⟨(llpSendNop
    (sendInfoRequests h.ll firstInfotype.toNat totalInfotype.toNat).2).2, by simp, ?_⟩
  unfold hlpGetSystemInformationMultiple
  dsimp only
  rw [if_neg (not_not.mpr hz), if_neg (not_not.mpr hn)]

/-- **A batch query ends just behind the first `NOP` reply**, whatever it returns, exactly when all
its packets are sent and every reply before the `NOP` reply fits in the buffer. -/
theorem batch_position_iff (h : HlConn) (devinfo : Option Devinfo) (firstInfotype : UInt8)
    (totalInfotype : ℤ) (pre post : List LlMessage) (nop : LlMessage) (tail : List UInt8)
    (hr : h.ll.rest = encode LlMessage.bytes (pre ++ nop :: post) ++ tail)
    (hpre : ∀ x ∈ pre, x.cmd ≠ llpHdNopReply) (hnop : nop.cmd = llpHdNopReply) :
    (hlpGetSystemInformationMultiple h devinfo firstInfotype totalInfotype).conn.ll.rest =
        encode LlMessage.bytes post ++ tail ↔
      BatchSent h.ll totalInfotype.toNat ∧ ∀ x ∈ pre, x.payload.length ≤ sysinfoEdLen := by
  -- a position in front of the `NOP` reply is another one
  have hother : ∀ left, encode LlMessage.bytes (left ++ nop :: post) ++ tail ≠
      encode LlMessage.bytes post ++ tail := by
    intro left heq
    have hlen := congrArg List.length heq
    have := nop.length_bytes
    simp only [encode_append, encode_cons, List.length_append, llpHeaderSize] at hlen this
    omega
  by_cases hs : BatchSent h.ll totalInfotype.toNat
  · obtain ⟨c, hc, heq⟩ := batch_of_sent devinfo firstInfotype hs
    rw [heq]
    by_cases hfit : ∀ x ∈ pre, x.payload.length ≤ sysinfoEdLen
    · exact iff_of_true (collectReplies_rest devinfo (hc.trans hr) hpre hnop hfit) ⟨hs, hfit⟩
    · refine iff_of_false ?_ fun hb => hfit hb.2
      push Not at hfit
      obtain ⟨left, hleft⟩ := collectReplies_stops devinfo (hc.trans hr) hpre hfit
      rw [hleft]
      exact hother left
  · refine iff_of_false ?_ fun hb => hs hb.1
    rw [batch_of_not_sent devinfo firstInfotype hs, hr]
    exact hother pre

/-- A connection that accepts one request and the `NOP`, on which the replies `ms` come. -/
def batchConn (ms : List LlMessage) : HlConn :=
  ⟨⟨encode LlMessage.bytes ms, false, [true, true], [], []⟩, 0⟩

theorem batchConn_sent (ms : List LlMessage) : BatchSent (batchConn ms).ll 1 := by
  intro k hk
  match k, hk with
  | 0, _ => rfl
  | 1, _ => rfl

/-- The chipset, the end of the query and a message that is left for later. -/
theorem batch_position_iff_chipset :
    (hlpGetSystemInformationMultiple (batchConn [chipsetReply, nopReply, chipsetReply]) none 0
      1).conn.ll.rest = encode LlMessage.bytes [chipsetReply] ++ [] := by
  refine (batch_position_iff (batchConn [chipsetReply, nopReply, chipsetReply]) none 0 1 [chipsetReply]
    [chipsetReply] nopReply [] (by rw [List.append_nil]; rfl) ?_ rfl).mpr ⟨batchConn_sent _, ?_⟩
  · intro x hx
    rw [List.mem_singleton.mp hx]
    decide
  · intro x hx
    rw [List.mem_singleton.mp hx]
    decide

/-- A reply of one byte more than the buffer holds. -/
def longReply : LlMessage where
  head := [0xb4, 0, 0, 0, 1, 4] ++ List.replicate 26 0
  payload := List.replicate 1025 0x41
  length_head := rfl
  le32_head := by rw [List.length_replicate]; decide

theorem longReply_first : ∀ x ∈ [longReply], x.cmd ≠ llpHdNopReply := by
  intro x hx
  rw [List.mem_singleton.mp hx]
  decide

/-- The long reply ends the query. -/
theorem batchConn_left :
    (hlpGetSystemInformationMultiple (batchConn [longReply, nopReply]) none 0 1).conn.ll.rest =
      nopReply.bytes := by
  obtain ⟨c, hc, heq⟩ := @batch_of_sent (batchConn [longReply, nopReply]) none 0 1 (batchConn_sent _)
  have hl : sysinfoEdLen < longReply.payload.length := by
    rw [longReply, List.length_replicate]
    decide
  rw [heq, collectReplies_of_large none (hc.trans (encode_cons longReply [nopReply])) hl]
  exact List.append_nil _

/-- The reply to the `NOP` is left for the next request. -/
theorem nop_reply_left_behind :
    ¬ ∀ (h : HlConn) (devinfo : Option Devinfo) (firstInfotype : UInt8) (totalInfotype : ℤ)
      (pre post : List LlMessage) (nop : LlMessage) (tail : List UInt8),
      h.ll.rest = encode LlMessage.bytes (pre ++ nop :: post) ++ tail →
      (∀ x ∈ pre, x.cmd ≠ llpHdNopReply) → nop.cmd = llpHdNopReply →
      BatchSent h.ll totalInfotype.toNat →
      (hlpGetSystemInformationMultiple h devinfo firstInfotype totalInfotype).conn.ll.rest =
        encode LlMessage.bytes post ++ tail := by
  intro hall
  have hr : (batchConn [longReply, nopReply]).ll.rest =
      encode LlMessage.bytes ([longReply] ++ nopReply :: []) ++ [] := by
    rw [List.append_nil]
    rfl
  have hpos := hall (batchConn [longReply, nopReply]) none 0 1 [longReply] [] nopReply [] hr
    longReply_first rfl (batchConn_sent _)
  rw [batchConn_left] at hpos
  exact nopReply.bytes_ne_nil hpos

end TaniDVR
