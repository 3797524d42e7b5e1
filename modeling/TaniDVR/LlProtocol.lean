import TaniDVR.Bintools
import TaniDVR.Lib.Framing

/-!
# LlProtocol — the low-level protocol of `llprotocol.c`

A packet is a header of 32 bytes, whose bytes 4..7 hold the length of the payload (`extlen`), and
the payload.  A connection `Conn` holds the bytes of the peer that are still to be read; `fread`
takes from their front, and a read that gets fewer bytes than it asked for has met the end of input.
A read that is cut short by the receive timeout of the socket (`network.c`) is not modelled.

`LlMessage` is a well-formed packet.  `llpGetHeader_of_message`, `llpGetExtdataSbuff_eq` and
`llpGetDiscardExtdata_eq` say what the three reading functions do.
-/

namespace TaniDVR

open Lib

/-- `LLP_HEADER_SIZE`. -/
def llpHeaderSize : ℕ := 32

/-- `LLP_HD_VER_IHL`. -/
def llpHdVerIhl : UInt8 := 0x60

/-- `LLP_HD_NOP_REQ`. -/
def llpHdNopReq : UInt8 := 0xa1

/-- `LLP_HD_NOP_REPLY`. -/
def llpHdNopReply : UInt8 := 0xb1

/-- `t_llp_connection`: the bytes not read yet, whether a read met their end, the answers of the
coming `fwrite`s (failure when there are no more) and `poll`s (0 when there are no more), and what
was written. -/
structure Conn where
  rest : List UInt8
  eof : Bool
  sends : List Bool
  polls : List ℤ
  sent : List (List UInt8)

/-- `t_ll_header`. -/
structure LlHeader where
  raw : ℕ → UInt8
  extlen : ℕ

/-- `llp_hd_cmd`. -/
def LlHeader.cmd (h : LlHeader) : UInt8 := h.raw 0

/-- `raw[i] = v`. -/
def LlHeader.set (h : LlHeader) (i : ℕ) (v : UInt8) : LlHeader :=
  { h with raw := Function.update h.raw i v }

/-- `llp_init_header`. -/
def llpInitHeader : LlHeader := ⟨fun _ => 0, 0⟩

/-! ### The stream -/

/-- The connection after `n` bytes were asked for. -/
def Conn.skip (c : Conn) (n : ℕ) : Conn :=
  { c with rest := c.rest.drop n, eof := c.eof || decide (c.rest.length < n) }

/-- `fread` of `n` bytes. -/
def Conn.fread (c : Conn) (n : ℕ) : List UInt8 × Conn := (c.rest.take n, c.skip n)

/-- `fwrite`, successful or not; nothing is written when there is nothing to write. -/
def Conn.fwrite (c : Conn) (bytes : List UInt8) : Bool × Conn :=
  match bytes, c.sends with
  | [], _ => (true, c)
  | _ :: _, [] => (false, c)
  | b :: bytes, ok :: sends =>
    (ok, { c with sends := sends, sent := if ok then c.sent ++ [b :: bytes] else c.sent })

/-- `llp_check_incoming_data`. -/
def llpCheckIncomingData (c : Conn) : ℤ × Conn :=
  match c.polls with
  | [] => (0, c)
  | p :: polls => (p, { c with polls := polls })

/-! ### The functions -/

/-- What reading a header returns and leaves. -/
structure HeaderRead where
  ret : ℤ
  header : LlHeader
  conn : Conn

/-- What reading a payload returns and leaves: the bytes stored in the buffer. -/
structure DataRead where
  ret : ℤ
  buf : List UInt8
  conn : Conn

/-- `llp_get_header`. -/
def llpGetHeader (c : Conn) : HeaderRead :=
  let (got, c) := c.fread llpHeaderSize
  if got.length ≠ llpHeaderSize then ⟨1, ⟨ofList got, 0⟩, c⟩
  else ⟨0, ⟨ofList got, toUint32 (btLM2NVU32 fun i => ofList got (4 + i))⟩, c⟩

/-- `llp_get_extdata_sbuff`. -/
def llpGetExtdataSbuff (c : Conn) (h : LlHeader) (buflen : ℕ) : DataRead :=
  if h.extlen = 0 then ⟨0, [], c⟩
  else if buflen < h.extlen then ⟨-2, [], c⟩
  else
    let (got, c) := c.fread h.extlen
    if got.length ≠ h.extlen then ⟨-1, got, c⟩
    else ⟨toInt h.extlen, got, c⟩

/-- `DISCARD_CHUNK_SIZE`. -/
def discardChunkSize : ℕ := 65536

/-- `to_read`. -/
def discardToRead (remExtlen : ℕ) : ℕ :=
  if remExtlen > discardChunkSize then discardChunkSize else remExtlen

theorem discardToRead_bounds {n : ℕ} (h : n ≠ 0) : 0 < discardToRead n ∧ discardToRead n ≤ n := by
  unfold discardToRead discardChunkSize
  split <;> omega

/-- The loop of `llp_get_discard_extdata`. -/
def llpDiscardLoop (c : Conn) (remExtlen : ℕ) : ℤ × Conn :=
  if _h : remExtlen ≠ 0 then
    let (got, c) := c.fread (discardToRead remExtlen)
    if got.length ≠ discardToRead remExtlen then (2, c)
    else llpDiscardLoop c (remExtlen - discardToRead remExtlen)
  else (0, c)
termination_by remExtlen
decreasing_by
  have := discardToRead_bounds _h
  omega

/-- `llp_get_discard_extdata`. -/
def llpGetDiscardExtdata (c : Conn) (h : LlHeader) : ℤ × Conn := llpDiscardLoop c h.extlen

/-- `llp_send_header`. -/
def llpSendHeader (c : Conn) (h : LlHeader) : ℤ × Conn :=
  let (ok, c) := c.fwrite (slice (blit h.raw 4 (btNV2LMU32 h.extlen)) 0 llpHeaderSize)
  if ok then (0, c) else (1, c)

/-- `llp_send_nop`. -/
def llpSendNop (c : Conn) : ℤ × Conn := llpSendHeader c (llpInitHeader.set 0 llpHdNopReq)

/-- `llp_send_extdata`. -/
def llpSendExtdata (c : Conn) (payload : List UInt8) : ℤ × Conn :=
  let (ok, c) := c.fwrite payload
  if ok then (0, c) else (1, c)

/-! ### Messages -/

/-- A well-formed packet. -/
structure LlMessage where
  head : List UInt8
  payload : List UInt8
  length_head : head.length = llpHeaderSize
  le32_head : le32 (fun i => ofList head (4 + i)) = payload.length

namespace LlMessage

def bytes (m : LlMessage) : List UInt8 := m.head ++ m.payload

/-- The header as it is read. -/
def header (m : LlMessage) : LlHeader := ⟨ofList m.head, m.payload.length⟩

def cmd (m : LlMessage) : UInt8 := m.header.cmd

@[simp] theorem header_extlen (m : LlMessage) : m.header.extlen = m.payload.length := rfl

@[simp] theorem header_cmd (m : LlMessage) : m.header.cmd = m.cmd := rfl

theorem length_bytes (m : LlMessage) : m.bytes.length = llpHeaderSize + m.payload.length := by
  rw [bytes, List.length_append, m.length_head]

theorem bytes_ne_nil (m : LlMessage) : m.bytes ≠ [] := by
  intro h
  have := m.length_bytes
  rw [h, llpHeaderSize, List.length_nil] at this
  omega

theorem drop_bytes (m : LlMessage) : m.bytes.drop llpHeaderSize = m.payload := by
  rw [bytes, ← m.length_head, List.drop_left]

/-- The header gives the end of a packet. -/
theorem delimited : Delimited bytes := by
  intro m m' r r' h
  have hhead : m.head = m'.head := by
    have := congrArg (List.take llpHeaderSize) h
    rwa [bytes, bytes, List.append_assoc, List.append_assoc, ← m.length_head, List.take_left,
      m.length_head, ← m'.length_head, List.take_left] at this
  have hlen : m.payload.length = m'.payload.length := by
    rw [← m.le32_head, ← m'.le32_head, hhead]
  have hpay : m.payload = m'.payload := by
    rw [bytes, bytes, List.append_assoc, List.append_assoc, hhead] at h
    exact (List.append_inj (List.append_cancel_left h) hlen).1
  cases m
  cases m'
  simp_all

end LlMessage

/-! ### What the reading functions do -/

namespace Conn

@[simp] theorem skip_zero (c : Conn) : c.skip 0 = c := by simp [skip]

@[simp] theorem skip_rest (c : Conn) (n : ℕ) : (c.skip n).rest = c.rest.drop n := rfl

theorem skip_eof_of_le {c : Conn} {n : ℕ} (h : n ≤ c.rest.length) : (c.skip n).eof = c.eof := by
  simp [skip, h]

theorem skip_skip {c : Conn} {a b : ℕ} (h : a ≤ c.rest.length) :
    (c.skip a).skip b = c.skip (a + b) := by
  have h1 : ¬ c.rest.length < a := by omega
  have h2 : (c.rest.length - a < b) = (c.rest.length < a + b) := by
    apply propext
    omega
  simp only [skip, List.drop_drop, List.length_drop, h1, decide_false, Bool.or_false, h2]

theorem skip_append {c : Conn} {a b : List UInt8} (h : c.rest = a ++ b) :
    c.skip a.length = { c with rest := b } := by
  simp [skip, h]

@[simp] theorem fwrite_rest (c : Conn) (bytes : List UInt8) : (c.fwrite bytes).2.rest = c.rest := by
  unfold fwrite
  split <;> rfl

@[simp] theorem fwrite_eof (c : Conn) (bytes : List UInt8) : (c.fwrite bytes).2.eof = c.eof := by
  unfold fwrite
  split <;> rfl

end Conn

@[simp] theorem llpCheckIncomingData_rest (c : Conn) : (llpCheckIncomingData c).2.rest = c.rest := by
  unfold llpCheckIncomingData
  split <;> rfl

@[simp] theorem llpCheckIncomingData_eof (c : Conn) : (llpCheckIncomingData c).2.eof = c.eof := by
  unfold llpCheckIncomingData
  split <;> rfl

@[simp] theorem llpSendHeader_rest (c : Conn) (h : LlHeader) :
    (llpSendHeader c h).2.rest = c.rest := by
  unfold llpSendHeader
  dsimp only
  split <;> simp

@[simp] theorem llpSendHeader_eof (c : Conn) (h : LlHeader) : (llpSendHeader c h).2.eof = c.eof := by
  unfold llpSendHeader
  dsimp only
  split <;> simp

/-- A header is sent when the next `fwrite` succeeds. -/
theorem llpSendHeader_ret (c : Conn) (h : LlHeader) :
    (llpSendHeader c h).1 = if c.sends.head? = some true then 0 else 1 := by
  unfold llpSendHeader Conn.fwrite
  cases hs : c.sends with
  | nil => rfl
  | cons ok sends => cases ok <;> rfl

theorem llpSendHeader_sends (c : Conn) (h : LlHeader) :
    (llpSendHeader c h).2.sends = c.sends.tail := by
  unfold llpSendHeader Conn.fwrite
  cases hs : c.sends with
  | nil => simp [llpHeaderSize, slice_succ, hs]
  | cons ok sends => cases ok <;> rfl

@[simp] theorem llpSendNop_rest (c : Conn) : (llpSendNop c).2.rest = c.rest := llpSendHeader_rest _ _

@[simp] theorem llpSendNop_eof (c : Conn) : (llpSendNop c).2.eof = c.eof := llpSendHeader_eof _ _

@[simp] theorem llpSendExtdata_rest (c : Conn) (payload : List UInt8) :
    (llpSendExtdata c payload).2.rest = c.rest := by
  unfold llpSendExtdata
  dsimp only
  split <;> simp

@[simp] theorem llpSendExtdata_eof (c : Conn) (payload : List UInt8) :
    (llpSendExtdata c payload).2.eof = c.eof := by
  unfold llpSendExtdata
  dsimp only
  split <;> simp

theorem llpGetHeader_conn (c : Conn) : (llpGetHeader c).conn = c.skip llpHeaderSize := by
  unfold llpGetHeader Conn.fread
  dsimp only
  split <;> rfl

/-- A header is read exactly when its 32 bytes are there. -/
theorem llpGetHeader_ret (c : Conn) :
    (llpGetHeader c).ret = if c.rest.length < llpHeaderSize then 1 else 0 := by
  unfold llpGetHeader Conn.fread
  dsimp only
  rw [List.length_take]
  split_ifs <;> first | rfl | omega

/-- The header of a message, whatever is there of its payload. -/
theorem llpGetHeader_of_head {c : Conn} {m : LlMessage} {more : List UInt8}
    (h : c.rest = m.head ++ more) : llpGetHeader c = ⟨0, m.header, { c with rest := more }⟩ := by
  have htake : c.rest.take llpHeaderSize = m.head := by rw [h, ← m.length_head, List.take_left]
  have hskip : c.skip llpHeaderSize = { c with rest := more } := by
    rw [← m.length_head, Conn.skip_append h]
  unfold llpGetHeader Conn.fread
  simp only [htake, hskip, m.length_head, ne_eq, not_true_eq_false, if_false]
  rw [toUint32_btLM2NVU32, m.le32_head]
  rfl

/-- **The header of a message.** -/
theorem llpGetHeader_of_message {c : Conn} {m : LlMessage} {more : List UInt8}
    (h : c.rest = m.bytes ++ more) :
    llpGetHeader c = ⟨0, m.header, { c with rest := m.payload ++ more }⟩ :=
  llpGetHeader_of_head (by rw [h, LlMessage.bytes, List.append_assoc])

theorem llpDiscardLoop_eq (c : Conn) (n : ℕ) :
    llpDiscardLoop c n = (if c.rest.length < n then 2 else 0, c.skip n) := by
  induction n using Nat.strongRecOn generalizing c with
  | _ n ih =>
    unfold llpDiscardLoop Conn.fread
    by_cases hn : n = 0
    · simp [hn]
    · rw [dif_pos hn]
      dsimp only
      have hpos := discardToRead_bounds hn
      generalize discardToRead n = toRead at hpos ⊢
      rw [List.length_take]
      by_cases hs : c.rest.length < toRead
      · rw [if_pos (by omega), if_pos (by omega)]
        congr 1
        simp only [Conn.skip, hs, decide_true, Bool.or_true, show c.rest.length < n by omega,
          List.drop_eq_nil_of_le hs.le, List.drop_eq_nil_of_le (show c.rest.length ≤ n by omega)]
      · rw [if_neg (by omega), ih _ (by omega), Conn.skip_skip (by omega), Conn.skip_rest,
          List.length_drop]
        congr 1
        · split_ifs <;> first | rfl | omega
        · congr 1
          omega

/-- **Discarding** takes the whole payload, in whatever chunks. -/
theorem llpGetDiscardExtdata_eq (c : Conn) (h : LlHeader) :
    llpGetDiscardExtdata c h = (if c.rest.length < h.extlen then 2 else 0, c.skip h.extlen) :=
  llpDiscardLoop_eq c h.extlen

/-- Discarding the payload of a message. -/
theorem llpGetDiscardExtdata_of_message {c : Conn} {m : LlMessage} {more : List UInt8}
    (h : c.rest = m.payload ++ more) :
    llpGetDiscardExtdata c m.header = (0, { c with rest := more }) := by
  rw [llpGetDiscardExtdata_eq, LlMessage.header_extlen, Conn.skip_append h, if_neg]
  rw [h, List.length_append]
  omega

/-- Discarding a payload of which the end is missing. -/
theorem llpGetDiscardExtdata_of_short {c : Conn} {h : LlHeader} (hr : c.rest.length < h.extlen) :
    llpGetDiscardExtdata c h = (2, { c with rest := [], eof := true }) := by
  rw [llpGetDiscardExtdata_eq, if_pos hr]
  simp [Conn.skip, hr, List.drop_eq_nil_of_le hr.le]

/-- A payload that is larger than the buffer stays unread. -/
theorem llpGetExtdataSbuff_of_large {c : Conn} {h : LlHeader} {buflen : ℕ}
    (hl : buflen < h.extlen) : llpGetExtdataSbuff c h buflen = ⟨-2, [], c⟩ := by
  rw [llpGetExtdataSbuff, if_neg (by omega), if_pos hl]

theorem llpGetExtdataSbuff_conn {c : Conn} {h : LlHeader} {buflen : ℕ} (hl : h.extlen ≤ buflen) :
    (llpGetExtdataSbuff c h buflen).conn = c.skip h.extlen := by
  unfold llpGetExtdataSbuff Conn.fread
  by_cases h0 : h.extlen = 0
  · rw [if_pos h0, h0, Conn.skip_zero]
  · rw [if_neg h0, if_neg (by omega)]
    dsimp only
    split <;> rfl

/-- **A payload that fits** and is there. -/
theorem llpGetExtdataSbuff_of_le {c : Conn} {h : LlHeader} {buflen : ℕ} (hl : h.extlen ≤ buflen)
    (hr : h.extlen ≤ c.rest.length) :
    llpGetExtdataSbuff c h buflen = ⟨toInt h.extlen, c.rest.take h.extlen, c.skip h.extlen⟩ := by
  unfold llpGetExtdataSbuff Conn.fread
  by_cases h0 : h.extlen = 0
  · rw [if_pos h0, h0, Conn.skip_zero]
    rfl
  · rw [if_neg h0, if_neg (by omega)]
    dsimp only
    rw [if_neg (by rw [List.length_take]; omega)]

/-- The payload of a message that fits. -/
theorem llpGetExtdataSbuff_of_message {c : Conn} {m : LlMessage} {more : List UInt8} {buflen : ℕ}
    (hl : m.payload.length ≤ buflen) (h : c.rest = m.payload ++ more) :
    llpGetExtdataSbuff c m.header buflen =
      ⟨toInt m.payload.length, m.payload, { c with rest := more }⟩ := by
  have hr : m.header.extlen ≤ c.rest.length := by
    rw [h, List.length_append, LlMessage.header_extlen]
    omega
  have htake : c.rest.take m.header.extlen = m.payload := by
    rw [LlMessage.header_extlen, h, List.take_left]
  have hskip : c.skip m.header.extlen = { c with rest := more } := by
    rw [LlMessage.header_extlen, Conn.skip_append h]
  rw [llpGetExtdataSbuff_of_le hl hr, htake, hskip, LlMessage.header_extlen]

/-- A payload of which the end is missing. -/
theorem llpGetExtdataSbuff_of_short {c : Conn} {h : LlHeader} {buflen : ℕ} (hl : h.extlen ≤ buflen)
    (hr : c.rest.length < h.extlen) : (llpGetExtdataSbuff c h buflen).ret = -1 := by
  unfold llpGetExtdataSbuff Conn.fread
  rw [if_neg (by omega), if_neg (by omega)]
  dsimp only
  rw [if_pos (by rw [List.length_take]; omega)]

end TaniDVR
