import TaniDVR.StdioBuffer

/-!
# PacketReads — the packets that the two loops read

`hlp_discard_incoming_data` and the inner loop of `stream_media_dvr_to_pipe` read packet after packet,
and the stream itself says in which sizes: a header of 32 bytes, then the payload whose length the
header gives, in chunks where it is discarded (`discardPacket`) and in one piece where it is collected
(`collectPacket`).  `freads` is a list of such `fread`s.  `discardIncoming_of_finds` and
`innerTurn_running` say that a turn of the loops is the `fread`s of its packets.
-/

namespace TaniDVR

open Lib

/-! ### How packets are read -/

/-- Several `fread`s, up to the first one that is cut short: whether there is none, and what is
left. -/
def BufConn.freads : BufConn → List ℕ → Bool × BufConn
  | c, [] => (true, c)
  | c, n :: sizes =>
    if (c.fread n).1.length = n then (c.fread n).2.freads sizes else (false, (c.fread n).2)

/-- The sizes in which `n` bytes of payload are discarded. -/
def discardSizes (n : ℕ) : List ℕ :=
  if _h : n ≠ 0 then discardToRead n :: discardSizes (n - discardToRead n) else []
termination_by n
decreasing_by
  have := discardToRead_bounds _h
  omega

/-- The header at the head of the stream. -/
def headerOf (stream : List UInt8) : LlHeader :=
  ⟨ofList (stream.take llpHeaderSize),
    toUint32 (btLM2NVU32 fun i => ofList (stream.take llpHeaderSize) (4 + i))⟩

/-- The sizes in which the packet at the head of the stream is discarded. -/
def discardPacket (stream : List UInt8) : List ℕ :=
  llpHeaderSize :: discardSizes (headerOf stream).extlen

/-- The sizes in which `hlp_collect_media_data` reads it for a buffer of `maxLen` bytes: what is no
media packet, or does not fit, is discarded. -/
def collectPacket (maxLen : ℕ) (stream : List UInt8) : List ℕ :=
  if (headerOf stream).cmd ≠ 0xbc ∨ (headerOf stream).extlen > maxLen then discardPacket stream
  else [llpHeaderSize, (headerOf stream).extlen]

section Packets

variable {c : BufConn}

/-- The payload is discarded in these sizes. -/
theorem llpDiscardLoop_freads (c : BufConn) (n : ℕ) :
    ((c.llpDiscardLoop n).1 = 0 ↔ (c.freads (discardSizes n)).1 = true) ∧
      (c.llpDiscardLoop n).2 = (c.freads (discardSizes n)).2 := by
  induction n using Nat.strongRecOn generalizing c with
  | _ n ih =>
    rw [BufConn.llpDiscardLoop, discardSizes]
    by_cases hn : n ≠ 0
    · have := discardToRead_bounds hn
      rw [dif_pos hn, dif_pos hn, BufConn.freads]
      dsimp only
      by_cases hlen : (c.fread (discardToRead n)).1.length = discardToRead n
      · rw [if_neg (not_not.mpr hlen), if_pos hlen]
        exact ih _ (by omega) _
      · rw [if_pos hlen, if_neg hlen]
        exact ⟨by simp, rfl⟩
    · rw [dif_neg hn, dif_neg hn]
      exact ⟨by simp [BufConn.freads], rfl⟩

/-- What is read whole is the head of the stream. -/
theorem fread_of_length {n : ℕ} (h : (c.fread n).1.length = n) : (c.fread n).1 = c.flat.take n := by
  rw [← c.fread_append_flat n, List.take_left' h]

theorem llpGetHeader_of_whole (h : (c.fread llpHeaderSize).1.length = llpHeaderSize) :
    c.llpGetHeader = ⟨0, headerOf c.flat, (c.fread llpHeaderSize).2⟩ := by
  unfold BufConn.llpGetHeader headerOf
  dsimp only
  rw [if_neg (not_not.mpr h), fread_of_length h]

theorem llpGetHeader_of_short (h : (c.fread llpHeaderSize).1.length ≠ llpHeaderSize) :
    c.llpGetHeader.ret = 1 ∧ c.llpGetHeader.conn = (c.fread llpHeaderSize).2 := by
  unfold BufConn.llpGetHeader
  dsimp only
  rw [if_pos h]
  exact ⟨rfl, rfl⟩

theorem whole_of_llpGetHeader (h : c.llpGetHeader.ret = 0) :
    (c.fread llpHeaderSize).1.length = llpHeaderSize := by
  by_contra hlen
  rw [(llpGetHeader_of_short hlen).1] at h
  cases h

theorem freads_discardPacket (h : (c.fread llpHeaderSize).1.length = llpHeaderSize) :
    c.freads (discardPacket c.flat) =
      (c.fread llpHeaderSize).2.freads (discardSizes (headerOf c.flat).extlen) := by
  rw [discardPacket, BufConn.freads, if_pos h]

theorem freads_shrinks (c : BufConn) (sizes : List ℕ) :
    (c.freads sizes).2.flat.length ≤ c.flat.length := by
  induction sizes generalizing c with
  | nil => exact le_rfl
  | cons n sizes ih =>
    rw [BufConn.freads]
    have hlen := c.fread_shrinks n
    split_ifs
    · have := ih (c.fread n).2
      omega
    · dsimp only
      omega

end Packets

/-! ### The loops, packet by packet -/

/-- The next `poll` finds something: bytes in the socket, or it does not report it as it is. -/
def BufConn.FindsSome (c : BufConn) : Prop :=
  c.nextCheck.poll ≠ .plain ∨ c.atPoll.stdio.layers.source ≠ []

theorem check_eq_zero_iff {c : BufConn} : c.llpCheckIncomingData.1 = 0 ↔ ¬ c.FindsSome := by
  unfold BufConn.llpCheckIncomingData BufConn.FindsSome
  dsimp only
  cases c.nextCheck.poll <;> simp

/-- `hlp_discard_incoming_data` ends where the `poll` finds nothing. -/
theorem discardIncoming_of_none {c : BufConn} (h : ¬ c.FindsSome) (i : ℤ) :
    c.discardIncoming i = (i, c.atPoll) := by
  rw [BufConn.discardIncoming]
  exact if_pos (check_eq_zero_iff.mpr h)

/-- Else it discards a packet. -/
theorem discardIncoming_of_finds {c : BufConn} (h : c.FindsSome) (i : ℤ) :
    c.discardIncoming i =
      if (c.atPoll.freads (discardPacket c.flat)).1 = true then
        (c.atPoll.freads (discardPacket c.flat)).2.discardIncoming 1
      else (-1, (c.atPoll.freads (discardPacket c.flat)).2) := by
  have hflat : c.atPoll.flat = c.flat := BufConn.llpCheckIncomingData_flat c
  have hturn : c.discardIncoming i =
      if c.atPoll.llpGetHeader.ret ≠ 0 then (-1, c.atPoll.llpGetHeader.conn)
      else
        let d := c.atPoll.llpGetHeader.conn.llpGetDiscardExtdata c.atPoll.llpGetHeader.val
        if d.1 ≠ 0 then (-1, d.2) else d.2.discardIncoming 1 := by
    have hconn : c.llpCheckIncomingData.2 = c.atPoll := rfl
    rw [BufConn.discardIncoming]
    dsimp only
    rw [if_neg fun h0 => check_eq_zero_iff.mp h0 h, hconn]
    by_cases hr : c.atPoll.llpGetHeader.ret ≠ 0
    · rw [dif_pos hr, if_pos hr]
    · rw [dif_neg hr, if_neg hr]
  rw [hturn, ← hflat]
  by_cases hlen : (c.atPoll.fread llpHeaderSize).1.length = llpHeaderSize
  · obtain ⟨hret, hleft⟩ := llpDiscardLoop_freads (c.atPoll.fread llpHeaderSize).2
      (headerOf c.atPoll.flat).extlen
    rw [llpGetHeader_of_whole hlen, if_neg (by simp), freads_discardPacket hlen]
    unfold BufConn.llpGetDiscardExtdata
    dsimp only
    rw [hleft]
    by_cases hall : ((c.atPoll.fread llpHeaderSize).2.freads
        (discardSizes (headerOf c.atPoll.flat).extlen)).1 = true
    · rw [if_pos hall, if_neg (not_not.mpr (hret.mpr hall))]
    · rw [if_neg hall, if_pos fun h0 => hall (hret.mp h0)]
  · have hpacket : c.atPoll.freads (discardPacket c.atPoll.flat) =
        (false, (c.atPoll.fread llpHeaderSize).2) := by
      rw [discardPacket, BufConn.freads, if_neg hlen]
    obtain ⟨hret, hconn⟩ := llpGetHeader_of_short hlen
    rw [hpacket, if_pos (by rw [hret]; decide), hconn, if_neg (by simp)]

/-- A packet that was discarded leaves fewer bytes. -/
theorem freads_discardPacket_shrinks {c : BufConn}
    (h : (c.atPoll.freads (discardPacket c.flat)).1 = true) :
    (c.atPoll.freads (discardPacket c.flat)).2.flat.length < c.flat.length := by
  have hflat : c.atPoll.flat = c.flat := BufConn.llpCheckIncomingData_flat c
  have hlen := c.atPoll.fread_shrinks llpHeaderSize
  rw [discardPacket, BufConn.freads] at h ⊢
  by_cases hw : (c.atPoll.fread llpHeaderSize).1.length = llpHeaderSize
  · have hle := freads_shrinks (c.atPoll.fread llpHeaderSize).2 (discardSizes (headerOf c.flat).extlen)
    have hpos : 0 < llpHeaderSize := by decide
    rw [hw, hflat] at hlen
    rw [if_pos hw]
    omega
  · rw [if_neg hw] at h
    cases h

theorem collectPacket_of_media {maxLen : ℕ} {stream : List UInt8}
    (hcmd : (headerOf stream).cmd = 0xbc) (hle : (headerOf stream).extlen ≤ maxLen) :
    collectPacket maxLen stream = [llpHeaderSize, (headerOf stream).extlen] := by
  rw [collectPacket, if_neg]
  rintro (hne | hlt)
  · exact hne hcmd
  · exact Nat.not_lt.mpr hle hlt

theorem fread_zero (c : BufConn) : c.fread 0 = ([], c) := by
  unfold BufConn.fread Reader.read Layers.take
  rw [if_pos (Nat.zero_le _)]
  rfl

/-- The payload of a media packet that fits is read in one piece. -/
theorem freads_getExtdata {c : BufConn} {h : LlHeader}
    (hret : ¬ (c.llpGetExtdataSbuff h h.extlen).ret < 0) :
    c.freads [h.extlen] = (true, (c.llpGetExtdataSbuff h h.extlen).conn) ∧
      (c.llpGetExtdataSbuff h h.extlen).val.length = h.extlen := by
  unfold BufConn.llpGetExtdataSbuff at hret ⊢
  dsimp only at hret ⊢
  generalize h.extlen = n at hret ⊢
  by_cases hz : n = 0
  · rw [if_pos hz, hz, BufConn.freads, fread_zero]
    exact ⟨rfl, rfl⟩
  · rw [if_neg hz, if_neg (Nat.lt_irrefl n)] at hret
    rw [if_neg hz, if_neg (Nat.lt_irrefl n)]
    by_cases hlen : (c.fread n).1.length = n
    · rw [if_neg (not_not.mpr hlen), BufConn.freads, if_pos hlen]
      exact ⟨rfl, hlen⟩
    · rw [if_pos hlen] at hret
      exact absurd (show (-1 : ℤ) < 0 by decide) hret

/-- A packet before the media packet is skipped, whatever comes of its payload. -/
structure Skips (c c' : BufConn) : Prop where
  cmd : (headerOf c.flat).cmd ≠ 0xbc
  whole : (c.fread llpHeaderSize).1.length = llpHeaderSize
  left : c' = (c.freads (discardPacket c.flat)).2

/-- `hlp_get_header` skips packets up to a media packet. -/
theorem awaitMedia_skips {c : BufConn} (h : (c.hlpGetHeader 0xbc).ret = 0) :
    ∃ c', Relation.ReflTransGen Skips c c' ∧
      (c'.fread llpHeaderSize).1.length = llpHeaderSize ∧ (headerOf c'.flat).cmd = 0xbc ∧
      c.hlpGetHeader 0xbc = ⟨0, headerOf c'.flat, (c'.fread llpHeaderSize).2⟩ := by
  fun_induction BufConn.hlpGetHeader c 0xbc with
  | case1 c r hr => exact absurd h hr
  | case2 c r hr hcmd ih =>
    have hwhole := whole_of_llpGetHeader (not_not.mp hr)
    obtain ⟨c', hskips, hc'⟩ := ih h
    refine ⟨c', .head ⟨?_, hwhole, ?_⟩ hskips, hc'⟩
    · rwa [show r = _ from llpGetHeader_of_whole hwhole] at hcmd
    · rw [freads_discardPacket hwhole, show r = _ from llpGetHeader_of_whole hwhole]
      exact (llpDiscardLoop_freads _ _).2
  | case3 c r hr hcmd =>
    have hwhole := whole_of_llpGetHeader (not_not.mp hr)
    have hr' : r = _ := llpGetHeader_of_whole hwhole
    rw [hr'] at hcmd ⊢
    exact ⟨c, .refl, hwhole, not_not.mp hcmd, rfl⟩

/-- **A frame that is collected** without an error. -/
theorem collect_skips {c : BufConn} {maxLen : ℕ}
    (h : (c.hlpCollectMediaData (some maxLen)).ret = 0) :
    ∃ c' data conn, Relation.ReflTransGen Skips c c' ∧ (headerOf c'.flat).cmd = 0xbc ∧
      (headerOf c'.flat).raw 16 = 0 ∧ (headerOf c'.flat).extlen ≤ maxLen ∧
      c.hlpCollectMediaData (some maxLen) = ⟨0, data, conn⟩ ∧
      data.length = (headerOf c'.flat).extlen ∧
      c'.freads (collectPacket maxLen c'.flat) = (true, conn) := by
  generalize hr : c.hlpCollectMediaData (some maxLen) = r at h ⊢
  unfold BufConn.hlpCollectMediaData at hr
  dsimp only at hr
  by_cases hret : (c.hlpGetHeader 0xbc).ret ≠ 0
  · rw [if_pos hret] at hr
    rw [← hr] at h
    cases h
  · obtain ⟨c', hskips, hwhole, hcmd, hheader⟩ := awaitMedia_skips (not_not.mp hret)
    rw [if_neg hret, hheader] at hr
    dsimp only at hr
    by_cases hle : (headerOf c'.flat).extlen > maxLen
    · rw [if_pos hle] at hr
      split_ifs at hr <;> (rw [← hr] at h; cases h)
    · have hfits := Nat.not_lt.mp hle
      have hget := @freads_getExtdata (c'.fread llpHeaderSize).2 (headerOf c'.flat)
      rw [if_neg hle] at hr
      generalize (c'.fread llpHeaderSize).2.llpGetExtdataSbuff (headerOf c'.flat)
        (headerOf c'.flat).extlen = e at hr hget
      obtain ⟨ret, data, conn⟩ := e
      by_cases hneg : ret < 0
      · rw [if_pos hneg] at hr
        rw [← hr] at h
        cases h
      · obtain ⟨hfreads, hlen⟩ := hget hneg
        rw [if_neg hneg] at hr
        have hraw : (headerOf c'.flat).raw 16 = 0 := by
          by_contra hraw
          rw [← hr, if_pos hraw, remoteRetcodeOffset] at h
          dsimp only at h
          omega
        rw [if_neg (not_not.mpr hraw)] at hr
        refine ⟨c', data, conn, hskips, hcmd, hraw, hfits, hr.symm, hlen, ?_⟩
        rw [collectPacket_of_media hcmd hfits, BufConn.freads, if_pos hwhole]
        exact hfreads

/-- The inner loop goes on behind a media packet: the DVR reports no error, the frame fits and is
written, and the keep-alive is not due. -/
structure GoesOn (dvrctl : Dvrcontrol) (e : StreamEvent) (header : LlHeader) : Prop where
  accepted : header.raw 16 = 0
  fits : header.extlen ≤ streamBufferLen
  written : e.write header.extlen ≠ none
  quiet : ¬ (dvrctl.keepAliveUs ≠ 0 ∧ e.kaSpent > dvrctl.keepAliveUs)

/-- **A turn of the inner loop** after which it goes on. -/
theorem innerTurn_running {c : BufConn} {dvrctl : Dvrcontrol} {pipe : List UInt8} {e : StreamEvent}
    (h : (c.innerTurn dvrctl pipe e).ended = .running) :
    c.FindsSome ∧ c.nextCheck.poll ≠ .failed ∧
      ∃ c', Relation.ReflTransGen Skips c.atPoll c' ∧ (headerOf c'.flat).cmd = 0xbc ∧
        GoesOn dvrctl e (headerOf c'.flat) ∧
        c'.freads (collectPacket streamBufferLen c'.flat) =
          (true, (c.innerTurn dvrctl pipe e).conn) := by
  have hpos : c.llpCheckIncomingData.1 > 0 := by
    by_contra hp
    unfold BufConn.innerTurn at h
    dsimp only at h
    rw [if_neg hp] at h
    cases h
  have hfinds : c.FindsSome := by
    by_contra hnone
    rw [check_eq_zero_iff.mpr hnone] at hpos
    exact absurd hpos (lt_irrefl _)
  have hpoll : c.nextCheck.poll ≠ .failed := by
    intro hfailed
    unfold BufConn.llpCheckIncomingData at hpos
    dsimp only at hpos
    rw [hfailed] at hpos
    exact absurd hpos (by simp)
  have hconn : c.llpCheckIncomingData.2 = c.atPoll := rfl
  refine ⟨hfinds, hpoll, ?_⟩
  unfold BufConn.innerTurn at h ⊢
  dsimp only at h ⊢
  rw [if_pos hpos, hconn] at h ⊢
  by_cases hret : (c.atPoll.hlpCollectMediaData (some streamBufferLen)).ret ≠ 0
  · rw [if_pos hret] at h
    cases h
  · obtain ⟨c', data, conn, hskips, hcmd, hraw, hfits, hcollect, hlen, hfreads⟩ :=
      collect_skips (not_not.mp hret)
    rw [if_neg hret, hcollect] at h ⊢
    dsimp only at h ⊢
    rw [hlen] at h ⊢
    cases hw : e.write (headerOf c'.flat).extlen with
    | none =>
      rw [hw] at h
      cases h
    | some n =>
      rw [hw] at h
      dsimp only at h
      refine ⟨c', hskips, hcmd, ⟨hraw, hfits, by simp [hw], ?_⟩, hfreads⟩
      intro hdue
      rw [if_pos hdue] at h
      cases h

/-- A turn that ends because the check found nothing. -/
theorem innerTurn_checked {c : BufConn} {dvrctl : Dvrcontrol} {pipe : List UInt8} {e : StreamEvent}
    (h : (c.innerTurn dvrctl pipe e).ended = .checked 0) :
    ¬ c.FindsSome ∧ (c.innerTurn dvrctl pipe e).conn = c.atPoll := by
  unfold BufConn.innerTurn at h ⊢
  dsimp only at h ⊢
  by_cases hp : c.llpCheckIncomingData.1 > 0
  · rw [if_pos hp] at h
    split_ifs at h
    all_goals split at h <;> cases h
  · rw [if_neg hp] at h ⊢
    exact ⟨check_eq_zero_iff.mp (BufConn.InnerEnd.checked.inj h), rfl⟩

end TaniDVR
