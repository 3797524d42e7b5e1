import TaniDVR.HlProtocol

/-!
# SystemInfo — the fields that a batch of replies fills

`hlp_get_system_information_multiple` passes every reply up to that of the `NOP` to
`update_devinfo_from_system_information`.  A field ends up with the text of the last reply that the
`switch` lets write it (`get_of_replies`); `attribution_iff` compares it with the last reply that
carries the field's own infotype.
-/

namespace TaniDVR

open Lib

/-- The text fields of `t_devinfo`. -/
inductive InfoField
  | devSn | devVer | devTypeChipset | splitScreen | langSup | funcList | wiAlarm | oemInfo
  | netrunStat | funcCapability | hdPartCap | accessUrl
  deriving DecidableEq, Repr

def Devinfo.text (d : Devinfo) : InfoField → List UInt8
  | .devSn => d.devSn
  | .devVer => d.devVer
  | .devTypeChipset => d.devTypeChipset
  | .splitScreen => d.splitScreen
  | .langSup => d.langSup
  | .funcList => d.funcList
  | .wiAlarm => d.wiAlarm
  | .oemInfo => d.oemInfo
  | .netrunStat => d.netrunStat
  | .funcCapability => d.funcCapability
  | .hdPartCap => d.hdPartCap
  | .accessUrl => d.accessUrl

namespace InfoField

/-- The infotype that asks for a field. -/
def infotype : InfoField → UInt8
  | devSn => 7
  | devVer => 8
  | devTypeChipset => 11
  | splitScreen => 19
  | langSup => 20
  | funcList => 26
  | wiAlarm => 27
  | oemInfo => 29
  | netrunStat => 30
  | funcCapability => 31
  | hdPartCap => 33
  | accessUrl => 39

/-- The infotypes with which the `switch` comes to the assignment of a field. -/
def writers : InfoField → List UInt8
  | splitScreen => [11, 19]
  | langSup => [11, 19, 20]
  | f => [f.infotype]

theorem infotype_mem_writers (f : InfoField) : f.infotype ∈ f.writers := by
  cases f <;> decide

end InfoField

/-! ### Replies -/

/-- `raw[8]` of a reply. -/
def LlMessage.infotype (m : LlMessage) : UInt8 := m.header.raw 8

/-- The text that a reply carries. -/
def LlMessage.text (m : LlMessage) : List UInt8 := extractString m.payload diStrMaxlen

/-- The last of the replies for which `p` holds. -/
def lastReply (p : LlMessage → Bool) (replies : List LlMessage) : Option LlMessage :=
  (replies.filter p).getLast?

/-- A reply to the query, with the infotype of the field. -/
def InfoField.Own (f : InfoField) (m : LlMessage) : Prop := m.cmd = 0xb4 ∧ m.infotype = f.infotype

instance (f : InfoField) : DecidablePred f.Own := fun m =>
  inferInstanceAs (Decidable (m.cmd = 0xb4 ∧ m.infotype = f.infotype))

/-- What a field should hold: the text of the last reply of its own, or what it held before. -/
def InfoField.expected (f : InfoField) (d : Devinfo) (replies : List LlMessage) : List UInt8 :=
  match lastReply (fun m => f.Own m) replies with
  | some m => m.text
  | none => d.text f

/-- The last reply that writes the field is not one of its own, and carries another text than the
field should hold. -/
def InfoField.Misattributed (f : InfoField) (d : Devinfo) (replies : List LlMessage) : Prop :=
  ∃ m, lastReply (fun m => m.infotype ∈ f.writers) replies = some m ∧ ¬ f.Own m ∧
    m.text ≠ f.expected d replies

theorem lastReply_append_singleton (p : LlMessage → Bool) (replies : List LlMessage)
    (m : LlMessage) :
    lastReply p (replies ++ [m]) = if p m then some m else lastReply p replies := by
  unfold lastReply
  rw [List.filter_append]
  cases hp : p m <;> simp [hp]

/-- One reply writes the fields that the `switch` comes to. -/
theorem text_updateDevinfo (d : Devinfo) (m : LlMessage) (f : InfoField) :
    (updateDevinfo d m.payload m.header).text f =
      if m.infotype ∈ f.writers then m.text else d.text f := by
  unfold updateDevinfo LlMessage.infotype LlMessage.text
  generalize extractString m.payload diStrMaxlen = text
  dsimp only
  split
  all_goals cases f
  all_goals simp_all [Devinfo.text, InfoField.writers, InfoField.infotype]

/-- **A batch of replies**: a field holds the text of the last reply that writes it. -/
theorem text_of_replies (d : Devinfo) (replies : List LlMessage) (f : InfoField) :
    (replies.foldl (fun d m => updateDevinfo d m.payload m.header) d).text f =
      match lastReply (fun m => m.infotype ∈ f.writers) replies with
      | some m => m.text
      | none => d.text f := by
  induction replies using List.reverseRecOn with
  | nil => rfl
  | append_singleton replies m ih =>
    rw [List.foldl_append, List.foldl_cons, List.foldl_nil, text_updateDevinfo,
      lastReply_append_singleton, ih]
    by_cases hm : m.infotype ∈ f.writers
    · simp [hm]
    · simp [hm]

/-- A reply of the field's own that is the last one to write it is the last one of its own. -/
theorem lastReply_own {f : InfoField} {replies : List LlMessage} {m : LlMessage}
    (h : lastReply (fun m => m.infotype ∈ f.writers) replies = some m) (ho : f.Own m) :
    lastReply (fun m => f.Own m) replies = some m := by
  induction replies using List.reverseRecOn with
  | nil => exact h
  | append_singleton replies x ih =>
    rw [lastReply_append_singleton] at h ⊢
    by_cases hx : x.infotype ∈ f.writers
    · rw [if_pos (by simpa using hx)] at h
      cases h
      rw [if_pos (by simpa using ho)]
    · have hno : ¬ f.Own x := fun hox => hx (hox.2 ▸ f.infotype_mem_writers)
      rw [if_neg (by simpa using hx)] at h
      rw [if_neg (by simpa using hno)]
      exact ih h

/-- Without a reply that writes the field there is none of its own. -/
theorem lastReply_own_none {f : InfoField} {replies : List LlMessage}
    (h : lastReply (fun m => m.infotype ∈ f.writers) replies = none) :
    lastReply (fun m => f.Own m) replies = none := by
  unfold lastReply at *
  rw [List.getLast?_eq_none_iff, List.filter_eq_nil_iff] at *
  intro m hm ho
  have ho : f.Own m := by simpa using ho
  exact h m hm (by simpa [ho.2] using f.infotype_mem_writers)

/-- A field is right unless it is misattributed. -/
theorem text_eq_expected_iff (d : Devinfo) (replies : List LlMessage) (f : InfoField) :
    (replies.foldl (fun d m => updateDevinfo d m.payload m.header) d).text f =
        f.expected d replies ↔
      ¬ f.Misattributed d replies := by
  rw [text_of_replies]
  cases hw : lastReply (fun m => decide (m.infotype ∈ f.writers)) replies with
  | none =>
    have hexp : f.expected d replies = d.text f := by
      rw [InfoField.expected, lastReply_own_none hw]
    simp [InfoField.Misattributed, hw, hexp]
  | some m =>
    dsimp only
    constructor
    · rintro he ⟨m', hm', -, hne⟩
      rw [hw] at hm'
      cases hm'
      exact hne he
    · intro hno
      by_cases ho : f.Own m
      · rw [InfoField.expected, lastReply_own hw ho]
      · by_contra hne
        exact hno ⟨m, hw, ho, hne⟩

/-! ### The batch query -/

theorem sendInfoRequests_of_sends {c : Conn} (infotype count : ℕ)
    (hs : ∀ i < count, c.sends[i]? = some true) :
    (sendInfoRequests c infotype count).1 = 0 ∧
      (sendInfoRequests c infotype count).2.rest = c.rest ∧
      (sendInfoRequests c infotype count).2.sends = c.sends.drop count := by
  induction count generalizing c infotype with
  | zero => simp [sendInfoRequests]
  | succ count ih =>
    have hret : (llpSendHeader c ((llpInitHeader.set 0 0xa4).set 8 (UInt8.ofNat infotype))).1 = 0 := by
      rw [llpSendHeader_ret, if_pos]
      rw [List.head?_eq_getElem?]
      exact hs 0 (by omega)
    rw [sendInfoRequests, if_neg (by simpa using hret)]
    have hsends := llpSendHeader_sends c ((llpInitHeader.set 0 0xa4).set 8 (UInt8.ofNat infotype))
    obtain ⟨h1, h2, h3⟩ := ih (infotype + 1)
      (c := (llpSendHeader c ((llpInitHeader.set 0 0xa4).set 8 (UInt8.ofNat infotype))).2)
      fun i hi => by
        rw [hsends, List.getElem?_tail]
        exact hs (i + 1) (by omega)
    refine ⟨h1, ?_, ?_⟩
    · rw [h2, llpSendHeader_rest]
    · rw [h3, hsends, List.drop_tail]

/-- One reply: that of the `NOP` ends the loop. -/
theorem collectReplies_of_message {c : Conn} {m : LlMessage} {more : List UInt8}
    (hl : m.payload.length ≤ sysinfoEdLen) (hr : c.rest = m.bytes ++ more) (d : Option Devinfo) :
    collectReplies c d =
      if m.cmd = llpHdNopReply then (0, d, { c with rest := more })
      else collectReplies { c with rest := more }
        (updateDevinfoFromSystemInformation d m.payload m.header) := by
  have hlt : m.payload.length < 2 ^ 31 := by
    rw [sysinfoEdLen] at hl
    omega
  have hret : ¬ toInt m.payload.length < 0 := by
    rw [toInt_of_lt hlt]
    omega
  rw [collectReplies, llpGetHeader_of_message hr, dif_neg (by simp),
    llpGetExtdataSbuff_of_message hl rfl, if_neg hret]
  rfl

/-- The replies up to that of the `NOP`. -/
theorem collectReplies_of_replies {c : Conn} {replies : List LlMessage} {nop : LlMessage}
    {later : List UInt8} (hr : c.rest = encode LlMessage.bytes (replies ++ [nop]) ++ later)
    (hn : nop.cmd = llpHdNopReply) (hc : ∀ m ∈ replies, m.cmd ≠ llpHdNopReply)
    (hl : ∀ m ∈ replies ++ [nop], m.payload.length ≤ sysinfoEdLen) (d : Devinfo) :
    collectReplies c (some d) =
      (0, some (replies.foldl (fun d m => updateDevinfo d m.payload m.header) d),
        { c with rest := later }) := by
  induction replies generalizing c d with
  | nil =>
    have hr' : c.rest = nop.bytes ++ later := by
      rw [hr, List.nil_append, encode_cons, encode_nil, List.append_nil]
    rw [collectReplies_of_message (hl nop (by simp)) hr', if_pos hn]
    rfl
  | cons m replies ih =>
    have hr' : c.rest = m.bytes ++ (encode LlMessage.bytes (replies ++ [nop]) ++ later) := by
      rw [hr, List.cons_append, encode_cons, List.append_assoc]
    rw [collectReplies_of_message (hl m (by simp)) hr', if_neg (hc m (by simp))]
    exact ih rfl (fun x hx => hc x (by simp [hx])) (fun x hx => hl x (List.mem_cons_of_mem m hx)) _

/-- **Attribution**: after a batch query whose requests were sent, every field holds the text of the
last reply of its own, exactly when no field is misattributed. -/
theorem attribution_iff (hc : HlConn) (d : Devinfo) (firstInfotype : UInt8) (totalInfotype : ℤ)
    (replies : List LlMessage) (nop : LlMessage) (later : List UInt8)
    (hsent : ∀ i < totalInfotype.toNat + 1, hc.ll.sends[i]? = some true)
    (hr : hc.ll.rest = encode LlMessage.bytes (replies ++ [nop]) ++ later)
    (hn : nop.cmd = llpHdNopReply) (hcmd : ∀ m ∈ replies, m.cmd ≠ llpHdNopReply)
    (hl : ∀ m ∈ replies ++ [nop], m.payload.length ≤ 1024) :
    ∃ d', (hlpGetSystemInformationMultiple hc (some d) firstInfotype totalInfotype).ret = 0 ∧
      (hlpGetSystemInformationMultiple hc (some d) firstInfotype totalInfotype).devinfo = some d' ∧
      ((∀ f, d'.text f = InfoField.expected f d replies) ↔
        ∀ f, ¬ InfoField.Misattributed f d replies) := by
  obtain ⟨h1, h2, h3⟩ := sendInfoRequests_of_sends (c := hc.ll) firstInfotype.toNat
    totalInfotype.toNat fun i hi => hsent i (by omega)
  have hnop : (llpSendNop (sendInfoRequests hc.ll firstInfotype.toNat totalInfotype.toNat).2).1 = 0 := by
    rw [llpSendNop, llpSendHeader_ret, h3, if_pos]
    rw [List.head?_drop]
    exact hsent _ (by omega)
  have hrest : (llpSendNop (sendInfoRequests hc.ll firstInfotype.toNat totalInfotype.toNat).2).2.rest
      = encode LlMessage.bytes (replies ++ [nop]) ++ later := by
    rw [llpSendNop_rest, h2, hr]
  refine ⟨replies.foldl (fun d m => updateDevinfo d m.payload m.header) d, ?_, ?_, ?_⟩
  · unfold hlpGetSystemInformationMultiple
    rw [if_neg (by simpa using h1), if_neg (by simpa using hnop),
      collectReplies_of_replies hrest hn hcmd hl]
  · unfold hlpGetSystemInformationMultiple
    rw [if_neg (by simpa using h1), if_neg (by simpa using hnop),
      collectReplies_of_replies hrest hn hcmd hl]
  · exact forall_congr' fun f => text_eq_expected_iff d replies f

/-- A reply with the chipset, and the reply to the `NOP`. -/
def chipsetReply : LlMessage where
  head := [0xb4, 0, 0, 0, 1, 0, 0, 0, 11] ++ List.replicate 23 0
  payload := [0x42]
  length_head := rfl
  le32_head := by decide

def nopReply : LlMessage where
  head := 0xb1 :: List.replicate 31 0
  payload := []
  length_head := rfl
  le32_head := by decide

/-- A connection on which only the chipset is answered. -/
def chipsetConn : HlConn :=
  ⟨⟨encode LlMessage.bytes ([chipsetReply] ++ [nopReply]) ++ [], false, List.replicate 257 true, [],
    []⟩, 0⟩

theorem attribution_iff_chipset :
    ∃ d', (hlpGetSystemInformationMultiple chipsetConn (some (diInit [])) 0 256).ret = 0 ∧
      (hlpGetSystemInformationMultiple chipsetConn (some (diInit [])) 0 256).devinfo = some d' ∧
      ((∀ f, d'.text f = InfoField.expected f (diInit []) [chipsetReply]) ↔
        ∀ f, ¬ InfoField.Misattributed f (diInit []) [chipsetReply]) := by
  refine attribution_iff chipsetConn (diInit []) 0 256 [chipsetReply] nopReply [] ?_ rfl rfl ?_ ?_
  · intro i hi
    have hi : i < 257 := hi
    have hs : chipsetConn.ll.sends = List.replicate 257 true := rfl
    rw [hs, List.getElem?_replicate, if_pos hi]
  · intro m hm
    rw [List.mem_singleton.mp hm]
    decide
  · decide

/-- The chipset also ends up in the split-screen field, for which there was no reply. -/
theorem chipset_as_split_screen :
    (hlpGetSystemInformationMultiple chipsetConn (some (diInit [])) 0 256).devinfo.map
        (fun d => d.text .splitScreen) = some [0x42] ∧
      InfoField.splitScreen.expected (diInit []) [chipsetReply] = [] := by
  decide +kernel

end TaniDVR
