import TaniDVR.Pieces
import TaniDVR.FileRun

/-!
# Truncated — what a cut frame costs at the end of a file

`dhav2mkv` reads a file of well-formed frames some of which are cut short.  At the header of a cut
frame the parser awaits the declared length, finds no trailer there (`cut_not_frame`) and rescans
from the next byte; so every intact frame is emitted exactly when, for every cut frame that an
intact one follows, the declared length ends before the file does and a read ends after it while
the queue still holds everything from the header on (`truncated_iff`).

A declared length below 8 sends the trailer test to bytes before the header.  They are the file's
bytes, or, right at the start of the queue array, what the heap holds below it.
-/

namespace TaniDVR

open Lib Dstf StreamLoop

/-- The length field of a header at position `a`; of a frame cut inside its header it runs into the
frames that follow. -/
def declaredLen (file : List UInt8) (a : ℕ) : ℕ := le32 (fun i => ofList file (a + 12 + i))

/-- The parser gets past the header at `a`: its length is rejected at once, or a read ends where the
whole length is there and fits into the queue. -/
def Affordable (file : List UInt8) (a : ℕ) : Prop :=
  tMcParmsDhavStf < declaredLen file a ∨
  ∃ e, ReadEnd 10000 file e ∧ a + declaredLen file a ≤ e ∧ e ≤ a + tMcParmsDhavStf

variable {ps pre post : List Piece} {p : Piece} {a e : ℕ} {d : Dstf}

/-! ### The head of the queue at a piece -/

theorem piece_byte (hps : ps = pre ++ p :: post) {i : ℕ} (hi : i < p.kept) :
    ofList (fileBytes ps) ((fileBytes pre).length + i) = ofList p.frame i := by
  rw [hps, fileBytes_append, ofList_append_right, fileBytes_cons, p.byte_left hi]

/-- A place in the file is the start of one piece only. -/
theorem place_unique {pre' post' : List Piece} {p' : Piece}
    (h : pre ++ p :: post = pre' ++ p' :: post')
    (hlen : (fileBytes pre).length = (fileBytes pre').length) : pre = pre' ∧ p = p' := by
  induction pre generalizing pre' with
  | nil =>
    cases pre' with
    | nil => exact ⟨rfl, (List.cons.inj h).1⟩
    | cons x xs =>
      have := x.kept_pos
      simp at hlen
      omega
  | cons y ys ih =>
    cases pre' with
    | nil =>
      have := y.kept_pos
      simp at hlen
      omega
    | cons x xs =>
      obtain ⟨rfl, h'⟩ := List.cons.inj h
      obtain ⟨rfl, hp⟩ := ih h' (by simpa using hlen)
      exact ⟨rfl, hp⟩

/-- A piece that starts before another stands before it. -/
theorem place_before {pre' post' : List Piece} {p' : Piece}
    (h : pre ++ p :: post = pre' ++ p' :: post')
    (hlt : (fileBytes pre).length < (fileBytes pre').length) : ∃ mid, pre' = pre ++ p :: mid := by
  obtain ⟨as, rfl, has⟩ | ⟨bs, rfl, -⟩ := List.append_eq_append_iff.mp h
  · cases as with
    | nil => simp at hlt
    | cons x xs =>
      obtain ⟨rfl, -⟩ := List.cons.inj has
      exact ⟨xs, rfl⟩
  · rw [fileBytes_append, List.length_append] at hlt
    omega

/-- The length field in the queue and in the file. -/
theorem Holds.repLen {file : List UInt8} (h : Holds (ofList file) a e d) (h16 : 16 ≤ d.sqLen) :
    (d.repLen ≤ tMcParmsDhavStf ↔ declaredLen file a ≤ tMcParmsDhavStf) ∧
    (declaredLen file a ≤ tMcParmsDhavStf → d.repLen = declaredLen file a) := by
  have h31 := tMcParmsDhavStf_lt
  have hle : le32 (fun i => d.sq (d.sqOffs + 12 + i)) = declaredLen file a :=
    le32_congr fun i hi => by
      rw [Nat.add_assoc, Nat.add_assoc]
      exact h.head_byte (i := 12 + i) (by omega)
  constructor
  · rw [Dstf.repLen, toSizeT_btLM2NVU32_le_iff h31, hle]
  · intro hd
    exact (toSizeT_btLM2NVU32 (by omega)).trans hle

theorem le32_ge_byte (m : ℕ → UInt8) {j : ℕ} (hj : j < 4) : (m j).toNat ≤ le32 m := by
  unfold le32
  obtain rfl | rfl | rfl | rfl : j = 0 ∨ j = 1 ∨ j = 2 ∨ j = 3 := by omega
  all_goals omega

/-- A trailer in the queue, where the queue holds bytes of the file. -/
theorem trailer_in_queue {file : List UInt8} {n b : ℕ} (hpos : d.trailerPos = (n : ℕ))
    (hbyte : ∀ j < 8, d.sq (n + j) = ofList file (b + j)) (ht : d.hasTrailer) :
    slice (ofList file) b 4 = strDhav ∧
      le32 (fun j => ofList file (b + 4 + j)) = le32 (fun j => d.byteAt (d.trailerPos + 4 + j)) := by
  constructor
  · exact (slice_congr fun j hj => (hbyte j (by omega)).symm).trans ((hasTrailer_iff hpos).mp ht)
  · apply le32_congr
    intro j hj
    have hcast : d.trailerPos + 4 + (j : ℤ) = ((n + 4 + j : ℕ) : ℤ) := by
      rw [hpos]
      omega
    have := hbyte (4 + j) (by omega)
    rw [← Nat.add_assoc, ← Nat.add_assoc] at this
    rw [hcast, byteAt_natCast]
    exact this.symm

/-- With 8 bytes or more the trailer is a trailer of the file, and that of another frame. -/
theorem cut_not_long_frame (hmax : d.sqMaxlen = tMcParmsDhavStf)
    (hH : Holds (ofList (fileBytes ps)) a e d) (he : e ≤ (fileBytes ps).length)
    (hps : ps = pre ++ p :: post) (ha : a = (fileBytes pre).length) (hcut : ¬ p.Intact)
    (hc : d.check = .frame) : d.repLen < 8 := by
  by_contra h8
  have h31 := tMcParmsDhavStf_lt
  have hrep2 := rep2_le32 hc (by omega)
  obtain ⟨h16, -, hT, hle, ht, -⟩ := check_frame_iff.mp hc
  have hlen := hH.len
  have hpos : d.trailerPos = ((d.sqOffs + (d.repLen - 8) : ℕ) : ℤ) := by
    rw [trailerPos]
    omega
  have hbyte : ∀ j < 8, d.sq (d.sqOffs + (d.repLen - 8) + j) =
      ofList (fileBytes ps) (a + (d.repLen - 8) + j) := by
    intro j hj
    rw [Nat.add_assoc, Nat.add_assoc]
    exact hH.head_byte (by omega)
  obtain ⟨hdhav, hle32⟩ := trailer_in_queue hpos hbyte ht
  rw [hrep2] at hle32
  obtain ⟨pre', q, post', hps', hq, hend, hval⟩ | hbig := trailer_in_file (by omega) hdhav
  · obtain ⟨-, rfl⟩ := place_unique (hps.symm.trans hps') (by omega)
    exact hcut hq
  · have : tMcParmsDhavStf = 1000000 := rfl
    omega

/-- There is no `dhav` with a zero length before the header. -/
theorem not_zero_frame (hbelow : ∀ k < 8, d.below k ≠ 0x64) (hmax : d.sqMaxlen = tMcParmsDhavStf)
    (hH : Holds (ofList (fileBytes ps)) a e d) (he : e ≤ (fileBytes ps).length)
    (hc : d.check = .frame) : d.repLen ≠ 0 := by
  intro h0
  have h31 := tMcParmsDhavStf_lt
  have hrep2 := rep2_le32 hc (by omega)
  obtain ⟨h16, -, -, -, ht, -⟩ := check_frame_iff.mp hc
  have hlen := hH.len
  have hoffs := hH.offs_le
  by_cases hback : 8 ≤ d.sqOffs
  · have hpos : d.trailerPos = ((d.sqOffs - 8 : ℕ) : ℤ) := by
      rw [trailerPos, h0]
      omega
    have hbyte : ∀ j < 8, d.sq (d.sqOffs - 8 + j) = ofList (fileBytes ps) (a - 8 + j) := by
      intro j hj
      rw [hH.byte _ (by omega), show a - d.sqOffs + (d.sqOffs - 8 + j) = a - 8 + j by omega]
    obtain ⟨hdhav, hle32⟩ := trailer_in_queue hpos hbyte ht
    rw [hrep2, h0] at hle32
    obtain ⟨pre', q, post', -, -, -, hval⟩ | hbig := trailer_in_file (by omega) hdhav
    · have := q.dhav.min_len
      omega
    · omega
  · have hd := (btIDeqLM32_iff.mp ht).1
    have hneg : d.trailerPos + (0 : ℕ) = Int.negSucc (7 - d.sqOffs) := by
      rw [trailerPos, h0]
      omega
    rw [hneg] at hd
    exact hbelow (7 - d.sqOffs) (by omega) hd

/-- A second length field that covers a byte of `DHAV` is too large. -/
theorem not_short_frame (hmax : d.sqMaxlen = tMcParmsDhavStf)
    (hH : Holds (ofList (fileBytes ps)) a e d) (hps : ps = pre ++ p :: post)
    (ha : a = (fileBytes pre).length) (h4 : 4 ≤ p.kept) (hc : d.check = .frame)
    (h0 : d.repLen ≠ 0) : 8 ≤ d.repLen := by
  by_contra h8
  have h31 := tMcParmsDhavStf_lt
  have hrep2 := rep2_le32 hc (by omega)
  obtain ⟨h16, -⟩ := check_frame_iff.mp hc
  obtain ⟨j, o, hj, ho, hjo⟩ : ∃ j o : ℕ, j < 4 ∧ o < 4 ∧ d.repLen + j = 4 + o := by
    by_cases h5 : d.repLen ≤ 4
    · exact ⟨4 - d.repLen, 0, by omega, by omega, by omega⟩
    · exact ⟨0, d.repLen - 4, by omega, by omega, by omega⟩
  have hcast : d.trailerPos + 4 + (j : ℤ) = ((d.sqOffs + o : ℕ) : ℤ) := by
    rw [trailerPos]
    omega
  have hb : d.byteAt (d.trailerPos + 4 + j) = ofList strDHAV o := by
    rw [hcast, ← p.dhav.header_byte ho, ← piece_byte hps (by omega), ← ha]
    exact hH.head_byte (by omega)
  have hbig : ∀ o < 4, 0x41 ≤ (ofList strDHAV o).toNat := by decide
  have hge : 0x41 ≤ d.repLen := by
    calc 0x41 ≤ (ofList strDHAV o).toNat := hbig o ho
      _ = (d.byteAt (d.trailerPos + 4 + j)).toNat := by rw [hb]
      _ ≤ d.repLen := hrep2 ▸ le32_ge_byte (fun i => d.byteAt (d.trailerPos + 4 + i)) hj
  exact h8 (le_trans (by decide) hge)

/-- **A cut frame never passes for a frame**, whatever its length field holds. -/
theorem cut_not_frame (hbelow : ∀ k < 8, d.below k ≠ 0x64) (hmax : d.sqMaxlen = tMcParmsDhavStf)
    (hH : Holds (ofList (fileBytes ps)) a e d) (he : e ≤ (fileBytes ps).length)
    (hps : ps = pre ++ p :: post) (ha : a = (fileBytes pre).length) (hcut : ¬ p.Intact)
    (h4 : 4 ≤ p.kept) : d.check ≠ .frame := by
  intro hc
  have h8 := cut_not_long_frame hmax hH he hps ha hcut hc
  have h0 := not_zero_frame hbelow hmax hH he hc
  have := not_short_frame hmax hH hps ha h4 hc h0
  omega

/-! ### The invariant -/

/-- The head of the queue is at position `a` of the file and its end at `e`: every intact frame of
the pieces `pre` before it, and no other, is emitted, and what is left of these pieces shows no
`DHAV`. -/
structure Scan (ps : List Piece) (a e : ℕ) (d : Dstf) (em : List (List UInt8)) : Prop where
  maxlen : d.sqMaxlen = tMcParmsDhavStf
  fits : d.Fits
  below : ∀ k < 8, d.below k ≠ 0x64
  end_le : e ≤ (fileBytes ps).length
  holds : Holds (ofList (fileBytes ps)) a e d
  place : ∃ pre post, ps = pre ++ post ∧ a ≤ (fileBytes pre).length ∧
    ¬ strDHAV <:+: (fileBytes pre).drop a ∧ em = intactFrames pre

/-- What 16 bytes at the head show: garbage, where no header is or one that is past its declared
length; an intact frame, whole or awaited; or a cut frame that is awaited. -/
inductive ScanCase (ps : List Piece) (a e : ℕ) (d : Dstf) (em : List (List UInt8)) : Prop
  | garbage : d.check = .garbage → Scan ps (a + 1) e (d.skip 1) em →
      (∀ pre p post, ps = pre ++ p :: post → a = (fileBytes pre).length → 4 ≤ p.kept →
        tMcParmsDhavStf < declaredLen (fileBytes ps) a ∨ a + declaredLen (fileBytes ps) a ≤ e) →
      ScanCase ps a e d em
  | frame (pre : List Piece) (p : Piece) (post : List Piece) : ps = pre ++ p :: post →
      a = (fileBytes pre).length → p.Intact → d.check = .frame → d.repLen = p.frame.length →
      slice d.sq d.sqOffs d.repLen = p.frame →
      Scan ps (a + d.repLen) e (d.skip d.repLen) (em ++ [p.frame]) → ScanCase ps a e d em
  | wait (pre : List Piece) (p : Piece) (post : List Piece) : ps = pre ++ p :: post →
      a = (fileBytes pre).length → em = intactFrames pre → d.check = .wait →
      (p.Intact ∧ d.sqLen < p.frame.length ∨
        ¬ p.Intact ∧ 4 ≤ p.kept ∧ declaredLen (fileBytes ps) a ≤ tMcParmsDhavStf ∧
          e < a + declaredLen (fileBytes ps) a) → ScanCase ps a e d em

section Scan

variable {em : List (List UInt8)}

/-- Moving the head, with a place for the new position. -/
theorem Scan.skip (h : Scan ps a e d em) {n : ℕ} (hn : n ≤ d.sqLen) {em' : List (List UInt8)}
    (hplace : ∃ pre post, ps = pre ++ post ∧ a + n ≤ (fileBytes pre).length ∧
      ¬ strDHAV <:+: (fileBytes pre).drop (a + n) ∧ em' = intactFrames pre) :
    Scan ps (a + n) e (d.skip n) em' :=
  ⟨(skip_sqMaxlen d n).trans h.maxlen, skip_fits h.fits hn, h.below, h.end_le, h.holds.skip hn, hplace⟩

/-- Discarding a byte of a piece that is passed, or the first byte of one that is not intact. -/
theorem Scan.skip_in_garbage (h : Scan ps a e d em) (h16 : 16 ≤ d.sqLen)
    (hps : ps = pre ++ post) (hlt : a < (fileBytes pre).length)
    (hno : ¬ strDHAV <:+: (fileBytes pre).drop a) (hem : em = intactFrames pre) :
    ¬ d.hasHeader ∧ Scan ps (a + 1) e (d.skip 1) em := by
  have hlen := h.holds.len
  have hend := h.end_le
  have hh : ¬ d.hasHeader := by
    rw [hasHeader_iff]
    intro hh
    have hlen4 : strDHAV.length = 4 := rfl
    have hne : (fileBytes pre).drop a ≠ [] :=
      List.ne_nil_of_length_pos (by rw [List.length_drop]; omega)
    refine no_header_in_garbage hne hno (fileBytes_head post) ?_
    have hfile : (fileBytes pre).drop a ++ fileBytes post = (fileBytes ps).drop a := by
      rw [hps, fileBytes_append, List.drop_append_of_le_length hlt.le]
    rw [hfile, ← slice_ofList (by omega), ← hh]
    exact slice_congr fun i hi => (h.holds.head_byte (by omega)).symm
  refine ⟨hh, h.skip (by omega) ⟨pre, post, hps, hlt, ?_, hem⟩⟩
  intro hno'
  refine hno (hno'.trans ?_)
  rw [← List.drop_drop]
  exact (List.drop_suffix 1 _).isInfix

/-- Discarding the first byte of a cut piece. -/
theorem Scan.skip_cut (h : Scan ps a e d em) (h16 : 16 ≤ d.sqLen)
    (hps : ps = pre ++ p :: post) (ha : a = (fileBytes pre).length) (hem : em = intactFrames pre)
    (hcut : ¬ p.Intact) : Scan ps (a + 1) e (d.skip 1) em := by
  have hpos := p.kept_pos
  refine h.skip (by omega) ⟨pre ++ [p], post, by simp [hps], ?_, ?_, ?_⟩
  · simp
    omega
  · rw [fileBytes_append, ha, ← List.drop_drop, List.drop_left]
    simpa using p.not_header_in_piece
  · rw [hem, intactFrames_append, intactFrames_cut hcut, List.append_nil]

/-- A piece with its first four bytes shows a header. -/
theorem Scan.hasHeader (h : Scan ps a e d em) (h16 : 16 ≤ d.sqLen)
    (hps : ps = pre ++ p :: post) (ha : a = (fileBytes pre).length) (h4 : 4 ≤ p.kept) :
    d.hasHeader = true := by
  rw [hasHeader_iff, ← p.dhav.header]
  refine slice_congr ?_
  intro i hi
  rw [h.holds.head_byte (by omega), ha, piece_byte hps (by omega), Nat.zero_add]

/-- An intact frame at the head is awaited, and emitted when all of it is there. -/
theorem Scan.head_intact (h : Scan ps a e d em) (h16 : 16 ≤ d.sqLen)
    (hps : ps = pre ++ p :: post) (ha : a = (fileBytes pre).length) (hem : em = intactFrames pre)
    (hint : p.Intact) : ScanCase ps a e d em := by
  have hmax := h.maxlen
  have h31 := tMcParmsDhavStf_lt
  have hpmax := p.max_len
  have hT : tMcParmsDhavStf = 1000000 := rfl
  obtain ⟨hrep, hwait, hframe⟩ := check_of_frame p.dhav.whole (by omega) (by omega) h16
    fun i h1 h2 => by
      rw [h.holds.head_byte h1, ha]
      exact piece_byte hps (by unfold Piece.Intact at hint; omega)
  by_cases hall : p.frame.length ≤ d.sqLen
  · obtain ⟨hc, hs⟩ := hframe hall
    rw [← hrep] at hs
    refine .frame pre p post hps ha hint hc hrep hs (h.skip (by omega) ⟨pre ++ [p], post, ?_⟩)
    have hbytes := Piece.bytes_of_intact hint
    refine ⟨by simp [hps], ?_, ?_, ?_⟩
    · simp [hbytes]
      omega
    · rw [List.drop_eq_nil_of_le (by simp [hbytes]; omega)]
      simp [strDHAV]
    · rw [intactFrames_append, intactFrames_intact hint, hem]
  · exact .wait pre p post hps ha hem (hwait (by omega)) (Or.inl ⟨hint, by omega⟩)

/-- A cut frame with its header at the head is awaited, or its first byte is discarded. -/
theorem Scan.head_cut (h : Scan ps a e d em) (h16 : 16 ≤ d.sqLen)
    (hps : ps = pre ++ p :: post) (ha : a = (fileBytes pre).length) (hem : em = intactFrames pre)
    (hint : ¬ p.Intact) (h4 : 4 ≤ p.kept) : ScanCase ps a e d em := by
  have hlen := h.holds.len
  have hmax := h.maxlen
  have h31 := tMcParmsDhavStf_lt
  have hhead := h.hasHeader h16 hps ha h4
  obtain ⟨hiff, hrep⟩ := h.holds.repLen h16
  cases hc : d.check with
  | short => exact absurd hc (check_ne_short_of_sqLen h16)
  | frame => exact absurd hc (cut_not_frame h.below hmax h.holds h.end_le hps ha hint h4)
  | wait =>
    obtain ⟨-, -, hw1, hw2⟩ := check_wait_iff.mp hc
    have hd := hiff.mp (by omega)
    have := hrep hd
    exact .wait pre p post hps ha hem hc (Or.inr ⟨hint, h4, hd, by omega⟩)
  | garbage =>
    refine .garbage hc (h.skip_cut h16 hps ha hem hint) ?_
    intro _ _ _ _ _ _
    by_cases hd : declaredLen (fileBytes ps) a ≤ tMcParmsDhavStf
    · have hrep' := hrep hd
      refine Or.inr ?_
      by_contra hlt
      rw [check_wait_iff.mpr ⟨h16, hhead, by omega, by omega⟩] at hc
      cases hc
    · exact Or.inl (by omega)

/-- A cut frame without a whole `DHAV` at the head loses its first byte. -/
theorem Scan.head_short (h : Scan ps a e d em) (h16 : 16 ≤ d.sqLen)
    (hps : ps = pre ++ p :: post) (ha : a = (fileBytes pre).length) (hem : em = intactFrames pre)
    (hint : ¬ p.Intact) (h4 : ¬ 4 ≤ p.kept) : ScanCase ps a e d em := by
  have hlen := h.holds.len
  have hend := h.end_le
  have hh : ¬ d.hasHeader := by
    rw [hasHeader_iff]
    intro hh
    refine p.not_header_of_short (Nat.not_le.mp h4) post ?_
    have hfile : p.bytes ++ fileBytes post = (fileBytes ps).drop a := by
      rw [hps, fileBytes_append, ha, List.drop_left, fileBytes_cons]
    rw [hfile, ← slice_ofList (by omega), ← hh]
    exact slice_congr fun i hi => (h.holds.head_byte (by omega)).symm
  refine .garbage (check_garbage_of_no_header h16 hh) (h.skip_cut h16 hps ha hem hint) ?_
  intro pre' p' post' hps' ha' h4'
  obtain ⟨-, rfl⟩ := place_unique (hps.symm.trans hps') (by omega)
  exact absurd h4' h4

/-- **The head of the queue**, wherever it is in the file. -/
theorem Scan.headCase (h : Scan ps a e d em) (h16 : 16 ≤ d.sqLen) : ScanCase ps a e d em := by
  obtain ⟨pre, post, hps, hle, hno, hem⟩ := h.place
  have hlen := h.holds.len
  have hend := h.end_le
  rcases Nat.lt_or_eq_of_le hle with hlt | ha
  · -- behind the start of a cut piece
    obtain ⟨hh, hnext⟩ := h.skip_in_garbage h16 hps hlt hno hem
    exact .garbage (check_garbage_of_no_header h16 hh) hnext fun pre' p' post' hps' ha' h4 =>
      absurd (h.hasHeader h16 hps' ha' h4) hh
  cases post with
  | nil =>
    rw [hps, List.append_nil] at hend
    omega
  | cons p post =>
    by_cases hint : p.Intact
    · exact h.head_intact h16 hps ha hem hint
    · by_cases h4 : 4 ≤ p.kept
      · exact h.head_cut h16 hps ha hem hint h4
      · exact h.head_short h16 hps ha hem hint h4

/-- More of the file in the queue. -/
theorem Scan.load (h : Scan ps a e d em) {c : List UInt8} {l : Dstf} (hl : d.load c = some l)
    (hc : ∀ i < c.length, ofList c i = ofList (fileBytes ps) (e + i))
    (he : e + c.length ≤ (fileBytes ps).length) : Scan ps a (e + c.length) l em := by
  have hbelow : l.below = d.below := by
    obtain ⟨-, rfl⟩ | ⟨-, -, rfl⟩ | ⟨-, -, rfl⟩ := load_cases hl <;> rfl
  exact ⟨(load_sqMaxlen hl).trans h.maxlen, load_fits h.fits hl, hbelow ▸ h.below, he,
    h.holds.load hl hc, h.place⟩

end Scan

/-- The same with the reads of the file still to come. -/
structure Rescan (ps : List Piece) (a e : ℕ) (d : Dstf) (rs em : List (List UInt8)) : Prop where
  maxlen : d.sqMaxlen = tMcParmsDhavStf
  fits : d.Fits
  below : ∀ k < 8, d.below k ≠ 0x64
  reads : ReadsFrom 10000 (fileBytes ps) e rs
  holds : Holds (ofList (fileBytes ps)) a e d
  place : ∃ pre post, ps = pre ++ post ∧ a ≤ (fileBytes pre).length ∧
    ¬ strDHAV <:+: (fileBytes pre).drop a ∧ em = intactFrames pre

variable {rs em : List (List UInt8)}

theorem Rescan.scan (h : Rescan ps a e d rs em) : Scan ps a e d em :=
  ⟨h.maxlen, h.fits, h.below, h.reads.readEnd.le, h.holds, h.place⟩

theorem Scan.rescan (h : Scan ps a e d em) (hr : ReadsFrom 10000 (fileBytes ps) e rs) :
    Rescan ps a e d rs em :=
  ⟨h.maxlen, h.fits, h.below, hr, h.holds, h.place⟩

/-- The queue holds at most `sq_maxlen` bytes of the file. -/
theorem Rescan.end_le_add (h : Rescan ps a e d rs em) : e ≤ a + tMcParmsDhavStf := by
  have hlen := h.holds.len
  have hfits := h.fits
  rw [Fits, h.maxlen] at hfits
  omega

/-- What 16 bytes at the head show: garbage, where no header is or one the parser can afford; an
intact frame, whole or awaited; or a cut frame that is awaited. -/
inductive HeadCase (ps : List Piece) (a e : ℕ) (d : Dstf) (rs em : List (List UInt8)) : Prop
  | garbage : d.check = .garbage → Rescan ps (a + 1) e (d.skip 1) rs em →
      (∀ pre p post, ps = pre ++ p :: post → a = (fileBytes pre).length → 4 ≤ p.kept →
        Affordable (fileBytes ps) a) → HeadCase ps a e d rs em
  | frame (pre : List Piece) (p : Piece) (post : List Piece) : ps = pre ++ p :: post →
      a = (fileBytes pre).length → p.Intact → d.check = .frame → d.repLen = p.frame.length →
      slice d.sq d.sqOffs d.repLen = p.frame →
      Rescan ps (a + d.repLen) e (d.skip d.repLen) rs (em ++ [p.frame]) → HeadCase ps a e d rs em
  | wait (pre : List Piece) (p : Piece) (post : List Piece) : ps = pre ++ p :: post →
      a = (fileBytes pre).length → em = intactFrames pre → d.check = .wait →
      (p.Intact ∧ d.sqLen < p.frame.length ∨
        ¬ p.Intact ∧ 4 ≤ p.kept ∧ declaredLen (fileBytes ps) a ≤ tMcParmsDhavStf ∧
          e < a + declaredLen (fileBytes ps) a) → HeadCase ps a e d rs em

theorem Rescan.headCase (h : Rescan ps a e d rs em) (h16 : 16 ≤ d.sqLen) :
    HeadCase ps a e d rs em := by
  cases h.scan.headCase h16 with
  | garbage hc hnext hpast =>
    refine .garbage hc (hnext.rescan h.reads) ?_
    intro pre p post hps ha h4
    exact (hpast pre p post hps ha h4).imp_right fun hle => ⟨e, h.reads.readEnd, hle, h.end_le_add⟩
  | frame pre p post hps ha hint hc hrep hs hnext =>
    exact .frame pre p post hps ha hint hc hrep hs (hnext.rescan h.reads)
  | wait pre p post hps ha hem hc hcase => exact .wait pre p post hps ha hem hc hcase

theorem Rescan.load {c : List UInt8} (h : Rescan ps a e d (c :: rs) em) {l : Dstf}
    (hl : d.load c = some l) : Rescan ps a (e + c.length) l rs em := by
  obtain ⟨-, hbyte, hrest, -⟩ := h.reads.cons (by decide)
  exact (h.scan.load hl hbyte hrest.readEnd.le).rescan hrest

/-- The invariant of the loop, for head positions with a property `B` that discarding garbage and
emitting intact frames keep. -/
theorem rescan_runInv (ps : List Piece) (B : ℕ → Prop)
    (hskip : ∀ a, B a → (∀ pre p post, ps = pre ++ p :: post → a = (fileBytes pre).length →
      4 ≤ p.kept → Affordable (fileBytes ps) a) → B (a + 1))
    (hframe : ∀ pre p post, ps = pre ++ p :: post → p.Intact → B (fileBytes pre).length →
      B ((fileBytes pre).length + p.frame.length)) :
    RunInv Program.dhav2mkv.maxDstLen fun d rs em => ∃ a e, B a ∧ Rescan ps a e d rs em where
  fits := by
    rintro d rs em ⟨a, e, -, h⟩
    exact h.fits
  garbage := by
    rintro d rs em ⟨a, e, hB, h⟩ hc
    have h16 := sqLen_of_check hc nofun
    cases h.headCase h16 with
    | garbage _ hnext hafford => exact ⟨a + 1, e, hskip a hB hafford, hnext⟩
    | frame _ _ _ _ _ _ hc' => exact nomatch hc.symm.trans hc'
    | wait _ _ _ _ _ _ hc' => exact nomatch hc.symm.trans hc'
  frame := by
    rintro d rs em ⟨a, e, hB, h⟩ hc
    have h16 := sqLen_of_check hc nofun
    cases h.headCase h16 with
    | garbage hc' => exact nomatch hc.symm.trans hc'
    | frame pre p post hps ha hint _ hrep hs hnext =>
      have hmin := p.dhav.min_len
      have hmax := p.max_len
      have hdst : Program.dhav2mkv.maxDstLen = 2000000 := rfl
      rw [hs]
      refine ⟨by omega, by omega, a + d.repLen, e, ?_, hnext⟩
      rw [hrep, ha]
      exact hframe pre p post hps hint (ha ▸ hB)
    | wait _ _ _ _ _ _ hc' => exact nomatch hc.symm.trans hc'
  load := by
    rintro d l c rs em ⟨a, e, hB, h⟩ hl
    exact ⟨a, e + c.length, hB, h.load hl⟩

/-! ### The end of the run -/

/-- Every cut frame with its `DHAV` that an intact frame follows is affordable. -/
def AllAffordable (ps : List Piece) : Prop :=
  ∀ pre p post, ps = pre ++ p :: post → ¬ p.Intact → 4 ≤ p.kept → (∃ q ∈ post, q.Intact) →
    Affordable (fileBytes ps) (fileBytes pre).length

/-- Where not all intact frames are emitted, one is still to come. -/
theorem intact_to_come (hps : ps = pre ++ post) (hne : ¬ (intactFrames ps).Sublist (intactFrames pre)) :
    ∃ q ∈ post, q.Intact := by
  by_contra hno
  push Not at hno
  rw [hps, intactFrames_append, intactFrames_eq_nil.mpr hno, List.append_nil] at hne
  exact hne (List.Sublist.refl _)

theorem kept_le_of_mem {q : Piece} (hq : q ∈ post) : q.kept ≤ (fileBytes post).length := by
  obtain ⟨s, t, rfl⟩ := List.append_of_mem hq
  simp
  omega

/-- The head case of a queue that waits with an intact frame still to come. -/
theorem Rescan.wait_case (h : Rescan ps a e d rs em) (hall : AllAffordable ps)
    (hne : ¬ (intactFrames ps).Sublist em) (h16 : 16 ≤ d.sqLen) (hw : d.Waiting .dhav) :
    (∃ p ∈ ps, d.sqLen < p.frame.length ∧ a + p.frame.length ≤ (fileBytes ps).length) ∨
    ∃ e', ReadEnd 10000 (fileBytes ps) e' ∧ e < e' ∧ e' ≤ a + tMcParmsDhavStf := by
  have hc : d.check = .wait := hw
  cases h.headCase h16 with
  | garbage hc' => exact nomatch hc.symm.trans hc'
  | frame _ _ _ _ _ _ hc' => exact nomatch hc.symm.trans hc'
  | wait pre p post hps ha hem _ hcase =>
    obtain ⟨hint, hlt⟩ | ⟨hcut, h4, hT, hlt⟩ := hcase
    · refine Or.inl ⟨p, by simp [hps], hlt, ?_⟩
      rw [hps, ha]
      simp [Piece.bytes_of_intact hint]
    · obtain ⟨q, hq, hint⟩ := intact_to_come hps (hem ▸ hne)
      rw [List.mem_cons] at hq
      have hq' : q ∈ post := hq.resolve_left fun heq => hcut (heq ▸ hint)
      obtain hbig | ⟨e', he', hle, hle'⟩ := hall pre p post hps hcut h4 ⟨q, hq', hint⟩
      · rw [← ha] at hbig
        omega
      · rw [← ha] at hle hle'
        exact Or.inr ⟨e', he', by omega, hle'⟩

/-- At the end of the file nothing is left to come. -/
theorem Rescan.all_of_eof (h : Rescan ps a e d [] em) (hall : AllAffordable ps)
    (hidle : d.Short .dhav ∨ d.Waiting .dhav) : (intactFrames ps).Sublist em := by
  by_contra hne
  have hlen := h.holds.len
  have he : e = (fileBytes ps).length := by
    cases h.reads
    rfl
  obtain ⟨pre, post, hps, hle, -, hem⟩ := h.place
  obtain ⟨q, hq, hint⟩ := intact_to_come hps (hem ▸ hne)
  have h16 : 16 ≤ d.sqLen := by
    have hq32 := q.dhav.min_len
    have hkept := kept_le_of_mem hq
    have hN : (fileBytes ps).length = (fileBytes pre).length + (fileBytes post).length := by
      rw [hps, fileBytes_append, List.length_append]
    unfold Piece.Intact at hint
    omega
  have hw := hidle.resolve_left (Nat.not_lt.mpr h16)
  obtain ⟨p, -, hlt, hend⟩ | ⟨e', he', hlt, -⟩ := h.wait_case hall hne h16 hw
  · omega
  · obtain heq | ⟨-, hle'⟩ := he' <;> omega

/-- While an intact frame is to come the next read fits. -/
theorem Rescan.room {c : List UInt8} (h : Rescan ps a e d (c :: rs) em) (hall : AllAffordable ps)
    (hne : ¬ (intactFrames ps).Sublist em) (hidle : d.Short .dhav ∨ d.Waiting .dhav) :
    d.sqLen + c.length ≤ d.sqMaxlen := by
  obtain ⟨hread, -, -, -, hdvd⟩ := h.reads.cons (by decide)
  have hlen := h.holds.len
  have hmax := h.maxlen
  have hT : tMcParmsDhavStf = 1000000 := rfl
  by_cases h16 : 16 ≤ d.sqLen
  · have hw := hidle.resolve_left (Nat.not_lt.mpr h16)
    obtain ⟨p, -, hlt, -⟩ | ⟨e', he', hlt, hle⟩ := h.wait_case hall hne h16 hw
    · have := p.max_len
      omega
    · obtain hdvd | heq := hdvd
      · have := he'.next hdvd hlt
        omega
      · obtain heq' | ⟨-, hle'⟩ := he' <;> omega
  · omega

/-- **No frame is lost** where every cut frame is affordable. -/
theorem all_emitted {d₀ : Dstf} {rs₀ : List (List UInt8)} {e₀ : ℕ} (hall : AllAffordable ps)
    (h₀ : Rescan ps 0 e₀ d₀ (rs₀ ++ [[]]) []) (hroom : d₀.sqLen + 10000 ≤ d₀.sqMaxlen) :
    ∃ l, Halts (StreamLoop.step .dhav Program.dhav2mkv.maxDstLen) (.start d₀ (rs₀ ++ [[]])) l ∧
      (intactFrames ps).Sublist l.frames := by
  have hinv := rescan_runInv ps (fun _ => True) (fun _ _ _ => trivial)
    (fun _ _ _ _ _ _ => trivial)
  obtain ⟨l, hl, hcar, hend⟩ := hinv.halts ⟨0, e₀, trivial, h₀⟩
  refine ⟨l, hl, ?_⟩
  obtain ⟨hpos, ⟨a, e, -, h⟩, hidle⟩ | ⟨-, c, ⟨a, e, -, h⟩, hidle, hfull⟩ := hcar
  · obtain hneg | ⟨h0, hnil⟩ := hend
    · omega
    · rw [hnil] at h hidle
      refine h.all_of_eof hall ?_
      obtain hs | hw | ⟨-, hrs⟩ := hidle h0
      · exact Or.inl hs
      · exact Or.inr hw
      · simp at hrs
  · by_contra hne
    have hlt := (load_eq_none_iff.mp hfull).2
    have hle : l.dstf.sqLen + c.length ≤ l.dstf.sqMaxlen := by
      obtain hs | hw | ⟨heq, -⟩ := hidle
      · exact h.room hall hne (Or.inl hs)
      · exact h.room hall hne (Or.inr hw)
      · have := (h.reads.cons (by decide)).1
        rw [heq]
        omega
    omega

/-- **A frame is lost** behind a cut frame that is not affordable. -/
theorem lost_of_unaffordable {d₀ : Dstf} {rs₀ : List (List UInt8)} {e₀ : ℕ}
    (h₀ : Rescan ps 0 e₀ d₀ rs₀ []) (hps : ps = pre ++ p :: post) (hcut : ¬ p.Intact)
    (h4 : 4 ≤ p.kept) (hq : ∃ q ∈ post, q.Intact)
    (hno : ¬ Affordable (fileBytes ps) (fileBytes pre).length) {l : StreamLoop}
    (hl : Halts (StreamLoop.step .dhav Program.dhav2mkv.maxDstLen) (.start d₀ rs₀) l) :
    ¬ (intactFrames ps).Sublist l.frames := by
  -- the head never gets past the cut frame
  have hinv := rescan_runInv ps (fun a => a ≤ (fileBytes pre).length)
    (fun a hle hafford => Nat.lt_of_le_of_ne hle fun heq => hno (heq ▸ hafford pre p post hps heq h4))
    (fun pre' p' post' hps' hint hle => by
      rcases Nat.lt_or_eq_of_le hle with hlt | heq
      · obtain ⟨mid, hmid⟩ := place_before (hps'.symm.trans hps) hlt
        simp [hmid, Piece.bytes_of_intact hint]
      · obtain ⟨-, rfl⟩ := place_unique (hps'.symm.trans hps) heq
        exact absurd hint hcut)
  obtain ⟨l', hl', hcar, -⟩ := hinv.halts ⟨0, e₀, Nat.zero_le _, h₀⟩
  obtain rfl := hl.unique hl'
  obtain ⟨rs, a, e, hle, h⟩ := hcar.exists
  obtain ⟨pre', post', hps', -, hnoDHAV, hem⟩ := h.place
  obtain ⟨q, hq, hint⟩ := hq
  have hpost : ∃ q ∈ post', q.Intact := by
    obtain ⟨as, -, has⟩ | ⟨bs, hbs, has⟩ := List.append_eq_append_iff.mp (hps'.symm.trans hps)
    · exact ⟨q, by simp [has, hq], hint⟩
    · cases bs with
      | nil => exact ⟨q, by rw [← List.nil_append post', ← has]; simp [hq], hint⟩
      | cons x xs =>
        -- the cut frame would be among the passed pieces, with its header
        obtain ⟨rfl, -⟩ := List.cons.inj has
        exfalso
        refine hnoDHAV ?_
        rw [hbs, fileBytes_append, List.drop_append_of_le_length hle, fileBytes_cons]
        have hhead : strDHAV <+: p.bytes := by
          have hlen := p.length_bytes
          have : p.bytes.take 4 = strDHAV := by
            rw [← slice_ofList_self p.bytes, take_slice _ _ _ _ (by omega), ← p.dhav.header]
            exact slice_congr fun i hi => ofList_take (by omega)
          rw [← this]
          exact List.take_prefix 4 _
        exact (hhead.trans (List.prefix_append _ _)).isInfix.trans
          (List.suffix_append _ _).isInfix
  intro hsub
  have hlen := hsub.length_le
  have hpos : 0 < (intactFrames post').length := by
    refine List.length_pos_of_ne_nil ?_
    intro hnil
    obtain ⟨q', hq', hint'⟩ := hpost
    exact intactFrames_eq_nil.mp hnil q' hq' hint'
  rw [hem, hps', intactFrames_append, List.length_append] at hlen
  omega

/-! ### A file taken for raw H.264 -/

/-- The raw routine emits units that start with a zero byte. -/
theorem raw_step {f : McFormat} (hf : f ≠ .dhav) {m : ℕ} {s t : StreamLoop}
    (hs : ∀ u ∈ s.frames, u.head? = some 0) (hst : StreamLoop.step f m s = some t) :
    ∀ u ∈ t.frames, u.head? = some 0 := by
  have hcall : ∀ {s : StreamLoop} {src : List UInt8}, (∀ u ∈ s.frames, u.head? = some 0) →
      ∀ u ∈ (s.call f m src).frames, u.head? = some 0 := by
    intro s src hs u hu
    rw [call_frames, streamToFrames_of_ne hf] at hu
    have hc := raw_call s.dstf src m
    generalize dstfProcessRawH264StreamToFrames s.dstf src m = o at hc hu
    cases hc with
    | full => exact hs u (by simpa using hu)
    | few => exact hs u (by simpa using hu)
    | wait => exact hs u (by simpa using hu)
    | refused => exact hs u (by simpa using hu)
    | @frame l n k _ _ hunit hk _ =>
      have hpos := (unitLen_bounds hk).1
      obtain ⟨k, rfl⟩ := Nat.exists_eq_add_of_le' (show 1 ≤ k by omega)
      rw [if_pos (by simp), List.mem_append, List.mem_singleton] at hu
      obtain hu | rfl := hu
      · exact hs u hu
      · have h0 : (l.skip n).sq ((l.skip n).sqOffs + 0) = 0 := hunit.2.1
        rw [slice_succ, List.head?_cons]
        exact congrArg some h0
  obtain ⟨-, rfl⟩ | ⟨-, c, cs, -, rfl⟩ := step_eq_some hst
  · exact hcall hs
  · exact hcall (s := { s with reads := cs }) hs

/-- **When a cut frame costs only itself.**  After the run of `dhav2mkv` over a file of well-formed
frames, some cut short, every frame that was not cut has been emitted, in order, exactly when there
is none, or the file is not taken for raw H.264 and every cut frame that keeps its `DHAV` and that
an uncut one follows is affordable. -/
theorem truncated_iff (ps : List Piece) (sq below : ℕ → UInt8) (hbelow : ∀ k < 8, below k ≠ 0x64) :
    (∃ l, Halts (StreamLoop.step (processDhavStream (dstfInit sq below) (fileBytes ps)).1
        Program.dhav2mkv.maxDstLen) (processDhavStream (dstfInit sq below) (fileBytes ps)).2 l ∧
      (intactFrames ps).Sublist l.frames) ↔
    (∀ p ∈ ps, ¬ p.Intact) ∨ (¬ TakenForRaw (fileBytes ps) ∧
      ∀ pre p post, ps = pre ++ p :: post → ¬ p.Intact → 4 ≤ p.kept → (∃ q ∈ post, q.Intact) →
        Affordable (fileBytes ps) (fileBytes pre).length) := by
  obtain ⟨d, e, rs, hs, hr, hH, hb, hmax, hroom⟩ := processDhavStream_start sq below (fileBytes ps)
  have hraw := processDhavStream_raw_iff sq below (fileBytes ps)
  have hfits : d.Fits := by
    have := hH.offs_le
    unfold Fits
    omega
  rw [hs]
  by_cases hf : (processDhavStream (dstfInit sq below) (fileBytes ps)).1 = .dhav
  · have h₀ : Rescan ps 0 e d (rs ++ [[]]) [] :=
      ⟨hmax, hfits, hb ▸ hbelow, hr, hH, [], ps, rfl, le_rfl, by simp [strDHAV], rfl⟩
    rw [hf]
    constructor
    · rintro ⟨l, hl, hsub⟩
      refine Or.inr ⟨fun ht => hraw.mpr ht hf, ?_⟩
      intro pre p post hps hcut h4 hq
      by_contra hno
      exact lost_of_unaffordable h₀ hps hcut h4 hq hno hl hsub
    · intro h
      refine all_emitted (fun pre p post hps hcut h4 hq => ?_) h₀ (hroom.trans_eq hmax.symm)
      obtain hnone | ⟨-, hall⟩ := h
      · obtain ⟨q, hq, hint⟩ := hq
        exact absurd hint (hnone q (by simp [hps, hq]))
      · exact hall pre p post hps hcut h4 hq
  · have ht := hraw.mp hf
    constructor
    · rintro ⟨l, hl, hsub⟩
      refine Or.inl ?_
      intro p hp hint
      have hmem : p.frame ∈ intactFrames ps := by
        simp only [intactFrames, List.mem_map, List.mem_filter, decide_eq_true_eq]
        exact ⟨p, ⟨hp, hint⟩, rfl⟩
      have hzero : ∀ u ∈ l.frames, u.head? = some 0 :=
        hl.1.invariant (P := fun t => ∀ u ∈ t.frames, u.head? = some 0)
          (fun _ _ hs hst => raw_step hf hs hst) (by simp [start])
      have h0 := hzero p.frame (hsub.subset hmem)
      have hD := p.dhav.head? []
      rw [List.append_nil, h0] at hD
      exact absurd hD (by decide)
    · rintro (hnone | ⟨hno, -⟩)
      · obtain ⟨l, hl⟩ := (StreamLoop.halts_iff (s := .start d (rs ++ [[]])) hfits).mpr
          fun t _ _ hz => hf hz.dhav
        rw [intactFrames_eq_nil.mpr hnone]
        exact ⟨l, hl, List.nil_sublist _⟩
      · exact absurd ht hno

/-- A frame of 64 bytes of which 20 are left. -/
def cutPiece : Piece where
  frame := [0x44, 0x48, 0x41, 0x56, 0xfc, 0, 0, 0, 0, 0, 0, 0, 64, 0, 0, 0] ++ List.replicate 40 0 ++
    [0x64, 0x68, 0x61, 0x76, 64, 0, 0, 0]
  kept := 20
  dhav := ⟨by decide, by decide, by decide, by decide, by decide⟩
  max_len := by decide
  kept_pos := by decide
  kept_le := by decide
  no_header i h1 h2 := (by decide : ∀ i < 61, 0 < i → slice (ofList ([0x44, 0x48, 0x41, 0x56, 0xfc, 0,
    0, 0, 0, 0, 0, 0, 64, 0, 0, 0] ++ List.replicate 40 0 ++ [0x64, 0x68, 0x61, 0x76, 64, 0, 0, 0] :
    List UInt8)) i 4 ≠ strDHAV) i (by simp at h2; omega) h1
  no_trailer i h1 h2 := (by decide : ∀ i < 61, i ≠ 56 → slice (ofList ([0x44, 0x48, 0x41, 0x56, 0xfc, 0,
    0, 0, 0, 0, 0, 0, 64, 0, 0, 0] ++ List.replicate 40 0 ++ [0x64, 0x68, 0x61, 0x76, 64, 0, 0, 0] :
    List UInt8)) i 4 ≠ strDhav) i (by simp at h2; omega) (by simp at h1; omega)

/-- A frame of 32 bytes that was not cut. -/
def wholePiece : Piece where
  frame := emptyFrame
  kept := 32
  dhav := emptyFrame_dhav
  max_len := by decide
  kept_pos := by decide
  kept_le := by decide
  no_header i h1 h2 := (by decide : ∀ i < 29, 0 < i → slice (ofList emptyFrame) i 4 ≠ strDHAV) i
    (by simp [emptyFrame] at h2; omega) h1
  no_trailer i h1 h2 := (by decide : ∀ i < 29, i ≠ 24 → slice (ofList emptyFrame) i 4 ≠ strDhav) i
    (by simp [emptyFrame] at h2; omega) (by simp [emptyFrame] at h1; omega)

/-- A cut frame with two whole ones behind it, which fill the 44 bytes that are missing. -/
def cutAndWhole : List Piece := [cutPiece, wholePiece, wholePiece]

theorem not_takenForRaw_cutAndWhole : ¬ TakenForRaw (fileBytes cutAndWhole) := by
  have hsize : (fileBytes cutAndWhole).length = 84 := by decide
  rintro ⟨n, hn, -, h⟩
  obtain rfl | rfl : n = 84 ∨ n = 0 := by
    obtain rfl | ⟨hdvd, hle⟩ := hn
    · exact Or.inl hsize
    · exact Or.inr (Nat.eq_zero_of_dvd_of_lt hdvd (by omega))
  · exact absurd h (by decide)
  · exact absurd h (by decide)

/-- The parser gets past the cut frame when the file is read. -/
theorem affordable_cutAndWhole : Affordable (fileBytes cutAndWhole) 0 := by
  have hlen : declaredLen (fileBytes cutAndWhole) 0 = 64 := by decide
  have hsize : (fileBytes cutAndWhole).length = 84 := by decide
  have hT : tMcParmsDhavStf = 1000000 := rfl
  exact .inr ⟨84, .inl hsize.symm, by omega, by omega⟩

theorem truncated_iff_cutAndWhole : ∃ l, Halts
    (StreamLoop.step (processDhavStream (dstfInit (fun _ => 0) (fun _ => 0))
      (fileBytes cutAndWhole)).1 Program.dhav2mkv.maxDstLen)
    (processDhavStream (dstfInit (fun _ => 0) (fun _ => 0)) (fileBytes cutAndWhole)).2 l ∧
    (intactFrames cutAndWhole).Sublist l.frames := by
  refine (truncated_iff cutAndWhole (fun _ => 0) (fun _ => 0) (by decide)).mpr
    (Or.inr ⟨not_takenForRaw_cutAndWhole, fun pre p post hps hcut _ _ => ?_⟩)
  -- the first piece is the only cut one
  cases pre with
  | nil => exact affordable_cutAndWhole
  | cons x pre =>
    obtain ⟨-, hps⟩ := List.cons.inj hps
    have hp : p ∈ [wholePiece, wholePiece] := by simp [hps]
    obtain rfl : p = wholePiece := by simpa using hp
    exact absurd (by decide) hcut

/-- **A whole frame is lost** at the end of this file of 52 bytes. -/
theorem whole_frame_lost : ¬ ∃ l, Halts
    (StreamLoop.step (processDhavStream (dstfInit (fun _ => 0) (fun _ => 0))
      (fileBytes [cutPiece, wholePiece])).1 Program.dhav2mkv.maxDstLen)
    (processDhavStream (dstfInit (fun _ => 0) (fun _ => 0)) (fileBytes [cutPiece, wholePiece])).2 l ∧
    (intactFrames [cutPiece, wholePiece]).Sublist l.frames := by
  rintro ⟨l, hl, hsub⟩
  obtain ⟨d, e, rs, hs, hr, hH, hb, hmax, hroom⟩ :=
    processDhavStream_start (fun _ => 0) (fun _ => 0) (fileBytes [cutPiece, wholePiece])
  have hfmt : (processDhavStream (dstfInit (fun _ => 0) (fun _ => 0))
      (fileBytes [cutPiece, wholePiece])).1 = .dhav := by decide
  have hfits : d.Fits := by
    have := hH.offs_le
    unfold Fits
    omega
  have hlen : declaredLen (fileBytes [cutPiece, wholePiece]) 0 = 64 := by decide
  have hsize : (fileBytes [cutPiece, wholePiece]).length = 52 := by decide
  have hno : ¬ Affordable (fileBytes [cutPiece, wholePiece]) (fileBytes []).length := by
    rw [fileBytes_nil, List.length_nil]
    rintro (hbig | ⟨e, heq | ⟨-, hle⟩, h1, -⟩)
    · have : tMcParmsDhavStf = 1000000 := rfl
      omega
    · omega
    · omega
  rw [hs, hfmt] at hl
  have hps : [cutPiece, wholePiece] = [] ++ cutPiece :: [wholePiece] := rfl
  exact lost_of_unaffordable
    ⟨hmax, hfits, hb ▸ by decide, hr, hH, [], _, rfl, le_rfl, by simp [strDHAV], rfl⟩ hps (by decide)
    (by decide) ⟨wholePiece, by simp, by decide⟩ hno hl hsub

end TaniDVR
