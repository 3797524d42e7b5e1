import TaniDVR.DhavRun

/-!
# Resync — reassembly of DHAV frames from garbage

A stream of well-formed DHAV frames (`DhavFrame`) with garbage before, between and after them, cut
into reads at any place: the loop emits exactly the frames (`dhav_reassembly`).

The invariant (`Reassembly`): the window and the reads to come are what is left of some garbage,
followed by the frames not yet emitted, each with its garbage.  `DHAV` does not overlap itself, so
garbage glued to a frame shows no header before the frame's own (`no_header_in_garbage`).
-/

namespace TaniDVR

open Lib Dstf StreamLoop

/-- A well-formed DHAV frame: `DHAV`, its length at offset 12 and in the last four bytes, `dhav`
before these. -/
structure DhavFrame (f : List UInt8) : Prop where
  min_len : 32 ≤ f.length
  header : slice (ofList f) 0 4 = strDHAV
  header_len : le32 (fun i => ofList f (12 + i)) = f.length
  trailer : slice (ofList f) (f.length - 8) 4 = strDhav
  trailer_len : le32 (fun i => ofList f (f.length - 4 + i)) = f.length

/-- What the frame test looks for, when header and trailer do not overlap the length fields. -/
structure WholeFrame (f : List UInt8) : Prop where
  min_len : 16 ≤ f.length
  header : slice (ofList f) 0 4 = strDHAV
  header_len : le32 (fun i => ofList f (12 + i)) = f.length
  trailer : slice (ofList f) (f.length - 8) 4 = strDhav
  trailer_len : le32 (fun i => ofList f (f.length - 4 + i)) = f.length

theorem DhavFrame.whole {f : List UInt8} (h : DhavFrame f) : WholeFrame f :=
  ⟨by have := h.min_len; omega, h.header, h.header_len, h.trailer, h.trailer_len⟩

/-! ### The head of the queue -/

theorem hasHeader_iff {d : Dstf} : d.hasHeader = true ↔ slice d.sq d.sqOffs 4 = strDHAV := by
  rw [hasHeader, btIDeqLM32_iff]
  simp [slice, strDHAV, Nat.add_assoc]

theorem hasTrailer_iff {d : Dstf} {p : ℕ} (hp : d.trailerPos = p) :
    d.hasTrailer = true ↔ slice d.sq p 4 = strDhav := by
  have hb : ∀ i : ℕ, d.byteAt (d.trailerPos + i) = d.sq (p + i) := fun i => by rw [hp]; rfl
  rw [hasTrailer, btIDeqLM32_iff]
  simp only [hb]
  simp [slice, strDhav, Nat.add_assoc]

theorem hasHeader_iff_window {d : Dstf} (h : 4 ≤ d.sqLen) :
    d.hasHeader = true ↔ d.window.take 4 = strDHAV := by
  rw [hasHeader_iff, window, take_slice _ _ _ _ h]

theorem window_byte {d : Dstf} {i : ℕ} (h : i < d.sqLen) :
    d.sq (d.sqOffs + i) = ofList d.window i := by
  rw [ofList_of_lt (by simpa using h)]
  exact (getElem_slice _ _ _ _ _).symm

/-- The length field, when the frame test holds. -/
theorem rep_le32 {d : Dstf} (hc : d.check = .frame) (h31 : d.sqMaxlen < 2 ^ 31) :
    le32 (fun i => d.sq (d.sqOffs + 12 + i)) = d.repLen := by
  obtain ⟨-, -, hmax, -⟩ := check_frame_iff.mp hc
  have hle := (toSizeT_btLM2NVU32_le_iff h31).mp (show d.repLen ≤ d.sqMaxlen from hmax)
  exact (toSizeT_btLM2NVU32 (by omega)).symm

/-- The second length field, when the frame test holds. -/
theorem rep2_le32 {d : Dstf} (hc : d.check = .frame) (h31 : d.sqMaxlen < 2 ^ 31) :
    le32 (fun i => d.byteAt (d.trailerPos + 4 + i)) = d.repLen := by
  obtain ⟨-, -, hmax, -, -, h2⟩ := check_frame_iff.mp hc
  have hle := (toSizeT_btLM2NVU32_le_iff h31).mp (show d.rep2Len ≤ d.sqMaxlen by omega)
  exact (toSizeT_btLM2NVU32 (by omega)).symm.trans h2

/-- A whole frame at the head is emitted when all of it is there and awaited before. -/
theorem check_of_frame {d : Dstf} {f : List UInt8} (hf : WholeFrame f) (hmax : f.length ≤ d.sqMaxlen)
    (h31 : d.sqMaxlen < 2 ^ 31) (h16 : 16 ≤ d.sqLen)
    (hb : ∀ i, i < d.sqLen → i < f.length → d.sq (d.sqOffs + i) = ofList f i) :
    d.repLen = f.length ∧
    (d.sqLen < f.length → d.check = .wait) ∧
    (f.length ≤ d.sqLen → d.check = .frame ∧ slice d.sq d.sqOffs f.length = f) := by
  have hmin := hf.min_len
  have hhead : d.hasHeader = true := by
    rw [hasHeader_iff, ← hf.header]
    exact slice_congr fun i hi => by
      rw [Nat.zero_add]
      exact hb i (by omega) (by omega)
  have hlen : le32 (fun i => d.sq (d.sqOffs + 12 + i)) = f.length := by
    rw [← hf.header_len]
    exact le32_congr fun i hi => by
      rw [Nat.add_assoc]
      exact hb (12 + i) (by omega) (by omega)
  have hrep : d.repLen = f.length := (toSizeT_btLM2NVU32 (by omega)).trans hlen
  refine ⟨hrep, fun hlt => ?_, fun hle => ⟨?_, ?_⟩⟩
  · exact check_wait_iff.mpr ⟨h16, hhead, by omega, by omega⟩
  · have hpos : d.trailerPos = ((d.sqOffs + (f.length - 8) : ℕ) : ℤ) := by
      rw [trailerPos, hrep]
      omega
    have htrailer : d.hasTrailer = true := by
      rw [hasTrailer_iff hpos, ← hf.trailer]
      exact slice_congr fun i hi => by
        rw [Nat.add_assoc]
        exact hb (f.length - 8 + i) (by omega) (by omega)
    have hlen2 : le32 (fun i => d.byteAt (d.trailerPos + 4 + i)) = f.length := by
      rw [← hf.trailer_len]
      refine le32_congr ?_
      intro i hi
      have hcast : d.trailerPos + 4 + (i : ℤ) = ((d.sqOffs + (f.length - 4 + i) : ℕ) : ℤ) := by
        rw [hpos]
        omega
      rw [hcast]
      exact hb (f.length - 4 + i) (by omega) (by omega)
    have hrep2 : d.rep2Len = f.length := (toSizeT_btLM2NVU32 (by omega)).trans hlen2
    exact check_frame_iff.mpr ⟨h16, hhead, by omega, by omega, htrailer, hrep2.trans hrep.symm⟩
  · refine (slice_congr fun i hi => ?_).trans (slice_ofList_self f)
    rw [Nat.zero_add]
    exact hb i (by omega) hi

/-! ### Garbage -/

/-- Garbage glued to a `D`, or at the end of the data, does not start with `DHAV`. -/
theorem no_header_in_garbage {g tail : List UInt8} (hg : g ≠ []) (hno : ¬ strDHAV <:+: g)
    (ht : ∀ b ∈ tail.head?, b = 0x44) : (g ++ tail).take 4 ≠ strDHAV := by
  intro h
  by_cases h4 : 4 ≤ g.length
  · rw [List.take_append_of_le_length h4] at h
    exact hno (h ▸ (List.take_prefix 4 g).isInfix)
  · have hpos := List.length_pos_iff.mpr hg
    -- the first byte after the garbage is `D`, and no later byte of the pattern is
    have hk : ((g ++ tail).take 4)[g.length]? = tail.head? := by
      rw [List.getElem?_take_of_lt (by omega), List.getElem?_append_right le_rfl, Nat.sub_self,
        List.head?_eq_getElem?]
    rw [h] at hk
    have hlt : g.length = 1 ∨ g.length = 2 ∨ g.length = 3 := by omega
    obtain h1 | h1 | h1 := hlt <;> rw [h1] at hk <;> simp [← hk, strDHAV] at ht

/-! ### The invariant -/

/-- Frames, each followed by its garbage. -/
def framesBytes (fs : List (List UInt8 × List UInt8)) : List UInt8 := fs.flatMap fun p => p.1 ++ p.2

/-- What is left of some garbage, then the frames `fs` that are still to come, make up the window and
the reads; the frames emitted and these are `frames`. -/
structure Reassembly (G : ℕ) (frames : List (List UInt8)) (d : Dstf) (rs em : List (List UInt8)) :
    Prop where
  fits : d.Fits
  maxlen : d.sqMaxlen = tMcParmsDhavStf
  reads : ∀ c ∈ rs, c.length ≤ G
  layout : ∃ g fs, d.window ++ rs.flatten = g ++ framesBytes fs ∧ ¬ strDHAV <:+: g ∧
    (∀ p ∈ fs, DhavFrame p.1 ∧ p.1.length ≤ tMcParmsDhavStf - G ∧ ¬ strDHAV <:+: p.2) ∧
    em ++ fs.map Prod.fst = frames

theorem DhavFrame.head? {f : List UInt8} (h : DhavFrame f) (ys : List UInt8) :
    (f ++ ys).head? = some 0x44 := by
  have hmin := h.min_len
  have h0 : ofList f 0 = 0x44 := (List.cons.inj h.header).1
  rw [ofList_of_lt (by omega)] at h0
  rw [List.head?_eq_getElem?, List.getElem?_append_left (by omega),
    List.getElem?_eq_getElem (by omega), h0]

theorem framesBytes_head {fs : List (List UInt8 × List UInt8)} (h : ∀ p ∈ fs, DhavFrame p.1) :
    ∀ b ∈ (framesBytes fs).head?, b = 0x44 := by
  cases fs with
  | nil => simp [framesBytes]
  | cons p ps =>
    rw [framesBytes, List.flatMap_cons, List.append_assoc, (h p (by simp)).head?]
    simp

variable {G m : ℕ} {frames : List (List UInt8)} {d : Dstf} {rs em : List (List UInt8)}

/-- With 16 bytes in the queue its head is garbage, or the next frame. -/
theorem Reassembly.head_cases (h : Reassembly G frames d rs em) (h16 : 16 ≤ d.sqLen) :
    (¬ d.hasHeader ∧ Reassembly G frames (d.skip 1) rs em) ∨
    ∃ f, DhavFrame f ∧ f.length ≤ tMcParmsDhavStf - G ∧
      (∀ i, i < d.sqLen → i < f.length → d.sq (d.sqOffs + i) = ofList f i) ∧
      (f.length ≤ d.sqLen → Reassembly G frames (d.skip f.length) rs (em ++ [f])) ∧
      (rs = [] → f.length ≤ d.sqLen) := by
  obtain ⟨hfits, hmax, hreads, g, fs, hw, hg, hfs, hem⟩ := h
  have hskip : ∀ {n : ℕ} {ys zs : List UInt8}, n ≤ d.sqLen → ys.length = n →
      d.window ++ rs.flatten = ys ++ zs → (d.skip n).window ++ rs.flatten = zs := by
    intro n ys zs hn hys hw
    have := congrArg (List.drop n) hw
    rwa [List.drop_append_of_le_length (by simpa using hn), ← window_skip,
      List.drop_left' hys] at this
  cases g with
  | cons b g =>
    left
    constructor
    · rw [hasHeader_iff_window (by omega)]
      intro hh
      refine no_header_in_garbage (List.cons_ne_nil b g) hg
        (framesBytes_head fun p hp => (hfs p hp).1) ?_
      rw [← hw, List.take_append_of_le_length (by simp; omega)]
      exact hh
    · refine ⟨skip_fits hfits (by omega), hmax, hreads, g, fs, ?_, fun hno => hg ?_, hfs, hem⟩
      · have hb : [b].length = 1 := rfl
        exact hskip (by omega) hb hw
      · exact hno.trans (List.suffix_cons b g).isInfix
  | nil =>
    right
    cases fs with
    | nil =>
      have := congrArg List.length hw
      simp [framesBytes] at this
      omega
    | cons p ps =>
      obtain ⟨f, g⟩ := p
      obtain ⟨hf, hlen, hgf⟩ := hfs (f, g) (by simp)
      have hw' : d.window ++ rs.flatten = f ++ (g ++ framesBytes ps) := by
        rw [hw, framesBytes, List.flatMap_cons, List.nil_append, List.append_assoc]
        rfl
      refine ⟨f, hf, hlen, fun i h1 h2 => ?_, fun hle => ?_, fun hnil => ?_⟩
      · have hl : ofList (d.window ++ rs.flatten) i = ofList d.window i :=
          ofList_append_left (by simpa using h1)
        rw [window_byte h1, ← hl, hw', ofList_append_left h2]
      · exact ⟨skip_fits hfits hle, hmax, hreads, g, ps, hskip hle rfl hw', hgf,
          fun p hp => hfs p (by simp [hp]), by rw [← hem]; simp⟩
      · have := congrArg List.length hw'
        simp [hnil] at this
        omega

theorem tMcParmsDhavStf_lt : tMcParmsDhavStf < 2 ^ 31 := by decide

/-- The check at the head, by the two cases. -/
theorem Reassembly.check_cases (h : Reassembly G frames d rs em) (h16 : 16 ≤ d.sqLen) :
    (d.check = .garbage ∧ Reassembly G frames (d.skip 1) rs em) ∨
    (∃ f, d.check = .wait ∧ d.repLen = f.length ∧ DhavFrame f ∧ f.length ≤ tMcParmsDhavStf - G ∧
      d.sqLen < f.length ∧ rs ≠ []) ∨
    (∃ f, d.check = .frame ∧ d.repLen = f.length ∧ DhavFrame f ∧ f.length ≤ tMcParmsDhavStf - G ∧
      slice d.sq d.sqOffs f.length = f ∧
      Reassembly G frames (d.skip f.length) rs (em ++ [f])) := by
  have h31 := tMcParmsDhavStf_lt
  obtain ⟨hh, hnext⟩ | ⟨f, hf, hlen, hb, hnext, hall⟩ := h.head_cases h16
  · exact Or.inl ⟨check_garbage_of_no_header h16 hh, hnext⟩
  · have hmax := h.maxlen
    obtain ⟨hrep, hwait, hframe⟩ := check_of_frame hf.whole (by omega) (by omega) h16 hb
    by_cases hle : f.length ≤ d.sqLen
    · obtain ⟨hc, hs⟩ := hframe hle
      exact Or.inr (Or.inr ⟨f, hc, hrep, hf, hlen, hs, hnext hle⟩)
    · refine Or.inr (Or.inl ⟨f, hwait (by omega), hrep, hf, hlen, by omega, fun hnil => hle ?_⟩)
      exact hall hnil

/-- The invariant is kept. -/
theorem reassembly_runInv (hm : tMcParmsDhavStf ≤ m) : RunInv m (Reassembly G frames) where
  fits h := h.fits
  garbage := by
    intro d rs em h hc
    have h16 := sqLen_of_check hc nofun
    obtain ⟨-, hn⟩ | ⟨f, hw, -⟩ | ⟨f, hw, -⟩ := h.check_cases h16
    · exact hn
    · rw [hc] at hw
      cases hw
    · rw [hc] at hw
      cases hw
  frame := by
    intro d rs em h hc
    have h16 := sqLen_of_check hc nofun
    obtain ⟨hw, -⟩ | ⟨f, hw, -⟩ | ⟨f, -, hrep, hf, hlen, hs, hn⟩ := h.check_cases h16
    · rw [hc] at hw
      cases hw
    · rw [hc] at hw
      cases hw
    · have hmin := hf.min_len
      rw [hrep, hs]
      exact ⟨by omega, by omega, hn⟩
  load := by
    rintro d l c rs em ⟨hfits, hmax, hreads, g, fs, hw, hrest⟩ hl
    refine ⟨load_fits hfits hl, (load_sqMaxlen hl).trans hmax, fun x hx => hreads x (by simp [hx]),
      g, fs, ?_, hrest⟩
    rw [load_window hl, ← hw, List.flatten_cons, List.append_assoc]

/-- When the reads are used up and the queue is short, all frames are emitted. -/
theorem Reassembly.frames_of_short (h : Reassembly G frames d [] em) (hs : d.sqLen < 16) :
    em = frames := by
  obtain ⟨-, -, -, g, fs, hw, -, hfs, hem⟩ := h
  cases fs with
  | nil => simpa using hem
  | cons p ps =>
    have hmin := (hfs p (by simp)).1.min_len
    have := congrArg List.length hw
    simp [framesBytes] at this
    omega

/-- **Reassembly and resync of a DHAV stream.**  Well-formed frames of up to `sq_maxlen - G` bytes,
with garbage without `DHAV` before, between and after them, read in any pieces of 1 to `G` bytes:
no call returns a negative value, the input is used up, and the frames emitted are exactly the
frames of the stream. -/
theorem dhav_reassembly (sq below : ℕ → UInt8) (G maxDstLen : ℕ) (g₀ : List UInt8)
    (fs : List (List UInt8 × List UInt8)) (chunks : List (List UInt8))
    (hG : G + 15 ≤ tMcParmsDhavStf) (hdst : tMcParmsDhavStf ≤ maxDstLen)
    (hg₀ : ¬ strDHAV <:+: g₀)
    (hfs : ∀ p ∈ fs, DhavFrame p.1 ∧ p.1.length ≤ tMcParmsDhavStf - G ∧ ¬ strDHAV <:+: p.2)
    (hchunks : chunks.flatten = g₀ ++ framesBytes fs)
    (hlen : ∀ c ∈ chunks, 1 ≤ c.length ∧ c.length ≤ G) :
    ∃ l, Halts (StreamLoop.step .dhav maxDstLen) (.start (dstfInit sq below) chunks) l ∧
      (∀ t, Reach (StreamLoop.step .dhav maxDstLen) (.start (dstfInit sq below) chunks) t →
        0 ≤ t.dstfRet) ∧
      l.reads = [] ∧ l.frames = fs.map Prod.fst := by
  have hinv : RunInv maxDstLen (Reassembly G (fs.map Prod.fst)) := reassembly_runInv hdst
  have hinit : Reassembly G (fs.map Prod.fst) (dstfInit sq below) chunks [] :=
    ⟨dstfInit_fits sq below, rfl, fun c hc => (hlen c hc).2, g₀, fs, hchunks, hg₀, hfs, rfl⟩
  have hwait : ∀ {d rs}, RunInv.Idle (dstfInit sq below) chunks d rs → 16 ≤ d.sqLen →
      d.check = .wait := by
    intro d rs hidle h16
    rcases hidle with hs | hw | ⟨rfl, -⟩
    · exact absurd hs (Nat.not_lt.mpr h16)
    · exact hw
    · exact absurd h16 (Nat.not_succ_le_zero 15)
  have hroom : ∀ {d c rs em}, Reassembly G (fs.map Prod.fst) d (c :: rs) em →
      RunInv.Idle (dstfInit sq below) chunks d (c :: rs) → d.sqLen + c.length ≤ d.sqMaxlen := by
    intro d c rs em h hidle
    have hc := h.reads c (by simp)
    have hmax := h.maxlen
    by_cases h16 : 16 ≤ d.sqLen
    · have hw := hwait hidle h16
      obtain ⟨hw', -⟩ | ⟨f, -, -, -, hf, hlt, -⟩ | ⟨f, hw', -⟩ := h.check_cases h16
      · rw [hw] at hw'
        cases hw'
      · omega
      · rw [hw] at hw'
        cases hw'
    · omega
  obtain ⟨l, hl, hpos, hreads, hIl, hidle⟩ := hinv.complete hinit hroom
  have hshort : l.dstf.sqLen < 16 := by
    by_contra h16
    have hw := hwait hidle (Nat.not_lt.mp h16)
    obtain ⟨hw', -⟩ | ⟨f, -, -, -, -, -, hne⟩ | ⟨f, hw', -⟩ := hIl.check_cases (Nat.not_lt.mp h16)
    · rw [hw] at hw'
      cases hw'
    · exact hne rfl
    · rw [hw] at hw'
      cases hw'
  exact ⟨l, hl, hpos, hreads, hIl.frames_of_short hshort⟩

/-- A frame of the least length, without extended header and body. -/
def emptyFrame : List UInt8 :=
  [0x44, 0x48, 0x41, 0x56, 0xfc, 0, 0, 0, 0, 0, 0, 0, 32, 0, 0, 0, 0, 0, 0, 0, 0, 0, 0, 0,
    0x64, 0x68, 0x61, 0x76, 32, 0, 0, 0]

theorem emptyFrame_dhav : DhavFrame emptyFrame :=
  ⟨by decide, by decide, by decide, by decide, by decide⟩

/-- `DH` before and `A` after one frame, cut inside its header. -/
theorem dhav_reassembly_emptyFrame :
    ∃ l, Halts (StreamLoop.step .dhav 2000000) (.start (dstfInit (fun _ => 0) (fun _ => 0))
        [[0x44, 0x48, 0x44], emptyFrame.tail ++ [0x41]]) l ∧
      (∀ t, Reach (StreamLoop.step .dhav 2000000) (.start (dstfInit (fun _ => 0) (fun _ => 0))
        [[0x44, 0x48, 0x44], emptyFrame.tail ++ [0x41]]) t → 0 ≤ t.dstfRet) ∧
      l.reads = [] ∧ l.frames = [emptyFrame] :=
  dhav_reassembly (fun _ => 0) (fun _ => 0) 10000 2000000 [0x44, 0x48] [(emptyFrame, [0x41])]
    [[0x44, 0x48, 0x44], emptyFrame.tail ++ [0x41]] (by decide) (by decide) (by decide)
    (fun p hp => by
      obtain rfl : p = (emptyFrame, [0x41]) := by simpa using hp
      exact ⟨emptyFrame_dhav, by decide, by decide⟩)
    (by decide) (by decide)

end TaniDVR
