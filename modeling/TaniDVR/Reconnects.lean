import TaniDVR.RecordedFile
import TaniDVR.Truncated

/-!
# Reconnects — recordings of a stream with cut frames

When the DVR drops a session the stream breaks off in the middle of a frame, and that of the next
session follows.  `Scan` describes the parser on such a stream, whatever the reads.  So a recording
that is interrupted at any moment holds the first intact frames of the stream
(`interrupted_pieces`), and one that reads all of it holds the intact frames of all but the last
500000 bytes (`recorded_pieces`): a cut frame costs itself.

The length field of a frame that is cut before it has all its twelve first bytes belongs to the next
frame.  Where it declares more than the queue takes besides a read, but less than the parser rejects,
`recorded_pieces` says nothing.
-/

namespace TaniDVR

open Lib Dstf StreamLoop

variable {ps pre post : List Piece} {q : Piece} {a e G m : ℕ} {d : Dstf} {em : List (List UInt8)}

/-! ### The invariant, whatever the reads -/

/-- The queue is at some place of the stream, and the rest of the stream is still to come. -/
def Spliced (ps : List Piece) (G : ℕ) (d : Dstf) (rs em : List (List UInt8)) : Prop :=
  ∃ a e, Scan ps a e d em ∧ rs.flatten = (fileBytes ps).drop e ∧ ∀ c ∈ rs, c.length ≤ G

theorem spliced_runInv (ps : List Piece) (G : ℕ) (hm : tMcParmsDhavStf ≤ m) :
    RunInv m (Spliced ps G) where
  fits := by
    rintro d rs em ⟨a, e, h, -⟩
    exact h.fits
  garbage := by
    rintro d rs em ⟨a, e, h, hrs⟩ hc
    cases h.headCase (sqLen_of_check hc nofun) with
    | garbage _ hnext => exact ⟨a + 1, e, hnext, hrs⟩
    | frame _ _ _ _ _ _ hc' => exact nomatch hc.symm.trans hc'
    | wait _ _ _ _ _ _ hc' => exact nomatch hc.symm.trans hc'
  frame := by
    rintro d rs em ⟨a, e, h, hrs⟩ hc
    cases h.headCase (sqLen_of_check hc nofun) with
    | garbage hc' => exact nomatch hc.symm.trans hc'
    | frame pre q post _ _ _ _ hrep hs hnext =>
      have hmin := q.dhav.min_len
      have hmax := q.max_len
      have hT : tMcParmsDhavStf = 1000000 := rfl
      rw [hs]
      exact ⟨by omega, by omega, a + d.repLen, e, hnext, hrs⟩
    | wait _ _ _ _ _ _ hc' => exact nomatch hc.symm.trans hc'
  load := by
    rintro d l c rs em ⟨a, e, h, hflat, hG⟩ hl
    rw [List.flatten_cons] at hflat
    have hlen := congrArg List.length hflat
    rw [List.length_append, List.length_drop] at hlen
    have hend := h.end_le
    refine ⟨a, e + c.length, h.load hl (fun i hi => ?_) (by omega), ?_, fun x hx => hG x (by simp [hx])⟩
    · rw [← ofList_drop, ← hflat, ofList_append_left hi]
    · rw [← List.drop_drop, ← hflat, List.drop_left]

theorem Spliced.start (sq : ℕ → UInt8) {below : ℕ → UInt8} (hbelow : ∀ k < 8, below k ≠ 0x64)
    {rs : List (List UInt8)} (hrs : rs.flatten = fileBytes ps) (hG : ∀ c ∈ rs, c.length ≤ G) :
    Spliced ps G (dstfInit sq below) rs [] := by
  refine ⟨0, 0, ⟨rfl, dstfInit_fits sq below, hbelow, Nat.zero_le _, ?_, ?_⟩, hrs, hG⟩
  · exact ⟨Nat.zero_le _, rfl, fun i hi => absurd hi (Nat.not_lt_zero i)⟩
  · exact ⟨[], ps, rfl, le_rfl, by simp [strDHAV], rfl⟩

/-- What was handed on are the first intact frames. -/
theorem Spliced.prefix {rs : List (List UInt8)} (h : Spliced ps G d rs em) :
    em <+: intactFrames ps := by
  obtain ⟨a, e, h, -⟩ := h
  obtain ⟨pre, post, rfl, -, -, rfl⟩ := h.place
  rw [intactFrames_append]
  exact List.prefix_append _ _

/-- An empty read more. -/
theorem Spliced.append_nil {rs : List (List UInt8)} (h : Spliced ps G d rs em) :
    Spliced ps G d (rs ++ [[]]) em := by
  obtain ⟨a, e, h, hflat, hG⟩ := h
  refine ⟨a, e, h, by simpa using hflat, fun c hc => ?_⟩
  rcases List.mem_append.mp hc with hc | hc
  · exact hG c hc
  · rw [List.mem_singleton.mp hc]
    exact Nat.zero_le _

/-! ### Interrupted recordings -/

/-- **A recording across dropped sessions, interrupted at any moment**, holds the first intact
frames of the stream; no part of a cut frame gets to the file. -/
theorem interrupted_pieces (p : Program) (c : Container) (tsproc : Bool) (w : Outside)
    (sq below sbuf : ℕ → UInt8) (hbelow : ∀ k < 8, below k ≠ 0x64) (heap : McParms)
    (tscHeap : TsProc) (ntscExact60hz : Bool) (ps : List Piece)
    (hw : c = .mkv → ∀ f ∈ intactFrames ps, WellFormed p.maxMkvLen f) (inputs : List TurnRead)
    (hlen : ∀ x ∈ readData inputs, x.length ≤ p.granularity)
    (hin : (readData inputs).flatten <+: fileBytes ps) (r : Recording) (s₀ : Recorder)
    (hrec : recording p c tsproc (dstfInit sq below) sbuf (.start heap tscHeap ntscExact60hz) inputs =
      (r, s₀)) (hi : r.mcFormatIn = .dhav) (s : Recorder) (hs : Reach (Recorder.step r w) s₀ s) :
    ∃ k before whole, HoldingFirst r (.start heap tscHeap ntscExact60hz) (intactFrames ps) k s before
      whole := by
  obtain ⟨rest, hrest⟩ := hin
  have hstart : Spliced ps (p.granularity + rest.length) (dstfInit sq below)
      (readData inputs ++ [rest]) [] := by
    refine .start sq hbelow (by simpa using hrest) fun x hx => ?_
    rcases List.mem_append.mp hx with hx | hx
    · have := hlen x hx
      omega
    · rw [List.mem_singleton.mp hx]
      omega
  exact holdingFirst_of_runInv (spliced_runInv ps _ p.sizes.1) (fun h => h.prefix) hw hlen hstart hrec
    hi hs

/-- The first bytes of an I-frame. -/
def palPiece (kept : ℕ) (hpos : 0 < kept) (hle : kept ≤ 42) : Piece where
  frame := palIFrame
  kept := kept
  dhav := dhavFrame_palIFrame
  max_len := by decide
  kept_pos := hpos
  kept_le := hle
  no_header i h1 h2 := (by decide : ∀ i < 39, 0 < i → slice (ofList palIFrame) i 4 ≠ strDHAV) i
    (by simp [palIFrame] at h2; omega) h1
  no_trailer i h1 h2 := (by decide : ∀ i < 39, i ≠ 34 → slice (ofList palIFrame) i 4 ≠ strDhav) i
    (by simp [palIFrame] at h2; omega) (by simp [palIFrame] at h1; omega)

/-- The frame, whole. -/
def palWhole : Piece := palPiece 42 (by decide) (by decide)

/-- A session that is dropped 21 bytes into a frame, and the next one. -/
def droppedOnce : List Piece := [palWhole, palPiece 21 (by decide) (by decide), palWhole]

theorem wellFormed_droppedOnce :
    ∀ f ∈ intactFrames droppedOnce, WellFormed Program.tanidvr.maxMkvLen f := by
  intro f hf
  have hframe : ∀ f ∈ intactFrames droppedOnce, f = palIFrame := by decide
  exact hframe f hf ▸ wellFormed_palIFrame

theorem interrupted_pieces_dropped :
    ∃ k before whole, HoldingFirst ⟨.tanidvr, .mkv, true, .dhav⟩ (.start default default false)
      (intactFrames droppedOnce) k (runFor (Recorder.step ⟨.tanidvr, .mkv, true, .dhav⟩ .fullDisk) 3
        (recording .tanidvr .mkv true (dstfInit (fun _ => 0) fun _ => 0) (fun _ => 0)
          (.start default default false)
          [.data palIFrame, .data (palIFrame.take 21 ++ palIFrame), .readFailed]).2) before whole :=
  interrupted_pieces .tanidvr .mkv true .fullDisk (fun _ => 0) (fun _ => 0) (fun _ => 0) (by decide)
    default default false droppedOnce (fun _ => wellFormed_droppedOnce)
    [.data palIFrame, .data (palIFrame.take 21 ++ palIFrame), .readFailed]
    (by intro x hx; rcases List.mem_pair.mp hx with rfl | rfl <;> decide) (List.prefix_refl _)
    ⟨.tanidvr, .mkv, true, .dhav⟩ _ rfl rfl _ (reach_runFor 3 _)

/-! ### The whole stream -/

/-- The lengths that the parser awaits are those of frames. -/
def Moderate (ps : List Piece) : Prop :=
  ∀ pre q post, ps = pre ++ q :: post → ¬ q.Intact → 4 ≤ q.kept → q.kept < 12 →
    declaredLen (fileBytes ps) (fileBytes pre).length ≤ 500000 ∨
      tMcParmsDhavStf < declaredLen (fileBytes ps) (fileBytes pre).length

/-- The length field of a frame that is cut behind it. -/
theorem declaredLen_of_kept (hps : ps = pre ++ q :: post) (h16 : 16 ≤ q.kept) :
    declaredLen (fileBytes ps) (fileBytes pre).length = q.frame.length := by
  rw [← q.dhav.header_len]
  refine le32_congr fun i hi => ?_
  rw [Nat.add_assoc, piece_byte hps (by omega)]

/-- That of a frame that is cut inside it runs into a `DHAV`. -/
theorem declaredLen_of_cut_inside (hps : ps = pre ++ q :: post) (h12 : 12 ≤ q.kept)
    (h16 : q.kept < 16) (hlen : (fileBytes pre).length + 16 ≤ (fileBytes ps).length) :
    tMcParmsDhavStf < declaredLen (fileBytes ps) (fileBytes pre).length := by
  have hT : tMcParmsDhavStf = 1000000 := rfl
  have htop : 0x41 ≤ (ofList (fileBytes ps) ((fileBytes pre).length + 12 + 3)).toNat := by
    rw [hps, fileBytes_append, fileBytes_cons] at hlen ⊢
    simp only [List.length_append, q.length_bytes] at hlen
    rw [Nat.add_assoc, ofList_append_right, q.byte_right (by omega)]
    exact early_byte (by omega) (by omega)
  simp only [declaredLen, le32]
  omega

/-- While the parser awaits something, it holds less than 500000 bytes. -/
theorem Scan.sqLen_of_wait (h : Scan ps a e d em) (hmod : Moderate ps) (hw : d.check = .wait) :
    d.sqLen < 500000 := by
  have h16 := sqLen_of_check hw nofun
  have hlen := h.holds.len
  have hend := h.end_le
  cases h.headCase h16 with
  | garbage hc => exact nomatch hw.symm.trans hc
  | frame _ _ _ _ _ _ hc => exact nomatch hw.symm.trans hc
  | wait pre q post hps ha _ _ hcase =>
    have hmax := q.max_len
    obtain ⟨-, hlt⟩ | ⟨hcut, h4, hT, hlt⟩ := hcase
    · omega
    · suffices declaredLen (fileBytes ps) a ≤ 500000 by omega
      rw [ha] at hT ⊢
      by_cases hk12 : q.kept < 12
      · exact (hmod pre q post hps hcut h4 hk12).resolve_right (by omega)
      · by_cases hk16 : q.kept < 16
        · have := declaredLen_of_cut_inside hps (by omega) hk16 (by omega)
          omega
        · rw [declaredLen_of_kept hps (by omega)]
          exact hmax

/-- So less than that is left of the stream behind the pieces that are passed. -/
theorem Scan.passed (h : Scan ps a (fileBytes ps).length d em) (hlt : d.sqLen < 500000) :
    ∃ pre post, ps = pre ++ post ∧ em = intactFrames pre ∧ (fileBytes post).length < 500000 := by
  obtain ⟨pre, post, hps, hle, -, hem⟩ := h.place
  refine ⟨pre, post, hps, hem, ?_⟩
  have hlen := h.holds.len
  have htot : (fileBytes ps).length = (fileBytes pre).length + (fileBytes post).length := by
    rw [hps, fileBytes_append, List.length_append]
  omega

/-- Reads of up to `G` bytes, from a queue with room for one. -/
theorem Spliced.run {reads : List (List UInt8)} (hm : tMcParmsDhavStf ≤ m)
    (hG : G + 500000 ≤ tMcParmsDhavStf) (h : Spliced ps G d reads []) (hmod : Moderate ps)
    (hroom : d.sqLen + G ≤ d.sqMaxlen) (hnone : reads = [] → intactFrames ps = []) :
    ∃ l pre post, Halts (StreamLoop.step .dhav m) (.start d reads) l ∧
      (∀ t, Reach (StreamLoop.step .dhav m) (.start d reads) t → 0 ≤ t.dstfRet) ∧
      ps = pre ++ post ∧ l.frames = intactFrames pre ∧ (fileBytes post).length < 500000 := by
  have hidle : ∀ {d' : Dstf} {rs em}, Spliced ps G d' rs em →
      d'.Short .dhav ∨ d'.Waiting .dhav → d'.sqLen < 500000 := by
    rintro d' rs em ⟨a, e, h', -⟩ (hs | hw)
    · exact lt_trans hs (by decide)
    · exact h'.sqLen_of_wait hmod hw
  obtain ⟨l, hl, hpos, -, hIl, hi⟩ := (spliced_runInv ps G hm).complete h
    fun {d' c rs em} h' hi => by
      obtain ⟨a, e, hscan, -, hlen⟩ := id h'
      have hc := hlen c (by simp)
      have hmax := hscan.maxlen
      rcases or_assoc.mpr hi with hi | ⟨rfl, -⟩
      · have := hidle h' hi
        omega
      · omega
  obtain ⟨a, e, hscan, hflat, -⟩ := id hIl
  have he : e = (fileBytes ps).length := by
    have := congrArg List.length hflat
    have hend := hscan.end_le
    simp only [List.flatten_nil, List.length_nil, List.length_drop] at this
    omega
  rcases or_assoc.mpr hi with hi | ⟨-, hnil⟩
  · obtain ⟨pre, post, hps, hem, hpost⟩ := (he ▸ hscan).passed (hidle hIl hi)
    exact ⟨l, pre, post, hl, hpos, hps, hem, hpost⟩
  · -- there was nothing to read
    subst hnil
    have hstop : StreamLoop.step .dhav m (.start d []) = none := rfl
    refine ⟨l, ps, [], hl, hpos, (List.append_nil ps).symm, ?_, by decide⟩
    rw [Reach.eq_of_stopped hstop hl.1, hnone rfl]
    rfl

/-- Without an intact frame nothing tells the format. -/
theorem intactFrames_of_unknown
    (hu : identifyMcFormat (ofList (fileBytes ps)) (fileBytes ps).length = .dvrUnknown) :
    intactFrames ps = [] := by
  rw [intactFrames_eq_nil]
  intro q hq hint
  obtain ⟨pre, post, rfl⟩ := List.append_of_mem hq
  have hin : q.frame <:+: fileBytes (pre ++ q :: post) := by
    rw [fileBytes_append, fileBytes_cons, Piece.bytes_of_intact hint, ← List.append_assoc]
    exact ⟨_, _, rfl⟩
  rw [identify_holding q.dhav hin] at hu
  cases hu

theorem Program.room_besides (p : Program) : p.granularity + 500000 ≤ tMcParmsDhavStf := by
  cases p <;> decide

/-- **A recording across dropped sessions** holds the intact frames of the stream, except for those
in its last 500000 bytes: a cut frame costs itself. -/
theorem recorded_pieces (p : Program) (c : Container) (tsproc : Bool) (sq below sbuf : ℕ → UInt8)
    (hbelow : ∀ k < 8, below k ≠ 0x64) (heap : McParms) (tscHeap : TsProc) (ntscExact60hz : Bool)
    (ps : List Piece) (hmod : Moderate ps)
    (hw : c = .mkv → ∀ f ∈ intactFrames ps, WellFormed p.maxMkvLen f) (chunks : List (List UInt8))
    (hchunks : ∀ x ∈ chunks, x ≠ [] ∧ x.length ≤ p.granularity)
    (hdata : chunks.flatten = fileBytes ps) (r : Recording) (s₀ : Recorder)
    (hrec : recording p c tsproc (dstfInit sq below) sbuf (.start heap tscHeap ntscExact60hz)
      (allInputs p chunks) = (r, s₀)) (hi : r.mcFormatIn = .dhav) :
    ∃ s pre post, Halts (Recorder.step r .calm) s₀ s ∧
      s.ended = (if p = .dhav2mkv then some .noMoreData else none) ∧
      ps = pre ++ post ∧ (fileBytes post).length < 500000 ∧
      Holding r (.start heap tscHeap ntscExact60hz) (intactFrames pre) s.outfile := by
  have hm := p.sizes.1
  obtain ⟨d, reads, extra, hp, hc, -, hstart, hreads, hI, hroom, hnone⟩ :=
    recording_identified (spliced_runInv ps p.granularity hm).loads c tsproc sq below sbuf
      (.start heap tscHeap ntscExact60hz) hchunks (fun h => h.append_nil)
      (.start sq hbelow hdata fun x hx => (hchunks x hx).2)
  rw [hrec] at hp hc hstart hreads
  dsimp only at hp hc hstart hreads
  subst hp hstart
  rw [hdata] at hnone
  obtain ⟨l, pre, post, hl, hret, rfl, hframes, hpost⟩ := hI.run hm r.program.room_besides hmod hroom
    fun hnil => intactFrames_of_unknown (hnone hnil).2
  have hr : Ready (.start heap tscHeap ntscExact60hz) := ⟨rfl, nofun⟩
  have hwell : r.mcFormatOut = .mkv →
      ∀ f ∈ intactFrames pre, WellFormed r.program.maxMkvLen f := by
    intro hmkv f hf
    rw [intactFrames_append] at hw
    exact hw (hc.symm.trans hmkv) f (List.mem_append_left _ hf)
  obtain ⟨s, hs, hend, hhold⟩ := holding_of_run hi hr rfl hwell sbuf hreads hl hret hframes
  exact ⟨s, pre, post, hs, hend, rfl, hpost, hhold⟩

theorem moderate_droppedOnce : Moderate droppedOnce := by
  intro pre q post hps _ _ hk
  have hall : ∀ q ∈ droppedOnce, ¬ q.kept < 12 := by decide
  exact absurd hk (hall q (by simp [hps]))

theorem recorded_pieces_dropped :
    ∃ s pre post, Halts (Recorder.step ⟨.tanidvr, .mkv, true, .dhav⟩ .calm)
        (recording .tanidvr .mkv true (dstfInit (fun _ => 0) fun _ => 0) (fun _ => 0)
          (.start default default false)
          (allInputs .tanidvr [palIFrame, palIFrame.take 21 ++ palIFrame])).2 s ∧
      s.ended = none ∧ droppedOnce = pre ++ post ∧ (fileBytes post).length < 500000 ∧
      Holding ⟨.tanidvr, .mkv, true, .dhav⟩ (.start default default false) (intactFrames pre)
        s.outfile :=
  recorded_pieces .tanidvr .mkv true (fun _ => 0) (fun _ => 0) (fun _ => 0) (by decide) default
    default false droppedOnce moderate_droppedOnce (fun _ => wellFormed_droppedOnce)
    [palIFrame, palIFrame.take 21 ++ palIFrame]
    (by intro x hx; rcases List.mem_pair.mp hx with rfl | rfl <;> decide) rfl
    ⟨.tanidvr, .mkv, true, .dhav⟩ _ rfl rfl

end TaniDVR
