import TaniDVR.RawSplit
import TaniDVR.RecordedFile

/-!
# RawRecording — dumps of raw H.264 streams

What a recording in the native format leaves of a stream that is taken for raw H.264.  Whatever the
stream, and whenever the recording is interrupted, the file is a segment of the stream, of whole NAL
units, and the stream goes on behind it with a start code (`raw_dump`): bytes are dropped before the
first unit only.  Of a stream of whole units the dump is all but the last one (`recorded_units`).
-/

namespace TaniDVR

open Lib Dstf StreamLoop

/-! ### One run of the loop -/

namespace StreamLoop

variable {s t : StreamLoop} {m : ℕ}

/-- A call that returns a negative value hands nothing on. -/
theorem raw_frames_of_neg (h : StreamLoop.step .rawH264 m s = some t) (hneg : t.dstfRet < 0) :
    t.frames = s.frames := by
  have hcall : ∀ {s : StreamLoop} {src : List UInt8}, (s.call .rawH264 m src).dstfRet < 0 →
      (s.call .rawH264 m src).frames = s.frames := by
    intro s src hneg
    have hraw : streamToFrames .rawH264 = dstfProcessRawH264StreamToFrames := rfl
    rw [call_dstfRet, hraw] at hneg
    rw [call_frames, hraw]
    have hc := raw_turn s.dstf src m
    generalize dstfProcessRawH264StreamToFrames s.dstf src m = o at hc hneg
    cases hc with
    | full _ => rfl
    | refused _ _ => rfl
    | wait _ => rfl
    | frame _ _ => exact absurd hneg (by simp)
  obtain ⟨-, rfl⟩ | ⟨-, c, cs, -, rfl⟩ := step_eq_some h
  · exact hcall hneg
  · exact hcall (s := { s with reads := cs }) hneg

end StreamLoop

/-- What was handed on of `data` is a segment of it, of whole units, and a start code follows; what
is in the queue and still to come follows. -/
structure Segment (data : List UInt8) (s : StreamLoop) : Prop where
  units : ∀ u ∈ s.frames, NalUnit u
  cut : ∃ before after, data = before ++ s.frames.flatten ++ after ∧
    (s.frames ≠ [] → nalPrefix <+: after) ∧
    (0 ≤ s.dstfRet → after = s.dstf.window ++ s.reads.flatten ∧
      (s.frames ≠ [] → nalPrefix <+: s.dstf.window))

variable {data : List UInt8} {s t : StreamLoop} {m : ℕ}

/-- **One call** goes on with the segment. -/
theorem Segment.step (h : Segment data s) (hst : StreamLoop.step .rawH264 m s = some t) :
    Segment data t := by
  have hret : 0 ≤ s.dstfRet := by
    obtain ⟨hpos, -⟩ | ⟨hzero, -⟩ := step_eq_some hst <;> omega
  obtain ⟨before, after, hdata, hsep, hafter⟩ := h.cut
  obtain ⟨rfl, hhead⟩ := hafter hret
  have hkeep : t.dstfRet < 0 → Segment data t := by
    intro hneg
    have hfr := raw_frames_of_neg hst hneg
    exact ⟨hfr ▸ h.units, before, _, hfr ▸ hdata, hfr ▸ hsep,
      fun h0 => absurd hneg (not_lt.mpr h0)⟩
  obtain ⟨hreads, ⟨-, -, -, -, hneg⟩ | ⟨-, -, -, -, hneg⟩ | ⟨out, hturn, hfr, ht⟩⟩ :=
    raw_step_cases hst
  · exact hkeep (by omega)
  · exact hkeep (by omega)
  · obtain ⟨hunits, hpat, dropped, hw, hnone⟩ := hturn.contiguous
    have hloaded : s.frames ≠ [] → nalPrefix <+: s.loaded := fun hne =>
      (hhead hne).trans (List.prefix_append _ _)
    rw [← loaded_append_toCome, hw, ← hreads] at hdata
    have hnext : t.frames ≠ [] → nalPrefix <+: t.dstf.window := by
      refine fun hne => hpat ?_
      by_cases hnil : s.frames = []
      · rw [hfr, hnil, List.nil_append] at hne
        exact .inr hne
      · exact .inl (hloaded hnil)
    refine ⟨fun u hu => ?_, before ++ dropped, _, ?_,
      fun hne => (hnext hne).trans (List.prefix_append _ _), fun _ => ⟨rfl, hnext⟩⟩
    · rw [hfr] at hu
      rcases List.mem_append.mp hu with hu | hu
      · exact h.units u hu
      · exact ⟨(hunits u hu).starts, (hunits u hu).head_le, (hunits u hu).whole⟩
    · rw [hdata, hfr]
      by_cases hnil : s.frames = []
      · simp [hnil]
      · simp [hnone (hloaded hnil)]

theorem Segment.run {d : Dstf} {reads : List (List UInt8)}
    (hdata : d.window ++ reads.flatten = data)
    (h : Reach (StreamLoop.step .rawH264 m) (.start d reads) t) : Segment data t :=
  h.invariant (fun _ _ hs hst => hs.step hst)
    ⟨nofun, [], _, by simp [StreamLoop.start], fun hne => absurd rfl hne,
      fun _ => ⟨hdata.symm, fun hne => absurd rfl hne⟩⟩

/-- What of it is in the file: where the file stops before some of the units, the next one starts
there. -/
theorem Segment.of_prefix (h : Segment data s) {outs more : List (List UInt8)}
    (hframes : outs ++ more = s.frames) :
    ∃ before after, data = before ++ outs.flatten ++ after ∧ (outs ≠ [] → nalPrefix <+: after) := by
  obtain ⟨before, after, hdata, hsep, -⟩ := h.cut
  refine ⟨before, more.flatten ++ after, ?_, fun hne => ?_⟩
  · rw [hdata, ← hframes, List.flatten_append]
    simp only [List.append_assoc]
  · cases more with
    | nil =>
      rw [List.append_nil] at hframes
      exact hsep (hframes ▸ hne)
    | cons u us =>
      have hu : NalUnit u := h.units u (by simp [← hframes])
      rw [List.flatten_cons, List.append_assoc]
      exact hu.starts.trans (List.prefix_append _ _)

/-! ### Dumps -/

/-- The file is a segment of `data`, of whole NAL units, each of which ends where the next start code
is; only the last one may be cut in the file, and only by a failed write. -/
structure Dump (data : List UInt8) (units : List (List UInt8)) (s : Recorder) : Prop where
  segment : ∃ before after, data = before ++ units.flatten ++ after ∧
    (units ≠ [] → nalPrefix <+: after)
  nal : ∀ u ∈ units, NalUnit u
  all_but_last : units.dropLast.flatten <+: s.outfile
  no_more : s.outfile <+: units.flatten
  written : s.outfwriteRet = 0 → s.outfile = units.flatten

/-- The queue and the reads to come hold the data. -/
theorem loads_window (data : List UInt8) :
    Loads fun d rs => d.window ++ rs.flatten = data where
  load h hl := by
    rw [load_window hl, ← h, List.flatten_cons, List.append_assoc]

/-- **The dump of a raw H.264 stream is a segment of it**: whatever the stream, however it is read,
whenever the recording is interrupted by a failed read, a signal or a failed write, and at every
moment, the file holds whole NAL units that follow each other in the stream, with nothing in between
dropped, repeated or moved, and a start code follows the last one. -/
theorem raw_dump (p : Program) (tsproc : Bool) (w : Outside) (sq below sbuf : ℕ → UInt8)
    (conv : Conversion) (inputs : List TurnRead)
    (hlen : ∀ x ∈ readData inputs, x.length ≤ p.granularity) (r : Recording) (s₀ : Recorder)
    (hrec : recording p .native tsproc (dstfInit sq below) sbuf conv inputs = (r, s₀))
    (hi : r.mcFormatIn = .rawH264) (s : Recorder) (hs : Reach (Recorder.step r w) s₀ s) :
    ∃ units, Dump (readData inputs).flatten units s := by
  have hc := (recording_parms hrec).2
  rcases recording_cases hrec hs with ⟨hended, hs⟩ | hfile
  · have hwindow : (dstfInit sq below).window ++ (readData inputs ++ []).flatten =
        (readData inputs).flatten := by
      simp [window, dstfInit]
    have hdata := ((loads_window (readData inputs).flatten).identifyInputs p rfl hlen
      hwindow).resolve_left (not_not.mpr hended)
    rw [List.append_nil] at hdata
    obtain ⟨bufs, outs, hwhole⟩ := Recorder.wholeOutputs hs
    obtain ⟨u, hu, more, hhanded⟩ := hwhole.frames_prefix
    rw [hi] at hu
    have hseg := Segment.run hdata hu
    have hout := hwhole.converted
    rw [framesOut_native hc, Except.ok.injEq, Prod.mk.injEq] at hout
    rw [hout.2] at hhanded
    refine ⟨outs, hseg.of_prefix hhanded, fun x hx => hseg.units x ?_, hwhole.all_but_last,
      hwhole.no_more, hwhole.whole⟩
    rw [← hhanded]
    exact List.mem_append_left _ hx
  · exact ⟨[], ⟨[], _, (List.nil_append _).symm, fun hne => absurd rfl hne⟩, by simp, List.nil_prefix,
      hfile ▸ List.prefix_refl _, fun _ => hfile⟩

/-- Three units; the first one tells the format. -/
def dahuaUnits : List (List UInt8) :=
  [nalPrefix ++ 0xfb :: strDahuaZH, [0x00, 0x00, 0x01, 0xb6, 0x00], [0x00, 0x00, 0x01, 0xb2]]

/-- A byte before them, and a failed read behind them. -/
def dahuaInputs : List TurnRead :=
  [.data (0xff :: nalPrefix), .data (0xfb :: strDahuaZH), .data (dahuaUnits.drop 1).flatten, .readFailed]

theorem raw_dump_dahua :
    ∃ units, Dump (readData dahuaInputs).flatten units
      (runFor (Recorder.step ⟨.tanidvr, .native, true, .rawH264⟩ .fullDisk) 3
        (recording .tanidvr .native true (dstfInit (fun _ => 0) fun _ => 0) (fun _ => 0)
          (.start default default false) dahuaInputs).2) :=
  raw_dump .tanidvr true .fullDisk (fun _ => 0) (fun _ => 0) (fun _ => 0)
    (.start default default false) dahuaInputs (by decide) ⟨.tanidvr, .native, true, .rawH264⟩ _ rfl rfl
    _ (reach_runFor 3 _)

/-! ### Dumps of whole units -/

/-- What holds of the queue and the reads to come of a stream of whole units. -/
structure UnitReads (G : ℕ) (units : List (List UInt8)) (d : Dstf) (rs : List (List UInt8)) :
    Prop where
  fits : d.Fits
  maxlen : d.sqMaxlen = tMcParmsDhavStf
  reads : ∀ c ∈ rs, c.length ≤ G
  data : d.window ++ rs.flatten = units.flatten

variable {G : ℕ} {units : List (List UInt8)} {d : Dstf} {rs : List (List UInt8)}

theorem UnitReads.loads (G : ℕ) (units : List (List UInt8)) : Loads (UnitReads G units) where
  load h hl := ⟨load_fits h.fits hl, (load_sqMaxlen hl).trans h.maxlen,
    fun c hc => h.reads c (by simp [hc]), (loads_window _).load h.data hl⟩

theorem UnitReads.append_nil (h : UnitReads G units d rs) : UnitReads G units d (rs ++ [[]]) := by
  refine ⟨h.fits, h.maxlen, fun c hc => ?_, by simpa using h.data⟩
  rcases List.mem_append.mp hc with hc | hc
  · exact h.reads c hc
  · rw [List.mem_singleton.mp hc]
    exact Nat.zero_le _

/-- A call with data is one without, once the data is loaded. -/
theorem raw_call_of_load {l : Dstf} {c : List UInt8} (m : ℕ) (hl : d.load c = some l) :
    dstfProcessRawH264StreamToFrames d c m = dstfProcessRawH264StreamToFrames l [] m := by
  unfold dstfProcessRawH264StreamToFrames
  rw [hl, load_nil]

/-- The first call of the loop, on a queue that may hold many units. -/
theorem UnitReads.first (hu : ∀ u ∈ units, NalUnit u)
    (hlen : ∀ u ∈ units, u.length + G + 8 ≤ tMcParmsDhavStf) (hm : tMcParmsDhavStf ≤ m)
    (h : UnitReads G units d rs) (hroom : d.sqLen + G ≤ d.sqMaxlen)
    (hst : StreamLoop.step .rawH264 m (.start d rs) = some t) : UnitsInv G units t := by
  obtain ⟨hpos, -⟩ | ⟨-, c, cs, hc, rfl⟩ := step_eq_some hst
  · exact absurd hpos (lt_irrefl 0)
  obtain rfl : rs = c :: cs := hc
  obtain ⟨l, hl⟩ : ∃ l, d.load c = some l := by
    rw [← Option.ne_none_iff_exists', Ne, load_eq_none_iff]
    have := h.reads c (by simp)
    omega
  obtain ⟨hfits, hmax, hreads, hdata⟩ := (UnitReads.loads G units).load h hl
  -- the loop that has loaded the read and drains
  have hs : UnitsInv G units ⟨l, 1, cs, []⟩ := by
    refine ⟨hfits, hmax, hreads, zero_le_one, ⟨units, rfl, hdata, id⟩, fun h0 => ?_⟩
    exact absurd h0 one_ne_zero
  have hcall : streamToFrames .rawH264 d c m = streamToFrames .rawH264 l [] m :=
    raw_call_of_load m hl
  refine hs.step hu hlen hm ?_
  rw [StreamLoop.step, if_pos (show (1 : ℤ) > 0 by decide)]
  simp only [StreamLoop.call, StreamLoop.start, hcall]

/-- The whole loop. -/
theorem UnitReads.run (hu : ∀ u ∈ units, NalUnit u)
    (hlen : ∀ u ∈ units, u.length + G + 8 ≤ tMcParmsDhavStf) (hm : tMcParmsDhavStf ≤ m)
    (h : UnitReads G units d rs) (hroom : d.sqLen + G ≤ d.sqMaxlen) (hne : rs ≠ []) :
    ∃ l, Halts (StreamLoop.step .rawH264 m) (.start d rs) l ∧
      (∀ t, Reach (StreamLoop.step .rawH264 m) (.start d rs) t → 0 ≤ t.dstfRet) ∧
      l.frames = units.dropLast := by
  have hrun : ∀ t, Reach (StreamLoop.step .rawH264 m) (.start d rs) t →
      t = .start d rs ∨ UnitsInv G units t := by
    intro t ht
    refine ht.invariant (P := fun t => t = .start d rs ∨ UnitsInv G units t) ?_ (.inl rfl)
    rintro s t (rfl | hs) hst
    · exact .inr (h.first hu hlen hm hroom hst)
    · exact .inr (hs.step hu hlen hm hst)
  obtain ⟨l, hl⟩ := (StreamLoop.halts_iff (f := .rawH264) (m := m) (s := .start d rs) h.fits).mpr
    fun _ _ _ hz => nomatch hz.dhav
  have hret : ∀ t, Reach (StreamLoop.step .rawH264 m) (.start d rs) t → 0 ≤ t.dstfRet := by
    intro t ht
    rcases hrun t ht with rfl | hs
    · exact le_rfl
    · exact hs.ret
  refine ⟨l, hl, hret, ?_⟩
  obtain hneg | ⟨h0, hnil⟩ := StreamLoop.step_eq_none hl.2
  · exact absurd (hret l hl.1) (not_le.mpr hneg)
  · rcases hrun l hl.1 with rfl | hs
    · exact absurd hnil hne
    · exact (hs.last hu h0 hnil).1

/-- **The dump of a stream of whole units** is all of them but the last, byte for byte, however the
stream is read; the last one stays in the queue. -/
theorem recorded_units (p : Program) (tsproc : Bool) (sq below sbuf : ℕ → UInt8) (conv : Conversion)
    (units chunks : List (List UInt8)) (hunits : ∀ u ∈ units, NalUnit u)
    (hlen : ∀ u ∈ units, u.length + p.granularity + 8 ≤ tMcParmsDhavStf)
    (hchunks : ∀ x ∈ chunks, x ≠ [] ∧ x.length ≤ p.granularity)
    (hdata : chunks.flatten = units.flatten) (r : Recording) (s₀ : Recorder)
    (hrec : recording p .native tsproc (dstfInit sq below) sbuf conv (allInputs p chunks) = (r, s₀))
    (hi : r.mcFormatIn = .rawH264) :
    ∃ s, Halts (Recorder.step r .calm) s₀ s ∧
      s.ended = (if p = .dhav2mkv then some .noMoreData else none) ∧
      s.outfile = units.dropLast.flatten := by
  have hstart : UnitReads p.granularity units (dstfInit sq below) chunks :=
    ⟨dstfInit_fits sq below, rfl, fun c hc => (hchunks c hc).2, hdata⟩
  obtain ⟨d, reads, extra, hp, hc, -, hs₀, hreads, hI, hroom, hnone⟩ :=
    recording_identified (UnitReads.loads _ _) .native tsproc sq below sbuf conv hchunks
      (fun h => h.append_nil) hstart
  rw [hrec] at hp hc hs₀ hreads hnone
  dsimp only at hp hc hs₀ hreads hnone
  subst hp hs₀
  obtain ⟨l, hl, hret, hframes⟩ := hI.run hunits hlen r.program.sizes.1 hroom fun hnil => by
    rw [hi] at hnone
    exact nomatch (hnone hnil).1
  rw [← hi] at hl hret
  obtain ⟨s, hs, hend, hwritten, bufs, outs, hbufs, -, hout, -, -, hfile⟩ :=
    undisturbed_run (accepts_native hc) (show (fun _ : Conversion => True) conv from trivial) sbuf
      hreads hl hret fun _ _ => trivial
  refine ⟨s, hs, hend, ?_⟩
  rw [framesOut_native hc, Except.ok.injEq, Prod.mk.injEq] at hout
  rw [hfile hwritten, ← hout.2, hbufs, hframes]

theorem dahuaUnits_units : ∀ u ∈ dahuaUnits, NalUnit u := by
  have hstart : ∀ u ∈ dahuaUnits, nalPrefix <+: u ∧ 4 ≤ u.length := by decide
  have hno : ∀ u ∈ dahuaUnits, ∀ j < u.length, 4 ≤ j → ¬ nalPrefix <+: u.drop j := by decide
  intro u hu
  refine ⟨(hstart u hu).1, (hstart u hu).2, fun j hj hp => ?_⟩
  have hle := hp.length_le
  have h3 : nalPrefix.length = 3 := rfl
  rw [List.length_drop] at hle
  exact hno u hu j (by omega) hj hp

theorem recorded_units_dahua :
    ∃ s, Halts (Recorder.step ⟨.tanidvr, .native, true, .rawH264⟩ .calm)
        (recording .tanidvr .native true (dstfInit (fun _ => 0) fun _ => 0) (fun _ => 0)
          (.start default default false) (allInputs .tanidvr dahuaUnits)).2 s ∧
      s.ended = none ∧ s.outfile = dahuaUnits.dropLast.flatten :=
  recorded_units .tanidvr true (fun _ => 0) (fun _ => 0) (fun _ => 0) (.start default default false)
    dahuaUnits dahuaUnits dahuaUnits_units (by decide) (by decide) rfl
    ⟨.tanidvr, .native, true, .rawH264⟩ _ rfl rfl

end TaniDVR
