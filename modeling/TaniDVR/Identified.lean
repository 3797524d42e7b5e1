import TaniDVR.Reparse
import TaniDVR.Undisturbed

/-!
# Identified — recordings from their first read

`recording` is `process_dhav_stream` and `stream_media_dvr_to_file` from the first read on: the
identification of the input format, with reads that fail, and the loop at its start.

What holds of the queue and the reads to come, whatever is loaded, holds through identification
(`Loads.identified`).  So from the first read on, well-formed frames with garbage between them are
handed on exactly (`Reassembly.run`), and the frames of a dump are (`Replay.run`).
-/

namespace TaniDVR

open Lib Dstf StreamLoop

/-- The identification loop: a failed read ends the recording, and the end of the file ends the loop
of `dhav2mkv`. -/
def identifyInputs (p : Program) (d : Dstf) :
    List TurnRead → Option Ending × Dstf × McFormat × List TurnRead
  | [] => (none, d, .dvrUnknown, [])
  | i :: ins =>
    if d.sqMaxlen - d.sqLen ≥ 2 * p.granularity then
      match i with
      | .pollFailed => (some .pollFailed, d, .dvrUnknown, ins)
      | .readFailed => (some .readFailed, d, .dvrUnknown, ins)
      | .data c =>
        if c.length > 0 then
          let d := { d with sq := blit d.sq (d.sqOffs + d.sqLen) c, sqLen := d.sqLen + c.length }
          let fmt := identifyMcFormat (fun i => d.sq (d.sqOffs + i)) d.sqLen
          if fmt ≠ .dvrUnknown then (none, d, fmt, ins) else identifyInputs p d ins
        else if p = .dhav2mkv then (none, d, .dvrUnknown, ins)
        else identifyInputs p d ins
    else (none, d, .dvrUnknown, i :: ins)

/-- A recording from its first read on. -/
def recording (p : Program) (mcFormatOut : Container) (tsproc : Bool) (d : Dstf) (sbuf : ℕ → UInt8)
    (conv : Conversion) (inputs : List TurnRead) : Recording × Recorder :=
  let (ended, d, fmt, rest) := identifyInputs p d inputs
  (⟨p, mcFormatOut, tsproc, if fmt = .dvrUnknown then .dhav else fmt⟩,
    { Recorder.start d sbuf conv rest with ended := ended })

/-- What `infile_read` gives of a file read in pieces: nothing at its end, however often. -/
def fileInputs (reads : List (List UInt8)) : List TurnRead := (reads ++ [[], []]).map .data

/-! ### The data -/

/-- In `tanidvr` the identification of data is `identifyLoop`. -/
theorem identifyInputs_tanidvr (d : Dstf) (reads : List (List UInt8)) :
    identifyInputs .tanidvr d (reads.map .data) =
      (none, (identifyLoop Program.tanidvr.granularity d reads).1,
        (identifyLoop Program.tanidvr.granularity d reads).2.1,
        (identifyLoop Program.tanidvr.granularity d reads).2.2.map .data) := by
  induction reads generalizing d with
  | nil => rfl
  | cons c cs ih =>
    rw [List.map_cons, identifyInputs, identifyLoop]
    by_cases hsp : d.sqMaxlen - d.sqLen ≥ 2 * Program.tanidvr.granularity
    swap
    · rw [if_neg hsp, if_neg hsp, List.map_cons]
    rw [if_pos hsp, if_pos hsp]
    dsimp only
    by_cases hc : c.length > 0
    swap
    · rw [if_neg hc, if_neg hc, if_neg (by simp), ih]
    rw [if_pos hc, if_pos hc]
    split_ifs
    · rfl
    · exact ih _

/-- In `dhav2mkv` it may take one of the empty reads at the end. -/
theorem identifyInputs_dhav2mkv (d : Dstf) {reads : List (List UInt8)} (hne : ∀ c ∈ reads, c ≠ []) :
    ∃ extra, identifyInputs .dhav2mkv d (fileInputs reads) =
      (none, (identifyLoop Program.dhav2mkv.granularity d reads).1,
        (identifyLoop Program.dhav2mkv.granularity d reads).2.1,
        (((identifyLoop Program.dhav2mkv.granularity d reads).2.2 ++ [[]]) ++ extra).map .data) := by
  induction reads generalizing d with
  | nil =>
    by_cases hsp : d.sqMaxlen - d.sqLen ≥ 2 * Program.dhav2mkv.granularity
    · refine ⟨[], ?_⟩
      rw [fileInputs, List.nil_append, List.map_cons, identifyInputs, if_pos hsp]
      rfl
    · refine ⟨[[]], ?_⟩
      rw [fileInputs, List.nil_append, List.map_cons, identifyInputs, if_neg hsp]
      rfl
  | cons c cs ih =>
    have hc : c.length > 0 := List.length_pos_iff.mpr (hne c (by simp))
    have hfile : fileInputs (c :: cs) = .data c :: fileInputs cs := rfl
    rw [hfile, identifyInputs, identifyLoop]
    by_cases hsp : d.sqMaxlen - d.sqLen ≥ 2 * Program.dhav2mkv.granularity
    swap
    · rw [if_neg hsp, if_neg hsp]
      exact ⟨[[]], by simp [fileInputs]⟩
    rw [if_pos hsp, if_pos hsp]
    dsimp only
    rw [if_pos hc, if_pos hc]
    split_ifs
    · exact ⟨[[]], by simp [fileInputs]⟩
    · exact ih _ fun c hc => hne c (by simp [hc])

/-! ### Invariants through identification -/

variable {m g : ℕ} {d : Dstf} {reads : List (List UInt8)}

/-- Identification loads the reads that it takes, as the loop would. -/
theorem load_identify {c : List UInt8} (ho : d.sqOffs = 0) (hc : c.length > 0)
    (hroom : d.sqLen + c.length ≤ d.sqMaxlen) : d.load c = some { d with
      sq := blit d.sq (d.sqOffs + d.sqLen) c, sqLen := d.sqLen + c.length } := by
  unfold Dstf.load
  dsimp only
  rw [if_pos hc, if_neg (by omega), if_neg (by omega)]

/-- An invariant of the queue and the reads to come that holds on when one is loaded. -/
structure Loads (I : Dstf → List (List UInt8) → Prop) : Prop where
  load : ∀ {d l c rs}, I d (c :: rs) → d.load c = some l → I l rs

theorem RunInv.loads {I : Dstf → List (List UInt8) → List (List UInt8) → Prop} (hI : RunInv m I) :
    Loads fun d rs => I d rs [] :=
  ⟨fun h hl => hI.load h hl⟩

variable {I : Dstf → List (List UInt8) → Prop}

/-- It holds when the format is identified. -/
theorem Loads.identified (hI : Loads I) (ho : d.sqOffs = 0) (hr : ∀ c ∈ reads, c.length ≤ g)
    (h : I d reads) : I (identifyLoop g d reads).1 (identifyLoop g d reads).2.2 := by
  induction reads generalizing d with
  | nil => exact h
  | cons c cs ih =>
    have hc := hr c (by simp)
    have hcs : ∀ c ∈ cs, c.length ≤ g := fun x hx => hr x (by simp [hx])
    unfold identifyLoop
    split_ifs with h1 h2
    · have hl := load_identify ho h2 (by omega)
      dsimp only
      split_ifs
      · exact hI.load h hl
      · exact ih ho hcs (hI.load h hl)
    · have hnil : c = [] := List.length_eq_zero_iff.mp (by omega)
      exact ih ho hcs (hI.load h (hnil ▸ load_nil d))
    · exact h

/-- Reads that identification uses up without an answer are all in the queue. -/
theorem identifyLoop_used_up (ho : d.sqOffs = 0) (hr : ∀ c ∈ reads, c.length ≤ g)
    (hu : identifyMcFormat (fun i => d.sq (d.sqOffs + i)) d.sqLen = .dvrUnknown)
    (hnil : (identifyLoop g d reads).2.2 = [])
    (hf : (identifyLoop g d reads).2.1 = .dvrUnknown) :
    (identifyLoop g d reads).1.window = d.window ++ reads.flatten ∧
      identifyMcFormat (ofList (identifyLoop g d reads).1.window)
        (identifyLoop g d reads).1.window.length = .dvrUnknown := by
  induction reads generalizing d with
  | nil =>
    refine ⟨by simp [identifyLoop], ?_⟩
    rw [identifyLoop, length_window, ← hu]
    exact identifyMcFormat_congr fun i hi => (window_byte hi).symm
  | cons c cs ih =>
    have hc := hr c (by simp)
    have hcs : ∀ c ∈ cs, c.length ≤ g := fun x hx => hr x (by simp [hx])
    unfold identifyLoop at hnil hf ⊢
    split_ifs at hnil hf ⊢ with h1 h2
    · have hw := load_window (load_identify ho h2 (by omega))
      dsimp only at hnil hf ⊢
      split_ifs at hnil hf ⊢ with h3
      · exact absurd hf h3
      · obtain ⟨hw', hid⟩ := ih (d := { d with
            sq := blit d.sq (d.sqOffs + d.sqLen) c, sqLen := d.sqLen + c.length }) ho hcs
          (not_not.mp h3) hnil hf
        refine ⟨?_, hid⟩
        rw [hw', hw, List.flatten_cons, List.append_assoc]
    · have hc : c = [] := List.length_eq_zero_iff.mp (by omega)
      simpa [hc] using ih ho hcs hu hnil hf

/-! ### The whole run from there -/

/-- **A run hands on exactly `frames`** when an invariant says so of a short queue, and of every read
that meets a short or waiting queue that there is one and that it fits. -/
theorem RunInv.exact {I : Dstf → List (List UInt8) → List (List UInt8) → Prop}
    {frames : List (List UInt8)} (hI : RunInv m I) (h : I d reads [])
    (hwait : ∀ {d rs em}, I d rs em → d.check = .wait →
      rs ≠ [] ∧ ∀ c ∈ rs, d.sqLen + c.length ≤ d.sqMaxlen)
    (hshort : ∀ {d rs em}, I d rs em → d.sqLen < 16 → ∀ c ∈ rs, d.sqLen + c.length ≤ d.sqMaxlen)
    (hstart : ∀ c ∈ reads, d.sqLen + c.length ≤ d.sqMaxlen) (hnone : reads = [] → frames = [])
    (hdone : ∀ {d em}, I d [] em → d.sqLen < 16 → em = frames) :
    ∃ l, Halts (StreamLoop.step .dhav m) (.start d reads) l ∧
      (∀ t, Reach (StreamLoop.step .dhav m) (.start d reads) t → 0 ≤ t.dstfRet) ∧
      l.frames = frames := by
  obtain ⟨l, hl, hpos, -, hIl, hidle⟩ := hI.complete h fun {d' c rs em} h' hidle => by
    rcases hidle with hs | hw | ⟨rfl, hrs⟩
    · exact hshort h' hs c (by simp)
    · exact (hwait h' hw).2 c (by simp)
    · exact hstart c (by simp [← hrs])
  refine ⟨l, hl, hpos, ?_⟩
  rcases hidle with hs | hw | ⟨-, hnil⟩
  · exact hdone hIl hs
  · exact absurd rfl (hwait hIl hw).1
  · -- there was nothing to read
    subst hnil
    have hstop : StreamLoop.step .dhav m (.start d []) = none := rfl
    rw [Reach.eq_of_stopped hstop hl.1, hnone rfl]
    rfl

variable {G : ℕ} {frames : List (List UInt8)}

/-- Reads of up to `G` bytes, from a queue with room for one. -/
theorem Reassembly.run (hm : tMcParmsDhavStf ≤ m) (hG : G + 15 ≤ tMcParmsDhavStf)
    (h : Reassembly G frames d reads []) (hroom : d.sqLen + G ≤ d.sqMaxlen)
    (hnone : reads = [] → frames = []) :
    ∃ l, Halts (StreamLoop.step .dhav m) (.start d reads) l ∧
      (∀ t, Reach (StreamLoop.step .dhav m) (.start d reads) t → 0 ≤ t.dstfRet) ∧
      l.frames = frames := by
  refine (reassembly_runInv hm).exact h (fun {d rs em} h hw => ?_) (fun {d rs em} h hs c hc => ?_)
    (fun c hc => ?_) hnone fun h hs => h.frames_of_short hs
  · have hmax := h.maxlen
    obtain ⟨hg, -⟩ | ⟨f, -, -, -, hlen, hlt, hne⟩ | ⟨f, hf, -⟩ :=
      h.check_cases (sqLen_of_check hw nofun)
    · rw [hw] at hg
      cases hg
    · refine ⟨hne, fun c hc => ?_⟩
      have := h.reads c hc
      omega
    · rw [hw] at hf
      cases hf
  · have := h.reads c hc
    have := h.maxlen
    omega
  · have := h.reads c hc
    omega

/-- The dump of frames, each with room for a read besides it. -/
theorem Replay.run {rs₀ : List (List UInt8)} (hm : tMcParmsDhavStf ≤ m)
    (h : Replay rs₀ frames d reads []) (hG : G + 15 ≤ tMcParmsDhavStf)
    (hrs : ∀ c ∈ rs₀, c.length ≤ G) (hfs : ∀ f ∈ frames, f.length + G ≤ tMcParmsDhavStf)
    (hroom : d.sqLen + G ≤ d.sqMaxlen) (hnone : reads = [] → frames = []) :
    ∃ l, Halts (StreamLoop.step .dhav m) (.start d reads) l ∧
      (∀ t, Reach (StreamLoop.step .dhav m) (.start d reads) t → 0 ≤ t.dstfRet) ∧
      l.frames = frames := by
  refine (replay_runInv hm).exact h (fun {d rs em} h hw => ?_) (fun {d rs em} h hs c hc => ?_)
    (fun c hc => ?_) hnone fun h hs => h.frames_of_idle (.inl hs)
  · have hmax := h.maxlen
    obtain ⟨f, gs, hf, -, hlt, hne⟩ | ⟨f, hf, -⟩ := h.check_cases (sqLen_of_check hw nofun)
    · refine ⟨hne, fun c hc => ?_⟩
      have := hrs c (h.reads c hc)
      have := hfs f (by simp [← hf])
      omega
    · rw [hw] at hf
      cases hf
  · have := hrs c (h.reads c hc)
    have := h.maxlen
    omega
  · have := hrs c (h.reads c hc)
    omega

/-! ### Recordings of data -/

/-- All that a recording reads of data in the pieces `chunks`: `tanidvr` finds the pipe empty once,
`dhav2mkv` finds the end of its file. -/
def allInputs : Program → List (List UInt8) → List TurnRead
  | .tanidvr, chunks => (chunks ++ [[]]).map .data
  | .dhav2mkv, chunks => fileInputs chunks

/-- A read that gives the answer is not empty. -/
theorem identifyLoop_answer (hf : (identifyLoop g d reads).2.1 ≠ .dvrUnknown) :
    ∃ pre c, c ≠ [] ∧ reads = pre ++ c :: (identifyLoop g d reads).2.2 := by
  induction reads generalizing d with
  | nil => exact absurd rfl hf
  | cons c cs ih =>
    unfold identifyLoop at hf ⊢
    split_ifs at hf ⊢ with h1 h2
    · dsimp only at hf ⊢
      split_ifs at hf ⊢ with h3
      · exact ⟨[], c, List.ne_nil_of_length_pos h2, rfl⟩
      · obtain ⟨pre, x, hx, hcs⟩ := ih hf
        exact ⟨c :: pre, x, hx, congrArg (c :: ·) hcs⟩
    · obtain ⟨pre, x, hx, hcs⟩ := ih hf
      exact ⟨c :: pre, x, hx, congrArg (c :: ·) hcs⟩
    · exact absurd rfl hf

/-- **A recording of data starts its loop** with what holds of the queue and the reads to come, with
room for a read, and with reads to come unless the whole data does not tell its format, and is taken
for DHAV. -/
theorem recording_identified (hI : Loads I) {p : Program} (c : Container) (tsproc : Bool) (sq below sbuf : ℕ → UInt8)
    (conv : Conversion) {chunks : List (List UInt8)}
    (hlen : ∀ x ∈ chunks, x ≠ [] ∧ x.length ≤ p.granularity)
    (happ : ∀ {d rs}, I d rs → I d (rs ++ [[]])) (h : I (dstfInit sq below) chunks) :
    ∃ d reads extra,
      (recording p c tsproc (dstfInit sq below) sbuf conv (allInputs p chunks)).1.program = p ∧
      (recording p c tsproc (dstfInit sq below) sbuf conv (allInputs p chunks)).1.mcFormatOut = c ∧
      (recording p c tsproc (dstfInit sq below) sbuf conv (allInputs p chunks)).1.tsproc = tsproc ∧
      (recording p c tsproc (dstfInit sq below) sbuf conv (allInputs p chunks)).2 =
        .start d sbuf conv ((reads ++ extra).map .data) ∧
      Reads (recording p c tsproc (dstfInit sq below) sbuf conv (allInputs p chunks)).1 reads extra ∧
      I d reads ∧ d.sqLen + p.granularity ≤ d.sqMaxlen ∧
      (reads = [] →
        (recording p c tsproc (dstfInit sq below) sbuf conv (allInputs p chunks)).1.mcFormatIn = .dhav ∧
        identifyMcFormat (ofList chunks.flatten) chunks.flatten.length = .dvrUnknown) := by
  have hroom : (dstfInit sq below).sqLen + p.granularity ≤ (dstfInit sq below).sqMaxlen := by
    show 0 + p.granularity ≤ tMcParmsDhavStf
    cases p <;> decide
  have hunknown : identifyMcFormat (fun i => (dstfInit sq below).sq ((dstfInit sq below).sqOffs + i))
      (dstfInit sq below).sqLen = .dvrUnknown := rfl
  cases p with
  | tanidvr =>
    have hlen' : ∀ x ∈ chunks ++ [[]], x.length ≤ Program.tanidvr.granularity := by
      intro x hx
      rcases List.mem_append.mp hx with hx | hx
      · exact (hlen x hx).2
      · rw [List.mem_singleton.mp hx]
        exact Nat.zero_le _
    have hid := identifyInputs_tanidvr (dstfInit sq below) (chunks ++ [[]])
    obtain ⟨-, hr, -⟩ := identifyLoop_spec (d := dstfInit sq below) (chunks ++ [[]]) rfl hroom hlen'
    refine ⟨_, _, [], rfl, rfl, rfl, ?_, rfl, hI.identified rfl hlen' (happ h), hr, fun hnil => ?_⟩
    · rw [recording, allInputs, hid, List.append_nil]
      rfl
    · by_cases hf : (identifyLoop Program.tanidvr.granularity (dstfInit sq below)
          (chunks ++ [[]])).2.1 = .dvrUnknown
      · obtain ⟨hw, hu⟩ := identifyLoop_used_up rfl hlen' hunknown hnil hf
        rw [hw] at hu
        refine ⟨?_, by simpa [window, slice, dstfInit] using hu⟩
        simp only [recording, allInputs, hid, hf, if_true]
      · obtain ⟨pre, x, hx, heq⟩ := identifyLoop_answer hf
        rw [hnil] at heq
        exact absurd (List.append_inj_right' heq rfl) (by simpa using hx.symm)
  | dhav2mkv =>
    obtain ⟨extra, hid⟩ :=
      identifyInputs_dhav2mkv (dstfInit sq below) fun c hc => (hlen c hc).1
    have hlen' := fun c hc => (hlen c hc).2
    obtain ⟨-, hr, -, hsuf⟩ := identifyLoop_spec (d := dstfInit sq below) chunks rfl hroom hlen'
    refine ⟨_, _, extra, rfl, rfl, rfl, ?_, ⟨_, rfl, fun c hc => (hlen c (hsuf.subset hc)).1⟩,
      happ (hI.identified rfl hlen' h), hr, by simp⟩
    rw [recording, allInputs, hid]
    rfl

/-- Whatever identification does with failing reads: unless it ends the recording, the invariant of
the queue holds, with `more` data that never comes. -/
theorem Loads.identifyInputs (hI : Loads I) (p : Program) {inputs : List TurnRead} {more : List (List UInt8)}
    (ho : d.sqOffs = 0) (hr : ∀ c ∈ readData inputs, c.length ≤ p.granularity)
    (h : I d (readData inputs ++ more)) :
    (identifyInputs p d inputs).1 ≠ none ∨
      I (identifyInputs p d inputs).2.1
        (readData (identifyInputs p d inputs).2.2.2 ++ more) := by
  induction inputs generalizing d with
  | nil => exact .inr h
  | cons i ins ih =>
    unfold TaniDVR.identifyInputs
    by_cases hsp : d.sqMaxlen - d.sqLen ≥ 2 * p.granularity
    swap
    · rw [if_neg hsp]
      exact .inr h
    rw [if_pos hsp]
    cases i with
    | pollFailed => exact .inl nofun
    | readFailed => exact .inl nofun
    | data c =>
      rw [readData, List.cons_append] at h
      have hc := hr c (by simp [readData])
      have hcs : ∀ c ∈ readData ins, c.length ≤ p.granularity := fun x hx =>
        hr x (by simp [readData, hx])
      dsimp only
      by_cases hpos : c.length > 0
      · rw [if_pos hpos]
        have hl := load_identify ho hpos (by omega)
        split_ifs
        · exact .inr (hI.load h hl)
        · exact ih ho hcs (hI.load h hl)
      · have hnil : c = [] := List.length_eq_zero_iff.mp (by omega)
        have h' := hI.load h (hnil ▸ load_nil d)
        rw [if_neg hpos]
        split_ifs
        · exact .inr h'
        · exact ih ho hcs h'

theorem recording_parms {p : Program} {c : Container} {tsproc : Bool} {sbuf : ℕ → UInt8}
    {conv : Conversion} {inputs : List TurnRead} {r : Recording} {s₀ : Recorder}
    (hrec : recording p c tsproc d sbuf conv inputs = (r, s₀)) :
    r.program = p ∧ r.mcFormatOut = c := by
  obtain ⟨rfl, rfl⟩ := Prod.ext_iff.mp hrec
  exact ⟨rfl, rfl⟩

/-- **A recording runs its loop** on what identification left, unless this ended it. -/
theorem recording_cases {p : Program} {c : Container} {tsproc : Bool} {sbuf : ℕ → UInt8}
    {conv : Conversion} {inputs : List TurnRead} {w : Outside} {r : Recording} {s₀ s : Recorder}
    (hrec : recording p c tsproc d sbuf conv inputs = (r, s₀))
    (hs : Reach (Recorder.step r w) s₀ s) :
    (identifyInputs p d inputs).1 = none ∧
        Reach (Recorder.step r w) (.start (identifyInputs p d inputs).2.1 sbuf conv
          (identifyInputs p d inputs).2.2.2) s ∨
      s.outfile = [] := by
  obtain ⟨rfl, rfl⟩ := Prod.ext_iff.mp hrec
  by_cases hended : (identifyInputs p d inputs).1 = none
  · refine .inl ⟨hended, ?_⟩
    have hstart : (recording p c tsproc d sbuf conv inputs).2 =
        .start (identifyInputs p d inputs).2.1 sbuf conv (identifyInputs p d inputs).2.2.2 := by
      simp only [recording, hended, Recorder.start]
    rwa [hstart] at hs
  · have hstop : Recorder.step (recording p c tsproc d sbuf conv inputs).1 w
        (recording p c tsproc d sbuf conv inputs).2 = none := if_pos hended
    rw [Reach.eq_of_stopped hstop hs]
    exact .inr rfl

/-- A run of the loop is one with more reads to come. -/
theorem StreamLoop.reach_more {f : McFormat} {s t : StreamLoop} (more : List (List UInt8))
    (h : Reach (StreamLoop.step f m) s t) :
    Reach (StreamLoop.step f m) { s with reads := s.reads ++ more }
      { t with reads := t.reads ++ more } := by
  have hsim := h.simulated (f := StreamLoop.step f m)
    (R := fun (s s' : StreamLoop) => s' = { s with reads := s.reads ++ more })
    (a := { s with reads := s.reads ++ more }) ?_ rfl
  · obtain ⟨u, hu, rfl⟩ := hsim
    exact hu
  · rintro s t _ rfl hst
    refine ⟨_, .head ?_ (.refl _), rfl⟩
    obtain ⟨hr, rfl⟩ | ⟨hr, c, cs, hc, rfl⟩ := step_eq_some hst
    · exact if_pos hr
    · rw [StreamLoop.step, if_neg (by simp [hr]), if_neg (by simp [hr]), hc]
      rfl

/-- The frames handed on at any moment of a run whose data is cut off. -/
theorem RunInv.frames_of_reach {I : Dstf → List (List UInt8) → List (List UInt8) → Prop}
    (hI : RunInv m I) {more : List (List UInt8)} {u : StreamLoop} (h : I d (reads ++ more) [])
    (hu : Reach (StreamLoop.step .dhav m) (.start d reads) u) : ∃ rs, I u.dstf rs u.frames := by
  have hu' := StreamLoop.reach_more more hu
  have hcar : Carried I d (reads ++ more) { u with reads := u.reads ++ more } :=
    hu'.invariant (fun _ _ hs hst => hI.carried_step hs hst)
      (.inl ⟨le_rfl, h, fun _ => .inr (.inr ⟨rfl, rfl⟩)⟩)
  exact hcar.exists

end TaniDVR
