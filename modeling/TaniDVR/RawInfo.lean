import TaniDVR.McParms
import TaniDVR.RawSplit

/-!
# RawInfo — the frame information of a raw H.264 stream

`dt_collect_raw_h264_frame_info` gets a unit in a buffer that still holds the bytes of earlier ones
behind it (`rawInfo`).

* `raw_info_of_frame_iff`: what it finds depends on the unit alone except for a video unit of four
  bytes and a configuration of less than eight;
* `raw_times_iff`: its clock counts the video units exactly where there is no configuration among
  them, which it counts as well.
-/

namespace TaniDVR

open Lib Dstf

/-- The call on the frame `f`, which was copied to the start of a buffer with the bytes `rest`. -/
def rawInfo (mc : McParms) (f : List UInt8) (rest : ℕ → UInt8) : Except Fault (ℤ × McParms) :=
  dtCollectRawH264FrameInfo mc (.ofFn (blit rest 0 f)) f.length

/-- The information depends on the frame alone. -/
def InfoOfFrame (f : List UInt8) : Prop :=
  ∀ (mc : McParms) (rest rest' : ℕ → UInt8), rawInfo mc f rest = rawInfo mc f rest'

/-- The frame ends before the bytes that its type is read with: the picture type of a video unit, the
picture size of a configuration. -/
def TooShort (f : List UInt8) : Prop :=
  (ofList f 3 = 0xb6 ∧ f.length ≤ 4) ∨ (ofList f 3 = 0xfb ∧ f.length ≤ 7)

instance (f : List UInt8) : Decidable (TooShort f) := inferInstanceAs (Decidable (_ ∨ _))

section Info

variable {mc : McParms} {f : List UInt8} {rest rest' s : ℕ → UInt8} {n i : ℕ}

/-- The call on a buffer. -/
theorem collectRaw_ofFn (hn : n ≠ 0) :
    dtCollectRawH264FrameInfo mc (.ofFn s) n =
      let mc := { mc with frameType := .undefined, bodyP := 0, bodyLen := n }
      if s 3 = 0xb6 then
        .ok (0, rawTimes { mc with
          frameType := if (s 4 >>> 6) &&& 0x03 = 0 then .videoIFrame else .videoFrame })
      else if s 3 = 0xf0 then .ok (0, { mc with frameType := .audioFrame })
      else if s 3 = 0xfb then
        let mc := { mc with vWidth := (s 6).toNat * 8, vHeight := (s 7).toNat * 8, dhavFps := 20 }
        if mc.vHeight = 0 then .error .divZero
        else .ok (0, rawTimes { guessNtsc (setAspect mc) with hasVParms := true })
      else .ok (0, mc) :=
  collectRaw_eq (fun _ _ => rfl) hn

theorem blit_frame (h : i < f.length) : blit rest 0 f i = ofList f i := by
  have := blit_add (m := rest) (a := 0) h
  rw [Nat.zero_add] at this
  rw [this, ofList_of_lt h]

theorem blit_behind (h : f.length ≤ i) : blit rest 0 f i = rest i :=
  blit_of_ge (by omega)

/-- A frame that is long enough for its type is read for itself. -/
theorem infoOfFrame_of_long (h4 : 4 ≤ f.length) (hs : ¬ TooShort f) : InfoOfFrame f := by
  obtain ⟨hvideo, hconfig⟩ := not_or.mp hs
  intro mc rest rest'
  have hn : f.length ≠ 0 := by omega
  have h3 : ∀ r, blit r 0 f 3 = ofList f 3 := fun r => blit_frame h4
  rw [rawInfo, rawInfo, collectRaw_ofFn hn, collectRaw_ofFn hn]
  simp only [h3]
  by_cases hb6 : ofList f 3 = 0xb6
  · have hlong : 4 < f.length := not_le.mp fun h => hvideo ⟨hb6, h⟩
    simp only [if_pos hb6, blit_frame hlong]
  · simp only [if_neg hb6]
    by_cases hfb : ofList f 3 = 0xfb
    · have hlong : 7 < f.length := not_le.mp fun h => hconfig ⟨hfb, h⟩
      simp only [blit_frame hlong, blit_frame (show 6 < f.length by omega)]
    · simp only [if_neg hfb]

theorem rawTimes_vHeight : (rawTimes mc).vHeight = mc.vHeight := by
  unfold rawTimes
  split_ifs <;> rfl

/-- A video unit of four bytes: the picture type is what stands behind it. -/
theorem rawInfo_video (mc : McParms) (hlen : f.length = 4) (h3 : ofList f 3 = 0xb6) (b : UInt8) :
    ∃ mc', rawInfo mc f (fun _ => b) = .ok (0, mc') ∧
      mc'.frameType = if (b >>> 6) &&& 0x03 = 0 then .videoIFrame else .videoFrame := by
  have hb3 : blit (fun _ => b) 0 f 3 = 0xb6 := (blit_frame (by omega)).trans h3
  have hb4 : blit (fun _ => b) 0 f 4 = b := blit_behind (by omega)
  rw [rawInfo, collectRaw_ofFn (by omega)]
  simp only [hb3, hb4, if_true]
  exact ⟨_, rfl, rawTimes_frameType⟩

/-- A configuration of less than eight bytes: the height is what stands behind it. -/
theorem rawInfo_config (mc : McParms) (h4 : 4 ≤ f.length) (hlen : f.length ≤ 7)
    (h3 : ofList f 3 = 0xfb) {b : UInt8} (hb : b ≠ 0) :
    ∃ mc', rawInfo mc f (fun _ => b) = .ok (0, mc') ∧ mc'.vHeight = b.toNat * 8 := by
  have hb3 : blit (fun _ => b) 0 f 3 = 0xfb := (blit_frame (by omega)).trans h3
  have hb7 : blit (fun _ => b) 0 f 7 = b := blit_behind hlen
  have hpos := toNat_pos_of_ne_zero hb
  rw [rawInfo, collectRaw_ofFn (by omega)]
  dsimp only
  rw [hb3, hb7, if_neg (by decide), if_neg (by decide), if_pos rfl]
  refine ⟨_, if_neg (by omega), ?_⟩
  rw [rawTimes_vHeight]
  exact setAspect_size.2

end Info

/-- The parameters of a frame that is read for itself are the same in two buffers. -/
theorem InfoOfFrame.eq {f : List UInt8} {mc mc₁ mc₂ : McParms} {rest rest' : ℕ → UInt8} {r₁ r₂ : ℤ}
    (h : InfoOfFrame f) (h₁ : rawInfo mc f rest = .ok (r₁, mc₁))
    (h₂ : rawInfo mc f rest' = .ok (r₂, mc₂)) : mc₁ = mc₂ := by
  have hsame := Except.ok.inj ((h₁.symm.trans (h mc rest rest')).trans h₂)
  exact (Prod.mk.inj hsame).2

/-- Exactly the long enough frames are read for themselves. -/
theorem infoOfFrame_iff {f : List UInt8} (h4 : 4 ≤ f.length) : InfoOfFrame f ↔ ¬ TooShort f := by
  refine ⟨fun h => ?_, infoOfFrame_of_long h4⟩
  rintro (⟨h3, hle⟩ | ⟨h3, hle⟩)
  · obtain ⟨mc₁, h₁, ht₁⟩ := rawInfo_video default (by omega) h3 0x00
    obtain ⟨mc₂, h₂, ht₂⟩ := rawInfo_video default (by omega) h3 0x40
    rw [h.eq h₁ h₂, ht₂] at ht₁
    exact absurd ht₁ (by decide)
  · obtain ⟨mc₁, h₁, ht₁⟩ := rawInfo_config default h4 hle h3 (b := 1) (by decide)
    obtain ⟨mc₂, h₂, ht₂⟩ := rawInfo_config default h4 hle h3 (b := 2) (by decide)
    rw [h.eq h₁ h₂, ht₂] at ht₁
    exact absurd ht₁ (by decide)

/-- An emitted unit has its start code and its type. -/
theorem emitted_length {d : Dstf} {calls : List StfCall} {f : List UInt8}
    (h : f ∈ emittedFrames .rawH264 d calls) : 4 ≤ f.length := by
  induction calls generalizing d with
  | nil => cases h
  | cons c cs ih =>
    rw [emittedFrames, List.mem_append] at h
    rcases h with h | h
    · have hraw : streamToFrames .rawH264 = dstfProcessRawH264StreamToFrames := rfl
      rw [hraw] at h
      have hc := raw_turn d c.src c.maxDstLen
      generalize dstfProcessRawH264StreamToFrames d c.src c.maxDstLen = o at hc h
      cases hc with
      | full => simp at h
      | refused => simp at h
      | wait => simp at h
      | frame ht =>
        obtain rfl : f = _ := by simpa using h
        cases ht with
        | cut hcut => exact hcut.length.1
    · exact ih h

/-- **The information about an emitted unit depends on the unit alone exactly when it is long enough
for its type.** -/
theorem raw_info_of_frame_iff (sq below : ℕ → UInt8) (calls : List StfCall) (f : List UInt8)
    (h : f ∈ emittedFrames .rawH264 (dstfInit sq below) calls) : InfoOfFrame f ↔ ¬ TooShort f :=
  infoOfFrame_iff (emitted_length h)

/-- A configuration of eight bytes. -/
theorem raw_info_of_frame_iff_config :
    InfoOfFrame [0x00, 0x00, 0x01, 0xfb, 0x00, 0x00, 0x58, 0x48] ↔
      ¬ TooShort [0x00, 0x00, 0x01, 0xfb, 0x00, 0x00, 0x58, 0x48] :=
  raw_info_of_frame_iff (fun _ => 0) (fun _ => 0)
    [⟨[0x00, 0x00, 0x01, 0xfb, 0x00, 0x00, 0x58, 0x48, 0x00, 0x00, 0x01, 0xb6], 2000000⟩] _ (by decide)

/-- Two start codes with nothing between them: the type of the first picture is what an earlier frame
left in the buffer. -/
theorem short_unit_reads_behind :
    ¬ ∀ (sq below : ℕ → UInt8) (calls : List StfCall), ∀ f ∈ emittedFrames .rawH264
      (dstfInit sq below) calls, InfoOfFrame f := by
  intro h
  have hmem : [0x00, 0x00, 0x01, 0xb6] ∈ emittedFrames .rawH264 (dstfInit (fun _ => 0) (fun _ => 0))
      [⟨[0x00, 0x00, 0x01, 0xb6, 0x00, 0x00, 0x01, 0xb6], 2000000⟩] := by decide
  exact (infoOfFrame_iff (by decide)).mp (h _ _ _ _ hmem) (by decide)

/-! ### The clock -/

namespace FrameBuf

/-- A video frame. -/
def IsRawVideo (f : FrameBuf) : Prop := f.srcLen ≠ 0 ∧ f.buf 3 = 0xb6

/-- A configuration. -/
def IsRawConfig (f : FrameBuf) : Prop := f.srcLen ≠ 0 ∧ f.buf 3 = 0xfb

/-- A frame that moves the clock. -/
def RawTimed (f : FrameBuf) : Prop := f.IsRawVideo ∨ f.IsRawConfig

instance (f : FrameBuf) : Decidable f.IsRawVideo := inferInstanceAs (Decidable (_ ∧ _))
instance (f : FrameBuf) : Decidable f.IsRawConfig := inferInstanceAs (Decidable (_ ∧ _))
instance (f : FrameBuf) : Decidable f.RawTimed := inferInstanceAs (Decidable (_ ∨ _))

end FrameBuf

/-- How many video frames there are. -/
def videoCount (frames : List FrameBuf) : ℕ := frames.countP (·.IsRawVideo)

/-- How many frames move the clock. -/
def timedCount (frames : List FrameBuf) : ℕ := frames.countP (·.RawTimed)

/-- One call for each frame. -/
def rawInfoRun (mc : McParms) : List FrameBuf → Except Fault McParms
  | [] => .ok mc
  | f :: fs => do
    let (_, mc) ← dtCollectRawH264FrameInfo mc (.ofFn f.buf) f.srcLen
    rawInfoRun mc fs

/-- The clock counts video frames only: after the `n`-th it is at `n - 1` periods, and other frames
leave it. -/
structure CountsVideo (mc : McParms) (frames : List FrameBuf) : Prop where
  video : ∀ pre f mc', pre ++ [f] <+: frames → f.IsRawVideo → rawInfoRun mc (pre ++ [f]) = .ok mc' →
    mc'.vTimestamp = (videoCount (pre ++ [f]) - 1) * 60000000
  others : ∀ pre f mc₁ mc₂, pre ++ [f] <+: frames → ¬ f.IsRawVideo → rawInfoRun mc pre = .ok mc₁ →
    rawInfoRun mc (pre ++ [f]) = .ok mc₂ →
    mc₂.vTimestamp = mc₁.vTimestamp ∧ mc₂.vFirstFrame = mc₁.vFirstFrame

section Clock

variable {mc : McParms} {f : FrameBuf} {frames pre : List FrameBuf}

theorem rawInfoRun_append (mc : McParms) (frames : List FrameBuf) (f : FrameBuf) :
    rawInfoRun mc (frames ++ [f]) = do
      let mc ← rawInfoRun mc frames
      let (_, mc) ← dtCollectRawH264FrameInfo mc (.ofFn f.buf) f.srcLen
      return mc := by
  induction frames generalizing mc with
  | nil => rfl
  | cons x frames ih =>
    simp only [List.cons_append, rawInfoRun]
    cases dtCollectRawH264FrameInfo mc (.ofFn x.buf) x.srcLen with
    | error e => rfl
    | ok r => exact ih r.2

theorem timedCount_append : timedCount (frames ++ [f]) =
    timedCount frames + if f.RawTimed then 1 else 0 := by
  simp [timedCount, List.countP_append, List.countP_cons]

theorem videoCount_append : videoCount (frames ++ [f]) =
    videoCount frames + if f.IsRawVideo then 1 else 0 := by
  simp [videoCount, List.countP_append, List.countP_cons]

/-- What the two routines guess leaves the clock. -/
theorem guess_clock (mc : McParms) :
    (guessNtsc (setAspect mc)).vFirstFrame = mc.vFirstFrame ∧
      (guessNtsc (setAspect mc)).vTimestamp = mc.vTimestamp := by
  unfold guessNtsc setAspect
  split_ifs <;> exact ⟨rfl, rfl⟩

/-- The clock depends on the clock alone. -/
theorem rawTimes_clock {mc' : McParms} (hf : mc'.vFirstFrame = mc.vFirstFrame)
    (ht : mc'.vTimestamp = mc.vTimestamp) :
    (rawTimes mc').vFirstFrame = (rawTimes mc).vFirstFrame ∧
      (rawTimes mc').vTimestamp = (rawTimes mc).vTimestamp := by
  unfold rawTimes
  rw [hf, ht]
  split_ifs <;> exact ⟨rfl, rfl⟩

/-- One call: video frames and configurations move the clock. -/
theorem rawInfo_step (mc : McParms) (hh : f.IsRawConfig → f.buf 7 ≠ 0) :
    ∃ mc', dtCollectRawH264FrameInfo mc (.ofFn f.buf) f.srcLen = .ok (0, mc') ∧
      (f.RawTimed → mc'.vFirstFrame = (rawTimes mc).vFirstFrame ∧
        mc'.vTimestamp = (rawTimes mc).vTimestamp) ∧
      (¬ f.RawTimed → mc'.vFirstFrame = mc.vFirstFrame ∧ mc'.vTimestamp = mc.vTimestamp) := by
  by_cases h0 : f.srcLen = 0
  · have hn : ¬ f.RawTimed := fun h => h.elim (fun h => h.1 h0) (fun h => h.1 h0)
    refine ⟨{ mc with frameType := .undefined }, ?_, fun h => absurd h hn, fun _ => ⟨rfl, rfl⟩⟩
    rw [h0]
    rfl
  rw [collectRaw_ofFn h0]
  dsimp only
  by_cases hb6 : f.buf 3 = 0xb6
  · rw [if_pos hb6]
    have ht : f.RawTimed := .inl ⟨h0, hb6⟩
    exact ⟨_, rfl, fun _ => rawTimes_clock rfl rfl, fun h => absurd ht h⟩
  rw [if_neg hb6]
  by_cases hfb : f.buf 3 = 0xfb
  · have ht : f.RawTimed := .inr ⟨h0, hfb⟩
    have hpos := toNat_pos_of_ne_zero (hh ⟨h0, hfb⟩)
    have hf0 : f.buf 3 ≠ 0xf0 := by
      rw [hfb]
      decide
    rw [if_neg hf0, if_pos hfb, if_neg (by omega)]
    refine ⟨_, rfl, fun _ => ?_, fun h => absurd ht h⟩
    exact rawTimes_clock (guess_clock _).1 (guess_clock _).2
  · have hn : ¬ f.RawTimed := fun h => h.elim (fun h => hb6 h.2) (fun h => hfb h.2)
    rw [if_neg hfb]
    split_ifs <;> exact ⟨_, rfl, fun h => absurd h hn, fun _ => ⟨rfl, rfl⟩⟩

/-- **The clock of a run** is a period behind the count of all frames that move it. -/
theorem rawInfoRun_clock (heap : McParms) (exact60 : Bool)
    (hh : ∀ f ∈ frames, f.IsRawConfig → f.buf 7 ≠ 0) :
    ∃ mc, rawInfoRun (mcInit heap exact60) frames = .ok mc ∧
      (mc.vFirstFrame = true ↔ timedCount frames = 0) ∧
      mc.vTimestamp = (timedCount frames - 1) * 60000000 % 2 ^ 64 := by
  induction frames using List.reverseRecOn with
  | nil => exact ⟨_, rfl, by simp [mcInit, timedCount], rfl⟩
  | append_singleton frames f ih =>
    obtain ⟨mc, hrun, hfirst, hts⟩ := ih fun x hx => hh x (List.mem_append_left _ hx)
    obtain ⟨mc', hcall, htimed, hother⟩ := rawInfo_step mc (hh f (by simp))
    refine ⟨mc', ?_, ?_⟩
    · rw [rawInfoRun_append, hrun]
      simp only [bind, Except.bind, hcall]
      rfl
    rw [timedCount_append]
    by_cases ht : f.RawTimed
    · obtain ⟨h1, h2⟩ := htimed ht
      rw [h1, h2, if_pos ht, rawTimes]
      by_cases hf : mc.vFirstFrame = true
      · rw [if_pos hf, hfirst.mp hf]
        exact ⟨by simp, rfl⟩
      · have hpos : timedCount frames ≠ 0 := fun h => hf (hfirst.mpr h)
        rw [if_neg hf]
        dsimp only
        refine ⟨⟨fun h => absurd h hf, fun h => absurd h (by omega)⟩, ?_⟩
        rw [hts]
        omega
    · obtain ⟨h1, h2⟩ := hother ht
      rw [h1, h2, if_neg ht, Nat.add_zero]
      exact ⟨hfirst, hts⟩

/-- Without a configuration only video frames move the clock. -/
theorem timedCount_eq (h : ∀ f ∈ frames, ¬ f.IsRawConfig) : timedCount frames = videoCount frames := by
  refine List.countP_congr fun f hf => ?_
  rw [decide_eq_true_iff, decide_eq_true_iff]
  exact or_iff_left (h f hf)

theorem videoCount_le (h : pre <+: frames) : videoCount pre ≤ videoCount frames :=
  h.sublist.countP_le

/-- A period more is another time. -/
theorem add_period_ne (a : ℕ) : (a + 60000000) % 2 ^ 64 ≠ a % 2 ^ 64 := by
  omega

/-- A configuration is counted. -/
theorem CountsVideo.not_config {heap : McParms} {exact60 : Bool}
    (hh : ∀ f ∈ frames, f.IsRawConfig → f.buf 7 ≠ 0) (h : CountsVideo (mcInit heap exact60) frames) :
    ∀ f ∈ frames, ¬ f.IsRawConfig := by
  intro f hf hc
  obtain ⟨pre, post, rfl⟩ := List.append_of_mem hf
  have hpre : pre ++ [f] <+: pre ++ f :: post := ⟨post, by simp⟩
  obtain ⟨mc, hrun, hfirst, hts⟩ := rawInfoRun_clock heap exact60
    fun x hx => hh x (List.mem_append_left (f :: post) hx)
  obtain ⟨mc', hrun', hfirst', hts'⟩ := rawInfoRun_clock heap exact60
    fun x hx => hh x (hpre.subset hx)
  have hv : ¬ f.IsRawVideo := by
    rintro ⟨-, hb6⟩
    rw [hc.2] at hb6
    exact absurd hb6 (by decide)
  obtain ⟨h1, h2⟩ := h.others pre f mc mc' hpre hv hrun hrun'
  have ht : f.RawTimed := .inr hc
  rw [timedCount_append, if_pos ht] at hfirst' hts'
  rw [h2, hfirst] at hfirst'
  obtain ⟨k, hk⟩ : ∃ k, timedCount pre = k + 1 := Nat.exists_eq_succ_of_ne_zero fun h0 =>
    Nat.succ_ne_zero _ (hfirst'.mp h0)
  rw [hts, hts', hk, Nat.add_sub_cancel, Nat.add_sub_cancel, Nat.add_mul, Nat.one_mul] at h1
  exact add_period_ne _ h1

/-- The times fit in 64 bits. -/
theorem CountsVideo.fits {heap : McParms} {exact60 : Bool}
    (hh : ∀ f ∈ frames, f.IsRawConfig → f.buf 7 ≠ 0) (h : CountsVideo (mcInit heap exact60) frames) :
    (videoCount frames - 1) * 60000000 < 2 ^ 64 := by
  induction frames using List.reverseRecOn with
  | nil => exact Nat.two_pow_pos 64
  | append_singleton frames f ih =>
    have hpre : frames <+: frames ++ [f] := List.prefix_append _ _
    by_cases hv : f.IsRawVideo
    · obtain ⟨mc, hrun, -, hts⟩ := rawInfoRun_clock heap exact60 hh
      rw [← h.video frames f mc List.prefix_rfl hv hrun, hts]
      exact Nat.mod_lt _ (Nat.two_pow_pos 64)
    · rw [videoCount_append, if_neg hv, Nat.add_zero]
      refine ih (fun x hx => hh x (List.mem_append_left _ hx)) ⟨?_, ?_⟩
      · exact fun pre x mc' hx => h.video pre x mc' (hx.trans hpre)
      · exact fun pre x mc₁ mc₂ hx => h.others pre x mc₁ mc₂ (hx.trans hpre)

/-- **The clock of a raw H.264 stream counts video frames only exactly when there is no configuration
in it**, while the times fit in 64 bits. -/
theorem raw_times_iff (heap : McParms) (exact60 : Bool) (frames : List FrameBuf)
    (hh : ∀ f ∈ frames, f.IsRawConfig → f.buf 7 ≠ 0) :
    (∃ mc, rawInfoRun (mcInit heap exact60) frames = .ok mc) ∧
    (CountsVideo (mcInit heap exact60) frames ↔
      (∀ f ∈ frames, ¬ f.IsRawConfig) ∧ (videoCount frames - 1) * 60000000 < 2 ^ 64) := by
  obtain ⟨mc, hrun, -, -⟩ := rawInfoRun_clock heap exact60 hh
  refine ⟨⟨mc, hrun⟩, fun h => ⟨h.not_config hh, h.fits hh⟩, ?_⟩
  rintro ⟨hno, hfits⟩
  have hclock : ∀ {pre mc'}, pre <+: frames → rawInfoRun (mcInit heap exact60) pre = .ok mc' →
      (mc'.vFirstFrame = true ↔ videoCount pre = 0) ∧
        mc'.vTimestamp = (videoCount pre - 1) * 60000000 := by
    intro pre mc' hpre hrun'
    obtain ⟨mc₁, hrun₁, hfirst, hts⟩ := rawInfoRun_clock heap exact60
      fun x hx => hh x (hpre.subset hx)
    obtain rfl : mc₁ = mc' := Except.ok.inj (hrun₁.symm.trans hrun')
    rw [timedCount_eq fun x hx => hno x (hpre.subset hx)] at hfirst hts
    have hle : (videoCount pre - 1) * 60000000 ≤ (videoCount frames - 1) * 60000000 :=
      Nat.mul_le_mul_right _ (Nat.sub_le_sub_right (videoCount_le hpre) 1)
    exact ⟨hfirst, hts.trans (Nat.mod_eq_of_lt (hle.trans_lt hfits))⟩
  refine ⟨fun pre f mc' hpre _ hrun' => (hclock hpre hrun').2, ?_⟩
  intro pre f mc₁ mc₂ hpre hv hrun₁ hrun₂
  obtain ⟨hf₁, ht₁⟩ := hclock ((List.prefix_append _ _).trans hpre) hrun₁
  obtain ⟨hf₂, ht₂⟩ := hclock hpre hrun₂
  rw [videoCount_append, if_neg hv, Nat.add_zero] at hf₂ ht₂
  exact ⟨ht₂.trans ht₁.symm, Bool.eq_iff_iff.mpr (hf₂.trans hf₁.symm)⟩

end Clock

/-- A frame of eight bytes with the type `b`, 704x576 if it is a configuration. -/
def rawFrame (b : UInt8) : FrameBuf := ⟨ofList [0x00, 0x00, 0x01, b, 0x00, 0x00, 0x58, 0x48], 8⟩

theorem raw_times_iff_video_audio :
    (∃ mc, rawInfoRun (mcInit default false) [rawFrame 0xb6, rawFrame 0xf0, rawFrame 0xb6] = .ok mc) ∧
    (CountsVideo (mcInit default false) [rawFrame 0xb6, rawFrame 0xf0, rawFrame 0xb6] ↔
      (∀ f ∈ [rawFrame 0xb6, rawFrame 0xf0, rawFrame 0xb6], ¬ f.IsRawConfig) ∧
      (videoCount [rawFrame 0xb6, rawFrame 0xf0, rawFrame 0xb6] - 1) * 60000000 < 2 ^ 64) :=
  raw_times_iff default false _ (by decide)

/-- A configuration before the first picture: its time is 60 msec, not 0. -/
theorem config_is_counted :
    ¬ ∀ (heap : McParms) (exact60 : Bool) (frames : List FrameBuf),
      (∀ f ∈ frames, f.IsRawConfig → f.buf 7 ≠ 0) → CountsVideo (mcInit heap exact60) frames := by
  intro h
  have hheight : ∀ f ∈ [rawFrame 0xfb, rawFrame 0xb6], f.IsRawConfig → f.buf 7 ≠ 0 := by decide
  obtain ⟨mc, hrun, -, hts⟩ := rawInfoRun_clock default false hheight
  have hzero := (h default false _ hheight).video [rawFrame 0xfb] (rawFrame 0xb6) mc List.prefix_rfl
    (by decide) hrun
  exact absurd (hts.symm.trans hzero) (by decide)

end TaniDVR
