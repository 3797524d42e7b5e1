import TaniDVR.Ledger
import TaniDVR.Mkv

/-!
# FrameSizes — the sizes of one frame in the queue, the parser and the writer

The queue emits a frame by its declared length, `dt_collect_dhav_frame_info` subtracts the length of
the extended header from it, and `dt_convert_frame_to_mkv` adds its headers.  `frame_sizes_iff`: the
three agree exactly when the extended header fits between the DHAV header and the trailer; no other
length is looked at.
-/

namespace TaniDVR

open Lib Dstf

/-- The extended header of a frame fits between its header and its trailer. -/
def ExtHeaderFits (f : List UInt8) : Prop := dhavBodyOffset (ofList f 22) + 8 ≤ f.length

instance (f : List UInt8) : Decidable (ExtHeaderFits f) := inferInstanceAs (Decidable (_ ≤ _))

/-- What the sizes of a frame promise: the parser reads nothing past the frame, the body lies in it,
and the writer copies the whole body into a buffer that holds it, or nothing of it. -/
structure SizesRight (mc : McParms) (f : List UInt8) (maxDstLen : ℕ) (firstFrame : Bool)
    (vcodec : MCodec) : Prop where
  reads : ∀ i, dtCollectDhavFrameInfo mc (.ofFrame f) f.length ≠ .error (.outOfBounds i)
  sizes : dhavBodyOffset (ofList f 22) + dhavBodyLen f.length (ofList f 22) + 8 = f.length
  copy : ∀ r mc', dtCollectDhavFrameInfo mc (.ofFrame f) f.length = .ok (r, mc') →
    ∃ c, dtConvertFrameToMkv mc' (.ofFrame f) f.length maxDstLen firstFrame vcodec = .ok c ∧
      ((c.ret ≠ 0 ∧ c.dstLen = 0 ∧ (c.dst = [] ∨ c.dst = mainHeader mc' vcodec)) ∨
        (c.ret = 0 ∧ c.dst = headers mc' firstFrame vcodec ++
            (f.drop (dhavBodyOffset (ofList f 22))).take mc'.bodyLen ∧
          mc'.bodyLen = dhavBodyLen f.length (ofList f 22) ∧
          c.dst.length = (headers mc' firstFrame vcodec).length + mc'.bodyLen ∧
          c.dst.length = c.dstLen ∧ c.dstLen ≤ maxDstLen))

/-- What the queue emits is no longer than the queue. -/
theorem length_emittedFrames {d : Dstf} (hd : d.Fits) {cs : List StfCall} {f : List UInt8}
    (hf : f ∈ emittedFrames .dhav d cs) : f.length ≤ d.sqMaxlen := by
  induction cs generalizing d with
  | nil => simp [emittedFrames] at hf
  | cons c cs ih =>
    have hb := call_books .dhav hd c.src c.maxDstLen
    have hm := hb.sqMaxlen
    rcases List.mem_append.mp hf with hf | hf
    · split_ifs at hf with hr
      · rw [List.mem_singleton] at hf
        subst hf
        have hcall := dhav_call d c.src c.maxDstLen
        change DhavCall d c.src c.maxDstLen (streamToFrames .dhav d c.src c.maxDstLen) at hcall
        generalize streamToFrames .dhav d c.src c.maxDstLen = o at hcall
        cases hcall with
        | full _ => exact Nat.zero_le _
        | more _ _ => exact Nat.zero_le _
        | refused _ _ _ _ => exact Nat.zero_le _
        | frame hl hp hc _ =>
          have hfits := hp.fits (load_fits hd hl)
          have hrep := repLen_le_of_check_frame hc
          have hmax := hp.sqMaxlen
          have hmax' := load_sqMaxlen hl
          unfold Fits at hfits
          simp only [length_slice]
          omega
      · simp at hf
    · exact (ih (hb.fits hd) hf).trans hm.le

theorem headerThere_of_fits {f : List UInt8} (h : ExtHeaderFits f) :
    HeaderThere (.ofFrame f) (ofList f) := by
  intro i hi
  unfold ExtHeaderFits at h
  exact Mem.ofFrame_of_lt (by omega)

theorem dhavBodyLen_of_fits {f : List UInt8} (h : ExtHeaderFits f) (hf : f.length < 2 ^ 63) :
    dhavBodyLen f.length (ofList f 22) = f.length - dhavBodyOffset (ofList f 22) - 8 := by
  unfold ExtHeaderFits at h
  unfold dhavBodyLen toSizeT
  omega

/-- The body of a frame whose extended header fits. -/
def frameBody (f : List UInt8) : List UInt8 :=
  (f.drop (dhavBodyOffset (ofList f 22))).take (f.length - dhavBodyOffset (ofList f 22) - 8)

theorem readRange_body {f : List UInt8} (h : ExtHeaderFits f) (hf : f.length < 2 ^ 63) :
    Mem.readRange (.ofFrame f) (dhavBodyOffset (ofList f 22))
      (dhavBodyLen f.length (ofList f 22)) = .ok (frameBody f) := by
  rw [dhavBodyLen_of_fits h hf]
  unfold ExtHeaderFits at h
  rw [Mem.readRange_eq (s := ofList f) fun k hk => Mem.ofFrame_of_lt (by omega),
    slice_ofList (by omega)]
  rfl

theorem slice_eq_frameBody {f : List UInt8} :
    (f.drop (dhavBodyOffset (ofList f 22))).take (frameBody f).length = frameBody f := by
  simp [frameBody]

/-- The frame that the parser accepts for the writer has its body as the parser found it. -/
theorem collect_usable {mc mc' : McParms} {f : List UInt8} {r : ℤ} (h : ExtHeaderFits f)
    (hc : dtCollectDhavFrameInfo mc (.ofFrame f) f.length = .ok (r, mc')) (hu : Usable mc') :
    mc'.bodyP = dhavBodyOffset (ofList f 22) ∧
      mc'.bodyLen = dhavBodyLen f.length (ofList f 22) := by
  have hlen : f.length ≠ 0 := by
    unfold ExtHeaderFits at h
    omega
  rw [collect_eq (headerThere_of_fits h) hlen] at hc
  simp only at hc
  split_ifs at hc <;> cases hc
  · exact absurd hu (not_usable_of_frameType (.inl rfl))
  · exact ⟨rfl, rfl⟩
  · exact absurd hu (not_usable_of_frameType (.inl rfl))
  · exact ⟨rfl, rfl⟩
  · exact absurd hu (not_usable_of_frameType (.inr rfl))
  · exact absurd hu (not_usable_of_frameType (.inl rfl))

/-- The three agree on a frame whose extended header fits. -/
theorem sizesRight_of_fits {mc : McParms} {f : List UInt8} {maxDstLen : ℕ} {firstFrame : Bool}
    {vcodec : MCodec} (h : ExtHeaderFits f) (hf : f.length < 2 ^ 63) :
    SizesRight mc f maxDstLen firstFrame vcodec := by
  have hlen : f.length ≠ 0 := by
    unfold ExtHeaderFits at h
    omega
  have hbl := dhavBodyLen_of_fits h hf
  refine ⟨fun i hi => ?_, ?_, fun r mc' hc => ?_⟩
  · rw [collect_eq (headerThere_of_fits h) hlen] at hi
    simp only at hi
    split_ifs at hi
    cases hi
  · rw [hbl]
    unfold ExtHeaderFits at h
    omega
  by_cases hu : Usable mc'
  swap
  · obtain ⟨r, hr, he⟩ := convert_of_not_usable (.ofFrame f) f.length maxDstLen firstFrame vcodec hu
    exact ⟨_, he, .inl ⟨by simp only; omega, rfl, .inl rfl⟩⟩
  obtain ⟨hp, hl⟩ := collect_usable h hc hu
  have hread : Mem.readRange (.ofFrame f) mc'.bodyP mc'.bodyLen = .ok (frameBody f) := by
    rw [hp, hl, readRange_body h hf]
  have hbody : (frameBody f).length = mc'.bodyLen := by
    rw [hl, hbl]
    simp only [frameBody, List.length_take, List.length_drop]
    omega
  have hconv := convert_of_usable maxDstLen firstFrame vcodec hu hlen hread (by omega)
  have hh := length_headers mc' firstFrame vcodec
  simp only at hconv
  by_cases hfit : 35 + mc'.bodyLen + (if firstFrame then 420 else 0) > maxDstLen
  · rw [if_pos hfit] at hconv
    refine ⟨_, hconv, .inl ⟨by simp, rfl, ?_⟩⟩
    cases firstFrame
    · exact .inl rfl
    · exact .inr rfl
  · rw [if_neg hfit] at hconv
    refine ⟨_, hconv, .inr ⟨rfl, ?_, hl, ?_, ?_, ?_⟩⟩
    · rw [← hbody, slice_eq_frameBody]
    · rw [List.length_append, hbody]
    · simp only [List.length_append, hbody, hh]
      omega
    · simpa using hfit

/-- **The sizes are right exactly when the extended header fits**, for every frame that the queue
emits from any stream, any parameters and any output buffer. -/
theorem frame_sizes_iff (sq below : ℕ → UInt8) (cs : List StfCall) (f : List UInt8)
    (hf : f ∈ emittedFrames .dhav (dstfInit sq below) cs) (mc : McParms) (maxDstLen : ℕ)
    (firstFrame : Bool) (vcodec : MCodec) :
    SizesRight mc f maxDstLen firstFrame vcodec ↔ 24 + (ofList f 22).toNat + 8 ≤ f.length := by
  have hlen : f.length ≤ tMcParmsDhavStf := length_emittedFrames (dstfInit_fits sq below) hf
  unfold tMcParmsDhavStf at hlen
  have hfits : ExtHeaderFits f ↔ 24 + (ofList f 22).toNat + 8 ≤ f.length := by
    unfold ExtHeaderFits dhavBodyOffset baseDhavHdrLen
    omega
  rw [← hfits]
  refine ⟨fun h => ?_, fun h => sizesRight_of_fits h (by omega)⟩
  have := h.sizes
  unfold ExtHeaderFits
  omega

/-- A frame with a subfield and a body of two bytes. -/
def smallFrame : List UInt8 :=
  [0x44, 0x48, 0x41, 0x56, 0xfc, 0, 0, 0, 0, 0, 0, 0, 38, 0, 0, 0, 0, 0, 0, 0, 0, 0, 4, 0,
    0x81, 0, 1, 25, 1, 2, 0x64, 0x68, 0x61, 0x76, 38, 0, 0, 0]

theorem frame_sizes_iff_smallFrame :
    SizesRight (mcInit default false) smallFrame 3000000 true .mpeg4IsoAvc :=
  (frame_sizes_iff (fun _ => 0) (fun _ => 0) [⟨smallFrame, 2000000⟩] smallFrame (by decide) _ _ _ _).mpr
    (by decide)

/-- A 32-byte I-frame that declares an extended header of 255 bytes. -/
def shortFrame : List UInt8 :=
  [0x44, 0x48, 0x41, 0x56, 0xfd, 0, 0, 0, 0, 0, 0, 0, 32, 0, 0, 0, 0, 0, 0, 0, 0, 0, 255, 0,
    0x64, 0x68, 0x61, 0x76, 32, 0, 0, 0]

/-- The queue emits this frame; the parser reads past its end and the body length wraps around. -/
theorem sizes_wrong :
    shortFrame ∈ emittedFrames .dhav (dstfInit (fun _ => 0) (fun _ => 0)) [⟨shortFrame, 2000000⟩] ∧
      dhavBodyLen shortFrame.length (ofList shortFrame 22) = 2 ^ 64 - 255 ∧
      ∀ mc maxDstLen firstFrame vcodec, ¬ SizesRight mc shortFrame maxDstLen firstFrame vcodec := by
  refine ⟨by decide, by decide, ?_⟩
  intro mc maxDstLen firstFrame vcodec h
  exact h.reads 8 rfl

end TaniDVR
