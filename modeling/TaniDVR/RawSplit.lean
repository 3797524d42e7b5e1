import TaniDVR.Lib.Delimited
import TaniDVR.StreamLoop

/-!
# RawSplit — cutting a raw H.264 stream into its units

`dstf_process_raw_h264_stream_to_frames` is the scanner of `Lib.Delimited` for the start code
`00 00 01` (`nalCutting`): `raw_turn` shows that a call is one `Turn` on the unread data.

* `raw_split`: a stream of whole units comes out unit by unit, however it is read;
* `raw_frames_of_reads`: so does any other stream, in two runs that lose no start code
  (`LosesStartCode`), and `start_code_lost` is a stream whose frames depend on how it is read.
-/

namespace TaniDVR

open Lib Dstf

/-- `00 00 01`. -/
def nalPrefix : List UInt8 := [0x00, 0x00, 0x01]

/-- The next start code is sought from the fifth byte on, and not with fewer than 8 bytes. -/
def nalCutting : Cutting UInt8 where
  pat := nalPrefix
  head := 4
  least := 8
  pat_ne := List.cons_ne_nil _ _
  pat_le := by decide
  head_le := by decide

theorem nalPrefix_unbordered : Unbordered nalCutting.pat := by
  intro k h0 hk
  have hk : k < 3 := hk
  obtain rfl | rfl : k = 1 ∨ k = 2 := by omega
  · decide
  · decide

/-! ### One call -/

section Call

variable {d l : Dstf} {src : List UInt8} {m j k n : ℕ}

/-- The start codes of the unread data. -/
theorem standsAt_window : StandsAt nalPrefix d.window j ↔
    j + 2 < d.sqLen ∧ NALAt (fun i => d.sq (d.sqOffs + i)) j := by
  rw [StandsAt, Dstf.window, drop_slice]
  rcases Nat.lt_or_ge (j + 2) d.sqLen with hlt | hge
  · obtain ⟨n, hn⟩ : ∃ n, d.sqLen - j = n + 3 := ⟨d.sqLen - j - 3, by omega⟩
    rw [hn, slice_succ, slice_succ, slice_succ, nalPrefix, NALAt]
    simp only [List.cons_prefix_cons, List.nil_prefix, and_true, hlt, true_and, Nat.add_assoc]
    constructor
    · rintro ⟨h0, h1, h2⟩
      exact ⟨h0.symm, h1.symm, h2.symm⟩
    · rintro ⟨h0, h1, h2⟩
      exact ⟨h0.symm, h1.symm, h2.symm⟩
  · constructor
    · intro hp
      have := hp.length_le
      rw [length_slice] at this
      have h3 : nalPrefix.length = 3 := rfl
      omega
    · rintro ⟨hlt, -⟩
      omega

/-- "search for first NAL sequence". -/
theorem search_first (h : searchMpegNAL (fun i => d.sq (d.sqOffs + i)) d.sqLen = some k) :
    FirstAt nalPrefix d.window 0 k := by
  obtain ⟨hk, hat, hno⟩ := searchMpegNAL_eq_some h
  refine ⟨Nat.zero_le k, standsAt_window.mpr ⟨hk, hat⟩, ?_⟩
  intro j _ hj hs
  exact hno j hj (standsAt_window.mp hs).2

theorem search_none (h : searchMpegNAL (fun i => d.sq (d.sqOffs + i)) d.sqLen = none) (j : ℕ) :
    ¬ StandsAt nalPrefix d.window j := by
  intro hs
  obtain ⟨hj, hat⟩ := standsAt_window.mp hs
  exact searchMpegNAL_eq_none.mp h j hj hat

/-- "search for the second NAL sequence". -/
theorem search_second (h : searchMpegNAL (fun i => d.sq (d.sqOffs + 4 + i)) (d.sqLen - 4) = some n) :
    FirstAt nalPrefix d.window 4 (n + 4) := by
  have hshift : ∀ j, NALAt (fun i => d.sq (d.sqOffs + 4 + i)) j ↔
      NALAt (fun i => d.sq (d.sqOffs + i)) (4 + j) := by
    intro j
    simp only [NALAt, Nat.add_assoc]
  obtain ⟨hn, hat, hno⟩ := searchMpegNAL_eq_some h
  rw [hshift] at hat
  refine ⟨Nat.le_add_left _ _, standsAt_window.mpr ⟨by omega, Nat.add_comm n 4 ▸ hat⟩, ?_⟩
  intro j hj4 hjn hs
  obtain ⟨i, rfl⟩ := Nat.exists_eq_add_of_le hj4
  exact hno i (by omega) ((hshift i).mpr (standsAt_window.mp hs).2)

theorem search_second_none
    (h : searchMpegNAL (fun i => d.sq (d.sqOffs + 4 + i)) (d.sqLen - 4) = none) (hj : 4 ≤ j) :
    ¬ StandsAt nalPrefix d.window j := by
  intro hs
  obtain ⟨hlt, hat⟩ := standsAt_window.mp hs
  obtain ⟨i, rfl⟩ := Nat.exists_eq_add_of_le hj
  refine searchMpegNAL_eq_none.mp h i (by omega) ?_
  simpa only [NALAt, Nat.add_assoc] using hat

/-- What one call of the raw H.264 routine does to the unread data. -/
inductive RawTurn (d : Dstf) (src : List UInt8) (maxDstLen : ℕ) : StfOut → Prop
  | full : d.load src = none → RawTurn d src maxDstLen ⟨-1, [], d⟩
  | refused {d' : Dstf} {u r : List UInt8} : nalCutting.Cut (d.window ++ src) u r →
      maxDstLen < u.length → RawTurn d src maxDstLen ⟨-3, [], d'⟩
  | wait {d' : Dstf} : nalCutting.Turn (d.window ++ src) [] d'.window →
      RawTurn d src maxDstLen ⟨0, [], d'⟩
  | frame {d' : Dstf} {u : List UInt8} : nalCutting.Turn (d.window ++ src) [u] d'.window →
      u.length ≤ maxDstLen → RawTurn d src maxDstLen ⟨1, u, d'⟩

/-- **A call is one turn of the scanner.** -/
theorem raw_turn (d : Dstf) (src : List UInt8) (m : ℕ) :
    RawTurn d src m (dstfProcessRawH264StreamToFrames d src m) := by
  unfold dstfProcessRawH264StreamToFrames
  cases hl : d.load src with
  | none => exact .full hl
  | some l =>
    have hw := load_window hl
    dsimp only
    split_ifs with h8
    · refine .wait ?_
      rw [← hw]
      exact .short ((length_window l).trans_lt h8)
    cases hs : searchMpegNAL (fun i => l.sq (l.sqOffs + i)) l.sqLen with
    | none =>
      refine .wait ?_
      rw [← hw, window_skip, List.drop_of_length_le (length_window l).le]
      exact .discard ((length_window l).ge.trans' (not_lt.mp h8)) (search_none hs)
    | some k =>
      have hfirst := search_first hs
      have hskip : (if k ≠ 0 then l.skip k else l) = l.skip k := by
        split_ifs with h0
        · rfl
        · rw [not_not.mp h0, skip_zero]
      dsimp only
      rw [hskip]
      split_ifs with h8'
      · -- the start code is there, but too little behind it
        refine .wait ?_
        rw [← hw, window_skip]
        refine .skip hfirst ?_
        rintro u r ⟨k', n, hc, -, -⟩
        obtain rfl := hc.start.unique hfirst
        have hlong : 8 ≤ (l.window.drop k').length := hc.long
        rw [← window_skip, length_window] at hlong
        omega
      cases hs2 : searchMpegNAL (fun i => (l.skip k).sq ((l.skip k).sqOffs + 4 + i))
          ((l.skip k).sqLen - 4) with
      | none =>
        refine .wait ?_
        rw [← hw, window_skip]
        refine .skip hfirst ?_
        rintro u r ⟨k', n, hc, -, -⟩
        obtain rfl := hc.start.unique hfirst
        have hst := hc.next.stands
        rw [← window_skip] at hst
        exact search_second_none hs2 hc.next.le hst
      | some n =>
        have hsecond := search_second hs2
        have hcut : nalCutting.Cut l.window (slice (l.skip k).sq (l.skip k).sqOffs (n + 4))
            ((l.skip k).skip (n + 4)).window := by
          have hle := hsecond.stands.le nalCutting.pat_ne
          rw [length_window] at hle
          refine ⟨k, n + 4, ⟨hfirst, ?_, ?_⟩, ?_, ?_⟩
          · rw [← window_skip, length_window]
            exact not_lt.mp h8'
          · rw [← window_skip]
            exact hsecond
          · rw [← window_skip, Dstf.window, take_slice _ _ _ _ (by omega)]
          · rw [window_skip, window_skip]
        rw [hw] at hcut
        dsimp only
        split_ifs with hm
        · refine .refused hcut ?_
          rw [length_slice]
          exact hm
        · refine .frame (.cut hcut) ?_
          rw [length_slice]
          exact not_lt.mp hm

end Call

/-! ### The loop -/

namespace StreamLoop

/-- What is unread at the next call. -/
def loaded (s : StreamLoop) : List UInt8 :=
  s.dstf.window ++ if s.dstfRet > 0 then [] else s.reads.headD []

/-- What is still to come then. -/
def toCome (s : StreamLoop) : List UInt8 :=
  (if s.dstfRet > 0 then s.reads else s.reads.tail).flatten

/-- The next call throws away the whole queue, the end of which divides a start code. -/
def LosesStartCode (s : StreamLoop) : Prop := nalCutting.Loses s.loaded s.toCome

variable {s t : StreamLoop} {m : ℕ}

theorem loaded_append_toCome (s : StreamLoop) :
    s.loaded ++ s.toCome = s.dstf.window ++ s.reads.flatten := by
  unfold loaded toCome
  split_ifs
  · rw [List.append_nil]
  · cases s.reads with
    | nil => simp
    | cons c cs => simp

/-- **One step of the loop** is one turn of the scanner, unless the data does not fit in the queue or
the unit not in the buffer. -/
theorem raw_step_cases (h : StreamLoop.step .rawH264 m s = some t) :
    t.reads.flatten = s.toCome ∧
    ((∃ c ∈ s.reads, s.dstfRet = 0 ∧ s.dstf.sqMaxlen - s.dstf.sqLen < c.length ∧ t.dstfRet = -1) ∨
      (∃ u r, nalCutting.Cut s.loaded u r ∧ m < u.length ∧ t.dstfRet = -3) ∨
      ∃ out, nalCutting.Turn s.loaded out t.dstf.window ∧ t.frames = s.frames ++ out ∧
        t.dstfRet = out.length) := by
  have hcall : ∀ {s : StreamLoop} {src w : List UInt8}, s.dstf.window ++ src = w →
      (s.dstf.load src = none ∧ (s.call .rawH264 m src).dstfRet = -1) ∨
      (∃ u r, nalCutting.Cut w u r ∧ m < u.length ∧ (s.call .rawH264 m src).dstfRet = -3) ∨
      ∃ out, nalCutting.Turn w out (s.call .rawH264 m src).dstf.window ∧
        (s.call .rawH264 m src).frames = s.frames ++ out ∧
        (s.call .rawH264 m src).dstfRet = out.length := by
    rintro s src w rfl
    have hraw : streamToFrames .rawH264 = dstfProcessRawH264StreamToFrames := rfl
    rw [call_dstf, call_dstfRet, call_frames, hraw]
    have hc := raw_turn s.dstf src m
    generalize dstfProcessRawH264StreamToFrames s.dstf src m = o at hc
    cases hc with
    | full hl => exact .inl ⟨hl, rfl⟩
    | refused hcut hm => exact .inr (.inl ⟨_, _, hcut, hm, rfl⟩)
    | wait ht => exact .inr (.inr ⟨[], ht, by simp, rfl⟩)
    | @frame d' u ht hm =>
      have hpos : 0 < u.length := by
        cases ht with
        | cut hcut => exact lt_of_lt_of_le (by decide) hcut.length.1
      exact .inr (.inr ⟨[u], ht, if_pos hpos, rfl⟩)
  obtain ⟨hpos, rfl⟩ | ⟨hzero, c, cs, hreads, rfl⟩ := step_eq_some h
  · refine ⟨?_, ?_⟩
    · rw [call_reads, toCome, if_pos hpos]
    · have hw : s.dstf.window ++ [] = s.loaded := by
        rw [loaded, if_pos hpos]
      obtain ⟨hl, -⟩ | hrest := hcall hw
      · rw [load_nil] at hl
        cases hl
      · exact .inr hrest
  · refine ⟨?_, ?_⟩
    · rw [call_reads, toCome, if_neg (by omega), hreads, List.tail_cons]
    · have hw : s.dstf.window ++ c = s.loaded := by
        rw [loaded, if_neg (by omega), hreads, List.headD_cons]
      obtain ⟨hl, hret⟩ | hrest := hcall (s := { s with reads := cs }) hw
      · refine .inl ⟨c, ?_, hzero, (load_eq_none_iff.mp hl).2, hret⟩
        rw [hreads]
        exact List.mem_cons_self
      · exact .inr hrest

end StreamLoop

/-! ### Streams of whole units -/

/-- A NAL unit of a stream: `00 00 01`, a type byte and a payload, with no `00 00 01` from the fifth
byte on. -/
structure NalUnit (u : List UInt8) : Prop where
  starts : nalPrefix <+: u
  head_le : 4 ≤ u.length
  whole : ∀ j, 4 ≤ j → ¬ nalPrefix <+: u.drop j

theorem NalUnit.isUnit {u : List UInt8} (h : NalUnit u) : nalCutting.IsUnit u :=
  ⟨h.starts, h.head_le, h.whole⟩

section Whole

variable {units todo : List (List UInt8)} {w rest : List UInt8} {G : ℕ}

/-- A stream of whole units starts with a start code, as far as it is there. -/
theorem firstAt_of_units (hu : ∀ u ∈ todo, NalUnit u) (hw : w ++ rest = todo.flatten)
    (h3 : 3 ≤ w.length) : FirstAt nalPrefix w 0 0 := by
  cases todo with
  | nil =>
    have := congrArg List.length hw
    simp only [List.length_append, List.flatten_nil, List.length_nil] at this
    omega
  | cons u us =>
    refine ⟨le_rfl, ?_, fun _ _ hj => absurd hj (Nat.not_lt_zero _)⟩
    have hp : nalPrefix <+: w ++ rest := by
      rw [hw, List.flatten_cons]
      exact (hu u (by simp)).starts.trans (List.prefix_append _ _)
    exact List.prefix_of_prefix_length_le hp (List.prefix_append _ _) h3

/-- The first of two units is cut off as soon as the next start code is there. -/
theorem cut_of_units {u v : List UInt8} {us : List (List UInt8)}
    (hu : ∀ x ∈ u :: v :: us, NalUnit x) (hw : w ++ rest = (u :: v :: us).flatten)
    (h8 : 8 ≤ w.length) (hlen : u.length + 3 ≤ w.length) : ∃ r, nalCutting.Cut w u r := by
  have hunit := (hu u (by simp)).isUnit
  have hw' : w ++ rest = u ++ (v ++ us.flatten) := hw
  obtain ⟨r, rfl⟩ : u <+: w := by
    refine List.prefix_of_prefix_length_le ?_ (List.prefix_append w rest) (by omega)
    rw [hw']
    exact List.prefix_append _ _
  rw [List.append_assoc, List.append_cancel_left_eq] at hw'
  rw [List.length_append] at h8 hlen
  refine ⟨r, hunit.cut nalPrefix_unbordered ?_ h8⟩
  have hp : nalPrefix <+: r ++ rest := by
    rw [hw']
    exact (hu v (by simp)).starts.trans (List.prefix_append _ _)
  have h3 : nalPrefix.length ≤ r.length := by
    have : nalPrefix.length = 3 := rfl
    omega
  exact List.prefix_of_prefix_length_le hp (List.prefix_append _ _) h3

/-- **A turn on a stream of whole units** waits, or puts out the next one. -/
theorem turn_of_units {out : List (List UInt8)} {w' : List UInt8} (hu : ∀ u ∈ todo, NalUnit u)
    (hw : w ++ rest = todo.flatten) (h : nalCutting.Turn w out w') :
    ∃ us, todo = out ++ us ∧ w' ++ rest = us.flatten ∧ (todo ≠ [] → us ≠ []) := by
  have hfirst : 8 ≤ w.length → FirstAt nalPrefix w 0 0 := fun h8 => firstAt_of_units hu hw (by omega)
  cases h with
  | short _ => exact ⟨todo, rfl, hw, id⟩
  | discard hlong hnone => exact absurd (hfirst hlong).stands (hnone 0)
  | @skip k hf hn =>
    have hk := hf.stands.le nalCutting.pat_ne
    obtain rfl := hf.unique (firstAt_of_units hu hw (show 3 ≤ w.length by
      have : nalCutting.pat.length = 3 := rfl
      omega))
    exact ⟨todo, rfl, hw, id⟩
  | @cut u r hc =>
    have happ := hc.append rest
    rw [hw] at happ
    match todo, hu, hw, happ with
    | [], _, _, happ =>
      have hlen := happ.length
      have : nalCutting.head = 4 := rfl
      simp only [List.flatten_nil, List.length_nil] at hlen
      omega
    | [x], hu, _, happ =>
      rw [List.flatten_singleton] at happ
      exact absurd happ ((hu x (by simp)).isUnit.not_cut List.prefix_rfl _ _)
    | x :: v :: us, hu, _, happ =>
      have hx := (hu x (by simp)).head_le
      have hv := (hu v (by simp)).head_le
      have hcut : nalCutting.Cut (x ++ (v :: us).flatten) x (v :: us).flatten := by
        refine (hu x (by simp)).isUnit.cut nalPrefix_unbordered ?_ ?_
        · exact (hu v (by simp)).starts.trans (List.prefix_append _ _)
        · have : nalCutting.least = 8 := rfl
          rw [List.flatten_cons, List.length_append]
          omega
      obtain ⟨rfl, hr⟩ := happ.unique hcut
      exact ⟨v :: us, rfl, hr, fun _ => List.cons_ne_nil _ _⟩

/-- The invariant of a run over whole units. -/
structure UnitsInv (G : ℕ) (units : List (List UInt8)) (s : StreamLoop) : Prop where
  fits : s.dstf.Fits
  maxlen : s.dstf.sqMaxlen = tMcParmsDhavStf
  reads : ∀ c ∈ s.reads, c.length ≤ G
  ret : 0 ≤ s.dstfRet
  layout : ∃ todo, units = s.frames ++ todo ∧ s.dstf.window ++ s.reads.flatten = todo.flatten ∧
    (units ≠ [] → todo ≠ [])
  idle : s.dstfRet = 0 → ∀ u r, ¬ nalCutting.Cut s.dstf.window u r

/-- An idle queue has space for the next read. -/
theorem UnitsInv.room {s : StreamLoop} (hu : ∀ u ∈ units, NalUnit u)
    (hlen : ∀ u ∈ units, u.length + G + 8 ≤ tMcParmsDhavStf) (h : UnitsInv G units s)
    (h0 : s.dstfRet = 0) {c : List UInt8} (hc : c ∈ s.reads) :
    s.dstf.sqLen + c.length ≤ s.dstf.sqMaxlen := by
  obtain ⟨todo, htodo, hw, -⟩ := h.layout
  have hG := h.reads c hc
  have hwlen := congrArg List.length hw
  rw [List.length_append, length_window] at hwlen
  rw [h.maxlen]
  match todo, htodo, hw, hwlen with
  | [], _, hw, hwlen =>
    have hcl : c.length ≤ s.reads.flatten.length := (List.sublist_flatten_of_mem hc).length_le
    simp only [List.flatten_nil, List.length_nil] at hwlen
    omega
  | [x], htodo, _, hwlen =>
    have hx := hlen x (by simp [htodo])
    simp only [List.flatten_singleton] at hwlen
    omega
  | x :: v :: us, htodo, hw, _ =>
    have hx := hlen x (by simp [htodo])
    have hx4 := (hu x (by simp [htodo])).head_le
    by_contra hfull
    obtain ⟨r, hcut⟩ := cut_of_units (fun y hy => hu y (by simp [htodo, hy])) hw
      (by rw [length_window]; omega) (by rw [length_window]; omega)
    exact h.idle h0 _ _ hcut

/-- One step keeps the invariant. -/
theorem UnitsInv.step {s t : StreamLoop} {m : ℕ} (hu : ∀ u ∈ units, NalUnit u)
    (hlen : ∀ u ∈ units, u.length + G + 8 ≤ tMcParmsDhavStf) (hm : tMcParmsDhavStf ≤ m)
    (h : UnitsInv G units s) (hst : StreamLoop.step .rawH264 m s = some t) : UnitsInv G units t := by
  obtain ⟨todo, htodo, hw, hne⟩ := h.layout
  rw [← StreamLoop.loaded_append_toCome] at hw
  have htodou : ∀ u ∈ todo, NalUnit u := fun u hmem => hu u (by simp [htodo, hmem])
  have hfits := StreamLoop.fits_step h.fits hst
  have hmaxr : t.dstf.sqMaxlen = tMcParmsDhavStf ∧ ∀ c ∈ t.reads, c.length ≤ G := by
    obtain ⟨-, rfl⟩ | ⟨-, c, cs, hr, rfl⟩ := StreamLoop.step_eq_some hst
    · exact ⟨(call_books _ h.fits _ _).sqMaxlen.trans h.maxlen, h.reads⟩
    · refine ⟨(call_books _ h.fits _ _).sqMaxlen.trans h.maxlen, ?_⟩
      intro x hx
      exact h.reads x (by rw [hr]; exact List.mem_cons_of_mem _ hx)
  obtain ⟨hreads, ⟨c, hc, h0, hfull, -⟩ | ⟨u, r, hcut, hmu, -⟩ | ⟨out, hturn, hfr, hret⟩⟩ :=
    StreamLoop.raw_step_cases hst
  · have := h.room hu hlen h0 hc
    omega
  · obtain ⟨us, hus, -, -⟩ := turn_of_units htodou hw (.cut hcut)
    have := hlen u (by simp [htodo, hus])
    omega
  · obtain ⟨us, hus, hw', hne'⟩ := turn_of_units htodou hw hturn
    refine ⟨hfits, hmaxr.1, hmaxr.2, ?_, ⟨us, ?_, ?_, fun h0 => hne' (hne h0)⟩, fun ht0 => ?_⟩
    · rw [hret]
      exact Int.natCast_nonneg _
    · rw [hfr, List.append_assoc, ← hus]
      exact htodo
    · rw [hreads]
      exact hw'
    · obtain rfl : out = [] := by
        rw [hret] at ht0
        exact List.length_eq_zero_iff.mp (Int.natCast_eq_zero.mp ht0)
      exact hturn.idle

/-- In the end the last unit is left. -/
theorem UnitsInv.last {s : StreamLoop} (hu : ∀ u ∈ units, NalUnit u) (h : UnitsInv G units s)
    (h0 : s.dstfRet = 0) (hr : s.reads = []) :
    s.frames = units.dropLast ∧ s.dstf.window = units.getLastD [] := by
  obtain ⟨todo, htodo, hw, hne⟩ := h.layout
  rw [hr, List.flatten_nil, List.append_nil] at hw
  match todo, htodo, hw, hne with
  | [], htodo, hw, hne =>
    obtain rfl : units = [] := by
      by_contra hunits
      exact hne hunits rfl
    exact ⟨(List.append_eq_nil_iff.mp htodo.symm).1, hw⟩
  | [x], htodo, hw, _ =>
    rw [htodo, hw, List.dropLast_concat, List.flatten_singleton]
    simp
  | x :: v :: us, htodo, hw, _ =>
    have hmem : ∀ y ∈ x :: v :: us, NalUnit y := fun y hy => hu y (by simp [htodo, hy])
    have hx := (hmem x (by simp)).head_le
    have hv := (hmem v (by simp)).head_le
    have hlen := congrArg List.length hw
    simp only [List.flatten_cons, List.length_append] at hlen
    have hw' : s.dstf.window ++ [] = (x :: v :: us).flatten := by
      rw [List.append_nil]
      exact hw
    obtain ⟨r, hcut⟩ := cut_of_units hmem hw' (by omega) (by omega)
    exact absurd hcut (h.idle h0 _ _)

/-- Every run over whole units keeps it. -/
theorem UnitsInv.run {sq below : ℕ → UInt8} {m : ℕ} {chunks : List (List UInt8)}
    (hm : tMcParmsDhavStf ≤ m) (hu : ∀ u ∈ units, NalUnit u)
    (hlen : ∀ u ∈ units, u.length + G + 8 ≤ tMcParmsDhavStf)
    (hchunks : chunks.flatten = units.flatten) (hsize : ∀ c ∈ chunks, c.length ≤ G) {t : StreamLoop}
    (ht : Reach (StreamLoop.step .rawH264 m) (.start (dstfInit sq below) chunks) t) :
    UnitsInv G units t := by
  have hinit : UnitsInv G units (.start (dstfInit sq below) chunks) :=
    ⟨dstfInit_fits sq below, rfl, hsize, le_rfl, ⟨units, rfl, hchunks, id⟩,
      fun _ => nalCutting.not_cut_nil⟩
  exact ht.invariant (fun _ _ hs hst => hs.step hu hlen hm hst) hinit

/-- In such a run every queue that is looked at starts with a start code. -/
theorem UnitsInv.keeps {s : StreamLoop} (hu : ∀ u ∈ units, NalUnit u) (h : UnitsInv G units s) :
    ¬ s.LosesStartCode := by
  intro hl
  obtain ⟨todo, htodo, hw, -⟩ := h.layout
  rw [← StreamLoop.loaded_append_toCome] at hw
  have h8 : 8 ≤ s.loaded.length := hl.long
  refine hl.none 0 (firstAt_of_units (fun u hmem => hu u ?_) hw (by omega)).stands
  rw [htodo]
  exact List.mem_append_right _ hmem

/-- The raw loop always ends. -/
theorem raw_halts (sq below : ℕ → UInt8) (m : ℕ) (chunks : List (List UInt8)) :
    ∃ l, Halts (StreamLoop.step .rawH264 m) (.start (dstfInit sq below) chunks) l :=
  (StreamLoop.halts_iff (f := .rawH264) (m := m) (s := .start (dstfInit sq below) chunks)
    (dstfInit_fits sq below)).mpr fun _ _ _ hz => nomatch hz.dhav

/-- **A raw H.264 stream of whole units comes out unit by unit.**  Units of up to `sq_maxlen - G - 8`
bytes, read in any pieces of 1 to `G` bytes: no call returns a negative value, the input is used up,
every unit but the last is emitted, and the last one stays in the queue. -/
theorem raw_split (sq below : ℕ → UInt8) (G maxDstLen : ℕ) (units chunks : List (List UInt8))
    (hdst : tMcParmsDhavStf ≤ maxDstLen) (hunits : ∀ u ∈ units, NalUnit u)
    (hlen : ∀ u ∈ units, u.length + G + 8 ≤ tMcParmsDhavStf)
    (hchunks : chunks.flatten = units.flatten) (hsize : ∀ c ∈ chunks, 1 ≤ c.length ∧ c.length ≤ G) :
    ∃ l, Halts (StreamLoop.step .rawH264 maxDstLen) (.start (dstfInit sq below) chunks) l ∧
      (∀ t, Reach (StreamLoop.step .rawH264 maxDstLen) (.start (dstfInit sq below) chunks) t →
        0 ≤ t.dstfRet) ∧
      l.reads = [] ∧ l.frames = units.dropLast ∧ l.dstf.window = units.getLastD [] := by
  have hrun : ∀ t, Reach (StreamLoop.step .rawH264 maxDstLen) (.start (dstfInit sq below) chunks) t →
      UnitsInv G units t :=
    fun t ht => UnitsInv.run hdst hunits hlen hchunks (fun c hc => (hsize c hc).2) ht
  obtain ⟨l, hl⟩ := raw_halts sq below maxDstLen chunks
  have hinv := hrun l hl.1
  obtain hneg | ⟨h0, hreads⟩ := StreamLoop.step_eq_none hl.2
  · exact absurd hinv.ret (not_le.mpr hneg)
  · exact ⟨l, hl, fun t ht => (hrun t ht).ret, hreads, hinv.last hunits h0 hreads⟩

end Whole

/-- Units of five and four bytes. -/
def twoUnits : List (List UInt8) := [[0x00, 0x00, 0x01, 0xb6, 0x00], [0x00, 0x00, 0x01, 0xb2]]

/-- The same bytes in pieces that divide both start codes. -/
def twoUnitsDivided : List (List UInt8) := [[0x00, 0x00], [0x01, 0xb6, 0x00, 0x00], [0x00, 0x01, 0xb2]]

theorem twoUnits_units : ∀ u ∈ twoUnits, NalUnit u := by
  intro u hu
  simp only [twoUnits, List.mem_cons, List.not_mem_nil, or_false] at hu
  rcases hu with rfl | rfl
  all_goals
    refine ⟨by decide, by decide, ?_⟩
    intro j hj hp
    have hle := hp.length_le
    simp only [nalPrefix, List.length_drop, List.length_cons, List.length_nil] at hle
    omega

theorem raw_split_divided :
    ∃ l, Halts (StreamLoop.step .rawH264 2000000) (.start (dstfInit (fun _ => 0) (fun _ => 0))
        twoUnitsDivided) l ∧
      (∀ t, Reach (StreamLoop.step .rawH264 2000000) (.start (dstfInit (fun _ => 0) (fun _ => 0))
        twoUnitsDivided) t → 0 ≤ t.dstfRet) ∧
      l.reads = [] ∧ l.frames = twoUnits.dropLast ∧ l.dstf.window = twoUnits.getLastD [] :=
  raw_split _ _ 10000 2000000 twoUnits twoUnitsDivided (by decide) twoUnits_units (by decide) rfl
    (by decide)

/-! ### Any stream -/

/-- The invariant of a run that has lost no start code: the frames emitted are the first of the units
`us` of the stream, and the others are still to come. -/
structure FramesInv (us : List (List UInt8)) (s : StreamLoop) : Prop where
  units : ∃ us', us = s.frames ++ us' ∧ nalCutting.Units (s.dstf.window ++ s.reads.flatten) us'
  idle : s.dstfRet = 0 → ∀ u r, ¬ nalCutting.Cut s.dstf.window u r

/-- A step that loses no start code and returns no negative value keeps it. -/
theorem FramesInv.step {us : List (List UInt8)} {s t : StreamLoop} {m : ℕ} (h : FramesInv us s)
    (hst : StreamLoop.step .rawH264 m s = some t) (hl : ¬ s.LosesStartCode) (hret : 0 ≤ t.dstfRet) :
    FramesInv us t := by
  obtain ⟨us', rfl, hus'⟩ := h.units
  rw [← StreamLoop.loaded_append_toCome] at hus'
  obtain ⟨hreads, ⟨-, -, -, -, hneg⟩ | ⟨-, -, -, -, hneg⟩ | ⟨out, hturn, hfr, ht⟩⟩ :=
    StreamLoop.raw_step_cases hst
  · omega
  · omega
  · obtain ⟨us'', rfl, hus''⟩ := (hturn.units hl).mp hus'
    refine ⟨⟨us'', ?_, ?_⟩, fun h0 => ?_⟩
    · rw [hfr, List.append_assoc]
    · rw [hreads]
      exact hus''
    · obtain rfl : out = [] := by
        rw [ht] at h0
        exact List.length_eq_zero_iff.mp (Int.natCast_eq_zero.mp h0)
      exact hturn.idle

/-- The run of the loop over a stream that is read as `chunks` has no negative result and loses no
start code. -/
structure KeepsStartCodes (d : Dstf) (maxDstLen : ℕ) (chunks : List (List UInt8)) : Prop where
  nonneg : ∀ t, Reach (StreamLoop.step .rawH264 maxDstLen) (.start d chunks) t → 0 ≤ t.dstfRet
  keeps : ∀ t, Reach (StreamLoop.step .rawH264 maxDstLen) (.start d chunks) t → ¬ t.LosesStartCode

/-- A run over whole units is one. -/
theorem keepsStartCodes_of_units {sq below : ℕ → UInt8} {m : ℕ} {units chunks : List (List UInt8)}
    (G : ℕ) (hm : tMcParmsDhavStf ≤ m) (hu : ∀ u ∈ units, NalUnit u)
    (hlen : ∀ u ∈ units, u.length + G + 8 ≤ tMcParmsDhavStf)
    (hchunks : chunks.flatten = units.flatten) (hsize : ∀ c ∈ chunks, c.length ≤ G) :
    KeepsStartCodes (dstfInit sq below) m chunks := by
  have hrun : ∀ t, Reach (StreamLoop.step .rawH264 m) (.start (dstfInit sq below) chunks) t →
      UnitsInv G units t :=
    fun _ ht => UnitsInv.run hm hu hlen hchunks hsize ht
  exact ⟨fun t ht => (hrun t ht).ret, fun t ht => (hrun t ht).keeps hu⟩

/-- **Such a run emits all units of the stream.** -/
theorem KeepsStartCodes.frames {sq below : ℕ → UInt8} {m : ℕ} {chunks us : List (List UInt8)}
    (h : KeepsStartCodes (dstfInit sq below) m chunks) (hus : nalCutting.Units chunks.flatten us) :
    ∃ l, Halts (StreamLoop.step .rawH264 m) (.start (dstfInit sq below) chunks) l ∧
      l.frames = us := by
  have hinit : FramesInv us (.start (dstfInit sq below) chunks) :=
    ⟨⟨us, rfl, hus⟩, fun _ => nalCutting.not_cut_nil⟩
  have hrun : ∀ t, Reach (StreamLoop.step .rawH264 m) (.start (dstfInit sq below) chunks) t →
      FramesInv us t := by
    intro t ht
    induction ht with
    | refl => exact hinit
    | tail hs hst ih => exact ih.step hst (h.keeps _ hs) (h.nonneg _ (hs.tail hst))
  obtain ⟨l, hl⟩ := raw_halts sq below m chunks
  obtain hneg | ⟨h0, hreads⟩ := StreamLoop.step_eq_none hl.2
  · exact absurd (h.nonneg l hl.1) (not_le.mpr hneg)
  · obtain ⟨us', rfl, hus'⟩ := (hrun l hl.1).units
    rw [hreads, List.flatten_nil, List.append_nil] at hus'
    obtain rfl := hus'.unique (.last ((hrun l hl.1).idle h0))
    exact ⟨l, hl, (List.append_nil _).symm⟩

/-- **The frames of a raw H.264 stream do not depend on how it is read**, wherever it starts and with
any garbage, if neither run throws away a queue whose end divides a start code. -/
theorem raw_frames_of_reads (sq below sq' below' : ℕ → UInt8) (m m' : ℕ)
    (chunks chunks' : List (List UInt8)) (heq : chunks.flatten = chunks'.flatten)
    (h : KeepsStartCodes (dstfInit sq below) m chunks)
    (h' : KeepsStartCodes (dstfInit sq' below') m' chunks') :
    ∃ l l', Halts (StreamLoop.step .rawH264 m) (.start (dstfInit sq below) chunks) l ∧
      Halts (StreamLoop.step .rawH264 m') (.start (dstfInit sq' below') chunks') l' ∧
      l.frames = l'.frames := by
  obtain ⟨us, hus⟩ := Cutting.Units.exists nalCutting chunks.flatten
  obtain ⟨l, hl, rfl⟩ := h.frames hus
  obtain ⟨l', hl', hfr⟩ := h'.frames (heq ▸ hus)
  exact ⟨l, l', hl, hl', hfr.symm⟩

theorem raw_frames_of_reads_divided :
    ∃ l l', Halts (StreamLoop.step .rawH264 2000000) (.start (dstfInit (fun _ => 0) (fun _ => 0))
        twoUnits) l ∧
      Halts (StreamLoop.step .rawH264 1000000) (.start (dstfInit (fun _ => 1) (fun _ => 1))
        twoUnitsDivided) l' ∧ l.frames = l'.frames :=
  raw_frames_of_reads _ _ _ _ 2000000 1000000 twoUnits twoUnitsDivided rfl
    (keepsStartCodes_of_units 10 (by decide) twoUnits_units (by decide) rfl (by decide))
    (keepsStartCodes_of_units 10 (by decide) twoUnits_units (by decide) rfl (by decide))

/-- Six bytes of garbage, a frame and the start code of the next one. -/
def garbledStream : List UInt8 :=
  [0xff, 0xff, 0xff, 0xff, 0xff, 0xff, 0x00, 0x00, 0x01, 0xb6, 0x40, 0x00, 0x00, 0x01, 0xb6]

/-- The result of a run that ends well was never negative. -/
theorem StreamLoop.nonneg_of_halts {f : McFormat} {m : ℕ} {s l t : StreamLoop}
    (hl : Halts (StreamLoop.step f m) s l) (h : 0 ≤ l.dstfRet) (ht : Reach (StreamLoop.step f m) s t) :
    0 ≤ t.dstfRet := by
  by_contra hneg
  have hstop : StreamLoop.step f m t = none := by
    rw [StreamLoop.step, if_neg (by omega), if_pos (by omega)]
  obtain rfl := Reach.eq_of_stopped hstop (hl.of_reach ht).1
  exact hneg h

/-- Read at once it gives the frame; read as 8 and 7 bytes it gives none. -/
theorem start_code_lost :
    ¬ ∀ (sq below : ℕ → UInt8) (m : ℕ) (chunks chunks' : List (List UInt8)) (l l' : StreamLoop),
      chunks.flatten = chunks'.flatten →
      Halts (StreamLoop.step .rawH264 m) (.start (dstfInit sq below) chunks) l →
      Halts (StreamLoop.step .rawH264 m) (.start (dstfInit sq below) chunks') l' →
      (∀ t, Reach (StreamLoop.step .rawH264 m) (.start (dstfInit sq below) chunks) t →
        0 ≤ t.dstfRet) →
      (∀ t, Reach (StreamLoop.step .rawH264 m) (.start (dstfInit sq below) chunks') t →
        0 ≤ t.dstfRet) → l.frames = l'.frames := by
  intro h
  have hend : ∀ chunks : List (List UInt8),
      StreamLoop.step .rawH264 1000000 (runFor (StreamLoop.step .rawH264 1000000) 4
        (.start (dstfInit (fun _ => 0) (fun _ => 0)) chunks)) = none →
      Halts (StreamLoop.step .rawH264 1000000) (.start (dstfInit (fun _ => 0) (fun _ => 0)) chunks)
        (runFor (StreamLoop.step .rawH264 1000000) 4
          (.start (dstfInit (fun _ => 0) (fun _ => 0)) chunks)) :=
    fun chunks hstop => ⟨reach_runFor 4 _, hstop⟩
  have hwhole := hend [garbledStream] rfl
  have hcut := hend [garbledStream.take 8, garbledStream.drop 8] rfl
  have heq := h (fun _ => 0) (fun _ => 0) 1000000 [garbledStream]
    [garbledStream.take 8, garbledStream.drop 8] _ _ rfl hwhole hcut
    (fun t ht => StreamLoop.nonneg_of_halts hwhole (by decide) ht)
    (fun t ht => StreamLoop.nonneg_of_halts hcut (by decide) ht)
  exact absurd heq (by decide)

end TaniDVR
