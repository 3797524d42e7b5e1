import Mathlib.Data.List.Infix
import Mathlib.Tactic.Common

/-!
# Lib.Delimited — units that start with a delimiter

A stream is cut at a delimiter `pat`: a unit reaches from one delimiter to the next one that stands
`head` elements or more behind its start.  `Cutting.Cut w u r` says that `u` is the first unit of `w`
and `r` what is left; `Cutting.Units w us` that `us` are all of them, the last one, whose end is not
known, left out.

`Cutting.Turn` is one turn of a scanner that holds a window of the stream and gets the stream in
pieces: it looks at nothing shorter than `least`, drops what stands before the first delimiter, and
drops everything where there is none.  That is the right thing to do (`Turn.units`) except where the
end of the window divides a delimiter (`Divides`).
-/

namespace Lib

variable {α : Type*}

/-- `pat` stands at index `k` of `w`. -/
def StandsAt (pat w : List α) (k : ℕ) : Prop := pat <+: w.drop k

/-- The first place from `a` on where `pat` stands. -/
structure FirstAt (pat w : List α) (a k : ℕ) : Prop where
  le : a ≤ k
  stands : StandsAt pat w k
  first : ∀ j, a ≤ j → j < k → ¬ StandsAt pat w j

/-- The end of `w` divides a place where `pat` stands in `w ++ t`. -/
def Divides (pat w t : List α) : Prop :=
  ∃ j, j < w.length ∧ w.length < j + pat.length ∧ StandsAt pat (w ++ t) j

/-- No end of `pat` is a beginning of it. -/
def Unbordered (pat : List α) : Prop :=
  ∀ k, 0 < k → k < pat.length → pat.drop k ≠ pat.take (pat.length - k)

variable {pat w t u v r : List α} {a j k n : ℕ}

theorem StandsAt.le (hp : pat ≠ []) (h : StandsAt pat w k) : k + pat.length ≤ w.length := by
  have hlen := h.length_le
  have hpos := List.length_pos_iff.mpr hp
  rw [List.length_drop] at hlen
  omega

theorem standsAt_drop : StandsAt pat (w.drop n) j ↔ StandsAt pat w (n + j) := by
  rw [StandsAt, StandsAt, List.drop_drop]

/-- What comes behind does not matter. -/
theorem standsAt_append (h : j + pat.length ≤ w.length) :
    StandsAt pat (w ++ t) j ↔ StandsAt pat w j := by
  rw [StandsAt, StandsAt, List.drop_append_of_le_length (by omega)]
  constructor
  · intro hs
    refine List.prefix_of_prefix_length_le hs (List.prefix_append _ _) ?_
    rw [List.length_drop]
    omega
  · exact fun hs => hs.trans (List.prefix_append _ _)

/-- Nor what comes before. -/
theorem standsAt_append_right : StandsAt pat (w ++ t) (w.length + j) ↔ StandsAt pat t j := by
  rw [StandsAt, StandsAt, List.drop_length_add_append]

theorem FirstAt.unique (h : FirstAt pat w a j) (h' : FirstAt pat w a k) : j = k := by
  rcases lt_trichotomy j k with hlt | heq | hlt
  · exact absurd h.stands (h'.first j h.le hlt)
  · exact heq
  · exact absurd h'.stands (h.first k h'.le hlt)

theorem FirstAt.append (hp : pat ≠ []) (h : FirstAt pat w a k) (t : List α) :
    FirstAt pat (w ++ t) a k := by
  have hk := h.stands.le hp
  refine ⟨h.le, (standsAt_append hk).mpr h.stands, ?_⟩
  intro j hj hjk hs
  exact h.first j hj hjk ((standsAt_append (by omega)).mp hs)

/-- Where it stands at the head, the head is the first place. -/
theorem FirstAt.eq_zero (h : FirstAt pat w 0 k) (hp : pat <+: w) : k = 0 := by
  by_contra hne
  exact h.first 0 le_rfl (Nat.pos_of_ne_zero hne) hp

/-- Behind the first place it stands at the head. -/
theorem FirstAt.drop (h : FirstAt pat w 0 k) : FirstAt pat (w.drop k) 0 0 :=
  ⟨le_rfl, standsAt_drop.mpr h.stands, fun _ _ hj => absurd hj (Nat.not_lt_zero _)⟩

/-- Places in `w ++ t`, when there is none in `w` and none is divided. -/
theorem standsAt_behind (hnone : ∀ j, ¬ StandsAt pat w j) (hdiv : ¬ Divides pat w t) :
    StandsAt pat (w ++ t) j ↔ ∃ i, j = w.length + i ∧ StandsAt pat t i := by
  constructor
  · intro hs
    have hle : w.length ≤ j := by
      by_contra hlt
      rcases Nat.lt_or_ge w.length (j + pat.length) with hd | hd
      · exact hdiv ⟨j, not_le.mp hlt, hd, hs⟩
      · exact hnone j ((standsAt_append hd).mp hs)
    obtain ⟨i, rfl⟩ := Nat.exists_eq_add_of_le hle
    exact ⟨i, rfl, standsAt_append_right.mp hs⟩
  · rintro ⟨i, rfl, hs⟩
    exact standsAt_append_right.mpr hs

theorem firstAt_behind (hnone : ∀ j, ¬ StandsAt pat w j) (hdiv : ¬ Divides pat w t) :
    FirstAt pat (w ++ t) 0 k ↔ ∃ i, k = w.length + i ∧ FirstAt pat t 0 i := by
  have hiff := fun j => standsAt_behind (j := j) hnone hdiv
  constructor
  · intro h
    obtain ⟨i, rfl, hs⟩ := (hiff k).mp h.stands
    refine ⟨i, rfl, Nat.zero_le _, hs, ?_⟩
    intro j _ hj hsj
    exact h.first (w.length + j) (Nat.zero_le _) (by omega) (standsAt_append_right.mpr hsj)
  · rintro ⟨i, rfl, h⟩
    refine ⟨Nat.zero_le _, standsAt_append_right.mpr h.stands, ?_⟩
    intro j _ hj hsj
    obtain ⟨i', rfl, hs⟩ := (hiff j).mp hsj
    exact h.first i' (Nat.zero_le _) (by omega) hs

/-- **An unbordered delimiter does not straddle the place where another one starts.** -/
theorem Unbordered.not_straddle (hu : Unbordered pat) (hv : pat <+: v) (hj : j < w.length)
    (hw : w.length < j + pat.length) : ¬ StandsAt pat (w ++ v) j := by
  obtain ⟨v', rfl⟩ := hv
  intro hs
  have hk : w.length - j < pat.length := by omega
  refine hu (w.length - j) (by omega) hk ?_
  -- both are what stands at the end of `w`, as far as the first place reaches
  rw [StandsAt, List.drop_append_of_le_length hj.le, List.prefix_iff_eq_take] at hs
  have hl : (w.drop j).length = w.length - j := List.length_drop
  calc pat.drop (w.length - j)
      = ((w.drop j ++ (pat ++ v')).take pat.length).drop (w.length - j) := by rw [← hs]
    _ = ((w.drop j ++ (pat ++ v')).drop (w.length - j)).take (pat.length - (w.length - j)) := by
        rw [List.drop_take]
    _ = (pat ++ v').take (pat.length - (w.length - j)) := by rw [← hl, List.drop_left]
    _ = pat.take (pat.length - (w.length - j)) := List.take_append_of_le_length (Nat.sub_le _ _)

/-- How a stream is cut. -/
structure Cutting (α : Type*) where
  /-- the delimiter -/
  pat : List α
  /-- the next delimiter is looked for behind this many elements -/
  head : ℕ
  /-- nothing shorter is looked at -/
  least : ℕ
  pat_ne : pat ≠ []
  pat_le : pat.length ≤ head
  head_le : head ≤ least

namespace Cutting

variable {C : Cutting α} {us : List (List α)}

/-- The first unit of `w` starts at `k` and has `n` elements. -/
structure CutAt (C : Cutting α) (w : List α) (k n : ℕ) : Prop where
  start : FirstAt C.pat w 0 k
  long : C.least ≤ (w.drop k).length
  next : FirstAt C.pat (w.drop k) C.head n

/-- `u` is the first unit of `w`, and `r` is what comes behind it. -/
def Cut (C : Cutting α) (w u r : List α) : Prop :=
  ∃ k n, C.CutAt w k n ∧ u = (w.drop k).take n ∧ r = (w.drop k).drop n

/-- All units of `w`. -/
inductive Units (C : Cutting α) : List α → List (List α) → Prop
  | last {w : List α} : (∀ u r, ¬ C.Cut w u r) → Units C w []
  | cut {w u r : List α} {us : List (List α)} : C.Cut w u r → Units C r us → Units C w (u :: us)

theorem head_pos (C : Cutting α) : 0 < C.head :=
  lt_of_lt_of_le (List.length_pos_iff.mpr C.pat_ne) C.pat_le

theorem CutAt.next_le {k n : ℕ} (h : C.CutAt w k n) : k + n + C.pat.length ≤ w.length := by
  have h1 := h.next.stands.le C.pat_ne
  have h2 := h.start.stands.le C.pat_ne
  rw [List.length_drop] at h1
  omega

theorem Cut.unique {u' r' : List α} (h : C.Cut w u r) (h' : C.Cut w u' r') : u = u' ∧ r = r' := by
  obtain ⟨k, n, hc, rfl, rfl⟩ := h
  obtain ⟨k', n', hc', rfl, rfl⟩ := h'
  obtain rfl := hc.start.unique hc'.start
  obtain rfl := hc.next.unique hc'.next
  exact ⟨rfl, rfl⟩

/-- A unit is as long as its head, and found with the delimiter behind it. -/
theorem Cut.length (h : C.Cut w u r) :
    C.head ≤ u.length ∧ u.length + r.length ≤ w.length ∧ C.pat <+: r := by
  obtain ⟨k, n, hc, rfl, rfl⟩ := h
  have hle := hc.next_le
  have hn := hc.next.le
  rw [List.length_take, List.length_drop, List.length_drop, List.length_drop]
  exact ⟨by omega, by omega, hc.next.stands⟩

theorem not_cut_nil (C : Cutting α) (u r : List α) : ¬ C.Cut [] u r := by
  intro h
  have hlen := h.length
  have hpos := C.head_pos
  rw [List.length_nil] at hlen
  omega

/-- **A unit that is found stays found.** -/
theorem Cut.append (h : C.Cut w u r) (t : List α) : C.Cut (w ++ t) u (r ++ t) := by
  obtain ⟨k, n, hc, rfl, rfl⟩ := h
  have hle := hc.next_le
  have hd : (w ++ t).drop k = w.drop k ++ t := List.drop_append_of_le_length (by omega)
  have hlen : n ≤ (w.drop k).length := by
    rw [List.length_drop]
    omega
  refine ⟨k, n, ⟨hc.start.append C.pat_ne t, ?_, ?_⟩, ?_, ?_⟩
  · rw [hd, List.length_append]
    exact hc.long.trans (Nat.le_add_right _ _)
  · rw [hd]
    exact hc.next.append C.pat_ne t
  · rw [hd, List.take_append_of_le_length hlen]
  · rw [hd, List.drop_append_of_le_length hlen]

/-- Dropping what stands before the first delimiter changes nothing. -/
theorem cut_drop {k : ℕ} (h : FirstAt C.pat w 0 k) : C.Cut (w.drop k) u r ↔ C.Cut w u r := by
  constructor
  · rintro ⟨k', n, hc, rfl, rfl⟩
    obtain rfl := hc.start.unique h.drop
    exact ⟨k, n, ⟨h, hc.long, hc.next⟩, rfl, rfl⟩
  · rintro ⟨k', n, hc, rfl, rfl⟩
    obtain rfl := hc.start.unique h
    exact ⟨0, n, ⟨h.drop, hc.long, hc.next⟩, rfl, rfl⟩

/-- Nor does dropping a piece without a delimiter, if its end divides none. -/
theorem cut_behind (hnone : ∀ j, ¬ StandsAt C.pat w j) (hdiv : ¬ Divides C.pat w t) :
    C.Cut (w ++ t) u r ↔ C.Cut t u r := by
  have hfirst := fun k => firstAt_behind (k := k) hnone hdiv
  constructor
  · rintro ⟨k, n, ⟨hs, hl, hn⟩, rfl, rfl⟩
    obtain ⟨i, rfl, hi⟩ := (hfirst k).mp hs
    rw [List.drop_length_add_append] at hl hn ⊢
    exact ⟨i, n, ⟨hi, hl, hn⟩, rfl, rfl⟩
  · rintro ⟨i, n, ⟨hs, hl, hn⟩, rfl, rfl⟩
    refine ⟨w.length + i, n, ⟨(hfirst _).mpr ⟨i, rfl, hs⟩, ?_, ?_⟩, ?_, ?_⟩ <;>
      rw [List.drop_length_add_append]
    · exact hl
    · exact hn

/-! ### All units -/

theorem Units.unique {us' : List (List α)} (h : C.Units w us) (h' : C.Units w us') : us = us' := by
  induction h generalizing us' with
  | last hn =>
    cases h' with
    | last _ => rfl
    | cut hc _ => exact absurd hc (hn _ _)
  | cut hc _ ih =>
    cases h' with
    | last hn => exact absurd hc (hn _ _)
    | cut hc' hr =>
      obtain ⟨rfl, rfl⟩ := hc.unique hc'
      rw [ih hr]

theorem Units.exists (C : Cutting α) (w : List α) : ∃ us, C.Units w us := by
  induction hn : w.length using Nat.strongRecOn generalizing w with
  | _ n ih =>
    by_cases hc : ∃ u r, C.Cut w u r
    · obtain ⟨u, r, hc⟩ := hc
      have hlen := hc.length
      have hpos := C.head_pos
      obtain ⟨us, hus⟩ := ih r.length (by omega) r rfl
      exact ⟨u :: us, .cut hc hus⟩
    · exact ⟨[], .last fun u r h => hc ⟨u, r, h⟩⟩

/-- The units depend on how a stream is cut only. -/
theorem units_congr {w' : List α} (h : ∀ u r, C.Cut w u r ↔ C.Cut w' u r) :
    C.Units w us ↔ C.Units w' us := by
  constructor
  · rintro (hn | ⟨hc, hr⟩)
    · exact .last fun u r hc => hn u r ((h u r).mpr hc)
    · exact .cut ((h _ _).mp hc) hr
  · rintro (hn | ⟨hc, hr⟩)
    · exact .last fun u r hc => hn u r ((h u r).mp hc)
    · exact .cut ((h _ _).mpr hc) hr

/-! ### Streams of whole units -/

/-- A unit by itself. -/
structure IsUnit (C : Cutting α) (u : List α) : Prop where
  starts : C.pat <+: u
  head_le : C.head ≤ u.length
  whole : ∀ j, C.head ≤ j → ¬ StandsAt C.pat u j

theorem IsUnit.firstAt_zero (h : C.IsUnit u) (t : List α) : FirstAt C.pat (u ++ t) 0 0 :=
  ⟨le_rfl, h.starts.trans (List.prefix_append _ _), fun _ _ hj => absurd hj (Nat.not_lt_zero _)⟩

/-- The next delimiter behind a unit is that of the next unit. -/
theorem IsUnit.firstAt_length (hub : Unbordered C.pat) (h : C.IsUnit u) (hv : C.pat <+: v) :
    FirstAt C.pat (u ++ v) C.head u.length := by
  refine ⟨h.head_le, ?_, ?_⟩
  · rw [StandsAt, List.drop_left]
    exact hv
  · intro j hj hju hs
    rcases Nat.lt_or_ge u.length (j + C.pat.length) with hd | hd
    · exact hub.not_straddle hv hju hd hs
    · exact h.whole j hj ((standsAt_append hd).mp hs)

/-- **A unit is cut off before the next one**, where there is enough to look at. -/
theorem IsUnit.cut (hub : Unbordered C.pat) (h : C.IsUnit u) (hv : C.pat <+: v)
    (hlong : C.least ≤ u.length + v.length) : C.Cut (u ++ v) u v := by
  refine ⟨0, u.length, ⟨h.firstAt_zero v, ?_, h.firstAt_length hub hv⟩, ?_, ?_⟩
  · rw [List.drop_zero, List.length_append]
    exact hlong
  · rw [List.drop_zero, List.take_left]
  · rw [List.drop_zero, List.drop_left]

/-- In a part of a unit nothing is cut off. -/
theorem IsUnit.not_cut (h : C.IsUnit u) (hw : w <+: u) (x y : List α) : ¬ C.Cut w x y := by
  obtain ⟨s, rfl⟩ := hw
  rintro ⟨k, n, hc, -, -⟩
  have hst := (hc.next.append C.pat_ne s).stands
  have hle := hc.next_le
  rw [← List.drop_append_of_le_length (by omega), standsAt_drop] at hst
  exact h.whole (k + n) (by have := hc.next.le; omega) hst

/-- What is cut off is a unit. -/
theorem Cut.isUnit (h : C.Cut w u r) : C.IsUnit u := by
  have hlen := h.length
  obtain ⟨k, n, hc, rfl, rfl⟩ := h
  have hhead := hc.next.le
  have hpat := C.pat_le
  refine ⟨List.prefix_take_iff.mpr ⟨hc.start.drop.stands, by omega⟩, hlen.1, fun j hj hs => ?_⟩
  have hle := hs.le C.pat_ne
  rw [List.length_take] at hle
  refine hc.next.first j hj (by have := List.length_pos_iff.mpr C.pat_ne; omega) ?_
  rw [← List.take_append_drop n (w.drop k)]
  exact (standsAt_append (by rw [List.length_take]; omega)).mpr hs

/-! ### A scanner -/

/-- One turn of a scanner: the units it puts out and the window it keeps. -/
inductive Turn (C : Cutting α) (w : List α) : List (List α) → List α → Prop
  | short : w.length < C.least → Turn C w [] w
  | discard : C.least ≤ w.length → (∀ j, ¬ StandsAt C.pat w j) → Turn C w [] []
  | skip {k : ℕ} : FirstAt C.pat w 0 k → (∀ u r, ¬ C.Cut w u r) → Turn C w [] (w.drop k)
  | cut {u r : List α} : C.Cut w u r → Turn C w [u] r

/-- The scanner loses a delimiter of the stream: there is none in its window `w`, but the end of the
window divides one. -/
structure Loses (C : Cutting α) (w t : List α) : Prop where
  long : C.least ≤ w.length
  none : ∀ j, ¬ StandsAt C.pat w j
  divides : Divides C.pat w t

/-- A turn without a unit leaves none. -/
theorem Turn.idle {w' : List α} (h : C.Turn w [] w') : ∀ u r, ¬ C.Cut w' u r := by
  intro u r hc
  cases h with
  | short hlt =>
    obtain ⟨k, n, hc, -, -⟩ := hc
    have := hc.long
    rw [List.length_drop] at this
    omega
  | discard _ _ => exact C.not_cut_nil u r hc
  | skip hf hn => exact hn u r ((cut_drop hf).mp hc)

/-- **A turn drops nothing but what stands before the first delimiter**, and leaves a window that
starts with one behind a unit. -/
theorem Turn.contiguous {out : List (List α)} {w' : List α} (h : C.Turn w out w') :
    (∀ u ∈ out, C.IsUnit u) ∧ (C.pat <+: w ∨ out ≠ [] → C.pat <+: w') ∧
      ∃ dropped, w = dropped ++ out.flatten ++ w' ∧ (C.pat <+: w → dropped = []) := by
  cases h with
  | short _ => exact ⟨nofun, fun h => h.resolve_right (· rfl), [], rfl, fun _ => rfl⟩
  | discard _ hnone =>
    have hno : ¬ C.pat <+: w := fun hp => hnone 0 hp
    exact ⟨nofun, fun h => absurd h (by simp [hno]), w, by simp, fun hp => absurd hp hno⟩
  | @skip k hf _ =>
    exact ⟨nofun, fun _ => hf.stands, w.take k, by simp, fun hp => by
      rw [hf.eq_zero hp, List.take_zero]⟩
  | @cut u _ hc =>
    refine ⟨fun x hx => List.mem_singleton.mp hx ▸ hc.isUnit, fun _ => hc.length.2.2, ?_⟩
    obtain ⟨k, n, hcut, rfl, rfl⟩ := hc
    exact ⟨w.take k, by simp, fun hp => by rw [hcut.start.eq_zero hp, List.take_zero]⟩

/-- **A turn puts out the first units of the stream** and leaves the others, unless it loses a
delimiter. -/
theorem Turn.units {out : List (List α)} {w' : List α} (h : C.Turn w out w') (hl : ¬ C.Loses w t) :
    C.Units (w ++ t) us ↔ ∃ us', us = out ++ us' ∧ C.Units (w' ++ t) us' := by
  have same : ∀ {w' : List α}, (∀ u r, C.Cut (w ++ t) u r ↔ C.Cut (w' ++ t) u r) →
      (C.Units (w ++ t) us ↔ ∃ us', us = [] ++ us' ∧ C.Units (w' ++ t) us') := by
    intro w' hc
    rw [units_congr hc]
    simp
  cases h with
  | short _ => exact same fun _ _ => Iff.rfl
  | discard hlong hnone =>
    have hdiv : ¬ Divides C.pat w t := fun hd => hl ⟨hlong, hnone, hd⟩
    exact same fun _ _ => cut_behind hnone hdiv
  | @skip k hf _ =>
    refine same fun u r => ?_
    have hk := hf.stands.le C.pat_ne
    rw [← cut_drop (hf.append C.pat_ne t), List.drop_append_of_le_length (by omega)]
  | @cut u r hc =>
    constructor
    · rintro (hn | ⟨hc', hr⟩)
      · exact absurd (hc.append t) (hn _ _)
      · obtain ⟨rfl, rfl⟩ := (hc.append t).unique hc'
        exact ⟨_, rfl, hr⟩
    · rintro ⟨us', rfl, hr⟩
      exact .cut (hc.append t) hr

end Cutting

end Lib
