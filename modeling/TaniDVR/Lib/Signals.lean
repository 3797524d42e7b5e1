import Mathlib.Logic.Function.Basic
import Mathlib.Logic.Relation
import Mathlib.Tactic.Common

/-!
# Lib.Signals — a process and the signals that are sent to it

A process runs a list of operations, among them those that block signals and say what is done with
them, and may be sent a signal between any two of these.  What handlers write is apart (`flags`);
the rest, its `Frame`, does not depend on the signals that come, so that what all frames of a
program satisfy can be checked on the program alone (`Along`).

`Noted` says that a signal that was sent is pending, or has killed the process, or has been noted.
Where each frame catches the signal, be it that it is blocked, that it kills, or that its handler
makes the note, none is lost (`Noted.step`); and what is pending is blocked (`Held.step`).
-/

namespace Lib

/-- What is done with a signal. -/
inductive Disposition
  | default | ignored | handled
  deriving DecidableEq, Repr

/-- What signals do not change: the variables that no handler writes, what is blocked, and what is
done with each signal. -/
structure Frame (σ κ : Type*) where
  vars : κ
  blocked : σ → Bool
  disposition : σ → Disposition

/-- A process; `raised` are the signals that were sent to it. -/
structure Process (σ κ φ : Type*) where
  frame : Frame σ κ
  flags : φ
  pending : σ → Bool
  raised : σ → Bool
  killed : Bool

/-- Which default actions kill, and what the handlers write; `none` where one aborts. -/
structure Handlers (σ φ : Type*) where
  fatal : σ → Bool
  handler : σ → φ → Option φ

variable {σ κ φ : Type*} {H : Handlers σ φ} {p q : Process σ κ φ} {s t : σ} {note : φ → Prop}
  {byHandler : Bool}

/-! ### Delivery -/

/-- A signal is delivered. -/
def Process.deliver (H : Handlers σ φ) (p : Process σ κ φ) (s : σ) : Process σ κ φ :=
  match p.frame.disposition s with
  | .ignored => p
  | .default => if H.fatal s then { p with killed := true } else p
  | .handled =>
    match H.handler s p.flags with
    | some f => { p with flags := f }
    | none => { p with killed := true }

/-- It changes the flags, or kills. -/
theorem Process.deliver_cases (H : Handlers σ φ) (p : Process σ κ φ) (s : σ) :
    p.deliver H s = p ∨ p.deliver H s = { p with killed := true } ∨
      ∃ f, H.handler s p.flags = some f ∧ p.frame.disposition s = .handled ∧
        p.deliver H s = { p with flags := f } := by
  unfold deliver
  split
  · exact .inl rfl
  · split_ifs
    · exact .inr (.inl rfl)
    · exact .inl rfl
  · next hd =>
    split
    · next f hf => exact .inr (.inr ⟨f, hf, hd, rfl⟩)
    · exact .inr (.inl rfl)

@[simp] theorem Process.deliver_frame (p : Process σ κ φ) (s : σ) :
    (p.deliver H s).frame = p.frame := by
  rcases p.deliver_cases H s with h | h | ⟨f, -, -, h⟩ <;> rw [h]

@[simp] theorem Process.deliver_pending (p : Process σ κ φ) (s : σ) :
    (p.deliver H s).pending = p.pending := by
  rcases p.deliver_cases H s with h | h | ⟨f, -, -, h⟩ <;> rw [h]

theorem Process.deliver_killed (h : p.killed = true) (s : σ) : (p.deliver H s).killed = true := by
  rcases p.deliver_cases H s with h' | h' | ⟨f, -, -, h'⟩
  · rwa [h']
  · rw [h']
  · rwa [h']

/-- A signal that was sent is pending, or the process was killed, or it is noted. -/
def Noted (s : σ) (note : φ → Prop) (p : Process σ κ φ) : Prop :=
  p.raised s = true → p.killed = true ∨ p.pending s = true ∨ note p.flags

/-- The frame catches the signal: it is blocked, or kills, or, where handlers count, is handled. -/
def Frame.catches (H : Handlers σ φ) (s : σ) (byHandler : Bool) (q : Frame σ κ) : Bool :=
  q.disposition s ≠ .ignored ∧ (q.blocked s = true ∨
    (q.disposition s = .default ∧ H.fatal s = true) ∨
    (byHandler = true ∧ q.disposition s = .handled))

/-- What the handlers do for a note: that of the signal makes it, where handlers count, and none
undoes it. -/
structure Notes (H : Handlers σ φ) (s : σ) (byHandler : Bool) (note : φ → Prop) : Prop where
  makes : byHandler = true → ∀ x y, H.handler s x = some y → note y
  keeps : ∀ t x y, H.handler t x = some y → note x → note y

theorem Frame.not_ignored {f : Frame σ κ} (hc : f.catches H s byHandler = true) :
    f.disposition s ≠ .ignored := by
  simp only [catches, decide_eq_true_eq] at hc
  exact hc.1

/-- A signal that is caught, and not blocked, kills or is noted when it is delivered. -/
theorem Notes.of_deliver (hn : Notes H s byHandler note)
    (hc : p.frame.catches H s byHandler = true) (hb : p.frame.blocked s = false) :
    (p.deliver H s).killed = true ∨ note (p.deliver H s).flags := by
  simp only [Frame.catches, hb, Bool.false_eq_true, false_or, decide_eq_true_eq] at hc
  obtain ⟨hi, ⟨hd, hf⟩ | ⟨hby, hd⟩⟩ := hc
  · unfold Process.deliver
    rw [hd, hf]
    exact .inl rfl
  · unfold Process.deliver
    rw [hd]
    dsimp only
    split
    · next y hy => exact .inr (hn.makes hby _ _ hy)
    · exact .inl rfl

namespace Noted

theorem congr (h : Noted s note p) (hr : q.raised s = p.raised s) (hk : q.killed = p.killed)
    (hp : q.pending s = p.pending s) (hf : q.flags = p.flags) : Noted s note q := by
  unfold Noted
  rw [hr, hk, hp, hf]
  exact h

/-- A signal that is delivered undoes no note. -/
theorem deliver (hn : Notes H s byHandler note) (h : Noted s note p) (t : σ) :
    Noted s note (p.deliver H t) := by
  rcases p.deliver_cases H t with h' | h' | ⟨f, hf, -, h'⟩
  · rwa [h']
  · rw [h']
    exact fun _ => .inl rfl
  · rw [h']
    intro hr
    rcases h hr with hk | hp | hnote
    · exact .inl hk
    · exact .inr (.inl hp)
    · exact .inr (.inr (hn.keeps _ _ _ hf hnote))

end Noted

/-! ### The program -/

/-- An operation of the program: it writes variables, changes what is blocked, or assigns what is
done with a signal (and keeps what was done before), or forks. -/
inductive Op (σ κ φ : Type*)
  | vars (f : κ → κ)
  | flags (f : φ → φ)
  | mask (f : (σ → Bool) → σ → Bool)
  | action (s : σ) (new : κ → Disposition) (old : Disposition → κ → κ)
  | fork

/-- An operation does not undo a note. -/
def Op.Keeps (note : φ → Prop) : Op σ κ φ → Prop
  | flags f => ∀ x, note x → note (f x)
  | _ => True

variable [DecidableEq σ]

/-- What an operation does to the frame. -/
def Op.frame (q : Frame σ κ) : Op σ κ φ → Frame σ κ
  | vars f => { q with vars := f q.vars }
  | flags _ => q
  | mask f => { q with blocked := f q.blocked }
  | action s new old =>
    { q with
      vars := old (q.disposition s) q.vars
      disposition := Function.update q.disposition s (new q.vars) }
  | fork => q

/-- A signal is sent. -/
def Process.raise (H : Handlers σ φ) (p : Process σ κ φ) (s : σ) : Process σ κ φ :=
  if p.killed then p
  else
    let p := { p with raised := Function.update p.raised s true }
    if p.frame.disposition s = .ignored then p
    else if p.frame.blocked s then { p with pending := Function.update p.pending s true }
    else p.deliver H s

/-- A pending signal is delivered when it is not blocked any more. -/
def Process.release (H : Handlers σ φ) (p : Process σ κ φ) (s : σ) : Process σ κ φ :=
  if p.pending s ∧ ¬ p.frame.blocked s ∧ ¬ p.killed then
    { p with pending := Function.update p.pending s false }.deliver H s
  else p

/-- An operation; `order` is the order in which the signals that it unblocks are delivered. -/
def Op.run (H : Handlers σ φ) (order : List σ) (p : Process σ κ φ) (op : Op σ κ φ) :
    Process σ κ φ :=
  let q : Process σ κ φ := { p with frame := op.frame p.frame }
  match op with
  | flags f => { q with flags := f q.flags }
  | mask _ => order.foldl (Process.release H) q
  | action s _ _ =>
    if q.frame.disposition s = .ignored then { q with pending := Function.update q.pending s false }
    else q
  | _ => q

/-- A process and what is left of its program. -/
abbrev Config (σ κ φ : Type*) := Process σ κ φ × List (Op σ κ φ)

/-- One step: the next operation, or a signal. -/
inductive SignalStep (H : Handlers σ φ) : Config σ κ φ → Config σ κ φ → Prop
  | op {p : Process σ κ φ} {op : Op σ κ φ} {ops : List (Op σ κ φ)} (order : List σ)
      (hall : ∀ s, s ∈ order) (hp : p.killed = false) :
      SignalStep H (p, op :: ops) (op.run H order p, ops)
  | raise {p : Process σ κ φ} {ops : List (Op σ κ φ)} (s : σ) :
      SignalStep H (p, ops) (p.raise H s, ops)

/-! ### The frame does not depend on the signals -/

@[simp] theorem Process.raise_frame (p : Process σ κ φ) (s : σ) :
    (p.raise H s).frame = p.frame := by
  unfold raise
  dsimp only
  split_ifs <;> simp

@[simp] theorem Process.release_frame (p : Process σ κ φ) (s : σ) :
    (p.release H s).frame = p.frame := by
  unfold release
  split_ifs <;> simp

theorem Process.releases_frame (order : List σ) (p : Process σ κ φ) :
    (order.foldl (release H) p).frame = p.frame := by
  induction order generalizing p with
  | nil => rfl
  | cons s order ih => rw [List.foldl_cons, ih, release_frame]

@[simp] theorem Op.run_frame (op : Op σ κ φ) (order : List σ) (p : Process σ κ φ) :
    (op.run H order p).frame = op.frame p.frame := by
  cases op with
  | mask f => exact Process.releases_frame order _
  | action s new old =>
    unfold Op.run
    dsimp only
    split_ifs <;> rfl
  | vars f | flags f | fork => rfl

/-- `P` holds of what is left of the program, and of its frame, all along the program. -/
def Along (P : List (Op σ κ φ) → Frame σ κ → Prop) : List (Op σ κ φ) → Frame σ κ → Prop
  | [], f => P [] f
  | op :: ops, f => P (op :: ops) f ∧ Along P ops (op.frame f)

instance Along.decidable {P : List (Op σ κ φ) → Frame σ κ → Prop} [∀ ops f, Decidable (P ops f)] :
    ∀ ops f, Decidable (Along P ops f)
  | [], f => inferInstanceAs (Decidable (P [] f))
  | op :: ops, f =>
    have := Along.decidable (P := P) ops (op.frame f)
    inferInstanceAs (Decidable (P (op :: ops) f ∧ Along P ops (op.frame f)))

/-- The frame after some operations. -/
def frameAtEnd (ops : List (Op σ κ φ)) (f : Frame σ κ) : Frame σ κ :=
  ops.foldl (fun f op => op.frame f) f

namespace Along

variable {P : List (Op σ κ φ) → Frame σ κ → Prop} {ops ops' : List (Op σ κ φ)} {f : Frame σ κ}

theorem here (h : Along P ops f) : P ops f := by
  cases ops with
  | nil => exact h
  | cons op ops => exact h.1

theorem imp {Q : List (Op σ κ φ) → Frame σ κ → Prop} (hPQ : ∀ ops f, P ops f → Q ops f)
    (h : Along P ops f) : Along Q ops f := by
  induction ops generalizing f with
  | nil => exact hPQ _ _ h
  | cons op ops ih => exact ⟨hPQ _ _ h.1, ih h.2⟩

theorem last (h : Along P ops f) : P [] (frameAtEnd ops f) := by
  induction ops generalizing f with
  | nil => exact h
  | cons op ops ih => exact ih h.2

theorem append (h : Along (fun rest f => rest ≠ [] → P (rest ++ ops') f) ops f)
    (h' : Along P ops' (frameAtEnd ops f)) : Along P (ops ++ ops') f := by
  induction ops generalizing f with
  | nil => exact h'
  | cons op ops ih => exact ⟨h.1 (List.cons_ne_nil op ops), ih h.2 h'⟩

/-- **The frames of a run** are those of its program. -/
theorem step {c d : Config σ κ φ} (hs : SignalStep H c d) (h : Along P c.2 c.1.frame) :
    Along P d.2 d.1.frame := by
  cases hs with
  | op order hall hp =>
    rw [Op.run_frame]
    exact h.2
  | raise s =>
    rw [Process.raise_frame]
    exact h

end Along

/-! ### No signal is lost -/

namespace Noted

/-- **A signal** that is sent. -/
theorem raise (hn : Notes H s byHandler note) (hc : p.frame.catches H s byHandler = true)
    (h : Noted s note p) (t : σ) : Noted s note (p.raise H t) := by
  unfold Process.raise
  by_cases hk : p.killed = true
  · rw [if_pos hk]
    exact h
  rw [if_neg hk]
  dsimp only
  by_cases hst : s = t
  · subst hst
    rw [if_neg (Frame.not_ignored hc)]
    intro _
    split_ifs with hb
    · exact .inr (.inl (Function.update_self ..))
    · rcases hn.of_deliver (p := { p with raised := Function.update p.raised s true }) hc
        (by simpa using hb) with hk' | hnote
      · exact .inl hk'
      · exact .inr (.inr hnote)
  · have h' : Noted s note { p with raised := Function.update p.raised t true } :=
      h.congr (Function.update_of_ne hst _ _) rfl rfl rfl
    split_ifs with hi hb
    · exact h'
    · exact h'.congr rfl rfl (Function.update_of_ne hst _ _) rfl
    · exact h'.deliver hn t

/-- A pending signal that may be delivered. -/
theorem release (hn : Notes H s byHandler note) (hc : p.frame.catches H s byHandler = true)
    (h : Noted s note p) (t : σ) : Noted s note (p.release H t) := by
  unfold Process.release
  by_cases hrel : p.pending t ∧ ¬ p.frame.blocked t ∧ ¬ p.killed
  · rw [if_pos hrel]
    by_cases hst : s = t
    · subst hst
      intro _
      rcases hn.of_deliver (p := { p with pending := Function.update p.pending s false }) hc
        (by simpa using hrel.2.1) with hk' | hnote
      · exact .inl hk'
      · exact .inr (.inr hnote)
    · have h' : Noted s note { p with pending := Function.update p.pending t false } :=
        h.congr rfl rfl (Function.update_of_ne hst _ _) rfl
      exact h'.deliver hn t
  · rw [if_neg hrel]
    exact h

theorem releases (hn : Notes H s byHandler note) (hc : p.frame.catches H s byHandler = true)
    (h : Noted s note p) (order : List σ) :
    Noted s note (order.foldl (Process.release H) p) := by
  induction order generalizing p with
  | nil => exact h
  | cons t order ih => exact ih (by rwa [Process.release_frame]) (h.release hn hc t)

/-- **An operation** after which the signal is caught. -/
theorem run (hn : Notes H s byHandler note) {op : Op σ κ φ} (hop : op.Keeps note)
    (hc : (op.frame p.frame).catches H s byHandler = true) (h : Noted s note p) (order : List σ) :
    Noted s note (op.run H order p) := by
  cases op with
  | vars f => exact h
  | fork => exact h
  | flags f =>
    intro hr
    rcases h hr with hk | hp | hnote
    · exact .inl hk
    · exact .inr (.inl hp)
    · exact .inr (.inr (hop _ hnote))
  | mask f =>
    exact releases (p := { p with frame := (Op.mask f : Op σ κ φ).frame p.frame }) hn hc h order
  | action t new old =>
    unfold Op.run
    dsimp only
    split_ifs with hi
    · have hst : s ≠ t := by
        rintro rfl
        exact Frame.not_ignored hc hi
      exact h.congr rfl rfl (Function.update_of_ne hst _ _) rfl
    · exact h

/-- **One step** of a program whose frames catch the signal.  Notes count from where on they are
safe, what is left of the program does not undo them. -/
theorem step (hn : Notes H s true note) {safe : List (Op σ κ φ) → Bool}
    (hsafe : ∀ op ops, safe (op :: ops) = true → safe ops = true ∧ op.Keeps note)
    {c d : Config σ κ φ} (hs : SignalStep H c d)
    (hc : Along (fun ops f => f.catches H s (safe ops) = true) c.2 c.1.frame)
    (h : Noted s (fun x => safe c.2 = true ∧ note x) c.1) :
    Noted s (fun x => safe d.2 = true ∧ note x) d.1 := by
  have hn' : ∀ ops, Notes H s (safe ops) fun x => safe ops = true ∧ note x := by
    refine fun ops => ⟨fun hby x y hy => ⟨hby, hn.makes rfl x y hy⟩, ?_⟩
    exact fun t x y hy hx => ⟨hx.1, hn.keeps t x y hy hx.2⟩
  cases hs with
  | raise t => exact h.raise (hn' _) hc.here t
  | @op p op ops order hall hp =>
    by_cases hold : safe (op :: ops) = true
    · obtain ⟨hnew, hkeep⟩ := hsafe op ops hold
      refine run (hn' ops) ?_ hc.2.here (fun hr => ?_) order
      · cases op with
        | flags f => exact fun x hx => ⟨hx.1, hkeep x hx.2⟩
        | _ => trivial
      · rcases h hr with hk | hpend | hnote
        · exact .inl hk
        · exact .inr (.inl hpend)
        · exact .inr (.inr ⟨hnew, hnote.2⟩)
    · have hpend : Noted s (fun x => safe ops = true ∧ note x) p := by
        intro hr
        rcases h hr with hk | hpend | hnote
        · exact .inl hk
        · exact .inr (.inl hpend)
        · exact absurd hnote.1 hold
      cases op with
      | flags f =>
        intro hr
        rcases h hr with hk | hpend | hnote
        · exact .inl hk
        · exact .inr (.inl hpend)
        · exact absurd hnote.1 hold
      | _ =>
        refine hpend.run (hn' ops) ?_ hc.2.here order
        trivial

end Noted

/-- **What is noted stays**, where the handlers that run do not undo it. -/
theorem SignalStep.keeps_note {c d : Config σ κ φ} (hs : SignalStep H c d)
    (hkeep : ∀ op ∈ c.2, op.Keeps note)
    (hhandler : ∀ t x y, c.1.frame.disposition t = .handled → H.handler t x = some y → note x →
      note y) (h : note c.1.flags) : note d.1.flags := by
  have hdeliver : ∀ {p : Process σ κ φ} (t : σ), p.frame.disposition = c.1.frame.disposition →
      note p.flags → note (p.deliver H t).flags := by
    intro p t hd hp
    rcases p.deliver_cases H t with h' | h' | ⟨f, hf, hdt, h'⟩
    · rwa [h']
    · rwa [h']
    · rw [h']
      exact hhandler t _ _ (hd ▸ hdt) hf hp
  cases hs with
  | @raise p ops t =>
    show note (p.raise H t).flags
    unfold Process.raise
    dsimp only
    split_ifs
    · exact h
    · exact h
    · exact h
    · exact hdeliver (p := { p with raised := Function.update p.raised t true }) t rfl h
  | @op p op ops order hall hp =>
    cases op with
    | vars f | fork => exact h
    | flags f => exact hkeep (.flags f) List.mem_cons_self _ h
    | action t new old =>
      show note (Op.run H order p (.action t new old)).flags
      unfold Op.run
      dsimp only
      split_ifs <;> exact h
    | mask f =>
      have hrelease : ∀ {q : Process σ κ φ} (order : List σ),
          q.frame.disposition = p.frame.disposition → note q.flags →
          note (order.foldl (Process.release H) q).flags := by
        intro q order hd hq
        induction order generalizing q with
        | nil => exact hq
        | cons t order ih =>
          refine ih (by rw [Process.release_frame, hd]) ?_
          unfold Process.release
          split_ifs
          · exact hdeliver (p := { q with pending := Function.update q.pending t false }) t hd hq
          · exact hq
      exact hrelease (q := { p with frame := (Op.mask f : Op σ κ φ).frame p.frame }) order rfl h

/-! ### What is pending is blocked -/

/-- What is pending is blocked, unless the process was killed. -/
def Held (s : σ) (p : Process σ κ φ) : Prop :=
  p.pending s = true → p.frame.blocked s = true ∨ p.killed = true

namespace Held

omit [DecidableEq σ] in
theorem deliver (h : Held s p) (t : σ) : Held s (p.deliver H t) := by
  intro hp
  rw [Process.deliver_pending] at hp
  rw [Process.deliver_frame]
  rcases h hp with hb | hk
  · exact .inl hb
  · exact .inr (Process.deliver_killed hk t)

theorem raise (h : Held s p) (t : σ) : Held s (p.raise H t) := by
  unfold Process.raise
  by_cases hk : p.killed = true
  · rw [if_pos hk]
    exact h
  rw [if_neg hk]
  dsimp only
  split_ifs with hi hb
  · exact h
  · intro hp
    by_cases hst : s = t
    · subst hst
      exact .inl hb
    · exact h ((Function.update_of_ne hst _ _).symm.trans hp)
  · exact deliver (p := { p with raised := Function.update p.raised t true }) h t

theorem release (h : Held s p) (t : σ) : Held s (p.release H t) := by
  unfold Process.release
  split_ifs with hrel
  · refine deliver (p := { p with pending := Function.update p.pending t false }) ?_ t
    intro hp
    by_cases hst : s = t
    · subst hst
      simp at hp
    · exact h ((Function.update_of_ne hst _ _).symm.trans hp)
  · exact h

/-- A signal that had its turn. -/
theorem of_release (p : Process σ κ φ) (s : σ) : Held s (p.release H s) := by
  unfold Process.release
  split_ifs with hrel
  · intro hp
    rw [Process.deliver_pending] at hp
    simp at hp
  · intro hp
    by_contra hno
    refine hrel ⟨hp, fun hb => hno (.inl hb), fun hk => hno (.inr hk)⟩

theorem releases (h : Held s p) (order : List σ) : Held s (order.foldl (Process.release H) p) := by
  induction order generalizing p with
  | nil => exact h
  | cons t order ih => exact ih (h.release t)

theorem of_releases {order : List σ} (hs : s ∈ order) (p : Process σ κ φ) :
    Held s (order.foldl (Process.release H) p) := by
  induction order generalizing p with
  | nil => cases hs
  | cons t order ih =>
    rcases List.mem_cons.mp hs with rfl | hs
    · exact (of_release p s).releases order
    · exact ih hs _

/-- **One step** leaves nothing pending that is not blocked. -/
theorem step {c d : Config σ κ φ} (hs : SignalStep H c d) (h : Held s c.1) : Held s d.1 := by
  cases hs with
  | raise t => exact h.raise t
  | @op p op ops order hall hp =>
    cases op with
    | vars f | flags f | fork => exact h
    | mask f => exact of_releases (hall s) _
    | action t new old =>
      show Held s (Op.run H order p (.action t new old))
      unfold Op.run
      dsimp only
      split_ifs with hi
      · intro hpend
        by_cases hst : s = t
        · subst hst
          simp at hpend
        · exact h ((Function.update_of_ne hst _ _).symm.trans hpend)
      · exact h

end Held

/-! ### Single signals -/

theorem Process.raise_raised (h : p.killed = false) (s : σ) : (p.raise H s).raised s = true := by
  have hkeep : ∀ q : Process σ κ φ, (q.deliver H s).raised = q.raised := by
    intro q
    rcases q.deliver_cases H s with h | h | ⟨f, -, -, h⟩ <;> rw [h]
  unfold raise
  rw [if_neg (by simp [h])]
  dsimp only
  split_ifs <;> simp [hkeep]

/-- No signal is pending, and the process runs. -/
structure Quiet (p : Process σ κ φ) : Prop where
  pending : p.pending = fun _ => false
  alive : p.killed = false

theorem Quiet.run (h : Quiet p) (op : Op σ κ φ) (order : List σ) : Quiet (op.run H order p) := by
  cases op with
  | vars f | flags f | fork => exact ⟨h.pending, h.alive⟩
  | action t new old =>
    unfold Op.run
    dsimp only
    split_ifs
    · refine ⟨?_, h.alive⟩
      dsimp only
      rw [h.pending]
      exact Function.update_eq_self t _
    · exact ⟨h.pending, h.alive⟩
  | mask f =>
    have hrelease : ∀ {q : Process σ κ φ}, Quiet q → order.foldl (Process.release H) q = q := by
      intro q hq
      induction order with
      | nil => rfl
      | cons t order ih =>
        have hone : q.release H t = q := by
          unfold Process.release
          rw [if_neg (by simp [hq.pending])]
        rw [List.foldl_cons, hone]
        exact ih
    show Quiet (order.foldl (Process.release H) _)
    rw [hrelease (q := { p with frame := (Op.mask f : Op σ κ φ).frame p.frame })
      ⟨h.pending, h.alive⟩]
    exact ⟨h.pending, h.alive⟩

end Lib
