import TaniDVR.Lib.Signals
import TaniDVR.Recorder

/-!
# Signals — `shtools.c`, and the processes that it sets up

`shtInit` is `sht_init`, statement by statement, so that a signal may come between any two of them;
`forkRounds` are the forks of a process, with the signals blocked around each.  `ShtRun` are the runs
of the three processes, the child's from the fork on.

No request to end is lost (`no_termination_lost`), not even one that is sent to a child before it has
set up its own handlers; and one that comes to the base process ends its recording
(`request_ends_recording`), whose flags are as the recorder assumes (`Looks.outside`).
-/

namespace TaniDVR

open Lib

/-- The signals that are managed. -/
inductive Signal
  | sigchld | sigpipe | sighup | sigterm | sigxcpu | sigill | sigfpe | sigsegv | sigbus
  deriving DecidableEq, Repr

/-- `sht_context_t`. -/
inductive ShtContext
  | baseProc | bufferProc | dvrctlProc
  deriving DecidableEq, Repr

/-- The static variables, of a `struct sigaction` the handler. -/
structure ShtVars where
  context : ShtContext
  initializedOnce : Bool
  sa : Disposition
  saFatal : Disposition
  saIgnored : Disposition
  saTmp : Disposition
  saFatalTmp : Disposition
  saIgnoredTmp : Disposition

/-- `SHT_F_SIGBLOCK_SIGSTD`. -/
def Signal.std : Signal → Bool
  | .sigchld | .sigterm | .sighup | .sigxcpu | .sigpipe => true
  | _ => false

/-- `SHT_F_SIGBLOCK_SIGFATAL`. -/
def Signal.fatal : Signal → Bool
  | .sigill | .sigfpe | .sigsegv | .sigbus => true
  | _ => false

/-- `sht_handler`; `none` is `abort`. -/
def shtHandler (sn : Signal) (flags : ShtFlags) : Option ShtFlags :=
  match sn with
  | .sigchld => some { flags with sigchld := true }
  | .sigpipe => some { flags with sigpipe := true }
  | .sigterm | .sighup | .sigxcpu => some { flags with terminateNicely := true }
  | .sigill | .sigfpe | .sigsegv | .sigbus => none

/-- The handlers; the default action for `SIGCHLD` is to ignore it, for the others to end. -/
def shtHandlers : Handlers Signal ShtFlags := ⟨fun sn => sn ≠ .sigchld, shtHandler⟩

abbrev ShtOp := Op Signal ShtVars ShtFlags

abbrev ShtConfig := Config Signal ShtVars ShtFlags

/-- `SHT_OP_BLOCK`, of the sets that are chosen. -/
def shtBlock (std fatal : Bool) : ShtOp :=
  .mask fun blocked sn => blocked sn || (std && sn.std) || (fatal && sn.fatal)

/-- `SHT_OP_UNBLOCK`. -/
def shtUnblock (std fatal : Bool) : ShtOp :=
  .mask fun blocked sn => blocked sn && !(std && sn.std) && !(fatal && sn.fatal)

/-- `sht_set_sighandlers`; the first time there is nothing to keep. -/
def shtSetSighandlers (once : Bool) : List ShtOp :=
  let sa sn : ShtOp := .action sn (fun v => if once then v.saTmp else v.sa)
    fun old v => if once then { v with sa := old } else v
  let saIgnored sn : ShtOp := .action sn (fun v => if once then v.saIgnoredTmp else v.saIgnored)
    fun old v => if once then { v with saIgnored := old } else v
  let saFatal sn : ShtOp := .action sn (fun v => if once then v.saFatalTmp else v.saFatal)
    fun old v => if once then { v with saFatal := old } else v
  [sa .sigchld, saIgnored .sigpipe, sa .sighup, sa .sigterm, sa .sigxcpu, saFatal .sigill,
    saFatal .sigfpe, saFatal .sigsegv, saFatal .sigbus]

/-- `sht_init`; `once` is what `sht_initialized_once` holds. -/
def shtInit (once : Bool) (ctx : ShtContext) : List ShtOp :=
  [shtBlock true true, .vars fun v => { v with context := ctx }, shtUnblock false true,
    .flags fun f => { f with sigchld := false }, .flags fun f => { f with sigpipe := false },
    .flags fun f => { f with terminateNicely := false },
    .vars fun v => if once then { v with saTmp := .handled } else { v with sa := .handled },
    .vars fun v =>
      if once then { v with saFatalTmp := .handled } else { v with saFatal := .handled },
    .vars fun v =>
      if once then { v with saIgnoredTmp := .ignored } else { v with saIgnored := .ignored }] ++
  (match ctx with
    | .baseProc | .bufferProc => []
    -- the streaming process does not care when asked nicely
    | .dvrctlProc =>
      [.vars fun v => if once then { v with saTmp := .default } else { v with sa := .default }]) ++
  shtSetSighandlers once ++
  [.vars fun v => { v with initializedOnce := true }, shtUnblock true false]

/-- The forks of a process.  What it does between them is left out, also that the buffering process
clears the flag of `SIGCHLD`. -/
def forkRounds : ℕ → List ShtOp
  | 0 => []
  | n + 1 => shtBlock true false :: .fork :: shtUnblock true false :: forkRounds n

/-- A process that was just started. -/
def bootFrame : Frame Signal ShtVars where
  vars := ⟨.baseProc, false, .default, .default, .default, .default, .default, .default⟩
  blocked _ := false
  disposition _ := .default

/-- A process of which nothing has been asked. -/
def freshProcess (frame : Frame Signal ShtVars) (flags : ShtFlags) :
    Process Signal ShtVars ShtFlags :=
  ⟨frame, flags, fun _ => false, fun _ => false, false⟩

/-- The runs of the processes: that of `main`, the one that it forks to buffer, and those that this
forks to stream. -/
inductive ShtRun : ShtContext → ShtConfig → Prop
  | main (n : ℕ) :
      ShtRun .baseProc (freshProcess bootFrame ⟨false, false, false⟩,
        shtInit false .baseProc ++ forkRounds n)
  | step {ctx : ShtContext} {c d : ShtConfig} (h : ShtRun ctx c)
      (hs : SignalStep shtHandlers c d) : ShtRun ctx d
  | buffer {p : Process Signal ShtVars ShtFlags} {ops : List ShtOp}
      (h : ShtRun .baseProc (p, .fork :: ops)) (hp : p.killed = false) (n : ℕ) :
      ShtRun .bufferProc (freshProcess p.frame p.flags,
        shtInit p.frame.vars.initializedOnce .bufferProc ++ [shtUnblock true false] ++
          forkRounds n)
  | dvrctl {p : Process Signal ShtVars ShtFlags} {ops : List ShtOp}
      (h : ShtRun .bufferProc (p, .fork :: ops)) (hp : p.killed = false) :
      ShtRun .dvrctlProc (freshProcess p.frame p.flags,
        shtInit p.frame.vars.initializedOnce .dvrctlProc ++ [shtUnblock true false])

/-! ### The frames of the three programs -/

/-- The frame of the base process once it is initialised. -/
def baseFrame : Frame Signal ShtVars := frameAtEnd (shtInit false .baseProc) bootFrame

/-- A frame around a fork. -/
def forkFrame (f : Frame Signal ShtVars) : Frame Signal ShtVars := (shtBlock true false).frame f

/-- The frame of the buffering process once it is initialised. -/
def bufferFrame : Frame Signal ShtVars :=
  frameAtEnd (shtInit true .bufferProc ++ [shtUnblock true false]) (forkFrame baseFrame)

/-- The frame of a streaming process once it is initialised. -/
def dvrctlFrame : Frame Signal ShtVars :=
  frameAtEnd (shtInit true .dvrctlProc ++ [shtUnblock true false]) (forkFrame bufferFrame)

variable {P : List ShtOp → Frame Signal ShtVars → Prop} {f : Frame Signal ShtVars}
  {init : List ShtOp} {ctx : ShtContext} {c d : ShtConfig}

/-- The signals are blocked around a fork, and not after it. -/
theorem unblock_forkFrame (hf : ∀ sn, f.blocked sn = false) :
    (shtUnblock true false).frame (forkFrame f) = f := by
  show { f with blocked := _ } = f
  congr 1
  funext sn
  rw [hf]
  cases sn <;> simp [forkFrame, shtBlock, Op.frame, Signal.std, hf]

/-- **All frames of a program**: those of what it begins with, and those around its forks. -/
theorem along_program (n : ℕ)
    (hinit : Along (fun rest f => rest ≠ [] → P (rest ++ forkRounds n) f) init f)
    (hblocked : ∀ sn, (frameAtEnd init f).blocked sn = false)
    (h0 : ∀ n, P (forkRounds n) (frameAtEnd init f))
    (hfork : ∀ n, P (.fork :: shtUnblock true false :: forkRounds n) (forkFrame (frameAtEnd init f)))
    (hdone : ∀ n, P (shtUnblock true false :: forkRounds n) (forkFrame (frameAtEnd init f))) :
    Along P (init ++ forkRounds n) f := by
  refine hinit.append ?_
  clear hinit
  generalize frameAtEnd init f = g at hblocked h0 hfork hdone
  induction n with
  | zero => exact h0 0
  | succ n ih =>
    refine ⟨h0 (n + 1), hfork n, hdone n, ?_⟩
    show Along P (forkRounds n) ((shtUnblock true false).frame (forkFrame g))
    rw [unblock_forkFrame hblocked]
    exact ih

/-- An operation writes the flags. -/
def writesFlags : ShtOp → Bool
  | .flags _ => true
  | _ => false

/-- From here on a note counts: this process makes one, and does not write its flags any more. -/
def shtSafe (ctx : ShtContext) (ops : List ShtOp) : Bool :=
  ctx ≠ .dvrctlProc && ops.all fun op => !writesFlags op

theorem shtSafe_forkRounds (ctx : ShtContext) (n : ℕ) :
    shtSafe ctx (forkRounds n) = decide (ctx ≠ .dvrctlProc) := by
  have hall : (forkRounds n).all (fun op => !writesFlags op) = true := by
    induction n with
    | zero => rfl
    | succ n ih => simpa [forkRounds, writesFlags, shtBlock, shtUnblock] using ih
  rw [shtSafe, hall, Bool.and_true]

theorem shtSafe_append (ctx : ShtContext) (ops : List ShtOp) (n : ℕ) :
    shtSafe ctx (ops ++ forkRounds n) = shtSafe ctx ops := by
  have h := shtSafe_forkRounds ctx n
  unfold shtSafe at h ⊢
  rw [List.all_append]
  revert h
  cases (forkRounds n).all fun op => !writesFlags op <;> cases decide (ctx ≠ .dvrctlProc) <;> simp

def isFork : ShtOp → Bool
  | .fork => true
  | _ => false

/-- The next operation is a fork. -/
def atFork (ops : List ShtOp) : Bool := ops.head?.any isFork

/-- The process is neither initialising itself nor forking. -/
def inBody (ops : List ShtOp) : Bool := ops.isEmpty || atFork ops.tail

/-- A request to end. -/
def Signal.ends : Signal → Bool
  | .sighup | .sigterm | .sigxcpu => true
  | _ => false

theorem Signal.ends_cases {sn : Signal} (hs : sn.ends = true) :
    sn = .sighup ∨ sn = .sigterm ∨ sn = .sigxcpu := by
  revert hs
  cases sn <;> decide

theorem Signal.std_of_ends {sn : Signal} (hs : sn.ends = true) : sn.std = true := by
  rcases ends_cases hs with rfl | rfl | rfl <;> rfl

theorem notes_terminate {sn : Signal} (hs : sn.ends = true) :
    Notes shtHandlers sn true fun f => f.terminateNicely = true where
  makes := by
    intro _ x y hy
    rcases Signal.ends_cases hs with rfl | rfl | rfl
    all_goals
      cases hy
      rfl
  keeps := by
    intro t x y hy hx
    cases t <;> cases hy <;> first | rfl | exact hx

/-- The frame that a process forks in. -/
def forksIn : ShtContext → Frame Signal ShtVars
  | .baseProc => forkFrame baseFrame
  | .bufferProc => forkFrame bufferFrame
  | .dvrctlProc => forkFrame dvrctlFrame

/-- What every frame of a process satisfies: the signals are blocked neither in its body nor
otherwise than in one way around its forks, and `SIGPIPE` is not handled. -/
structure SoundFrame (ctx : ShtContext) (ops : List ShtOp) (f : Frame Signal ShtVars) : Prop where
  forks : atFork ops = true → f = forksIn ctx
  body : inBody ops = true → ∀ sn, f.blocked sn = false
  sigpipe : f.disposition .sigpipe ≠ .handled

/-- What every configuration of a process satisfies. -/
structure Sound (ctx : ShtContext) (c : ShtConfig) : Prop where
  held : ∀ sn, Held sn c.1
  noted : ∀ sn, sn.ends = true →
    Noted sn (fun f => shtSafe ctx c.2 = true ∧ f.terminateNicely = true) c.1
  caught : ∀ sn, sn.ends = true →
    Along (fun ops f => f.catches shtHandlers sn (shtSafe ctx ops) = true) c.2 c.1.frame
  frames : Along (SoundFrame ctx) c.2 c.1.frame
  clears : ∀ op ∈ c.2, op.Keeps fun f => f.sigpipe = false
  sigpipe : c.1.flags.sigpipe = false

theorem Sound.step (h : Sound ctx c) (hs : SignalStep shtHandlers c d) : Sound ctx d where
  held sn := (h.held sn).step hs
  noted sn hsn := by
    refine (h.noted sn hsn).step (notes_terminate hsn) ?_ hs (h.caught sn hsn)
    intro op ops hsafe
    simp only [shtSafe, List.all_cons, Bool.and_eq_true] at hsafe ⊢
    refine ⟨⟨hsafe.1, hsafe.2.2⟩, ?_⟩
    cases op with
    | flags f => simp [writesFlags] at hsafe
    | _ => trivial
  caught sn hsn := (h.caught sn hsn).step hs
  frames := h.frames.step hs
  clears := by
    cases hs with
    | op order hall hp => exact fun op hop => h.clears op (List.mem_cons_of_mem _ hop)
    | raise sn => exact h.clears
  sigpipe := by
    refine hs.keeps_note h.clears (fun t x y hd hy hx => ?_) h.sigpipe
    have hne : t ≠ .sigpipe := by
      rintro rfl
      exact h.frames.here.sigpipe hd
    cases t <;> cases hy <;> first | exact hx | exact absurd rfl hne

/-- The beginning of a process. -/
theorem Sound.start {frame : Frame Signal ShtVars} {flags : ShtFlags} {ops : List ShtOp}
    (hflags : flags.sigpipe = false)
    (hcaught : ∀ sn, sn.ends = true →
      Along (fun ops f => f.catches shtHandlers sn (shtSafe ctx ops) = true) ops frame)
    (hframes : Along (SoundFrame ctx) ops frame)
    (hclears : ∀ op ∈ ops, op.Keeps fun f => f.sigpipe = false) :
    Sound ctx (freshProcess frame flags, ops) where
  held sn hp := by cases hp
  noted sn hsn hr := by cases hr
  caught := hcaught
  frames := hframes
  clears := hclears
  sigpipe := hflags

theorem keeps_forkRounds {note : ShtFlags → Prop} (n : ℕ) :
    ∀ op ∈ forkRounds n, op.Keeps note := by
  induction n with
  | zero => nofun
  | succ n ih =>
    intro op hop
    simp only [forkRounds, List.mem_cons] at hop
    rcases hop with rfl | rfl | rfl | hop
    · trivial
    · trivial
    · trivial
    · exact ih op hop

/-- What an initialisation satisfies that ends in a frame `g`. -/
structure Initialises (ctx : ShtContext) (init : List ShtOp) (f g : Frame Signal ShtVars) : Prop
    where
  ends : frameAtEnd init f = g
  forks : forksIn ctx = forkFrame g
  unblocked : ∀ sn, g.blocked sn = false
  caught : ∀ sn, sn.ends = true →
    Along (fun ops f => f.catches shtHandlers sn (shtSafe ctx ops) = true) init f
  quiet : Along (fun ops f => ops.all (fun op => !isFork op) = true ∧
    f.disposition .sigpipe ≠ .handled) init f
  clears : ∀ op ∈ init, op.Keeps fun f => f.sigpipe = false

theorem atFork_append_forkRounds {ops : List ShtOp} (h : ops.all (fun op => !isFork op) = true)
    (n : ℕ) : atFork (ops ++ forkRounds n) = false := by
  cases ops with
  | nil => cases n <;> rfl
  | cons op ops =>
    simp only [List.all_cons, Bool.and_eq_true, Bool.not_eq_true'] at h
    exact h.1

namespace Initialises

variable {g : Frame Signal ShtVars} (h : Initialises ctx init f g)
include h

/-- The frames of a program that is initialised so, and then forks. -/
theorem frames (n : ℕ) : Along (SoundFrame ctx) (init ++ forkRounds n) f := by
  have hsigpipe : g.disposition .sigpipe ≠ .handled := h.ends ▸ h.quiet.last.2
  have hfork : ∀ {ops}, inBody ops = false → SoundFrame ctx ops (forkFrame g) := by
    refine fun hbody => ⟨fun _ => h.forks.symm, fun hb => ?_, hsigpipe⟩
    rw [hbody] at hb
    cases hb
  refine along_program n (h.quiet.imp fun ops f hq hne => ?_) (h.ends.symm ▸ h.unblocked) ?_ ?_ ?_
  · refine ⟨fun hat => ?_, fun hbody => ?_, hq.2⟩
    · rw [atFork_append_forkRounds hq.1] at hat
      cases hat
    · obtain ⟨op, ops, rfl⟩ := List.exists_cons_of_ne_nil hne
      have hall : ops.all (fun op => !isFork op) = true := by
        simp only [List.all_cons, Bool.and_eq_true] at hq
        exact hq.1.2
      have hbody' : atFork (ops ++ forkRounds n) = true := by simpa [inBody] using hbody
      rw [atFork_append_forkRounds hall] at hbody'
      cases hbody'
  · intro k
    rw [h.ends]
    refine ⟨fun hat => ?_, fun _ => h.unblocked, hsigpipe⟩
    rw [← List.nil_append (forkRounds k), atFork_append_forkRounds rfl] at hat
    cases hat
  · intro k
    rw [h.ends]
    exact hfork rfl
  · intro k
    rw [h.ends]
    exact hfork (by cases k <;> rfl)

/-- The requests to end are caught all along it. -/
theorem caught_program (n : ℕ) {sn : Signal} (hsn : sn.ends = true) :
    Along (fun ops f => f.catches shtHandlers sn (shtSafe ctx ops) = true) (init ++ forkRounds n)
      f := by
  have hlast : g.catches shtHandlers sn (shtSafe ctx []) = true := h.ends ▸ (h.caught sn hsn).last
  have hfork : ∀ b, (forkFrame g).catches shtHandlers sn b = true := by
    intro b
    have hi : g.disposition sn ≠ .ignored := Frame.not_ignored hlast
    simp [Frame.catches, forkFrame, shtBlock, Op.frame, hi, Signal.std_of_ends hsn]
  refine along_program n ((h.caught sn hsn).imp fun ops f hc _ => ?_) (h.ends.symm ▸ h.unblocked)
    (fun k => ?_) (fun k => ?_) fun k => ?_
  · rw [shtSafe_append]
    exact hc
  · rw [h.ends, shtSafe_forkRounds]
    simpa [shtSafe] using hlast
  · rw [h.ends]
    exact hfork _
  · rw [h.ends]
    exact hfork _

/-- **The beginning of a process** that is initialised so. -/
theorem sound {flags : ShtFlags} (hflags : flags.sigpipe = false) (n : ℕ) :
    Sound ctx (freshProcess f flags, init ++ forkRounds n) := by
  refine .start hflags (fun sn hsn => h.caught_program n hsn) (h.frames n) fun op hop => ?_
  rcases List.mem_append.mp hop with hop | hop
  · exact h.clears op hop
  · exact keeps_forkRounds n op hop

end Initialises

/-! ### The three processes -/

theorem shtInit_clears (once : Bool) (ctx : ShtContext) :
    ∀ op ∈ shtInit once ctx ++ [shtUnblock true false], op.Keeps fun f => f.sigpipe = false := by
  cases ctx <;> simp [shtInit, shtSetSighandlers, shtBlock, shtUnblock, Op.Keeps]

theorem initialises_main : Initialises .baseProc (shtInit false .baseProc) bootFrame baseFrame where
  ends := rfl
  forks := rfl
  unblocked sn := by cases sn <;> decide
  caught sn hsn := by rcases Signal.ends_cases hsn with rfl | rfl | rfl <;> decide
  quiet := by decide
  clears op hop := shtInit_clears _ _ op (List.mem_append_left _ hop)

theorem initialises_buffer : Initialises .bufferProc
    (shtInit true .bufferProc ++ [shtUnblock true false]) (forksIn .baseProc) bufferFrame where
  ends := rfl
  forks := rfl
  unblocked sn := by cases sn <;> decide
  caught sn hsn := by rcases Signal.ends_cases hsn with rfl | rfl | rfl <;> decide
  quiet := by decide
  clears := shtInit_clears _ _

theorem initialises_dvrctl : Initialises .dvrctlProc
    (shtInit true .dvrctlProc ++ [shtUnblock true false]) (forksIn .bufferProc) dvrctlFrame where
  ends := rfl
  forks := rfl
  unblocked sn := by cases sn <;> decide
  caught sn hsn := by rcases Signal.ends_cases hsn with rfl | rfl | rfl <;> decide
  quiet := by decide
  clears := shtInit_clears _ _

/-- A process that forks has initialised itself. -/
theorem forksIn_once (ctx : ShtContext) : (forksIn ctx).vars.initializedOnce = true := by
  cases ctx <;> decide

/-- **Every configuration** of the three processes. -/
theorem ShtRun.sound (h : ShtRun ctx c) : Sound ctx c := by
  induction h with
  | main n => exact initialises_main.sound rfl n
  | step _ hs ih => exact ih.step hs
  | buffer _ _ n ih =>
    rw [ih.frames.here.forks rfl, forksIn_once]
    exact initialises_buffer.sound ih.sigpipe n
  | dvrctl _ _ ih =>
    rw [ih.frames.here.forks rfl, forksIn_once]
    have := initialises_dvrctl.sound ih.sigpipe 0
    rwa [forkRounds, List.append_nil] at this

/-! ### No request to end is lost -/

/-- What became of a request to end. -/
theorem Sound.cases (hs : Sound ctx c) {sn : Signal} (hsn : sn.ends = true)
    (hr : c.1.raised sn = true) :
    c.1.killed = true ∨ (c.1.pending sn = true ∧ c.1.frame.blocked sn = true) ∨
      (ctx ≠ .dvrctlProc ∧ c.1.flags.terminateNicely = true) := by
  rcases hs.noted sn hsn hr with hk | hp | ⟨hsafe, hnote⟩
  · exact .inl hk
  · rcases hs.held sn hp with hb | hk
    · exact .inr (.inl ⟨hp, hb⟩)
    · exact .inl hk
  · simp only [shtSafe, Bool.and_eq_true, decide_eq_true_eq] at hsafe
    exact .inr (.inr ⟨hsafe.1, hnote⟩)

/-- In the body of a process nothing is pending. -/
theorem Sound.cases_body (hs : Sound ctx c) {sn : Signal} (hsn : sn.ends = true)
    (hr : c.1.raised sn = true) (hbody : inBody c.2 = true) :
    c.1.killed = true ∨ (ctx ≠ .dvrctlProc ∧ c.1.flags.terminateNicely = true) := by
  rcases hs.cases hsn hr with hk | ⟨-, hb⟩ | hnote
  · exact .inl hk
  · rw [hs.frames.here.body hbody sn] at hb
    cases hb
  · exact .inr hnote

/-- **A request to end is not lost**, in any of the processes, whenever it is sent and whatever else
is: it is pending for as long as it is blocked, or the process was killed, or the request is noted,
which a streaming process does not do.  None is pending while the process is in its body. -/
theorem no_termination_lost (ctx : ShtContext) (c : ShtConfig) (h : ShtRun ctx c) (sn : Signal)
    (hsn : sn.ends = true) (hr : c.1.raised sn = true) :
    (c.1.killed = true ∨ (c.1.pending sn = true ∧ c.1.frame.blocked sn = true) ∨
      (ctx ≠ .dvrctlProc ∧ c.1.flags.terminateNicely = true)) ∧
    (inBody c.2 = true →
      c.1.killed = true ∨ (ctx ≠ .dvrctlProc ∧ c.1.flags.terminateNicely = true)) :=
  ⟨h.sound.cases hsn hr, h.sound.cases_body hsn hr⟩

/-- All signals, in the order in which some system delivers them. -/
def allSignals : List Signal :=
  [.sigchld, .sigpipe, .sighup, .sigterm, .sigxcpu, .sigill, .sigfpe, .sigsegv, .sigbus]

/-- Operations between which nothing is sent. -/
theorem ShtRun.ops {p : Process Signal ShtVars ShtFlags} {ops rest : List ShtOp}
    (h : ShtRun ctx (p, ops ++ rest)) (hq : Quiet p) :
    ∃ q, ShtRun ctx (q, rest) ∧ Quiet q ∧ q.frame = frameAtEnd ops p.frame := by
  induction ops generalizing p with
  | nil => exact ⟨p, h, hq, rfl⟩
  | cons op ops ih =>
    have hall : ∀ sn, sn ∈ allSignals := by
      intro sn
      cases sn <;> decide
    obtain ⟨q, hrun, hquiet, hframe⟩ := ih (h.step (.op allSignals hall hq.alive))
      (hq.run op allSignals)
    exact ⟨q, hrun, hquiet, by rw [hframe, Op.run_frame]; rfl⟩

/-- A buffering process that is sent `SIGTERM` before it has initialised itself. -/
theorem no_termination_lost_unready : ∃ flags,
    let p := (freshProcess (forksIn .baseProc) flags).raise shtHandlers .sigterm
    (p.killed = true ∨ (p.pending .sigterm = true ∧ p.frame.blocked .sigterm = true) ∨
      (ShtContext.bufferProc ≠ .dvrctlProc ∧ p.flags.terminateNicely = true)) ∧
    (inBody (shtInit true .bufferProc ++ [shtUnblock true false] ++ forkRounds 0) = true →
      p.killed = true ∨ (ShtContext.bufferProc ≠ .dvrctlProc ∧ p.flags.terminateNicely = true)) := by
  have hmain : ShtRun .baseProc (freshProcess bootFrame ⟨false, false, false⟩,
      (shtInit false .baseProc ++ [shtBlock true false]) ++ [.fork, shtUnblock true false]) := by
    simpa [forkRounds] using ShtRun.main 1
  obtain ⟨q, hq, hquiet, -⟩ := hmain.ops ⟨rfl, rfl⟩
  have hframe : q.frame = forksIn .baseProc := hq.sound.frames.here.forks rfl
  have hchild := hq.buffer hquiet.alive 0
  rw [hframe, forksIn_once] at hchild
  have hraised : ((freshProcess (forksIn .baseProc) q.flags).raise shtHandlers .sigterm).raised
      .sigterm = true := Process.raise_raised rfl _
  have hrun := hchild.step (.raise .sigterm)
  have hlost := no_termination_lost .bufferProc _ hrun .sigterm rfl hraised
  exact ⟨q.flags, hlost⟩

/-! ### What the recorder sees -/

variable {r : Recording} {w : Outside} {s t : Recorder}

/-- The recorder has ended, at most one look later, if it saw a request to end. -/
def Heeds (w : Outside) (s : Recorder) : Prop :=
  ∀ k < s.looks, (w.flags k).terminateNicely = true →
    s.ended = some .gotTermination ∧ s.looks ≤ k + 2

/-- At its looks so far there was none. -/
def Unseen (w : Outside) (s : Recorder) : Prop :=
  ∀ k, (w.flags k).terminateNicely = true → s.looks ≤ k

theorem heeds_of_unseen (h : Unseen w s) : Heeds w s :=
  fun k hk hf => absurd (h k hf) (by omega)

/-- At the end of a turn there was no request before the last look. -/
theorem heeds_endTurn (hr : r.program = .tanidvr)
    (h : ∀ k, (w.flags k).terminateNicely = true → s.looks ≤ k + 1) :
    Heeds w (Recorder.endTurn r w s) := by
  intro k hk hf
  have hk' : k < s.looks + 1 := hk
  have hlast : (w.flags s.looks).terminateNicely = true := by
    rcases Nat.lt_or_ge k s.looks with hlt | hge
    · have hstay := w.terminate_stays k hf
      rwa [show k + 1 = s.looks from le_antisymm hlt (h k hf)] at hstay
    · rwa [show k = s.looks from by omega] at hf
  refine ⟨?_, show s.looks + 1 ≤ k + 2 from by have := h k hf; omega⟩
  show Recorder.verdict r w s = _
  simp [Recorder.verdict, hr, hlast]

theorem heeds_goOn (hr : r.program = .tanidvr) (h : Unseen w s) :
    Heeds w (Recorder.goOn r w s) := by
  unfold Recorder.goOn
  split_ifs
  · exact heeds_of_unseen h
  · exact heeds_endTurn hr fun k hf => (h k hf).trans (Nat.le_succ k)

theorem heeds_frame (hr : r.program = .tanidvr) (h : Unseen w s) (frame : List UInt8) :
    Heeds w (Recorder.frame r w s frame) := by
  unfold Recorder.frame
  split
  · exact heeds_of_unseen h
  · rw [hr]
    dsimp only
    split_ifs with hret hfl
    · exact heeds_endTurn hr fun k hf => (h k hf).trans (Nat.le_succ k)
    · exact heeds_endTurn hr fun k hf => Nat.succ_le_succ (h k hf)
    · refine heeds_goOn hr fun k hf => lt_of_le_of_ne (h k hf) ?_
      rintro rfl
      exact hfl (.inl hf)

theorem heeds_call (hr : r.program = .tanidvr) (h : Unseen w s) (src : List UInt8) :
    Heeds w (Recorder.call r w s src) := by
  unfold Recorder.call
  dsimp only
  split_ifs
  · exact heeds_frame hr (by exact h) _
  · exact heeds_goOn hr h

/-- **One step** of a recorder. -/
theorem Heeds.step (h : Heeds w s) (hr : r.program = .tanidvr)
    (hst : Recorder.step r w s = some t) : Heeds w t := by
  unfold Recorder.step at hst
  split_ifs at hst with hended hdr
  all_goals
    have hunseen : Unseen w s := by
      intro k hf
      by_contra hk
      exact hended (by rw [(h k (not_le.mp hk) hf).1]; nofun)
  · cases hst
    exact heeds_call hr hunseen []
  · cases hin : s.inputs with
    | nil => simp [hin] at hst
    | cons i ins =>
      rw [hin] at hst
      cases i with
      | pollFailed | readFailed =>
        cases hst
        exact heeds_of_unseen hunseen
      | data c =>
        cases hst
        exact heeds_call hr (by exact hunseen) c

/-- **A run** of it. -/
theorem Heeds.run (h : Heeds w s) (hr : r.program = .tanidvr) (hs : Reach (Recorder.step r w) s t) :
    Heeds w t := by
  induction hs with
  | refl => exact h
  | tail _ hst ih => exact ih.step hr hst

/-- The base process each time its recorder looks at the flags, with its forks behind it. -/
structure Looks (p : ℕ → Process Signal ShtVars ShtFlags) : Prop where
  run : ShtRun .baseProc (p 0, [])
  steps : ∀ n, Relation.ReflTransGen (SignalStep shtHandlers) (p n, []) (p (n + 1), [])
  alive : ∀ n, (p n).killed = false

theorem ShtRun.steps (h : ShtRun ctx c)
    (hs : Relation.ReflTransGen (SignalStep shtHandlers) c d) : ShtRun ctx d := by
  induction hs with
  | refl => exact h
  | tail _ hs ih => exact ih.step hs

namespace Looks

variable {p : ℕ → Process Signal ShtVars ShtFlags} (h : Looks p)
include h

theorem shtRun (n : ℕ) : ShtRun .baseProc (p n, []) := by
  induction n with
  | zero => exact h.run
  | succ n ih => exact ih.steps (h.steps n)

/-- What no handler undoes stays. -/
theorem stays (note : ShtFlags → Prop) (hnote : ∀ t x y, shtHandler t x = some y → note x → note y)
    (n : ℕ) (hn : note (p n).flags) : note (p (n + 1)).flags := by
  have hsteps : ∀ {c d : ShtConfig}, Relation.ReflTransGen (SignalStep shtHandlers) c d →
      c.2 = [] → note c.1.flags → d.2 = [] ∧ note d.1.flags := by
    intro c d hs hc hnc
    induction hs with
    | refl => exact ⟨hc, hnc⟩
    | tail _ hs ih =>
      obtain ⟨hnil, hnote'⟩ := ih
      have hkept := hs.keeps_note (by rw [hnil]; nofun) (fun t x y _ => hnote t x y) hnote'
      cases hs with
      | op order hall hp => cases hnil
      | raise sn => exact ⟨hnil, hkept⟩
  exact (hsteps (h.steps n) rfl hn).2

end Looks

/-- **What the recorder sees** of the flags of its process. -/
def Looks.outside {p : ℕ → Process Signal ShtVars ShtFlags} (h : Looks p)
    (writeError : ℕ → Option ℕ) : Outside where
  writeError := writeError
  flags n := (p n).flags
  terminate_stays n := h.stays (fun f => f.terminateNicely = true)
    (notes_terminate (rfl : Signal.ends .sigterm = true)).keeps n
  sigchld_stays n := h.stays (fun f => f.sigchld = true) (by
    intro t x y hy hx
    cases t <;> cases hy <;> first | rfl | exact hx) n
  no_sigpipe n := (h.shtRun n).sound.sigpipe

/-- **A request to end ends the recording**: whenever it is sent to the base process, the recorder
that looks at the flags thereafter has ended with `Got termination request`, at that look or the
next one. -/
theorem request_ends_recording (p : ℕ → Process Signal ShtVars ShtFlags) (h : Looks p)
    (writeError : ℕ → Option ℕ) (r : Recording) (hr : r.program = .tanidvr) (d : Dstf)
    (sbuf : ℕ → UInt8) (conv : Conversion) (inputs : List TurnRead) (s : Recorder)
    (hs : Reach (Recorder.step r (h.outside writeError)) (.start d sbuf conv inputs) s)
    (sn : Signal) (hsn : sn.ends = true) (k : ℕ) (hraised : (p k).raised sn = true)
    (hk : k < s.looks) : s.ended = some .gotTermination ∧ s.looks ≤ k + 2 := by
  have hheeds := (heeds_of_unseen fun k _ => Nat.zero_le k).run hr hs
  rcases (h.shtRun k).sound.cases_body hsn hraised rfl with hkilled | ⟨-, hnote⟩
  · rw [h.alive k] at hkilled
    cases hkilled
  · exact hheeds k hk hnote

/-- `SIGTERM` comes while the base process waits for data. -/
theorem request_ends_recording_waiting : ∃ (p : ℕ → Process Signal ShtVars ShtFlags) (h : Looks p)
    (s : Recorder), Reach (Recorder.step ⟨.tanidvr, .native, false, .dhav⟩ (h.outside fun _ => none))
      (.start (dstfInit (fun _ => 0) fun _ => 0) (fun _ => 0) (.start default default false)
        [.data [], .data []]) s ∧ s.ended = some .gotTermination ∧ s.looks ≤ 2 := by
  have hmain : ShtRun .baseProc (freshProcess bootFrame ⟨false, false, false⟩,
      shtInit false .baseProc ++ []) := .main 0
  obtain ⟨q, hq, hquiet, hframe⟩ := hmain.ops ⟨rfl, rfl⟩
  have halive : (q.raise shtHandlers Signal.sigterm).killed = false := by
    have hd : q.frame.disposition Signal.sigterm = .handled := by rw [hframe]; rfl
    have hb : q.frame.blocked Signal.sigterm = false := by rw [hframe]; rfl
    simp [Process.raise, Process.deliver, hquiet.alive, hd, hb, shtHandlers, shtHandler]
  have hlooks : Looks fun _ => q.raise shtHandlers Signal.sigterm :=
    ⟨hq.step (.raise Signal.sigterm), fun _ => .refl, fun _ => halive⟩
  refine ⟨_, hlooks, _, reach_runFor 1 _, ?_⟩
  exact request_ends_recording _ hlooks (fun _ => none) _ rfl _ _ _ _ _ (reach_runFor 1 _)
    Signal.sigterm rfl 0 (Process.raise_raised hquiet.alive Signal.sigterm) Nat.one_pos

end TaniDVR
