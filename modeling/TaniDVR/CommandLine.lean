import TaniDVR.Lib.LastWrite
import TaniDVR.Recorder
import TaniDVR.Session

/-!
# CommandLine — the command line and `main` of `tanidvr.c`

`processCommandLineArguments` goes through the options that `getopt_long` gives; `sscanf`, which
converts their numbers, is a parameter (`none` where it converts nothing, and the variable keeps
what it held).  `tanidvrMain` is `main`: it opens a session to learn the number of channels, and
then streams or does not.

Every command line that is accepted keeps its numbers in range, whatever is converted
(`command_line_in_range`), and where every number is one, the options mean what the last of each
kind says, in any order (`command_line_meaning`).  What `main` goes on to stream can be asked for in
full, by every session (`main_streams`), and the request tells it from anything else
(`request_names`).
-/

namespace TaniDVR

open Lib

/-! ### The command line -/

/-- What `getopt_long` returns. -/
inductive OptionChar
  | a | h | m | t | p | u | w | c | s | n | f | k | e | x | r
  | missing  -- ':'
  | unknown  -- '?'
  deriving DecidableEq, Repr

/-- An option, with `optarg`. -/
structure CommandOption where
  option : OptionChar
  optarg : List UInt8
  deriving DecidableEq, Repr

/-- `struct_command_options`. -/
structure CommandOptions where
  operationMode : ℤ
  dvrTarget : List UInt8
  dvrPort : ℕ
  dvrUser : List UInt8
  dvrPassword : List UInt8
  dvrChannel : ℤ
  dvrSubChannel : ℤ
  mediaContainer : ℤ
  outFile : List UInt8
  keepAlive : ℕ
  timeout : ℕ
  netProtocolDialect : ℕ
  ntscExact60hz : Bool
  tsproc : Bool
  deriving DecidableEq, Repr

/-- The options and the variables of the loop. -/
structure CommandState where
  options : CommandOptions
  definedOperationMode : Bool
  definedDvrTarget : Bool
  definedDvrUser : Bool
  definedDvrPassword : Bool
  p : ℤ
  deriving DecidableEq, Repr

/-- How the program ends at its command line. -/
inductive Exit
  | help
  | failure (message : String)
  deriving DecidableEq, Repr

/-- The exit code. -/
def Exit.code : Exit → ℤ
  | help => 0
  | failure _ => 1

/-- The defaults; what is not set is zero, as for any static variable, and `p` holds anything. -/
def CommandState.start (p : ℤ) : CommandState where
  options :=
    { operationMode := 0, dvrTarget := [], dvrPort := 37777, dvrUser := [], dvrPassword := []
      dvrChannel := 0, dvrSubChannel := 0, mediaContainer := 1, outFile := [], keepAlive := 100
      timeout := 5000, netProtocolDialect := 0, ntscExact60hz := false, tsproc := true }
  definedOperationMode := false
  definedDvrTarget := false
  definedDvrUser := false
  definedDvrPassword := false
  p := p

section
variable (sscanf : List UInt8 → Option ℤ)

/-- A number that has to be in a range; `held` is what its variable holds before. -/
def scanIn (held lo hi : ℤ) (message : String) (optarg : List UInt8) : Except Exit ℤ :=
  let v := (sscanf optarg).getD held
  if v < lo ∨ v > hi then .error (.failure message) else .ok v

/-- The body of the loop of `process_command_line_arguments`. -/
def processOption (s : CommandState) (o : CommandOption) : Except Exit CommandState :=
  match o.option with
  | .h => .error .help
  | .a => (scanIn sscanf s.p 1 1 "Invalid network protocol dialect.\n" o.optarg).map fun v =>
      { s with p := v, options.netProtocolDialect := v.toNat }
  | .m => (scanIn sscanf s.options.operationMode 0 1 "Invalid operation mode.\n" o.optarg).map
      fun v => { s with definedOperationMode := true, options.operationMode := v }
  | .t => .ok { s with definedDvrTarget := true, options.dvrTarget := o.optarg }
  | .p => (scanIn sscanf s.p 1 65535 "Invalid port number.\n" o.optarg).map fun v =>
      { s with p := v, options.dvrPort := v.toNat }
  | .u => .ok { s with definedDvrUser := true, options.dvrUser := o.optarg }
  | .w => .ok { s with definedDvrPassword := true, options.dvrPassword := o.optarg }
  | .c => (scanIn sscanf s.options.dvrChannel 0 255 "Invalid DVR channel.\n" o.optarg).map fun v =>
      { s with options.dvrChannel := v }
  | .s => (scanIn sscanf s.options.dvrSubChannel 0 1 "Invalid DVR sub-channel.\n" o.optarg).map
      fun v => { s with options.dvrSubChannel := v }
  | .n => (scanIn sscanf s.options.mediaContainer 0 1 "Invalid media container.\n" o.optarg).map
      fun v => { s with options.mediaContainer := v }
  | .f => .ok { s with options.outFile := o.optarg }
  | .k => (scanIn sscanf s.p 0 1000000 "Out-of-range keep-alive value.\n" o.optarg).map fun v =>
      { s with p := v, options.keepAlive := v.toNat }
  | .e => (scanIn sscanf s.p 0 1000000 "Out-of-range timeout value.\n" o.optarg).map fun v =>
      { s with p := v, options.timeout := v.toNat }
  | .x => .ok { s with options.ntscExact60hz := true }
  | .r => (scanIn sscanf s.p 0 1 "Invalid tsproc type.\n" o.optarg).map fun (v : ℤ) =>
      { s with p := v, options.tsproc := v = 1 }
  | .missing => .error (.failure "Missing mandatory parameter.\n")
  | .unknown => .error (.failure "Unknown parameter provided.\n")

/-- What is only logged. -/
def CommandOptions.warnings (c : CommandOptions) : List String :=
  if c.keepAlive ≠ 0 ∧ c.timeout ≠ 0 ∧ c.keepAlive > c.timeout then
    ["Keep-alive must be either shorter than Timeout, or one of those must be disabled.\n"]
  else []

/-- The checks after the loop. -/
def checkOptions (s : CommandState) : Except Exit CommandOptions :=
  if s.definedOperationMode = false then
    .error (.failure "It is required to define an operation mode.\n")
  else if s.definedDvrTarget = false then
    .error (.failure "It is required to define a DVR target.\n")
  else if s.definedDvrUser = false then
    .error (.failure "It is required to define a DVR user.\n")
  else if s.definedDvrPassword = false then
    .error (.failure "It is required to define a DVR password.\n")
  else if s.options.dvrUser.length + s.options.dvrPassword.length > maxUserPasswdLen then
    .error (.failure ("The maximum allowed total size for both \"user\" and \"password\" " ++
      "strings is 250 characters.\n"))
  else .ok s.options

/-- `process_command_line_arguments`: what it logs and does not end for, and how it ends. -/
def processCommandLineArguments (p : ℤ) (opts : List CommandOption) :
    List String × Except Exit CommandOptions :=
  match opts.foldlM (processOption sscanf) (CommandState.start p) with
  | .error e => ([], .error e)
  | .ok s => (s.options.warnings, checkOptions s)

end

/-! ### Numbers in range -/

/-- The numbers are in the ranges that the help text gives. -/
structure CommandOptions.InRange (c : CommandOptions) : Prop where
  operationMode : 0 ≤ c.operationMode ∧ c.operationMode ≤ 1
  dvrPort : 1 ≤ c.dvrPort ∧ c.dvrPort ≤ 65535
  dvrChannel : 0 ≤ c.dvrChannel ∧ c.dvrChannel ≤ 255
  dvrSubChannel : 0 ≤ c.dvrSubChannel ∧ c.dvrSubChannel ≤ 1
  mediaContainer : 0 ≤ c.mediaContainer ∧ c.mediaContainer ≤ 1
  keepAlive : c.keepAlive ≤ 1000000
  timeout : c.timeout ≤ 1000000

/-- An option is among those given. -/
def given (kind : OptionChar) (opts : List CommandOption) : Bool := opts.any (·.option = kind)

@[simp] theorem given_nil (kind : OptionChar) : given kind [] = false := rfl

@[simp] theorem given_concat (kind : OptionChar) (opts : List CommandOption) (o : CommandOption) :
    given kind (opts ++ [o]) = (given kind opts || decide (o.option = kind)) := by
  simp [given]

/-- What is marked as defined was given, and the dialect is not the default exactly if it was. -/
structure CommandState.Marked (done : List CommandOption) (s : CommandState) : Prop where
  dialect : s.options.netProtocolDialect = if given .a done then 1 else 0
  mode : s.definedOperationMode = given .m done
  target : s.definedDvrTarget = given .t done
  user : s.definedDvrUser = given .u done
  password : s.definedDvrPassword = given .w done

variable {sscanf : List UInt8 → Option ℤ} {s t : CommandState} {o : CommandOption}
  {done : List CommandOption}

theorem CommandState.start_inRange (p : ℤ) : (CommandState.start p).options.InRange := by
  constructor <;> simp [start]

theorem CommandState.start_marked (p : ℤ) : (CommandState.start p).Marked [] := by
  constructor <;> rfl

/-- A number that is taken is in range, whatever was converted. -/
theorem scanIn_map_eq_ok {held lo hi : ℤ} {message : String} {optarg : List UInt8}
    {store : ℤ → CommandState} :
    (scanIn sscanf held lo hi message optarg).map store = .ok t ↔
      ∃ v, (sscanf optarg).getD held = v ∧ lo ≤ v ∧ v ≤ hi ∧ t = store v := by
  unfold scanIn
  dsimp only
  split_ifs with h
  · refine ⟨fun hbad => (by cases hbad), ?_⟩
    rintro ⟨v, rfl, hlo, hhi, -⟩
    omega
  · constructor
    · intro ht
      cases ht
      exact ⟨_, rfl, by omega, by omega, rfl⟩
    · rintro ⟨v, rfl, -, -, rfl⟩
      rfl

/-- **One option** keeps the numbers in range. -/
theorem CommandOptions.InRange.processOption (hr : s.options.InRange)
    (ht : processOption sscanf s o = .ok t) : t.options.InRange := by
  unfold TaniDVR.processOption at ht
  cases hk : o.option with
  | h | missing | unknown =>
    rw [hk] at ht
    cases ht
  | t | u | w | f | x =>
    rw [hk] at ht
    cases ht
    exact { hr with }
  | a | r =>
    rw [hk] at ht
    obtain ⟨v, -, hlo, hhi, rfl⟩ := scanIn_map_eq_ok.mp ht
    exact { hr with }
  | m =>
    rw [hk] at ht
    obtain ⟨v, -, hlo, hhi, rfl⟩ := scanIn_map_eq_ok.mp ht
    exact { hr with operationMode := ⟨hlo, hhi⟩ }
  | p =>
    rw [hk] at ht
    obtain ⟨v, -, hlo, hhi, rfl⟩ := scanIn_map_eq_ok.mp ht
    exact { hr with dvrPort := by dsimp only; omega }
  | c =>
    rw [hk] at ht
    obtain ⟨v, -, hlo, hhi, rfl⟩ := scanIn_map_eq_ok.mp ht
    exact { hr with dvrChannel := ⟨hlo, hhi⟩ }
  | s =>
    rw [hk] at ht
    obtain ⟨v, -, hlo, hhi, rfl⟩ := scanIn_map_eq_ok.mp ht
    exact { hr with dvrSubChannel := ⟨hlo, hhi⟩ }
  | n =>
    rw [hk] at ht
    obtain ⟨v, -, hlo, hhi, rfl⟩ := scanIn_map_eq_ok.mp ht
    exact { hr with mediaContainer := ⟨hlo, hhi⟩ }
  | k =>
    rw [hk] at ht
    obtain ⟨v, -, hlo, hhi, rfl⟩ := scanIn_map_eq_ok.mp ht
    exact { hr with keepAlive := by dsimp only; omega }
  | e =>
    rw [hk] at ht
    obtain ⟨v, -, hlo, hhi, rfl⟩ := scanIn_map_eq_ok.mp ht
    exact { hr with timeout := by dsimp only; omega }

/-- **One option** marks what it defines. -/
theorem CommandState.Marked.processOption (h : s.Marked done)
    (ht : processOption sscanf s o = .ok t) : t.Marked (done ++ [o]) := by
  obtain ⟨hd, hm, htarget, hu, hw⟩ := h
  unfold TaniDVR.processOption at ht
  cases hk : o.option with
  | h | missing | unknown =>
    rw [hk] at ht
    cases ht
  | t | u | w | f | x =>
    rw [hk] at ht
    cases ht
    constructor <;> simp [hk, hd, hm, htarget, hu, hw]
  | a =>
    rw [hk] at ht
    obtain ⟨v, -, hlo, hhi, rfl⟩ := scanIn_map_eq_ok.mp ht
    have hv : v.toNat = 1 := by omega
    constructor <;> simp [hk, hv, hm, htarget, hu, hw]
  | m | p | c | s | n | k | e | r =>
    rw [hk] at ht
    obtain ⟨v, -, hlo, hhi, rfl⟩ := scanIn_map_eq_ok.mp ht
    constructor <;> simp [hk, hd, hm, htarget, hu, hw]

theorem checkOptions_eq_ok {c : CommandOptions} :
    checkOptions s = .ok c ↔ (s.definedOperationMode = true ∧ s.definedDvrTarget = true ∧
      s.definedDvrUser = true ∧ s.definedDvrPassword = true) ∧ c = s.options ∧
      c.dvrUser.length + c.dvrPassword.length ≤ maxUserPasswdLen := by
  constructor
  · intro h
    unfold checkOptions at h
    split_ifs at h with hm ht hu hw hl
    cases h
    simp only [Bool.not_eq_false] at hm ht hu hw
    exact ⟨⟨hm, ht, hu, hw⟩, rfl, by omega⟩
  · rintro ⟨⟨hm, ht, hu, hw⟩, rfl, hl⟩
    unfold checkOptions
    rw [if_neg (by simp [hm]), if_neg (by simp [ht]), if_neg (by simp [hu]), if_neg (by simp [hw]),
      if_neg (by omega)]

theorem processCommandLineArguments_eq_ok {p : ℤ} {opts : List CommandOption} {log : List String}
    {c : CommandOptions} :
    processCommandLineArguments sscanf p opts = (log, .ok c) ↔
      ∃ s, opts.foldlM (processOption sscanf) (CommandState.start p) = .ok s ∧
        checkOptions s = .ok c ∧ log = s.options.warnings := by
  unfold processCommandLineArguments
  cases hf : opts.foldlM (processOption sscanf) (CommandState.start p) with
  | error e => simp
  | ok s =>
    simp only [Prod.mk.injEq, Except.ok.injEq, exists_eq_left']
    rw [and_comm, eq_comm (a := log)]

/-- What the loop and the checks leave. -/
theorem accepted_sound {p : ℤ} {opts : List CommandOption} {log : List String} {c : CommandOptions}
    (h : processCommandLineArguments sscanf p opts = (log, .ok c)) :
    ∃ s : CommandState, (s.options.InRange ∧ s.Marked opts) ∧ checkOptions s = .ok c := by
  obtain ⟨s, hf, hc, -⟩ := processCommandLineArguments_eq_ok.mp h
  refine ⟨s, ?_, hc⟩
  have hinv : s.options.InRange ∧ s.Marked ([] ++ opts) :=
    foldlM_invariant (I := fun done s => s.options.InRange ∧ s.Marked done)
      (fun h ht => ⟨h.1.processOption ht, h.2.processOption ht⟩)
      ⟨CommandState.start_inRange p, CommandState.start_marked p⟩ hf
  rwa [List.nil_append] at hinv

theorem accepted_inRange {p : ℤ} {opts : List CommandOption} {log : List String}
    {c : CommandOptions} (h : processCommandLineArguments sscanf p opts = (log, .ok c)) :
    c.InRange ∧ c.dvrUser.length + c.dvrPassword.length ≤ maxUserPasswdLen := by
  obtain ⟨s, ⟨hr, -⟩, hc⟩ := accepted_sound h
  obtain ⟨-, rfl, hlen⟩ := checkOptions_eq_ok.mp hc
  exact ⟨hr, hlen⟩

/-- **A command line that is accepted** has its numbers in range, whatever `sscanf` converts,
whatever its variable holds before it is first written, and in whatever order the options come. -/
theorem command_line_in_range (sscanf : List UInt8 → Option ℤ) (p : ℤ) (opts : List CommandOption)
    (log : List String) (c : CommandOptions)
    (h : processCommandLineArguments sscanf p opts = (log, .ok c)) :
    c.InRange ∧ c.dvrUser.length + c.dvrPassword.length ≤ maxUserPasswdLen ∧
      c.netProtocolDialect = (if given .a opts then 1 else 0) ∧
      ∀ kind ∈ [OptionChar.m, .t, .u, .w], given kind opts = true := by
  obtain ⟨s, ⟨hr, hd, hm', ht', hu', hw'⟩, hc⟩ := accepted_sound h
  obtain ⟨⟨hm, ht, hu, hw⟩, rfl, hlen⟩ := checkOptions_eq_ok.mp hc
  refine ⟨hr, hlen, hd, ?_⟩
  simp [← hm', ← ht', ← hu', ← hw', hm, ht, hu, hw]

/-- `sscanf` on a text that begins with a digit. -/
def scanDecimal (text : List UInt8) : Option ℤ :=
  let digits := text.takeWhile fun b => 0x30 ≤ b ∧ b ≤ 0x39
  if digits = [] then none else some (digits.foldl (fun v b => 10 * v + (b.toNat - 0x30 : ℕ)) 0)

/-- `-m 1 -t h -k 9000 -p x -u a -w b -c 17`: the port is not a number. -/
def portOptions : List CommandOption :=
  [⟨.m, [0x31]⟩, ⟨.t, [0x68]⟩, ⟨.k, [0x39, 0x30, 0x30, 0x30]⟩, ⟨.p, [0x78]⟩, ⟨.u, [0x61]⟩,
    ⟨.w, [0x62]⟩, ⟨.c, [0x31, 0x37]⟩]

/-- Its port is the keep-alive time, of which only a message is made. -/
def portAccepted : CommandOptions where
  operationMode := 1
  dvrTarget := [0x68]
  dvrPort := 9000
  dvrUser := [0x61]
  dvrPassword := [0x62]
  dvrChannel := 17
  dvrSubChannel := 0
  mediaContainer := 1
  outFile := []
  keepAlive := 9000
  timeout := 5000
  netProtocolDialect := 0
  ntscExact60hz := false
  tsproc := true

theorem port_accepted :
    processCommandLineArguments scanDecimal (-1) portOptions =
      (portAccepted.warnings, .ok portAccepted) := by
  decide

theorem command_line_in_range_port :
    portAccepted.InRange ∧
      portAccepted.dvrUser.length + portAccepted.dvrPassword.length ≤ maxUserPasswdLen ∧
      portAccepted.netProtocolDialect = (if given .a portOptions then 1 else 0) ∧
      ∀ kind ∈ [OptionChar.m, .t, .u, .w], given kind portOptions = true :=
  command_line_in_range scanDecimal (-1) portOptions _ portAccepted port_accepted

/-! ### What the options mean -/

/-- The range of the numbers that an option takes. -/
def OptionChar.range : OptionChar → Option (ℤ × ℤ)
  | .a => some (1, 1)
  | .p => some (1, 65535)
  | .c => some (0, 255)
  | .k | .e => some (0, 1000000)
  | .m | .s | .n | .r => some (0, 1)
  | _ => none

/-- An option that is not refused. -/
structure CommandOption.Accepted (sscanf : List UInt8 → Option ℤ) (o : CommandOption) : Prop where
  known : o.option ∉ [OptionChar.h, .missing, .unknown]
  number : ∀ lo hi, o.option.range = some (lo, hi) →
    ∃ v, sscanf o.optarg = some v ∧ lo ≤ v ∧ v ≤ hi

section
variable (sscanf : List UInt8 → Option ℤ)

/-- The number of the last option of a kind. -/
def lastNumber (kind : OptionChar → Bool) (opts : List CommandOption) (default : ℤ) : ℤ :=
  ((lastOf (fun o => kind o.option) opts).bind fun o => sscanf o.optarg).getD default

/-- The text of the last option of a kind. -/
def lastText (kind : OptionChar) (opts : List CommandOption) : List UInt8 :=
  ((lastOf (fun o => o.option = kind) opts).map (·.optarg)).getD []

@[simp] theorem lastNumber_concat (kind : OptionChar → Bool) (opts : List CommandOption)
    (default : ℤ) (o : CommandOption) :
    lastNumber sscanf kind (opts ++ [o]) default =
      if kind o.option then (sscanf o.optarg).getD default
      else lastNumber sscanf kind opts default := by
  unfold lastNumber
  rw [lastOf_concat]
  split <;> rfl

@[simp] theorem lastText_concat (kind : OptionChar) (opts : List CommandOption)
    (o : CommandOption) :
    lastText kind (opts ++ [o]) = if o.option = kind then o.optarg else lastText kind opts := by
  unfold lastText
  rw [lastOf_concat]
  by_cases h : o.option = kind
  · simp [h]
  · simp [h]

/-- What the options mean: of each kind the last. -/
def CommandOptions.meant (opts : List CommandOption) : CommandOptions where
  operationMode := lastNumber sscanf (· = .m) opts 0
  dvrTarget := lastText .t opts
  dvrPort := (lastNumber sscanf (· = .p) opts 37777).toNat
  dvrUser := lastText .u opts
  dvrPassword := lastText .w opts
  dvrChannel := lastNumber sscanf (· = .c) opts 0
  dvrSubChannel := lastNumber sscanf (· = .s) opts 0
  mediaContainer := lastNumber sscanf (· = .n) opts 1
  outFile := lastText .f opts
  keepAlive := (lastNumber sscanf (· = .k) opts 100).toNat
  timeout := (lastNumber sscanf (· = .e) opts 5000).toNat
  netProtocolDialect := (lastNumber sscanf (· = .a) opts 0).toNat
  ntscExact60hz := given .x opts
  tsproc := lastNumber sscanf (· = .r) opts 1 = 1

/-- The state that the options mean. -/
def CommandState.meant (p : ℤ) (opts : List CommandOption) : CommandState where
  options := .meant sscanf opts
  definedOperationMode := given .m opts
  definedDvrTarget := given .t opts
  definedDvrUser := given .u opts
  definedDvrPassword := given .w opts
  p := lastNumber sscanf (· ∈ [.a, .p, .k, .e, .r]) opts p

end

/-- **One option**, in the state that those before it mean, leads to the state that all of them
mean, if it is not refused. -/
theorem processOption_meant (p : ℤ) (hnum : o.option.range.isSome → (sscanf o.optarg).isSome) :
    processOption sscanf (.meant sscanf p done) o = .ok t ↔
      o.Accepted sscanf ∧ t = .meant sscanf p (done ++ [o]) := by
  unfold processOption
  cases hk : o.option with
  | h | missing | unknown =>
    refine ⟨fun hbad => (by cases hbad), fun h => ?_⟩
    exact absurd h.1.known (by simp [hk])
  | t | u | w | f | x =>
    have hacc : o.Accepted sscanf := ⟨by simp [hk], by simp [hk, OptionChar.range]⟩
    rw [Except.ok.injEq, eq_comm]
    simp [hacc, CommandState.meant, CommandOptions.meant, hk]
  | a | m | p | c | s | n | k | e | r =>
    obtain ⟨v, hv⟩ := Option.isSome_iff_exists.mp (hnum (by rw [hk]; rfl))
    rw [scanIn_map_eq_ok]
    constructor
    · rintro ⟨_, rfl, hlo, hhi, rfl⟩
      rw [hv, Option.getD_some] at hlo hhi
      refine ⟨⟨by simp [hk], fun lo hi hb => ⟨v, hv, ?_⟩⟩, ?_⟩
      · rw [hk] at hb
        cases hb
        exact ⟨hlo, hhi⟩
      · simp [CommandState.meant, CommandOptions.meant, hk, hv]
    · rintro ⟨hacc, rfl⟩
      obtain ⟨w, hw, hlo, hhi⟩ := hacc.number _ _ (by rw [hk]; rfl)
      refine ⟨w, by rw [hw]; rfl, hlo, hhi, ?_⟩
      simp [CommandState.meant, CommandOptions.meant, hk, hw]

/-- **What a command line means**: where all its numbers are numbers, it is accepted exactly if no
option is refused and the four that are required are among them, and each kind of option then has
the value that was given last, whatever the others are. -/
theorem command_line_meaning (sscanf : List UInt8 → Option ℤ) (p : ℤ) (opts : List CommandOption)
    (hnum : ∀ o ∈ opts, o.option.range.isSome → (sscanf o.optarg).isSome) (log : List String)
    (c : CommandOptions) :
    processCommandLineArguments sscanf p opts = (log, .ok c) ↔
      (∀ o ∈ opts, o.Accepted sscanf) ∧
      (∀ kind ∈ [OptionChar.m, .t, .u, .w], given kind opts = true) ∧
      c = .meant sscanf opts ∧ c.dvrUser.length + c.dvrPassword.length ≤ maxUserPasswdLen ∧
      log = c.warnings := by
  have hloop : ∀ t, opts.foldlM (processOption sscanf) (CommandState.meant sscanf p []) = .ok t ↔
      (∀ o ∈ opts, o.Accepted sscanf) ∧ t = CommandState.meant sscanf p ([] ++ opts) :=
    foldlM_eq_ok (fun o ho done t => processOption_meant p (hnum o ho)) []
  rw [processCommandLineArguments_eq_ok]
  constructor
  · rintro ⟨s, hf, hc, rfl⟩
    obtain ⟨hacc, rfl⟩ := (hloop s).mp hf
    obtain ⟨hgiven, rfl, hlen⟩ := checkOptions_eq_ok.mp hc
    exact ⟨hacc, by simpa [CommandState.meant] using hgiven, rfl, hlen, rfl⟩
  · rintro ⟨hacc, hgiven, rfl, hlen, rfl⟩
    refine ⟨.meant sscanf p opts, (hloop _).mpr ⟨hacc, rfl⟩, ?_, rfl⟩
    exact checkOptions_eq_ok.mpr ⟨by simpa [CommandState.meant] using hgiven, rfl, hlen⟩

/-- `-c 3 -m 1 -x -t h -u a -w b -c 17`: the channel is given twice. -/
def twiceOptions : List CommandOption :=
  [⟨.c, [0x33]⟩, ⟨.m, [0x31]⟩, ⟨.x, []⟩, ⟨.t, [0x68]⟩, ⟨.u, [0x61]⟩, ⟨.w, [0x62]⟩,
    ⟨.c, [0x31, 0x37]⟩]

def twiceAccepted : CommandOptions :=
  { portAccepted with dvrPort := 37777, keepAlive := 100, ntscExact60hz := true }

theorem twice_accepted :
    processCommandLineArguments scanDecimal 0 twiceOptions = ([], .ok twiceAccepted) := by
  decide

theorem command_line_meaning_twice :
    (∀ o ∈ twiceOptions, o.Accepted scanDecimal) ∧
      (∀ kind ∈ [OptionChar.m, .t, .u, .w], given kind twiceOptions = true) ∧
      twiceAccepted = .meant scanDecimal twiceOptions ∧
      twiceAccepted.dvrUser.length + twiceAccepted.dvrPassword.length ≤ maxUserPasswdLen ∧
      [] = twiceAccepted.warnings :=
  (command_line_meaning scanDecimal 0 twiceOptions (by decide) [] twiceAccepted).mp twice_accepted

/-! ### `main` -/

/-- `dvrcontrol_t`, as `main` fills it in. -/
structure MainParms extends SessionParms where
  hostname : List UInt8
  port : ℕ
  ntscExact60hz : Bool
  tsproc : Bool

/-- What `main` makes of the options. -/
def CommandOptions.dvrctl (c : CommandOptions) : MainParms where
  channel := c.dvrChannel.toNat
  subChannel := c.dvrSubChannel
  keepAliveUs := toUint32 (c.keepAlive * 1000)
  timeoutUs := toUint32 (c.timeout * 1000)
  user := c.dvrUser
  passwd := c.dvrPassword
  netProtocolDialect := c.netProtocolDialect
  hostname := c.dvrTarget
  port := c.dvrPort
  ntscExact60hz := c.ntscExact60hz
  tsproc := c.tsproc

/-- How `main` ends: it exits, it shows what is known of the device, or it calls
`stream_media_dvr_to_file`. -/
inductive MainEnd
  | exits (code : ℤ)
  | dumps (devinfo : Option Devinfo) (code : ℤ)
  | streams (dvrctl : MainParms) (container : Container) (filename : List UInt8)

/-- `main`; `hlpOpen` is what `hlp_open` does for a hostname, a port and a timeout, and `chipset` is
what `di_init` leaves. -/
def tanidvrMain (sscanf : List UInt8 → Option ℤ) (p : ℤ) (hlpOpen : List UInt8 → ℕ → ℕ → HlOpen)
    (chipset : List UInt8) (opts : List CommandOption) : MainEnd :=
  match (processCommandLineArguments sscanf p opts).2 with
  | .error e => .exits e.code
  | .ok c =>
    let dvrctl := c.dvrctl
    let s := openSession (hlpOpen dvrctl.hostname dvrctl.port dvrctl.timeoutUs)
      (some (diInit chipset)) dvrctl.toSessionParms
    if s.ret ≠ 0 then .exits 1
    else if c.operationMode = 0 then
      .dumps s.devinfo (if (closeSession s.conn).ret ≠ 0 then 1 else 0)
    else if c.operationMode = 1 then
      -- what `close_session` returns is ignored
      let nChannels := (s.devinfo.map Devinfo.nChannels).getD 0
      if nChannels > 0 ∧ dvrctl.channel ≥ nChannels then .exits 1
      else .streams dvrctl (if c.mediaContainer = 0 then .native else .mkv) c.outFile
    else .exits 0

/-! ### The number of channels -/

theorem updateDevinfo_nChannels (d : Devinfo) (extdata : List UInt8) (header : LlHeader) :
    (updateDevinfo d extdata header).nChannels = d.nChannels := by
  unfold updateDevinfo
  dsimp only
  split <;> rfl

@[simp] theorem updateDevinfoFromSystemInformation_nChannels (devinfo : Option Devinfo)
    (extdata : List UInt8) (header : LlHeader) :
    (updateDevinfoFromSystemInformation devinfo extdata header).map Devinfo.nChannels =
      devinfo.map Devinfo.nChannels := by
  cases devinfo with
  | none => rfl
  | some d =>
    show some (updateDevinfo d extdata header).nChannels = some d.nChannels
    rw [updateDevinfo_nChannels]

theorem textBytes_append (a b : String) : textBytes (a ++ b) = textBytes a ++ textBytes b := by
  simp [textBytes]

theorem textBytes_toString (n : ℕ) :
    textBytes (toString n) = (Nat.toDigits 10 n).map fun c => UInt8.ofNat c.toNat := by
  simp [textBytes]

theorem toNat_of_mem_toDigits {n : ℕ} {c : Char} (hc : c ∈ Nat.toDigits 10 n) :
    0x30 ≤ c.toNat ∧ c.toNat ≤ 0x39 := by
  have := Nat.isDigit_of_mem_toDigits (by omega) (by omega) hc
  simp only [Char.isDigit, Bool.and_eq_true, decide_eq_true_eq] at this
  exact this

/-- The digits of a number do not hold the byte that ends them. -/
theorem cr_notMem_textBytes (n : ℕ) : (0x0d : UInt8) ∉ textBytes (toString n) := by
  rw [textBytes_toString, List.mem_map]
  rintro ⟨c, hc, hcr⟩
  obtain ⟨hlo, hhi⟩ := toNat_of_mem_toDigits hc
  have hnat := congrArg UInt8.toNat hcr
  rw [UInt8.toNat_ofNat', Nat.mod_eq_of_lt (by omega)] at hnat
  have h13 : (0x0d : UInt8).toNat = 13 := rfl
  omega

theorem textBytes_toString_inj {n m : ℕ} (h : textBytes (toString n) = textBytes (toString m)) :
    n = m := by
  have hback : ∀ k, (textBytes (toString k)).map (fun b => Char.ofNat b.toNat) =
      Nat.toDigits 10 k := by
    intro k
    rw [textBytes_toString, List.map_map]
    refine (List.map_congr_left fun c hc => ?_).trans (List.map_id _)
    obtain ⟨hlo, hhi⟩ := toNat_of_mem_toDigits hc
    show Char.ofNat (UInt8.ofNat c.toNat).toNat = c
    rw [UInt8.toNat_ofNat', Nat.mod_eq_of_lt (by omega), Char.ofNat_toNat]
  calc
    n = Nat.ofDigitChars 10 (Nat.toDigits 10 n) 0 := Nat.ofDigitChars_ten_toDigits.symm
    _ = Nat.ofDigitChars 10 (Nat.toDigits 10 m) 0 := by rw [← hback n, h, hback m]
    _ = m := Nat.ofDigitChars_ten_toDigits

/-- The text of the media request, in full. -/
def mediaText (channel : ℕ) (subChannel : ℤ) : List UInt8 :=
  textBytes ("ChannelName:" ++ toString channel ++ "\r\nStream:" ++ toString subChannel ++
    "\r\nOperate:1\r\nProtocol:tcp\r\n\r\n")

/-- What follows the channel. -/
def mediaTextEnd (subChannel : ℤ) : List UInt8 :=
  textBytes ("\nStream:" ++ toString subChannel ++ "\r\nOperate:1\r\nProtocol:tcp\r\n\r\n")

theorem mediaText_eq (channel : ℕ) (subChannel : ℤ) :
    mediaText channel subChannel = textBytes "ChannelName:" ++
      (textBytes (toString channel) ++ 0x0d :: mediaTextEnd subChannel) := by
  have hcr : textBytes "\r\nStream:" = 0x0d :: textBytes "\nStream:" := by decide
  simp only [mediaText, mediaTextEnd, textBytes_append, hcr, List.append_assoc, List.cons_append]

theorem mediaExtdata_eq_mediaText {channel : ℕ} {subChannel : ℤ} (h16 : 16 ≤ channel)
    (h255 : channel ≤ 255) (hs : 0 ≤ subChannel ∧ subChannel ≤ 1) :
    mediaExtdata channel subChannel = mediaText channel subChannel := by
  have hdigits : (textBytes (toString channel)).length ≤ 3 := by
    rw [textBytes_toString, List.length_map]
    exact (Nat.length_toDigits_le_iff (by omega) (by omega)).mpr (by omega)
  have hend : (mediaTextEnd subChannel).length = 38 := by
    obtain rfl | rfl : subChannel = 0 ∨ subChannel = 1 := by omega
    · decide
    · decide
  have hname : (textBytes "ChannelName:").length = 12 := by decide
  unfold mediaExtdata
  rw [if_neg (by omega)]
  apply List.take_of_length_le
  show (mediaText channel subChannel).length ≤ 62
  rw [mediaText_eq, List.length_append, List.length_append, List.length_cons, hname, hend]
  omega

theorem mediaHeader_raw_26 (channel : ℕ) (subChannel : ℤ) :
    (mediaHeader channel subChannel).raw 26 = if channel < 16 then 0 else 8 := by
  unfold mediaHeader LlHeader.set
  split_ifs with h
  · have hne : 26 ≠ 8 + channel := by omega
    simp [hne, llpInitHeader]
  · simp

theorem mediaHeader_raw_channel {channel : ℕ} (subChannel : ℤ) (h : channel < 16) (i : ℕ) :
    (mediaHeader channel subChannel).raw (8 + i) = if i = channel then 1 else 0 := by
  unfold mediaHeader LlHeader.set
  rw [if_pos h]
  by_cases hi : i = channel
  · subst hi
    simp
  · dsimp only
    rw [Function.update_of_ne (by omega), Function.update_of_ne (by omega), if_neg hi]
    rfl

variable {channel channel' : ℕ} {subChannel subChannel' : ℤ}

/-- The old form of the request. -/
theorem mediaRequest_inj_of_lt (h16 : channel < 16) (h16' : channel' < 16)
    (hs : 0 ≤ subChannel ∧ subChannel ≤ 1) (hs' : 0 ≤ subChannel' ∧ subChannel' ≤ 1)
    (hraw : (mediaHeader channel subChannel).raw (8 + channel) =
      (mediaHeader channel' subChannel').raw (8 + channel))
    (hext : mediaExtdata channel subChannel = mediaExtdata channel' subChannel') :
    channel = channel' ∧ subChannel = subChannel' := by
  rw [mediaHeader_raw_channel _ h16, mediaHeader_raw_channel _ h16', if_pos rfl] at hraw
  by_cases hc : channel = channel'
  · subst hc
    refine ⟨rfl, ?_⟩
    unfold mediaExtdata at hext
    rw [if_pos h16, if_pos h16'] at hext
    have hbyte := congrArg (fun l => l.getD channel 0) hext
    simp only [List.getD_eq_getElem?_getD, List.getElem?_set_self', List.getElem?_replicate,
      if_pos h16] at hbyte
    obtain rfl | rfl : subChannel = 0 ∨ subChannel = 1 := by omega
    · obtain rfl | rfl : subChannel' = 0 ∨ subChannel' = 1 := by omega
      · rfl
      · cases hbyte
    · obtain rfl | rfl : subChannel' = 0 ∨ subChannel' = 1 := by omega
      · cases hbyte
      · rfl
  · rw [if_neg hc] at hraw
    cases hraw

/-- Two lists are cut in the same place by an element that neither has before. -/
theorem append_cons_inj_of_notMem {x x' z z' : List UInt8} {b : UInt8} (hx : b ∉ x) (hx' : b ∉ x')
    (h : x ++ b :: z = x' ++ b :: z') : x = x' ∧ z = z' := by
  rcases List.append_eq_append_iff.mp h with ⟨c, rfl, hc⟩ | ⟨c, rfl, hc⟩
  · cases c with
    | nil => simpa using hc
    | cons b' c =>
      cases hc
      exact absurd (by simp) hx'
  · cases c with
    | nil => simpa using hc.symm
    | cons b' c =>
      cases hc
      exact absurd (by simp) hx

/-- The text of the extended form. -/
theorem mediaText_inj (hs : 0 ≤ subChannel ∧ subChannel ≤ 1)
    (hs' : 0 ≤ subChannel' ∧ subChannel' ≤ 1)
    (h : mediaText channel subChannel = mediaText channel' subChannel') :
    channel = channel' ∧ subChannel = subChannel' := by
  rw [mediaText_eq, mediaText_eq] at h
  have hrest := List.append_cancel_left h
  obtain ⟨hchannel, hend⟩ := append_cons_inj_of_notMem (cr_notMem_textBytes channel)
    (cr_notMem_textBytes channel') hrest
  refine ⟨textBytes_toString_inj hchannel, ?_⟩
  obtain rfl | rfl : subChannel = 0 ∨ subChannel = 1 := by omega
  · obtain rfl | rfl : subChannel' = 0 ∨ subChannel' = 1 := by omega
    · rfl
    · exact absurd hend (by decide)
  · obtain rfl | rfl : subChannel' = 0 ∨ subChannel' = 1 := by omega
    · exact absurd hend (by decide)
    · rfl

/-- **The media request** of a channel and a sub-channel in range is of no other. -/
theorem mediaRequest_inj (hc : channel ≤ 255) (hc' : channel' ≤ 255)
    (hs : 0 ≤ subChannel ∧ subChannel ≤ 1) (hs' : 0 ≤ subChannel' ∧ subChannel' ≤ 1)
    (h : (mediaRequest channel subChannel).bytes = (mediaRequest channel' subChannel').bytes) :
    channel = channel' ∧ subChannel = subChannel' := by
  obtain ⟨hhead, hext⟩ := List.append_inj h
    ((mediaRequest channel subChannel).length_head.trans
      (mediaRequest channel' subChannel').length_head.symm)
  have hraw : ∀ i, 8 ≤ i → i < llpHeaderSize →
      (mediaHeader channel subChannel).raw i = (mediaHeader channel' subChannel').raw i := by
    intro i h8 hi
    have hi' := congrArg (fun l => ofList l i) hhead
    calc
      (mediaHeader channel subChannel).raw i = (mediaRequest channel subChannel).header.raw i :=
        (packet_raw _ _ hi (.inr h8)).symm
      _ = (mediaRequest channel' subChannel').header.raw i := hi'
      _ = (mediaHeader channel' subChannel').raw i := packet_raw _ _ hi (.inr h8)
  have hform := hraw 26 (by omega) (by decide)
  rw [mediaHeader_raw_26, mediaHeader_raw_26] at hform
  by_cases h16 : channel < 16
  · by_cases h16' : channel' < 16
    · refine mediaRequest_inj_of_lt h16 h16' hs hs' (hraw _ (by omega) ?_) hext
      rw [llpHeaderSize]
      omega
    · rw [if_pos h16, if_neg h16'] at hform
      cases hform
  · by_cases h16' : channel' < 16
    · rw [if_neg h16, if_pos h16'] at hform
      cases hform
    · have htext : mediaText channel subChannel = mediaText channel' subChannel' := by
        rw [← mediaExtdata_eq_mediaText (by omega) hc hs,
          ← mediaExtdata_eq_mediaText (by omega) hc' hs']
        exact hext
      exact mediaText_inj hs hs' htext

theorem mediaExtdata_ne_nil (channel : ℕ) (subChannel : ℤ) :
    mediaExtdata channel subChannel ≠ [] := by
  unfold mediaExtdata
  split_ifs
  · simp
  · show (mediaText channel subChannel).take 62 ≠ []
    have hname : textBytes "ChannelName:" = 0x43 :: textBytes "hannelName:" := by decide
    rw [mediaText_eq, hname]
    simp

theorem Conn.fwrite_of_sends {c : Conn} {bytes : List UInt8} {sends : List Bool} (hb : bytes ≠ [])
    (hs : c.sends = true :: sends) :
    c.fwrite bytes = (true, { c with sends := sends, sent := c.sent ++ [bytes] }) := by
  rcases c.fwrite_cases hb with ⟨hnil, -⟩ | ⟨rest, hno, -⟩ | ⟨rest, hok, he⟩
  · rw [hs] at hnil
    cases hnil
  · rw [hs] at hno
    cases hno
  · rw [hs] at hok
    cases hok
    exact he

/-- The request goes out on the control connection. -/
theorem hlpMediaDataRequest_sent {ctrl : HlConn} {sends : List Bool} (conn : HlConn)
    (channel : ℕ) (subChannel : ℤ) (dest : Option ℕ) (hs : ctrl.ll.sends = true :: true :: sends) :
    (hlpMediaDataRequest ctrl conn channel subChannel dest).ctrl.ll.sent.flatten =
      ctrl.ll.sent.flatten ++ (mediaRequest channel subChannel).bytes := by
  unfold hlpMediaDataRequest llpSendHeader llpSendExtdata
  rw [Conn.fwrite_of_sends (head_ne_nil _) hs]
  dsimp only
  rw [if_pos rfl, Conn.fwrite_of_sends (mediaExtdata_ne_nil channel subChannel) rfl]
  simp [mediaRequest, packet, LlMessage.bytes]

/-! ### What `main` goes on to stream -/

theorem CommandOptions.InRange.channel_le {c : CommandOptions} (hr : c.InRange) :
    c.dvrctl.channel ≤ 255 := by
  have := hr.dvrChannel
  show c.dvrChannel.toNat ≤ 255
  omega

/-- The session that `main` opens, to learn the number of channels. -/
def probe (hlpOpen : List UInt8 → ℕ → ℕ → HlOpen) (chipset : List UInt8) (d : MainParms) :
    SessionReply :=
  openSession (hlpOpen d.hostname d.port d.timeoutUs) (some (diInit chipset)) d.toSessionParms

variable {p : ℤ} {hlpOpen : List UInt8 → ℕ → ℕ → HlOpen} {chipset : List UInt8}
  {opts : List CommandOption} {d : MainParms} {container : Container} {filename : List UInt8}

/-- What has to be the case for `main` to stream. -/
theorem tanidvrMain_streams
    (h : tanidvrMain sscanf p hlpOpen chipset opts = .streams d container filename) :
    ∃ log c, processCommandLineArguments sscanf p opts = (log, .ok c) ∧ d = c.dvrctl ∧
      (probe hlpOpen chipset d).ret = 0 ∧
      ¬ (((probe hlpOpen chipset d).devinfo.map Devinfo.nChannels).getD 0 > 0 ∧
        d.channel ≥ ((probe hlpOpen chipset d).devinfo.map Devinfo.nChannels).getD 0) := by
  unfold tanidvrMain at h
  rcases hc : processCommandLineArguments sscanf p opts with ⟨log, e | c⟩
  · rw [hc] at h
    cases h
  · rw [hc] at h
    dsimp only at h
    split_ifs at h with hret h0 h1 hn
    all_goals
      cases h
      exact ⟨log, c, rfl, rfl, not_not.mp hret, hn⟩

/-- The login reply of a DVR of 32 channels. -/
def manyChannels : LlMessage where
  head := 0xb0 :: List.replicate 9 0 ++ [32] ++ List.replicate 21 0
  payload := []
  length_head := rfl
  le32_head := by decide

/-- A control connection to it. -/
def manyControl : HlOpen :=
  ⟨true, ⟨⟨encode LlMessage.bytes [manyChannels, nopReply], false, List.replicate 259 true, [], []⟩,
    0⟩⟩

/-- It streams any of its channels, in dialect 0. -/
theorem tanidvrMain_many {p : ℤ} {opts : List CommandOption} {log : List String}
    {c : CommandOptions} (hc : processCommandLineArguments scanDecimal p opts = (log, .ok c))
    (hdialect : c.netProtocolDialect = 0) (hmode : c.operationMode = 1)
    (hchannel : c.dvrctl.channel < 32) :
    tanidvrMain scanDecimal p (fun _ _ _ => manyControl) [] opts =
      .streams c.dvrctl (if c.mediaContainer = 0 then .native else .mkv) c.outFile := by
  have hans : Answers [manyChannels, nopReply] manyChannels [] :=
    ⟨⟨[], nopReply, rfl, by simp, by decide, by decide⟩, by decide, by decide, by simp, by simp⟩
  have hsends : ∀ i < 259, manyControl.conn.ll.sends[i]? = some true := by
    intro i hi
    show (List.replicate 259 true)[i]? = some true
    rw [List.getElem?_replicate, if_pos hi]
  have hcred : c.dvrctl.user.length + c.dvrctl.passwd.length ≤ maxUserPasswdLen :=
    (accepted_inRange hc).2
  obtain ⟨ll, hopen, -⟩ := openSession_of_answers (diInit []) hdialect hcred rfl hans
    (List.append_nil _).symm hsends
  have hn : ¬ ((32 : ℤ) > 0 ∧ (c.dvrctl.channel : ℤ) ≥ 32) := by omega
  unfold tanidvrMain
  rw [hc]
  dsimp only
  rw [hopen, if_neg (by simp), if_neg (by omega), if_pos hmode]
  exact if_neg hn

/-- **The request names what is streamed**: of two command lines, with any DVRs, the media requests
that go out on the same control connection are different unless the channels and the sub-channels
are the same. -/
theorem request_names (sscanf : List UInt8 → Option ℤ) (p p' : ℤ)
    (hlpOpen hlpOpen' : List UInt8 → ℕ → ℕ → HlOpen) (chipset chipset' : List UInt8)
    (opts opts' : List CommandOption) (d d' : MainParms) (container container' : Container)
    (filename filename' : List UInt8)
    (h : tanidvrMain sscanf p hlpOpen chipset opts = .streams d container filename)
    (h' : tanidvrMain sscanf p' hlpOpen' chipset' opts' = .streams d' container' filename')
    (ctrl conn conn' : HlConn) (sends : List Bool) (hs : ctrl.ll.sends = true :: true :: sends)
    (dest : Option ℕ)
    (hreq : (hlpMediaDataRequest ctrl conn d.channel d.subChannel dest).ctrl.ll.sent.flatten =
      (hlpMediaDataRequest ctrl conn' d'.channel d'.subChannel dest).ctrl.ll.sent.flatten) :
    d.channel = d'.channel ∧ d.subChannel = d'.subChannel := by
  rw [hlpMediaDataRequest_sent conn _ _ dest hs, hlpMediaDataRequest_sent conn' _ _ dest hs] at hreq
  obtain ⟨log, c, hc, rfl, -⟩ := tanidvrMain_streams h
  obtain ⟨log', c', hc', rfl, -⟩ := tanidvrMain_streams h'
  have hr := (accepted_inRange hc).1
  have hr' := (accepted_inRange hc').1
  exact mediaRequest_inj hr.channel_le hr'.channel_le hr.dvrSubChannel hr'.dvrSubChannel
    (List.append_cancel_left hreq)

/-- A control connection that takes two writes. -/
def writableConn : HlConn := ⟨⟨[], false, [true, true], [], []⟩, 0⟩

theorem request_names_twice :
    portAccepted.dvrctl.channel = twiceAccepted.dvrctl.channel ∧
      portAccepted.dvrctl.subChannel = twiceAccepted.dvrctl.subChannel :=
  request_names scanDecimal (-1) 0 (fun _ _ _ => manyControl) (fun _ _ _ => manyControl) [] []
    portOptions twiceOptions _ _ _ _ _ _
    (tanidvrMain_many port_accepted rfl rfl (by decide))
    (tanidvrMain_many twice_accepted rfl rfl (by decide)) writableConn writableConn
    writableConn [] rfl none rfl

end TaniDVR
