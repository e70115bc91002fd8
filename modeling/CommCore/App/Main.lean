import CommCore.Core.Options

/-!
# `parse_args` and `main` (`src/main.cpp`)

`parse_args` finds the path of the input file, `main` reads it, and `main`'s handlers turn what is
thrown into a printed text and an exit status.

- **`parseArgs`** wraps every `std::exception` of its block into a `my_error`, the `show_help` that
  it throws for `--help` included. So whatever it throws is a `my_error` (`parseArgs_error`).
- **`handler`**: the handler for `show_help` is never reached, and the one for `boost::exception`
  asks for the text of a `my_error`, which never comes (`myError_never_told`).
- So `main` meets its contract, status 0 with the help or with a file read and 1 otherwise, exactly
  when there is no `--help` and the file can be read (`exitContract_iff`, `help_not_shown`).

Logging, the greetings and `student_council::run`, which is empty, are left out. The parsing of the
command line is a parameter.
-/

namespace CommCore

namespace Main

open Lib Errors Settings

/-- `argv`. -/
structure Args where
  program : Str
  args : List Str

/-- The variables map: whether there is a `help`, and the `input`. -/
structure VariablesMap (P : Type) where
  help : Bool
  input : P

/-- The libraries, the file system and the command line. -/
structure MainEnv (P : Type) extends Env P where
  commandLine : Args → Except LibError (VariablesMap P)
  /-- The text of the options description. -/
  helpText : Str

/-- How `main` ends: with a status and what it has printed, by an exception of a handler, or
undefined. -/
inductive Outcome where
  | exit (status : Nat) (out : Str)
  | terminated
  | undefined
  deriving DecidableEq, Repr

variable {P : Type} (env : MainEnv P)

/-! ## `parse_args` -/

/-- `fs::exists(p)`. -/
def fsExists (p : P) : Except LibError Bool :=
  match env.status p with
  | .failed ec => .error { boost := true, std := true, what := env.filesystemErrorText ec p }
  | .notFound => .ok false
  | _ => .ok true

def isRegularInputFile (p : P) : Except Exn Bool := do
  if ← (fsExists env p).mapError .library then
    match env.status p with
    | .failed ec => throw (.library {
        boost := true
        std := true
        what := env.systemErrorText ec (lit "ファイル状態の取得に失敗しました。") })
    | st => pure (st = .regular)
  else pure false

def exeDir (argv : Args) : P := env.parentPath (env.absolute (env.ofString argv.program))

/-- The `my_error` for an input file that is not there. -/
def notThere (path : P) : Exn :=
  .myError {
    message := some (lit "入力ファイルが存在しません。")
    path := some (env.string path) }

/-- The input itself, or the file of that name beside the program. -/
def findInput (dir input : P) : Except Exn P := do
  if ← isRegularInputFile env input then
    pure input
  else if env.isRelative input then
    let input := env.append dir input
    if ← isRegularInputFile env input then pure input else throw (notThere env input)
  else pure input

/-- The body of the `try` block. -/
def parseBody (argv : Args) : Except Exn P := do
  let vm ← (env.commandLine argv).mapError .library
  if vm.help then
    throw (.showHelp { message := some env.helpText })
  else findInput env (exeDir env argv) vm.input

/-- What the handler of `parse_args` makes of an exception. -/
def wrapError (e : Exn) : Exn :=
  if e.isStd then
    .myError {
      message := some (lit "上位レベルのエラーが発生しました。")
      nested := some e }
  else e

def parseArgs (argv : Args) : Except Exn P := (parseBody env argv).mapError wrapError

/-! ## `main` -/

variable (diag : Diagnostics)

def usage : Str := lit ("Usage: app [Options]\n" ++ "Options:\n" ++
  "  -i [--input] arg    入力ファイル\n" ++ "  -h [--help]         ヘルプを表示\n")

/-- The handlers of `main`, with `n` nested calls of `what` at most. -/
def handler (n : Nat) (e : Exn) : Option Outcome :=
  match e with
  | .showHelp infos =>
    match infos.message with
    | some msg => some (.exit 0 (msg ++ lit "\n"))
    | none => some (.exit 0 usage)
  | e =>
    if e.isBoost then
      match diag (approx (Exn.what diag) n) e with
      | none => none
      | some (.ok _) => some (.exit 1 [])
      | some (.error _) => some .terminated
    else if e.isStd then (approx (Exn.what diag) n e).map fun _ => .exit 2 []
    else some (.exit 3 [])

/-- The body of the `try` block. -/
def mainBody (argv : Args) : Exec Exn (Options P) Unit := do
  let inputFile ← Exec.ofExcept (parseArgs env argv)
  readInputFile env.toEnv inputFile

/-- `main`, with `n` nested calls of `what` at most; `none`: it has not returned. -/
def main (n : Nat) (argv : Args) (o : Options P) : Option Outcome :=
  match (mainBody env argv).run o with
  | .ok _ _ => some (.exit 0 [])
  | .error (.thrown e) _ => handler diag n e
  | .error .undefined _ => some .undefined

/-! ## What `parse_args` returns and throws -/

/-- The path that an input resolves to. -/
def resolve (dir input : P) : Option P :=
  match env.status input with
  | .regular => some input
  | .failed _ => none
  | _ =>
    if env.isRelative input then
      if env.status (env.append dir input) = .regular then some (env.append dir input) else none
    else some input

variable {env} {argv : Args} {vm : VariablesMap P}

theorem parseBody_eq (hs : env.commandLine argv = .ok vm) : parseBody env argv =
    if vm.help then .error (.showHelp { message := some env.helpText })
    else findInput env (exeDir env argv) vm.input := by
  unfold parseBody
  rw [hs]
  rfl

theorem isRegularInputFile_failed {p : P} {ec : Int} (h : env.status p = .failed ec) :
    ∃ e, e.isStd = true ∧ isRegularInputFile env p = .error e := by
  unfold isRegularInputFile fsExists
  rw [h]
  exact ⟨_, rfl, rfl⟩

theorem isRegularInputFile_ok {p : P} (h : ∀ ec, env.status p ≠ .failed ec) :
    isRegularInputFile env p = .ok (env.status p = .regular) := by
  unfold isRegularInputFile fsExists
  cases hs : env.status p with
  | failed ec => exact absurd hs (h ec)
  | _ => rfl

theorem resolve_other {dir input : P} (hf : ∀ ec, env.status input ≠ .failed ec)
    (hr : env.status input ≠ .regular) : resolve env dir input =
      if env.isRelative input then
        if env.status (env.append dir input) = .regular then some (env.append dir input) else none
      else some input := by
  unfold resolve
  cases hs : env.status input with
  | failed ec => exact absurd hs (hf ec)
  | regular => exact absurd hs hr
  | _ => rfl

variable (env) in
/-- The search returns the path that the input resolves to, or throws a `std::exception`. -/
theorem findInput_resolve (dir input : P) :
    (∃ p, resolve env dir input = some p ∧ findInput env dir input = .ok p) ∨
      resolve env dir input = none ∧
        ∃ e, e.isStd = true ∧ findInput env dir input = .error e := by
  unfold findInput
  by_cases hf : ∃ ec, env.status input = .failed ec
  · obtain ⟨ec, hf⟩ := hf
    obtain ⟨e, hstd, he⟩ := isRegularInputFile_failed hf
    rw [he]
    exact .inr ⟨by unfold resolve; rw [hf], e, hstd, rfl⟩
  rw [not_exists] at hf
  rw [isRegularInputFile_ok hf]
  by_cases hr : env.status input = .regular
  · refine .inl ⟨input, by unfold resolve; rw [hr], ?_⟩
    simp [hr, bind, Except.bind, pure, Except.pure]
  rw [resolve_other hf hr]
  by_cases hrel : env.isRelative input = true
  · -- a relative input that is not there is looked for beside the program
    rw [if_pos hrel]
    by_cases hf' : ∃ ec, env.status (env.append dir input) = .failed ec
    · obtain ⟨ec, hf'⟩ := hf'
      obtain ⟨e, hstd, he⟩ := isRegularInputFile_failed hf'
      exact .inr ⟨by rw [hf']; rfl, e, hstd, by simp [hr, hrel, he, bind, Except.bind]⟩
    rw [not_exists] at hf'
    by_cases hr' : env.status (env.append dir input) = .regular
    · refine .inl ⟨_, if_pos hr', ?_⟩
      simp [hr, hrel, isRegularInputFile_ok hf', hr', bind, Except.bind, pure, Except.pure]
    · refine .inr ⟨if_neg hr', notThere env (env.append dir input), rfl, ?_⟩
      simp [hr, hrel, isRegularInputFile_ok hf', hr', bind, Except.bind, throw, throwThe,
        MonadExceptOf.throw]
  · exact .inl ⟨input, if_neg hrel, by simp [hr, hrel, bind, Except.bind, pure, Except.pure]⟩

/-- `parse_args` returns the path that the input resolves to, unless help was asked for. -/
theorem parseArgs_ok_iff (hs : env.commandLine argv = .ok vm) {p : P} :
    parseArgs env argv = .ok p ↔
      vm.help = false ∧ resolve env (exeDir env argv) vm.input = some p := by
  unfold parseArgs
  rw [parseBody_eq hs]
  cases vm.help with
  | true => simp [Except.mapError]
  | false =>
    rcases findInput_resolve env (exeDir env argv) vm.input with
      ⟨p', hp, he⟩ | ⟨hp, e, -, he⟩
    · simp [Except.mapError, hp, he]
    · simp [Except.mapError, hp, he]

/-- Whatever `parse_args` throws is a `my_error`, also the request for help. -/
theorem parseArgs_error (hs : env.commandLine argv = .ok vm) {e : Exn}
    (h : parseArgs env argv = .error e) : ∃ infos, e = .myError infos := by
  have hwrap : ∀ e' : Exn, e'.isStd = true → ∃ infos, wrapError e' = .myError infos :=
    fun e' hstd => ⟨_, if_pos hstd⟩
  unfold parseArgs at h
  rw [parseBody_eq hs] at h
  cases hh : vm.help with
  | true =>
    rw [hh] at h
    cases h
    exact hwrap _ rfl
  | false =>
    rw [hh] at h
    rcases findInput_resolve env (exeDir env argv) vm.input with
      ⟨p', -, he⟩ | ⟨-, e', hstd, he⟩
    · simp [he, Except.mapError] at h
    · simp only [he, Bool.false_eq_true, if_false, Except.mapError, Except.error.injEq] at h
      rw [← h]
      exact hwrap e' hstd

/-! ## What `main` returns -/

/-- The text of a `my_error` never comes, and the handler waits for it. -/
theorem handler_myError (hd : CallsWhat diag) (infos : Infos Exn) (n : Nat) :
    handler diag n (.myError infos) = none := by
  simp [handler, Exn.isBoost, diag_myError hd]

variable (env) (argv) in
/-- `parse_args` returns a path and `read_input_file` reads that file. -/
def FileRead (o : Options P) : Prop :=
  ∃ p, parseArgs env argv = .ok p ∧ ∃ o', (readInputFile env.toEnv p).run o = .ok () o'

theorem readInputFile_ok_iff {p : P} {o : Options P} :
    (∃ o', (readInputFile env.toEnv p).run o = .ok () o') ↔ Readable env.toEnv p := by
  rw [readInputFile_run, readable_iff]
  cases load env.toEnv p with
  | ok f => simp
  | error e => simp

/-- The paths that are read: without a request for help, the one that the input resolves to. -/
theorem fileRead_iff (hs : env.commandLine argv = .ok vm) {o : Options P} :
    FileRead env argv o ↔ vm.help = false ∧
      ∃ p, resolve env (exeDir env argv) vm.input = some p ∧ Readable env.toEnv p := by
  unfold FileRead
  simp only [parseArgs_ok_iff hs, readInputFile_ok_iff]
  constructor
  · rintro ⟨p, ⟨hh, hp⟩, hr⟩
    exact ⟨hh, p, hp, hr⟩
  · rintro ⟨hh, p, hp, hr⟩
    exact ⟨p, ⟨hh, hp⟩, hr⟩

/-- With a file read, `main` returns 0 at once. -/
theorem main_of_fileRead {o : Options P} (h : FileRead env argv o) (n : Nat) :
    main env diag n argv o = some (.exit 0 []) := by
  obtain ⟨p, hp, o', ho⟩ := h
  unfold main mainBody
  rw [hp, Exec.run_ofExcept_bind]
  simp only [ho]

/-- Without one, `main` never returns. -/
theorem main_of_not_fileRead (hd : CallsWhat diag) (hs : env.commandLine argv = .ok vm)
    {o : Options P} (h : ¬ FileRead env argv o) (n : Nat) : main env diag n argv o = none := by
  unfold main mainBody
  rw [Exec.run_ofExcept_bind]
  cases hp : parseArgs env argv with
  | error e =>
    obtain ⟨infos, rfl⟩ := parseArgs_error hs hp
    exact handler_myError diag hd infos n
  | ok p =>
    have hl : ∀ f, load env.toEnv p ≠ .ok f := fun f hf =>
      h ⟨p, hp, readInputFile_ok_iff.mpr ((readable_iff _).mpr ⟨f, hf⟩)⟩
    dsimp only
    rw [readInputFile_run]
    cases hload : load env.toEnv p with
    | ok f => exact absurd hload (hl f)
    | error e => exact handler_myError diag hd _ n

/-- **The text of a `my_error` is never told**: `what` never returns, nor does the handler of `main`
for any `my_error`. -/
theorem myError_never_told (hd : CallsWhat diag) (infos : Infos Exn) :
    (∀ text, ¬ Returns (Exn.what diag) (.myError infos) text) ∧
      ∀ n, handler diag n (.myError infos) = none :=
  ⟨(what_diverges hd infos).not_returns, handler_myError diag hd infos⟩

/-- The text for an exception that was thrown without a location and carries nothing. -/
def boostText : Diagnostics := fun what e =>
  if e.isStd then
    (what e).map fun text => .ok (lit ("Throw location unknown (consider using " ++
      "BOOST_THROW_EXCEPTION)\nstd::exception::what: ") ++ text ++ lit "\n")
  else some (.ok (lit "Throw location unknown (consider using BOOST_THROW_EXCEPTION)\n"))

theorem boostText_callsWhat : CallsWhat boostText := by
  intro self e _ hstd hnone
  unfold boostText
  rw [if_pos hstd, hnone]
  rfl

theorem myError_never_told_plain :
    (∀ text, ¬ Returns (Exn.what boostText) (.myError {}) text) ∧
      ∀ n, handler boostText n (.myError {}) = none :=
  myError_never_told boostText boostText_callsWhat {}

/-- A `my_error` without infos has no text. -/
theorem plain_what_diverges : ¬ ∃ text, Returns (Exn.what boostText) (.myError {}) text := by
  rintro ⟨text, h⟩
  exact (what_diverges boostText_callsWhat {}).not_returns text h

variable (env) (argv) (vm) in
/-- The contract of `main`:

* `help`: asked for help, `parse_args` throws a `show_help` with the help text, and `main` prints
  that text and returns 0;
* `zero`: otherwise `main` returns 0 exactly if the file that `parse_args` returns is read;
* `one`: in every other case `main` returns 1. -/
structure ExitContract (o : Options P) : Prop where
  help : vm.help = true →
    parseArgs env argv = .error (.showHelp { message := some env.helpText }) ∧
      ∃ n, main env diag n argv o = some (.exit 0 (env.helpText ++ lit "\n"))
  zero : vm.help = false →
    ((∃ n out, main env diag n argv o = some (.exit 0 out)) ↔ FileRead env argv o)
  one : vm.help = false → ¬ FileRead env argv o →
    ∃ n out, main env diag n argv o = some (.exit 1 out)

/-- **`main` meets its contract exactly when it has a file to read**: without `--help`, for an input
that resolves to a path whose file opens, parses and converts. -/
theorem exitContract_iff (hd : CallsWhat diag) (hs : env.commandLine argv = .ok vm)
    (o : Options P) : ExitContract env diag argv vm o ↔
      vm.help = false ∧ ∃ p, resolve env (exeDir env argv) vm.input = some p ∧
        Readable env.toEnv p := by
  rw [← fileRead_iff hs (o := o)]
  constructor
  · intro hc
    by_contra hn
    cases hh : vm.help with
    | true =>
      obtain ⟨-, n, hmain⟩ := hc.help hh
      rw [main_of_not_fileRead diag hd hs hn] at hmain
      cases hmain
    | false =>
      obtain ⟨n, out, hmain⟩ := hc.one hh hn
      rw [main_of_not_fileRead diag hd hs hn] at hmain
      cases hmain
  · intro hf
    obtain ⟨hh, -⟩ := (fileRead_iff hs).mp hf
    refine ⟨fun ht => ?_, fun _ => ?_, fun _ hn => absurd hf hn⟩
    · rw [hh] at ht; cases ht
    · exact iff_of_true ⟨0, [], main_of_fileRead diag hf 0⟩ hf

/-! ## A directory with one file -/

/-- Windows paths: an absolute one begins with a drive and a backslash. -/
def drivePaths : PathOps Str where
  ofString p := p
  string p := p
  absolute p := if (p.drop 1).take 2 = lit ":\\" then p else lit "C:\\work\\" ++ p
  parentPath p := (p.reverse.dropWhile (· ≠ 92)).tail.reverse
  extension p := p.dropWhile (· ≠ 46)
  isRelative p := (p.drop 1).take 2 ≠ lit ":\\"
  append dir p := dir ++ lit "\\" ++ p

/-- A working directory with `app.jsonc`, the empty object, and a program that takes `--help`. -/
def oneFile : MainEnv Str where
  toPathOps := drivePaths
  status p := if p = lit "app.jsonc" then .regular else .notFound
  openErrno name := if name = lit "app.jsonc" then none else some 2
  contents _ := .ok (lit "\x7b\x7d")
  parse _ text :=
    if text = lit "\x7b\x7d" then .ok (.object [])
    else .error { boost := true, std := true, what := lit "syntax error" }
  systemErrorText _ text := text ++ lit ": No such file or directory"
  filesystemErrorText _ p := lit "boost::filesystem::status: " ++ p
  conversionError _ := { boost := true, std := true, what := lit "not a string" }
  commandLine argv := .ok { help := argv.args.contains (lit "--help"), input := lit "app.jsonc" }
  helpText := lit "利用可能なオプション:\n"

/-- The program, started with the given arguments. -/
def started (args : List Str) : Args := ⟨lit "C:\\app\\app.exe", args⟩

/-- Started without arguments, `main` meets its contract. -/
theorem exitContract_oneFile : ExitContract oneFile boostText (started [])
    ⟨false, lit "app.jsonc"⟩ { inputFilePath := [] } :=
  (exitContract_iff boostText boostText_callsWhat rfl _).mpr
    ⟨rfl, lit "app.jsonc", by decide, lit "\x7b\x7d", .object [], {}, by decide, by rfl, by rfl⟩

/-- Started with `--help`, it does not: `parse_args` throws a `my_error`. -/
theorem help_not_shown : ¬ ExitContract oneFile boostText (started [lit "--help"])
    ⟨true, lit "app.jsonc"⟩ { inputFilePath := [] } := by
  intro hc
  obtain ⟨h, -⟩ := hc.help rfl
  have hs : oneFile.commandLine (started [lit "--help"]) = .ok ⟨true, lit "app.jsonc"⟩ := rfl
  obtain ⟨infos, he⟩ := parseArgs_error hs h
  cases he

end Main

end CommCore
