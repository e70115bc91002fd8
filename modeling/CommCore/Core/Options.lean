import CommCore.Core.Errors
import CommCore.Core.Settings
import CommCore.Lib.Exec

/-!
# `options::read_input_file` (`libs/core/{include/core,src}/settings/options.{hpp,cpp}`)

The settings of the application: the path of the input file and the settings read from it.
`readInputFile` stores the path, reads the file, strips a byte order mark, parses, converts, and
wraps whatever the libraries throw into a `my_error`. The path is stored before anything can fail
(`readInputFile_run`).

`Env` is what the program gets from its libraries and from the system: a snapshot of the file
system, the operations on paths, the JSON parser, and the texts of the errors they throw.
-/

namespace CommCore

namespace Settings

open Lib Lib.Json Errors

/-- `json::parse_options`. -/
structure ParseOptions where
  allowComments : Bool
  allowTrailingCommas : Bool
  deriving DecidableEq, Repr

/-- What `fs::status` gives for a path, `failed` with an error code. -/
inductive Status where
  | notFound
  | regular
  | other
  | failed (ec : Int)
  deriving DecidableEq, Repr

/-- The operations on paths. -/
structure PathOps (P : Type) where
  ofString : Str → P
  string : P → Str
  absolute : P → P
  parentPath : P → P
  extension : P → P
  isRelative : P → Bool
  append : P → P → P

/-- The libraries and the file system. -/
structure Env (P : Type) extends PathOps P where
  status : P → Status
  /-- The `errno` of opening a file, if it cannot be opened. -/
  openErrno : Str → Option Int
  /-- What reading an open file to its end gives, or throws. -/
  contents : Str → Except LibError Str
  parse : ParseOptions → Str → Except LibError Value
  /-- The text of a `system_error` with the given code and prefix. -/
  systemErrorText : Int → Str → Str
  /-- The text of the `filesystem_error` for a path whose status cannot be had. -/
  filesystemErrorText : Int → P → Str
  /-- What a failed conversion throws. -/
  conversionError : Json.Error → LibError

/-- The singleton. -/
structure Options (P : Type) where
  inputFilePath : P
  inputFile : InputFile := {}

/-- `std::tolower` of a byte. -/
def toLower (b : Byte) : Byte := if 65 ≤ b ∧ b ≤ 90 then b + 32 else b

def toLowerCopy (text : Str) : Str := text.map toLower

/-- The text without a UTF-8 byte order mark. -/
def stripBom : Str → Str
  | 0xEF :: 0xBB :: 0xBF :: text => text
  | text => text

variable {P : Type} (env : Env P)

def isJsoncPath (path : P) : Bool :=
  toLowerCopy (env.string (env.extension path)) = lit ".jsonc"

/-- The `system_error` for a file that cannot be opened. -/
def openError (errno : Int) : LibError where
  boost := true
  std := true
  what := env.systemErrorText errno (lit "ファイルを開けませんでした")

/-- A file opened and read to its end. -/
def readText (name : Str) : Except LibError Str :=
  match env.openErrno name with
  | some errno => .error (openError env errno)
  | none => env.contents name

/-- The body of the `try` block. -/
def readBody (path : P) : Exec LibError (Options P) Unit := do
  modify fun o => { o with inputFilePath := path }
  let path := (← get).inputFilePath
  let inputText ← Exec.ofExcept (readText env (env.string path))
  let opt := { allowComments := isJsoncPath env path, allowTrailingCommas := true }
  let jv ← Exec.ofExcept (env.parse opt (stripBom inputText))
  let f ← Exec.ofExcept ((valueTo (α := InputFile) jv).mapError env.conversionError)
  modify fun o => { o with inputFile := f }
  modify fun o => { o with inputFile := o.inputFile.resolveRelativePath (env.parentPath path) }

/-- The `my_error` for what the block throws. -/
def wrap (path : P) (e : LibError) : Exn :=
  .myError {
    message := some (if e.std then e.what else lit "不明な例外が発生しました")
    path := some (env.string path) }

/-- `read_input_file(path)`. -/
def readInputFile (path : P) : Exec Exn (Options P) Unit :=
  Exec.tryCatch (readBody env path) fun e => Exec.throw (wrap env path e)

/-! ## What it reads -/

/-- The settings in a file. -/
def load (path : P) : Except LibError InputFile := do
  let inputText ← readText env (env.string path)
  let jv ← env.parse { allowComments := isJsoncPath env path, allowTrailingCommas := true }
    (stripBom inputText)
  (valueTo (α := InputFile) jv).mapError env.conversionError

/-- The file opens, can be read, parses and converts. -/
def Readable (path : P) : Prop := ∃ text jv f,
  readText env (env.string path) = .ok text ∧
    env.parse { allowComments := isJsoncPath env path, allowTrailingCommas := true }
      (stripBom text) = .ok jv ∧
    valueTo (α := InputFile) jv = .ok f

theorem readable_iff {path : P} : Readable env path ↔ ∃ f, load env path = .ok f := by
  unfold Readable load
  cases ht : readText env (env.string path) with
  | error e => simp [bind, Except.bind]
  | ok text =>
    cases hj : env.parse { allowComments := isJsoncPath env path, allowTrailingCommas := true }
        (stripBom text) with
    | error e => simp [bind, Except.bind, hj]
    | ok jv =>
      cases hf : valueTo (α := InputFile) jv with
      | error e => simp [Except.mapError, bind, Except.bind, hj, hf]
      | ok f => simp [Except.mapError, bind, Except.bind, hj, hf]

/-- The block stores the path, loads the file and stores the settings. -/
theorem readBody_eq (path : P) :
    readBody env path = (do
      modify fun o => { o with inputFilePath := path }
      let o ← get
      let f ← Exec.ofExcept (load env o.inputFilePath)
      modify fun o => { o with inputFile := f }
      modify fun o' => { o' with
        inputFile := o'.inputFile.resolveRelativePath (env.parentPath o.inputFilePath) }) := by
  simp only [readBody, load, Exec.ofExcept_bind, bind_assoc]

theorem readBody_run (path : P) (o : Options P) : (readBody env path).run o =
    match load env path with
    | .ok f => .ok () { inputFilePath := path, inputFile := f }
    | .error e => .error (.thrown e) { o with inputFilePath := path } := by
  rw [readBody_eq, Exec.run_bind_ok (EStateM.run_modify _ o),
    Exec.run_bind_ok (EStateM.run_get _), Exec.run_ofExcept_bind]
  cases load env path with
  | error e => rfl
  | ok f =>
    show EStateM.Result.ok () (Options.mk path (f.resolveRelativePath (env.parentPath path))) = _
    rw [resolveRelativePath_eq]

/-- `read_input_file` sets the path and the settings, or only the path when it throws. -/
theorem readInputFile_run (path : P) (o : Options P) : (readInputFile env path).run o =
    match load env path with
    | .ok f => .ok () { inputFilePath := path, inputFile := f }
    | .error e => .error (.thrown (wrap env path e)) { o with inputFilePath := path } := by
  unfold readInputFile
  rw [Exec.run_tryCatch, readBody_run]
  cases load env path <;> rfl

end Settings

end CommCore
