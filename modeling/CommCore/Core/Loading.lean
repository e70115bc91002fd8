import CommCore.Core.Options
import CommCore.Lib.Sys

/-!
# Sequences of `options::read_input_file` calls (`libs/core/src/settings/options.cpp`)

- **A call.** `LoadCall` is a path with the files, the libraries and the log at the time of the
  call; `LoadCall.readInputFile` is `readInputFile` with the log line at the end of its `try` block,
  which serialises the settings. With a log that does not throw it is `readInputFile`
  (`LoadCall.run_of_quiet`).
- **Sequences.** `loading o₀` makes any calls, from the state `o₀`. The label of a step has what the
  call threw.
- **`Held`**: path and settings are the initial ones, or those of the last call that returned.

A call that throws has stored its path, and its settings too if it was the log that threw. So it
leaves both as they were only if they had these values already (`LoadCall.unchanged_iff`), and
`Held` is an invariant of the sequences of such calls (`load_all_or_nothing`), not of all of them
(`failed_load_moves_path`).
-/

namespace CommCore

namespace Settings

open Lib Lib.Json Errors

/-- A call of `read_input_file`. -/
structure LoadCall (P : Type) where
  env : Env P
  /-- Serialising the settings and writing the log line. -/
  log : Value → Except LibError Unit
  path : P

variable {P : Type}

/-- The body of the `try` block, with its log. -/
def LoadCall.body (c : LoadCall P) : Exec LibError (Options P) Unit := do
  readBody c.env c.path
  let o ← get
  Exec.ofExcept (c.log (valueFrom o.inputFile))

/-- `read_input_file(path)`, with its log. -/
def LoadCall.readInputFile (c : LoadCall P) : Exec Exn (Options P) Unit :=
  Exec.tryCatch c.body fun e => Exec.throw (wrap c.env c.path e)

theorem LoadCall.body_run (c : LoadCall P) (o : Options P) : c.body.run o =
    match load c.env c.path with
    | .ok f =>
      match c.log (valueFrom f) with
      | .ok _ => .ok () { inputFilePath := c.path, inputFile := f }
      | .error e => .error (.thrown e) { inputFilePath := c.path, inputFile := f }
    | .error e => .error (.thrown e) { o with inputFilePath := c.path } := by
  unfold LoadCall.body
  rw [EStateM.run_bind, readBody_run]
  cases load c.env c.path with
  | error e => rfl
  | ok f =>
    dsimp only
    rw [Exec.run_bind_ok (EStateM.run_get _)]
    dsimp only
    cases c.log (valueFrom f) <;> rfl

/-- With a log that does not throw, the call is `readInputFile`. -/
theorem LoadCall.run_of_quiet {c : LoadCall P} (h : ∀ v, c.log v = .ok ()) (o : Options P) :
    c.readInputFile.run o = (Settings.readInputFile c.env c.path).run o := by
  unfold LoadCall.readInputFile
  rw [Exec.run_tryCatch, c.body_run, readInputFile_run]
  cases load c.env c.path with
  | error e => rfl
  | ok f =>
    dsimp only
    rw [h]

/-! ## What a call does -/

/-- What the call threw, `none` if it returned, and the state that it leaves. -/
def LoadCall.attempt (c : LoadCall P) (o : Options P) : Option (Option Exn × Options P) :=
  match c.readInputFile.run o with
  | .ok _ o' => some (none, o')
  | .error (.thrown e) o' => some (some e, o')
  | .error .undefined _ => none

/-- What it throws: for a file that it cannot load, or at the log. -/
def LoadCall.thrown (c : LoadCall P) : Option Exn :=
  match load c.env c.path with
  | .ok f =>
    match c.log (valueFrom f) with
    | .ok _ => none
    | .error e => some (wrap c.env c.path e)
  | .error e => some (wrap c.env c.path e)

/-- The state that it leaves: the path is stored, and the settings if there are any. -/
def LoadCall.leaves (c : LoadCall P) (o : Options P) : Options P :=
  match load c.env c.path with
  | .ok f => { inputFilePath := c.path, inputFile := f }
  | .error _ => { o with inputFilePath := c.path }

/-- Every call returns or throws. -/
theorem LoadCall.attempt_eq (c : LoadCall P) (o : Options P) :
    c.attempt o = some (c.thrown, c.leaves o) := by
  unfold LoadCall.attempt LoadCall.readInputFile LoadCall.thrown LoadCall.leaves
  rw [Exec.run_tryCatch, c.body_run]
  cases load c.env c.path with
  | error e => rfl
  | ok f =>
    dsimp only
    cases c.log (valueFrom f) <;> rfl

/-- A call that returns has loaded the settings in its file. -/
theorem LoadCall.loaded {c : LoadCall P} (h : c.thrown = none) (o : Options P) :
    (c.leaves o).inputFilePath = c.path ∧ load c.env c.path = .ok (c.leaves o).inputFile := by
  unfold LoadCall.thrown at h
  unfold LoadCall.leaves
  cases hl : load c.env c.path with
  | error e => rw [hl] at h; cases h
  | ok f => exact ⟨rfl, rfl⟩

/-- If the call throws, then the path, and what it has loaded before the log, are stored already. -/
def LoadCall.Stored (c : LoadCall P) (o : Options P) : Prop :=
  match load c.env c.path with
  | .ok f => c.log (valueFrom f) = .ok () ∨ c.path = o.inputFilePath ∧ f = o.inputFile
  | .error _ => c.path = o.inputFilePath

/-- **A throw leaves path and settings as they were** exactly if they are stored already. -/
theorem LoadCall.unchanged_iff (c : LoadCall P) (o : Options P) :
    (c.thrown ≠ none → c.leaves o = o) ↔ c.Stored o := by
  unfold LoadCall.thrown LoadCall.leaves LoadCall.Stored
  obtain ⟨path, f₀⟩ := o
  cases load c.env c.path with
  | error e => simp
  | ok f =>
    dsimp only
    cases c.log (valueFrom f) with
    | error e => simp
    | ok u => exact iff_of_true (fun hr => absurd rfl hr) (.inl rfl)

/-! ## Sequences -/

/-- A call with what it threw, `none` if it returned. -/
abbrev Attempt (P : Type) := LoadCall P × Option Exn

/-- Any calls, one after the other, from `o₀`. -/
def loading (o₀ : Options P) : Sys (Options P) (Attempt P) where
  init o := o = o₀
  step o l o' := l.1.attempt o = some (l.2, o')

theorem step_iff {o₀ o o' : Options P} {c : LoadCall P} {r : Option Exn} :
    (loading o₀).step o (c, r) o' ↔ r = c.thrown ∧ o' = c.leaves o := by
  show c.attempt o = some (r, o') ↔ _
  rw [c.attempt_eq, Option.some.injEq, Prod.mk.injEq, eq_comm, eq_comm (a := c.leaves o)]

/-! ## Path and settings after a sequence -/

/-- Path and settings are the initial ones while no call has returned, and then the path of the last
call that returned with the settings in the file that it read. -/
def Held (o₀ : Options P) (tr : List (Attempt P)) (o : Options P) : Prop :=
  ((∀ l ∈ tr, l.2 ≠ none) ∧ o = o₀) ∨
    ∃ tr₁ c tr₂, tr = tr₁ ++ (c, none) :: tr₂ ∧ (∀ l ∈ tr₂, l.2 ≠ none) ∧
      o.inputFilePath = c.path ∧ load c.env c.path = .ok o.inputFile

/-- A throw that changes nothing. -/
theorem Held.threw {o₀ o : Options P} {tr : List (Attempt P)} (h : Held o₀ tr o)
    {l : Attempt P} (hl : l.2 ≠ none) : Held o₀ (tr ++ [l]) o := by
  have hsnoc : ∀ tr : List (Attempt P), (∀ l' ∈ tr, l'.2 ≠ none) →
      ∀ l' ∈ tr ++ [l], l'.2 ≠ none := by
    intro tr hall l' hl'
    rcases List.mem_append.mp hl' with hm | hm
    · exact hall l' hm
    · rw [List.mem_singleton.mp hm]
      exact hl
  rcases h with ⟨hall, ho⟩ | ⟨tr₁, c, tr₂, rfl, hall, hpath, hload⟩
  · exact .inl ⟨hsnoc tr hall, ho⟩
  · exact .inr ⟨tr₁, c, tr₂ ++ [l], by simp, hsnoc tr₂ hall, hpath, hload⟩

theorem Held.step {o₀ o o' : Options P} {tr : List (Attempt P)} (h : Held o₀ tr o)
    {l : Attempt P} (hst : (loading o₀).step o l o') (hs : l.1.Stored o) :
    Held o₀ (tr ++ [l]) o' := by
  obtain ⟨c, r⟩ := l
  obtain ⟨rfl, rfl⟩ := step_iff.mp hst
  by_cases hr : c.thrown = none
  · rw [hr]
    exact .inr ⟨tr, c, [], rfl, nofun, c.loaded hr o⟩
  · rw [(c.unchanged_iff o).mpr hs hr]
    exact h.threw hr

/-- What holds after the calls `tr` from `o₀`, in the state `o`:

* `held`: path and settings are those of the last call that returned, or the initial ones;
* `exact`: the next call leaves both as they were if it throws, exactly if they are stored. -/
structure AllOrNothing (o₀ : Options P) (tr : List (Attempt P)) (o : Options P) : Prop where
  held : Held o₀ tr o
  exact : ∀ c r o', (loading o₀).step o (c, r) o' → ((r ≠ none → o' = o) ↔ c.Stored o)

/-- **Loading is all or nothing in the sequences whose throwing calls find their path and settings
stored**, and in no others. -/
theorem load_all_or_nothing {o₀ o : Options P} {tr : List (Attempt P)}
    (hr : ((loading o₀).restrict fun o l => l.1.Stored o).Run tr o) : AllOrNothing o₀ tr o := by
  obtain ⟨_, rfl, hs⟩ := hr
  refine ⟨hs.history (H := Held _) ?_ (.inl ⟨nofun, rfl⟩), fun c r o' hst => ?_⟩
  · rintro tr u l v h ⟨hst, hstored⟩
    exact h.step hst hstored
  · obtain ⟨rfl, rfl⟩ := step_iff.mp hst
    exact c.unchanged_iff _

/-! ## A file that comes and goes -/

/-- A file system with the given files, and a parser that knows the empty object. -/
def plainEnv (files : Str → Option Str) : Env Str where
  ofString p := p
  string p := p
  absolute p := p
  parentPath _ := []
  extension p := p.dropWhile (· ≠ 46)
  isRelative _ := true
  append dir p := dir ++ lit "/" ++ p
  status p := if (files p).isSome then .regular else .notFound
  openErrno name := if (files name).isSome then none else some 2
  contents name := .ok ((files name).getD [])
  parse _ text :=
    if text = lit "\x7b\x7d" then .ok (.object [])
    else .error { boost := true, std := true, what := lit "syntax error" }
  systemErrorText _ text := text ++ lit ": No such file or directory"
  filesystemErrorText _ p := lit "boost::filesystem::status: " ++ p
  conversionError _ := { boost := true, std := true, what := lit "not a string" }

/-- A call while the file is there, with the empty object in it. -/
def presentCall (path : Str) : LoadCall Str :=
  ⟨plainEnv fun _ => some (lit "\x7b\x7d"), fun _ => .ok (), path⟩

/-- A call without any file. -/
def missingCall (path : Str) : LoadCall Str :=
  ⟨plainEnv fun _ => none, fun _ => .ok (), path⟩

/-- A file is read, and read again when it is gone. -/
theorem load_all_or_nothing_again : ∃ e, AllOrNothing ⟨[], {}⟩
    [(presentCall (lit "a.json"), none), (missingCall (lit "a.json"), some e)]
    ⟨lit "a.json", {}⟩ := by
  have h : ((loading ⟨[], {}⟩).restrict fun o l => l.1.Stored o).Run [] (⟨[], {}⟩ : Options Str) :=
    .start rfl
  have h := h.snoc (l := (presentCall (lit "a.json"), none)) ⟨step_iff.mpr ⟨rfl, rfl⟩, .inl rfl⟩
  have h := h.snoc (l := (missingCall (lit "a.json"), _)) ⟨step_iff.mpr ⟨rfl, rfl⟩, rfl⟩
  exact ⟨_, load_all_or_nothing h⟩

/-- A read of a file that is not there moves the path away from the settings. -/
theorem failed_load_moves_path : ∃ tr o, (loading ⟨[], {}⟩).Run tr o ∧
    (∀ l ∈ tr, l.2 ≠ none) ∧ o.inputFilePath = lit "this-file-should-not-exist.json" ∧
    ¬ Held (⟨[], {}⟩ : Options Str) tr o := by
  have h : (loading ⟨[], {}⟩).Run [] (⟨[], {}⟩ : Options Str) := .start rfl
  have h := h.snoc (l := (missingCall (lit "this-file-should-not-exist.json"), _))
    (step_iff.mpr ⟨rfl, rfl⟩)
  refine ⟨_, _, h, ?_, rfl, ?_⟩
  · intro l hl
    rw [List.mem_singleton.mp hl]
    exact nofun
  · rintro (⟨-, ho⟩ | ⟨tr₁, c, tr₂, htr, -⟩)
    · have hpath := congrArg Options.inputFilePath ho
      revert hpath
      decide
    · rcases tr₁ with _ | ⟨l, tr₁⟩
      · cases htr
      · cases tr₁ <;> cases htr

end Settings

end CommCore
