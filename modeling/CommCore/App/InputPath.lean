import CommCore.App.Main

/-!
# The path that `parse_args` finds

What `parse_args` makes of an input whose status can be had: it throws exactly if the input resolves
to no path (`parseArgs_throws_iff`), and `resolve` has one lemma for each of its cases.

- **Relative inputs** follow the rule that is documented: the input if it is a regular file, else
  the regular file of that name beside the program, else a `my_error`.
- **Absolute inputs** are returned as they are. A missing one is to pass; but
  `isRegularInputFile` does not tell a missing path from a directory, so a directory passes as well
  (`resolvesInput_iff`, `directory_passes`).
-/

namespace CommCore

namespace Main

open Lib Errors Settings

variable {P : Type} {env : MainEnv P} {argv : Args} {vm : VariablesMap P} {dir input : P}

/-! ## The cases of `resolve` -/

theorem resolve_regular (h : env.status input = .regular) :
    resolve env dir input = some input := by
  unfold resolve
  rw [h]

theorem resolve_relative (hf : ∀ ec, env.status input ≠ .failed ec)
    (hrel : env.isRelative input = true) (h : env.status input ≠ .regular) :
    resolve env dir input =
      if env.status (env.append dir input) = .regular then some (env.append dir input)
      else none := by
  rw [resolve_other hf h, if_pos hrel]

theorem resolve_absolute (hf : ∀ ec, env.status input ≠ .failed ec)
    (hrel : env.isRelative input = false) : resolve env dir input = some input := by
  by_cases h : env.status input = .regular
  · exact resolve_regular h
  · have habs : ¬ env.isRelative input = true := by rw [hrel]; exact Bool.false_ne_true
    rw [resolve_other hf h, if_neg habs]

/-- A relative input resolves to nothing if neither candidate is a regular file. -/
theorem resolve_eq_none_iff (hf : ∀ ec, env.status input ≠ .failed ec)
    (hrel : env.isRelative input = true) : resolve env dir input = none ↔
      env.status input ≠ .regular ∧ env.status (env.append dir input) ≠ .regular := by
  by_cases h : env.status input = .regular
  · simp [resolve_regular h, h]
  · simp [resolve_relative hf hrel h, h]

/-- Without a request for help, `parse_args` returns what the input resolves to. -/
theorem parseArgs_returns_iff (hs : env.commandLine argv = .ok vm) (hh : vm.help = false) {r : P} :
    parseArgs env argv = .ok r ↔ resolve env (exeDir env argv) vm.input = some r := by
  rw [parseArgs_ok_iff hs, and_iff_right hh]

/-- It throws a `my_error` if the input resolves to nothing. -/
theorem parseArgs_throws_iff (hs : env.commandLine argv = .ok vm) (hh : vm.help = false) :
    (∃ infos, parseArgs env argv = .error (.myError infos)) ↔
      resolve env (exeDir env argv) vm.input = none := by
  constructor
  · rintro ⟨infos, he⟩
    rw [Option.eq_none_iff_forall_ne_some]
    intro r hr
    rw [(parseArgs_returns_iff hs hh).mpr hr] at he
    cases he
  · intro hn
    cases hp : parseArgs env argv with
    | ok r =>
      rw [(parseArgs_returns_iff hs hh).mp hp] at hn
      cases hn
    | error e =>
      obtain ⟨infos, rfl⟩ := parseArgs_error hs hp
      exact ⟨infos, rfl⟩

/-! ## The documented rule -/

variable (env) (argv) in
/-- The rule of `parse_args` for an input:

* `regular`: what exists and is no regular file is not returned;
* `relative`: a relative input is returned if it is a regular file, and otherwise the regular file
  of that name beside the program;
* `absolute`: an absolute input is returned as it is, if anything is;
* `throws`: for a relative input a `my_error` is thrown exactly if neither is a regular file. -/
structure ResolvesInput (p : P) : Prop where
  regular : ∀ r, parseArgs env argv = .ok r → env.status r ≠ .other
  relative : ∀ r, parseArgs env argv = .ok r → env.isRelative p = true →
    (env.status p = .regular → r = p) ∧
      (env.status p ≠ .regular → r = env.append (exeDir env argv) p ∧ env.status r = .regular)
  absolute : ∀ r, parseArgs env argv = .ok r → env.isRelative p = false → r = p
  throws : env.isRelative p = true → ((∃ infos, parseArgs env argv = .error (.myError infos)) ↔
    env.status p ≠ .regular ∧ env.status (env.append (exeDir env argv) p) ≠ .regular)

/-- What is returned for a relative input is a regular file. -/
theorem returned_relative (hs : env.commandLine argv = .ok vm) (hh : vm.help = false)
    (hf : ∀ ec, env.status vm.input ≠ .failed ec) (hrel : env.isRelative vm.input = true) {r : P}
    (hr : parseArgs env argv = .ok r) : env.status r = .regular ∧
      (env.status vm.input = .regular → r = vm.input) ∧
      (env.status vm.input ≠ .regular → r = env.append (exeDir env argv) vm.input) := by
  rw [parseArgs_returns_iff hs hh] at hr
  by_cases h : env.status vm.input = .regular
  · rw [resolve_regular h] at hr
    cases hr
    exact ⟨h, fun _ => rfl, fun hn => absurd h hn⟩
  · rw [resolve_relative hf hrel h, Option.ite_none_right_eq_some] at hr
    obtain ⟨hreg, hr⟩ := hr
    cases hr
    exact ⟨hreg, fun hy => absurd hy h, fun _ => rfl⟩

/-- An absolute input is returned. -/
theorem returned_absolute (hs : env.commandLine argv = .ok vm) (hh : vm.help = false)
    (hf : ∀ ec, env.status vm.input ≠ .failed ec) (habs : env.isRelative vm.input = false) :
    parseArgs env argv = .ok vm.input :=
  (parseArgs_returns_iff hs hh).mpr (resolve_absolute hf habs)

/-- **`parse_args` follows its rule, except for an absolute input that exists and is no regular
file.** -/
theorem resolvesInput_iff (hs : env.commandLine argv = .ok vm) (hh : vm.help = false)
    (hf : ∀ ec, env.status vm.input ≠ .failed ec) : ResolvesInput env argv vm.input ↔
      ¬ (env.isRelative vm.input = false ∧ env.status vm.input = .other) := by
  constructor
  · rintro hr ⟨habs, hother⟩
    exact hr.regular _ (returned_absolute hs hh hf habs) hother
  · intro hn
    have habsolute : ∀ r, parseArgs env argv = .ok r → env.isRelative vm.input = false →
        r = vm.input := by
      intro r hr habs
      rw [returned_absolute hs hh hf habs] at hr
      cases hr
      rfl
    refine ⟨fun r hr hother => ?_, fun r hr hrel => ?_, habsolute, fun hrel => ?_⟩
    · cases hrel : env.isRelative vm.input with
      | false =>
        rw [habsolute r hr hrel] at hother
        exact hn ⟨hrel, hother⟩
      | true =>
        rw [(returned_relative hs hh hf hrel hr).1] at hother
        cases hother
    · obtain ⟨hreg, hfirst, hsecond⟩ := returned_relative hs hh hf hrel hr
      exact ⟨hfirst, fun h => ⟨hsecond h, hreg⟩⟩
    · rw [parseArgs_throws_iff hs hh, resolve_eq_none_iff hf hrel]

theorem oneFile_status (p : Str) (ec : Int) : oneFile.status p ≠ .failed ec := by
  show (if p = lit "app.jsonc" then Status.regular else .notFound) ≠ _
  split
  · nofun
  · nofun

/-- The default input, in the directory with one file. -/
theorem resolvesInput_oneFile : ResolvesInput oneFile (started []) (lit "app.jsonc") := by
  have hs : oneFile.commandLine (started []) = .ok ⟨false, lit "app.jsonc"⟩ := rfl
  exact (resolvesInput_iff hs rfl (oneFile_status _)).mpr (by decide)

/-- The directory with one file, a directory `C:\data`, and a program that takes an input. -/
def withDirectory : MainEnv Str := { oneFile with
  status := fun p => if p = lit "C:\\data" then .other else oneFile.status p
  commandLine := fun argv => .ok {
    help := argv.args.contains (lit "--help")
    input := argv.args.headD (lit "app.jsonc") } }

/-- The path of the directory passes for an input. -/
theorem directory_passes :
    withDirectory.commandLine (started [lit "C:\\data"]) = .ok ⟨false, lit "C:\\data"⟩ ∧
      (∀ p ec, withDirectory.status p ≠ .failed ec) ∧
      ¬ ResolvesInput withDirectory (started [lit "C:\\data"]) (lit "C:\\data") := by
  refine ⟨by rfl, fun p ec => ?_, fun h => ?_⟩
  · show (if p = lit "C:\\data" then Status.other else oneFile.status p) ≠ _
    split
    · nofun
    · exact oneFile_status p ec
  · have hr : parseArgs withDirectory (started [lit "C:\\data"]) = .ok (lit "C:\\data") := by rfl
    exact h.regular _ hr (by decide)

end Main

end CommCore
