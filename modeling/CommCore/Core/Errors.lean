import CommCore.Lib.Bytes
import CommCore.Lib.Recursion

/-!
# The exceptions (`libs/core/{include/core,src}/exceptions/`)

`show_help` and `my_error` derive from both `boost::exception` and `std::exception` and carry
attached infos, a nested exception among them. What a library throws is known by its base classes
and its text.

`what()` is virtual, and `my_error::what` asks `boost::diagnostic_information` for its text, which
calls `what()` of the exception in turn (`CallsWhat`). So `what` is a recursive function
(`Exn.what`), and `my_error::what` never returns (`what_diverges`): neither of its handlers nor its
fallback is ever reached.

`diagnostic_information` is a parameter: from the virtual `what` and the exception, it gives a text
or throws, unless a call of `what` does not return.
-/

namespace CommCore

namespace Errors

open Lib

/-- An exception of a library: its base classes and its text. -/
structure LibError where
  boost : Bool
  std : Bool
  what : Str
  deriving DecidableEq, Repr

/-- The infos attached to an exception: the program's own three, the nested exception, and any
others as texts. -/
structure Infos (E : Type) where
  path : Option Str := none
  errno : Option Int := none
  message : Option Str := none
  nested : Option E := none
  others : List (Str × Str) := []

inductive Exn where
  | showHelp (infos : Infos Exn)
  | myError (infos : Infos Exn)
  | library (e : LibError)

/-- It derives from `boost::exception`. -/
def Exn.isBoost : Exn → Bool
  | .library e => e.boost
  | _ => true

/-- It derives from `std::exception`. -/
def Exn.isStd : Exn → Bool
  | .library e => e.std
  | _ => true

/-- `boost::diagnostic_information`, with the virtual `what`. -/
abbrev Diagnostics := (Exn → Option Str) → Exn → Option (Except LibError Str)

/-- While it builds the text of an exception of both base classes, it calls `what()`. -/
def CallsWhat (diag : Diagnostics) : Prop :=
  ∀ self e, e.isBoost = true → e.isStd = true → self e = none → diag self e = none

/-- The text that `my_error::what` makes of the result. -/
def myErrorText : Except LibError Str → Str
  | .ok text => if text ≠ [] then text else lit "my_error"
  | .error e =>
    if e.std then
      lit "failed to build diagnostic_information in my_error::what(): " ++ e.what
    else
      lit "failed to build diagnostic_information in my_error::what(): unknown exception"

/-- The virtual `what()`. -/
def Exn.what (diag : Diagnostics) : Body Exn Str := fun self e =>
  match e with
  | .showHelp infos => some (infos.message.getD (lit "show_help"))
  | .myError infos => (diag self (.myError infos)).map myErrorText
  | .library e => some e.what

/-- **`my_error::what` never returns**, whatever is attached to the exception. -/
theorem what_diverges {diag : Diagnostics} (hd : CallsWhat diag) (infos : Infos Exn) :
    Diverges (Exn.what diag) (.myError infos) := by
  refine diverges_of_calls (D := fun e => e = .myError infos) ?_ rfl
  rintro self e rfl hself
  show (diag self (.myError infos)).map myErrorText = none
  rw [hd self _ rfl rfl (hself _ rfl)]
  rfl

/-- The text of a `my_error` is not there at any depth. -/
theorem diag_myError {diag : Diagnostics} (hd : CallsWhat diag) (infos : Infos Exn) (n : Nat) :
    diag (approx (Exn.what diag) n) (.myError infos) = none :=
  hd _ _ rfl rfl (what_diverges hd infos n)

end Errors

end CommCore
