import Mathlib.Init

/-!
# Recursive functions and divergence

A recursive function is given by its body, a functional: what it computes from an argument with
`self` for its recursive calls, `none` if it does not return. `approx F n` is what it returns within
`n` nested calls. It returns if some depth is enough (`Returns`), and diverges if none is
(`Diverges`).

To show that it diverges: find arguments from which the body only gets on through a call with such
an argument (`diverges_of_calls`).
-/

namespace Lib

variable {A B : Type}

/-- The body of a recursive function. -/
abbrev Body (A B : Type) := (A → Option B) → A → Option B

/-- What the function returns within `n` nested calls. -/
def approx (F : Body A B) : Nat → A → Option B
  | 0 => fun _ => none
  | n + 1 => F (approx F n)

def Returns (F : Body A B) (a : A) (b : B) : Prop := ∃ n, approx F n a = some b

def Diverges (F : Body A B) (a : A) : Prop := ∀ n, approx F n a = none

theorem Diverges.not_returns {F : Body A B} {a : A} (h : Diverges F a) (b : B) :
    ¬ Returns F a b := by
  rintro ⟨n, hn⟩
  rw [h n] at hn
  cases hn

/-- If from every argument in `D` the body waits for a call with an argument in `D`, then the
function diverges there. -/
theorem diverges_of_calls {F : Body A B} {D : A → Prop}
    (h : ∀ self a, D a → (∀ a', D a' → self a' = none) → F self a = none) {a : A} (ha : D a) :
    Diverges F a := by
  intro n
  induction n generalizing a with
  | zero => rfl
  | succ n ih => exact h _ a ha fun a' ha' => ih ha'

end Lib
