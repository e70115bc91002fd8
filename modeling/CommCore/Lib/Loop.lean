import Mathlib.Computability.StateTransition

/-!
# Loops

A loop is given by its pass, which takes a state to the next one, or to `none` where the loop ends.
Mathlib's `StateTransition.Reaches` are the states that it goes through, and
`StateTransition.eval` is the one that it ends in, if it ends.

- **Invariants.** What each pass keeps holds in every state of the loop (`reaches_keep`).
- **Termination.** A loop whose passes each make a variant smaller ends, with its invariant
  (`eval_of_variant`).
-/

namespace Lib

open StateTransition

variable {σ : Type} {pass : σ → Option σ} {I : σ → Prop} {s : σ}

/-- What each pass keeps holds in every state of the loop. -/
theorem reaches_keep (hk : ∀ u v, I u → pass u = some v → I v) {s' : σ} (h : Reaches pass s s')
    (hs : I s) : I s' := by
  induction h with
  | refl => exact hs
  | tail _ hpass ih => exact hk _ _ ih hpass

/-- **The rule for loops**: from an invariant and a variant, the loop ends and has the invariant. -/
theorem eval_of_variant {m : σ → Nat} (hk : ∀ u v, I u → pass u = some v → I v)
    (hm : ∀ u v, pass u = some v → m v < m u) (hs : I s) :
    ∃ s' ∈ eval pass s, pass s' = none ∧ I s' := by
  induction hn : m s using Nat.strong_induction_on generalizing s with
  | _ n ih =>
    subst hn
    cases hp : pass s with
    | none => exact ⟨s, mem_eval.mpr ⟨.refl, hp⟩, hp, hs⟩
    | some u =>
      obtain ⟨s', hs', hend⟩ := ih _ (hm s u hp) (hk s u hs hp) rfl
      exact ⟨s', by rw [reaches_eval (.single hp)]; exact hs', hend⟩

end Lib
