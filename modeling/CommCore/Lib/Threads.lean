import CommCore.Lib.Sys
import Mathlib.Algebra.BigOperators.Group.Finset.Piecewise
import Mathlib.Algebra.BigOperators.Ring.Finset
import Mathlib.Algebra.Order.BigOperators.Group.Finset

/-!
# Thread maps: tallies and atomic objects

* `tally w f`: the sum of the weights `w (f t)` over all threads, and how it changes when one
  thread moves (`tally_update`). `sum_countP`: the labels of a trace, counted thread by thread.
* `Object`: a sequential object. A call has its arguments (the reference arguments included,
  which it may change) and takes effect at once, with a result.
* `Object.atomic T`: the object called by the threads `T`. Each call waits until it can take
  effect, takes effect in one step between its call and its return, and returns what that step
  gave. A system that is simulated by it (`Simulation`) is linearizable.
* `Object.Legal`: the sequential histories. The effects of a run of `O.atomic T`, in order, are
  one (`Object.legal_of_run`), so an invariant of the sequential object holds in every run.
* `Object.effect_of_ret`: the only effect of a call is the one it returns.
-/

namespace Lib

/-! ## Tallies -/

section Tally

variable {T β : Type*} [Fintype T]

/-- The sum of the weights of the threads. -/
def tally (w : β → Nat) (f : T → β) : Nat := ∑ t, w (f t)

/-- How a tally changes when thread `t` moves from `f t` to `p`. -/
theorem tally_update [DecidableEq T] (w : β → Nat) (f : T → β) (t : T) (p : β) :
    tally w (Function.update f t p) + w (f t) = tally w f + w p := by
  have hu : (fun u => w (Function.update f t p u)) = Function.update (fun u => w (f u)) t (w p) :=
    Function.comp_update w f t p
  have hs := Finset.add_sum_erase Finset.univ (fun u => w (f u)) (Finset.mem_univ t)
  unfold tally
  rw [hu, Finset.sum_update_of_mem (Finset.mem_univ t), Finset.sdiff_singleton_eq_erase]
  omega

theorem tally_eq_zero {w : β → Nat} {f : T → β} (h : ∀ t, w (f t) = 0) : tally w f = 0 :=
  Finset.sum_eq_zero fun t _ => h t

theorem tally_le {w w' : β → Nat} {f g : T → β} (h : ∀ t, w (f t) ≤ w' (g t)) :
    tally w f ≤ tally w' g :=
  Finset.sum_le_sum fun t _ => h t

theorem tally_mul (k : Nat) (w : β → Nat) (f : T → β) :
    tally (fun p => k * w p) f = k * tally w f :=
  (Finset.mul_sum ..).symm

theorem tally_add (w w' : β → Nat) (f : T → β) :
    tally (fun p => w p + w' p) f = tally w f + tally w' f :=
  Finset.sum_add_distrib

/-- The labels of a trace, counted thread by thread. -/
theorem sum_countP [DecidableEq T] {E : Type*} (q : E → Bool) (tr : List (T × E)) :
    ∑ t, tr.countP (fun l => l.1 = t ∧ q l.2) = tr.countP fun l => q l.2 := by
  induction tr with
  | nil => simp
  | cons l tr ih =>
    simp only [List.countP_cons, Finset.sum_add_distrib, ih]
    cases h : q l.2 <;> simp

end Tally

/-! ## Sequential objects -/

universe u v w

/-- A sequential object: `eff s c s' c' r` if the call `c` can take effect in `s`, leaving `s'`,
with `c'` the call after it (its reference arguments may have changed) and the result `r`. -/
structure Object (σ : Type u) (C : Type v) (R : Type w) where
  init : σ → Prop
  eff : σ → C → σ → C → R → Prop

/-- A thread of an atomic object: outside, in a call that has not taken effect, or in a call
that took effect. -/
inductive Slot (C : Type v) (R : Type w) where
  | idle
  | pending (c : C)
  | done (c : C) (r : R)

/-- A step of a thread of an atomic object. -/
inductive Act (C : Type v) (R : Type w) where
  | call (c : C)
  | eff (c : C) (r : R)
  | ret (c : C) (r : R)

theorem filterMap_snoc {β γ : Type*} (g : β → Option γ) (bs : List β) (b : β) :
    (bs ++ [b]).filterMap g = bs.filterMap g ++ (g b).toList := by
  cases h : g b <;> simp [h]

namespace Object

variable {σ : Type u} {C : Type v} {R : Type w} (O : Object σ C R)

/-- The sequential histories: the calls that took effect, as they were after it, with their
results, in order. -/
inductive Legal : List (C × R) → σ → Prop
  | init {s : σ} : O.init s → Legal [] s
  | snoc {h : List (C × R)} {s s' : σ} {c c' : C} {r : R} :
      Legal h s → O.eff s c s' c' r → Legal (h ++ [(c', r)]) s'

variable {T : Type}

/-- The call that took effect in a step, with its result. -/
def effect : T × Act C R → Option (C × R)
  | (_, .eff c r) => some (c, r)
  | _ => none

@[simp] theorem effect_call (t : T) (c : C) : effect (R := R) (t, .call c) = none := rfl

@[simp] theorem effect_eff (t : T) (c : C) (r : R) : effect (t, .eff c r) = some (c, r) := rfl

@[simp] theorem effect_ret (t : T) (c : C) (r : R) : effect (t, .ret c r) = none := rfl

variable [DecidableEq T]

/-- The steps of the object called by the threads `T`. -/
inductive AtomicStep : σ × (T → Slot C R) → T × Act C R → σ × (T → Slot C R) → Prop
  | call {s : σ} {f : T → Slot C R} {t : T} {c : C} : f t = .idle →
      AtomicStep (s, f) (t, .call c) (s, Function.update f t (.pending c))
  | eff {s s' : σ} {f : T → Slot C R} {t : T} {c c' : C} {r : R} : f t = .pending c →
      O.eff s c s' c' r →
      AtomicStep (s, f) (t, .eff c' r) (s', Function.update f t (.done c' r))
  | ret {s : σ} {f : T → Slot C R} {t : T} {c : C} {r : R} : f t = .done c r →
      AtomicStep (s, f) (t, .ret c r) (s, Function.update f t .idle)

variable (T) in
/-- The object called by the threads `T`. -/
def atomic : Sys (σ × (T → Slot C R)) (T × Act C R) where
  init p := O.init p.1 ∧ ∀ t, p.2 t = .idle
  step := O.AtomicStep

variable {O}

/-- **The effects of a run are a sequential history.** -/
theorem legal_of_run {tr : List (T × Act C R)} {p : σ × (T → Slot C R)}
    (h : (O.atomic T).Run tr p) : O.Legal (tr.filterMap effect) p.1 := by
  obtain ⟨p₀, hi, hs⟩ := h
  induction hs with
  | nil => exact .init hi.1
  | snoc _ hst ih =>
    rw [List.filterMap_append]
    cases hst with
    | call _ => simpa [List.filterMap_cons] using ih
    | eff _ he => exact ih.snoc he
    | ret _ => simpa [List.filterMap_cons] using ih

variable (O) in
/-- Where thread `t` is in the call `c`, after the steps `tr`: it has not taken effect, or its
only effect is the one that it will return. -/
def CallState (t : T) (c : C) (tr : List (T × Act C R)) : Slot C R → Prop
  | .idle => True
  | .pending c₁ => c₁ = c ∧ ∀ c₂ r₂, (t, Act.eff c₂ r₂) ∉ tr
  | .done c₁ r₁ => (∃ s s', O.eff s c s' c₁ r₁) ∧
      ∀ c₂ r₂, (t, Act.eff c₂ r₂) ∈ tr → c₂ = c₁ ∧ r₂ = r₁

theorem CallState.steps {t : T} {c : C} {tr : List (T × Act C R)} {p p' : σ × (T → Slot C R)}
    (hs : (O.atomic T).Steps p tr p') (hp : p.2 t = .pending c)
    (hno : ∀ c₁, (t, Act.call c₁) ∉ tr) : O.CallState t c tr (p'.2 t) := by
  induction hs with
  | nil => rw [hp]; exact ⟨rfl, by simp⟩
  | @snoc tr l u v _ hst ih =>
    have ih := ih fun c₁ hm => hno c₁ (List.mem_append_left _ hm)
    have hlast : ∀ c₁, l ≠ (t, .call c₁) := fun c₁ e =>
      hno c₁ (List.mem_append_right _ (List.mem_singleton.mpr e.symm))
    by_cases ht : l.1 = t
    · cases hst with
      | @call s f t' c' hf =>
        cases ht
        exact absurd rfl (hlast c')
      | @eff s s' f t' c₁ c' r hf he =>
        cases ht
        simp only [hf] at ih
        obtain ⟨rfl, hno'⟩ := ih
        simp only [Function.update_self, CallState, List.mem_append, List.mem_singleton]
        refine ⟨⟨s, s', he⟩, fun c₂ r₂ hm => ?_⟩
        rcases hm with hm | hm
        · exact absurd hm (hno' c₂ r₂)
        · cases hm; exact ⟨rfl, rfl⟩
      | ret _ =>
        cases ht
        simp only [Function.update_self, CallState]
    · -- another thread's step: neither `t`'s place nor its effects change
      have hv : v.2 t = u.2 t := by
        cases hst <;> exact Function.update_of_ne (Ne.symm ht) _ _
      have hm : ∀ c₂ r₂, (t, Act.eff c₂ r₂) ∈ tr ++ [l] → (t, Act.eff c₂ r₂) ∈ tr := by
        intro c₂ r₂ hm
        rcases List.mem_append.mp hm with hm | hm
        · exact hm
        · exact absurd (congrArg Prod.fst (List.mem_singleton.mp hm)).symm ht
      rw [hv]
      revert ih
      cases u.2 t with
      | idle => exact id
      | pending c₁ => exact fun ⟨h1, h2⟩ => ⟨h1, fun c₂ r₂ h => h2 c₂ r₂ (hm c₂ r₂ h)⟩
      | done c₁ r₁ => exact fun ⟨h1, h2⟩ => ⟨h1, fun c₂ r₂ h => h2 c₂ r₂ (hm c₂ r₂ h)⟩

/-- **A call that returns `r` had exactly the effect that gives `r`**: between the call and its
return, the thread's only effect is that of the returned call and result. -/
theorem effect_of_ret {t : T} {c c' : C} {r : R} {tr : List (T × Act C R)}
    {p p' : σ × (T → Slot C R)} (hs : (O.atomic T).Steps p (tr ++ [(t, .ret c' r)]) p')
    (hp : p.2 t = .pending c) (hno : ∀ c₁, (t, Act.call c₁) ∉ tr) :
    (∃ s s', O.eff s c s' c' r) ∧ ∀ c₂ r₂, (t, Act.eff c₂ r₂) ∈ tr → c₂ = c' ∧ r₂ = r := by
  obtain ⟨u, hu, hst⟩ := hs.snoc_inv
  have hc := CallState.steps hu hp hno
  cases hst with
  | ret hf => simp only [hf] at hc; exact hc

end Object

end Lib
