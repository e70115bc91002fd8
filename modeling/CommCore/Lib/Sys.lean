import Mathlib.Algebra.GroupWithZero.Nat
import Mathlib.Data.List.Basic
import Mathlib.Logic.Function.Basic

/-!
# Labelled systems, their runs, and forward simulation

A **system** (`Sys`) has states, initial states and labelled steps. Everything that is proved of
a program over all interleavings is proved of the runs of one system:

* `Sys.Steps s tr s'`: the steps from `s` to `s'` with the labels `tr`, in order; `Sys.Run`: from
  an initial state; `Sys.Reach`: the states that runs reach.
* `Sys.Inductive I`: `I` holds initially and every step keeps it, so it holds of every reachable
  state (`Inductive.reach`). An invariant may use one that is already proved (`Inductive.and`).
  `Steps.keep`, `Steps.history`: the same from any state, and for a property of the labels too.
* `Steps.amortized`: with a potential that every step lowers, up to the credit of its label, the
  number of steps is bounded by the potential at the start and the credits.
* `Sys.restrict C`: the runs whose steps all meet `C`.
* `Simulation`: each step of one system is a step of another one along a map of the states, or
  changes nothing there. It carries runs over (`Simulation.run`).
* `SimBy R`: the same along a relation of the states, from reachable states of the other system.
-/

namespace Lib

universe u v w x

/-- A system: its initial states and its steps, each with a label. -/
structure Sys (σ : Type u) (L : Type v) where
  init : σ → Prop
  step : σ → L → σ → Prop

namespace Sys

variable {σ : Type u} {L : Type v} (S : Sys σ L)

/-- The steps from `s`, with their labels in order. -/
inductive Steps (s : σ) : List L → σ → Prop
  | nil : Steps s [] s
  | snoc {tr : List L} {l : L} {u v : σ} : Steps s tr u → S.step u l v → Steps s (tr ++ [l]) v

/-- A run from an initial state. -/
def Run (tr : List L) (s : σ) : Prop := ∃ s₀, S.init s₀ ∧ S.Steps s₀ tr s

/-- The states that a run reaches. -/
def Reach (s : σ) : Prop := ∃ tr, S.Run tr s

/-- An inductive invariant: it holds initially and every step keeps it. -/
structure Inductive (I : σ → Prop) : Prop where
  init : ∀ s, S.init s → I s
  step : ∀ s l s', I s → S.step s l s' → I s'

/-- The system whose steps meet `C`, a condition on the state before the step and its label. -/
def restrict (C : σ → L → Prop) : Sys σ L where
  init := S.init
  step s l s' := S.step s l s' ∧ C s l

variable {S}

theorem Steps.append {s u v : σ} {a b : List L} (h : S.Steps s a u) (h' : S.Steps u b v) :
    S.Steps s (a ++ b) v := by
  induction h' with
  | nil => simpa using h
  | snoc _ hst ih => rw [← List.append_assoc]; exact ih.snoc hst

/-- Steps with the labels `a ++ b` pass through a state between `a` and `b`. -/
theorem Steps.split {s v : σ} {a b : List L} (h : S.Steps s (a ++ b) v) :
    ∃ u, S.Steps s a u ∧ S.Steps u b v := by
  generalize hc : a ++ b = c at h
  induction h generalizing b with
  | nil =>
    obtain ⟨rfl, rfl⟩ := List.append_eq_nil_iff.mp hc
    exact ⟨s, .nil, .nil⟩
  | @snoc tr l u v htr hst ih =>
    rcases List.eq_nil_or_concat b with rfl | ⟨b', l', rfl⟩
    · rw [List.append_nil] at hc
      subst hc
      exact ⟨v, htr.snoc hst, .nil⟩
    · rw [List.concat_eq_append, ← List.append_assoc] at hc
      obtain ⟨hc', hl⟩ := List.append_inj' hc rfl
      cases hl
      obtain ⟨w, hw, hw'⟩ := ih hc'
      exact ⟨w, hw, by rw [List.concat_eq_append]; exact hw'.snoc hst⟩

theorem Steps.nil_inv {s v : σ} (h : S.Steps s [] v) : v = s := by
  generalize hc : ([] : List L) = c at h
  cases h with
  | nil => rfl
  | snoc _ _ => simp at hc

theorem Steps.snoc_inv {s v : σ} {tr : List L} {l : L} (h : S.Steps s (tr ++ [l]) v) :
    ∃ u, S.Steps s tr u ∧ S.step u l v := by
  generalize hc : tr ++ [l] = c at h
  cases h with
  | nil => simp at hc
  | snoc htr hst =>
    obtain ⟨rfl, hl⟩ := List.append_inj' hc rfl
    cases hl
    exact ⟨_, htr, hst⟩

theorem Steps.cons {s u v : σ} {l : L} {tr : List L} (hst : S.step s l u) (h : S.Steps u tr v) :
    S.Steps s (l :: tr) v := by
  have hone : S.Steps s ([] ++ [l]) u := .snoc .nil hst
  exact hone.append h

/-- Steps with one label are one step. -/
theorem Steps.single {s v : σ} {l : L} (h : S.Steps s [l] v) : S.step s l v := by
  have h' : S.Steps s ([] ++ [l]) v := h
  obtain ⟨u, hn, hst⟩ := h'.snoc_inv
  rw [hn.nil_inv] at hst
  exact hst

/-- Steps whose labels have `l` in the middle: the state before it, its step, and the rest. -/
theorem Steps.middle {s v : σ} {a b : List L} {l : L} (h : S.Steps s (a ++ l :: b) v) :
    ∃ u u', S.Steps s a u ∧ S.step u l u' ∧ S.Steps u' b v := by
  obtain ⟨u, ha, hb⟩ := h.split
  obtain ⟨u', hl, hb'⟩ := Steps.split (a := [l]) hb
  exact ⟨u, u', ha, hl.single, hb'⟩

theorem Run.start {s : σ} (h : S.init s) : S.Run [] s := ⟨s, h, .nil⟩

/-- No steps yet, from the end of a run. -/
theorem Run.stay {s : σ} {tr : List L} (_ : S.Run tr s) : S.Steps s [] s := .nil

theorem Run.snoc {s s' : σ} {tr : List L} {l : L} (h : S.Run tr s) (hst : S.step s l s') :
    S.Run (tr ++ [l]) s' := by
  obtain ⟨s₀, hi, hs⟩ := h
  exact ⟨s₀, hi, hs.snoc hst⟩

theorem Run.append {s s' : σ} {a b : List L} (h : S.Run a s) (hs : S.Steps s b s') :
    S.Run (a ++ b) s' := by
  obtain ⟨s₀, hi, hs₀⟩ := h
  exact ⟨s₀, hi, hs₀.append hs⟩

theorem Run.split {s : σ} {a b : List L} (h : S.Run (a ++ b) s) :
    ∃ u, S.Run a u ∧ S.Steps u b s := by
  obtain ⟨s₀, hi, hs⟩ := h
  obtain ⟨u, ha, hb⟩ := hs.split
  exact ⟨u, ⟨s₀, hi, ha⟩, hb⟩

theorem Run.reach {s : σ} {tr : List L} (h : S.Run tr s) : S.Reach s := ⟨tr, h⟩

theorem Reach.steps {s s' : σ} {tr : List L} (h : S.Reach s) (hs : S.Steps s tr s') :
    S.Reach s' := by
  obtain ⟨tr', hr⟩ := h
  exact ⟨_, hr.append hs⟩

/-! ## Invariants -/

/-- What every step keeps, a sequence of steps keeps. -/
theorem Steps.keep {I : σ → Prop} (hk : ∀ s l s', I s → S.step s l s' → I s') {s s' : σ}
    {tr : List L} (h : S.Steps s tr s') (hi : I s) : I s' := by
  induction h with
  | nil => exact hi
  | snoc _ hst ih => exact hk _ _ _ ih hst

theorem Inductive.reach {I : σ → Prop} (h : S.Inductive I) {s : σ} (hs : S.Reach s) : I s := by
  obtain ⟨tr, s₀, hi, hst⟩ := hs
  exact hst.keep h.step (h.init _ hi)

/-- An invariant whose steps may use another one. -/
theorem Inductive.and {I J : σ → Prop} (hI : S.Inductive I) (hi : ∀ s, S.init s → J s)
    (hs : ∀ s l s', I s → J s → S.step s l s' → J s') : S.Inductive fun s => I s ∧ J s where
  init s h := ⟨hI.init s h, hi s h⟩
  step s l s' h hst := ⟨hI.step s l s' h.1 hst, hs s l s' h.1 h.2 hst⟩

/-- The same for a property of the labels since `s` and the state. -/
theorem Steps.history {H : List L → σ → Prop} {s s' : σ} {tr : List L}
    (hk : ∀ tr u l v, H tr u → S.step u l v → H (tr ++ [l]) v) (h : S.Steps s tr s')
    (hi : H [] s) : H tr s' := by
  induction h with
  | nil => exact hi
  | snoc _ hst ih => exact hk _ _ _ _ ih hst

/-- **Amortized steps**: a potential that each step lowers by one, up to the credit of its label. -/
theorem Steps.amortized {I : σ → Prop} {φ : σ → Nat} {credit : L → Nat}
    (hk : ∀ s l s', I s → S.step s l s' → I s' ∧ φ s' + 1 ≤ φ s + credit l) {s s' : σ}
    {tr : List L} (h : S.Steps s tr s') (hi : I s) :
    I s' ∧ tr.length + φ s' ≤ φ s + (tr.map credit).sum := by
  induction h with
  | nil => exact ⟨hi, by simp⟩
  | snoc _ hst ih =>
    obtain ⟨hi', hle⟩ := hk _ _ _ ih.1 hst
    refine ⟨hi', ?_⟩
    simp only [List.length_append, List.length_singleton, List.map_append, List.sum_append,
      List.map_cons, List.map_nil, List.sum_cons, List.sum_nil]
    omega

/-- Steps of the restricted system are steps of the system. -/
theorem Steps.of_restrict {C : σ → L → Prop} {s s' : σ} {tr : List L}
    (h : (S.restrict C).Steps s tr s') : S.Steps s tr s' := by
  induction h with
  | nil => exact .nil
  | snoc _ hst ih => exact ih.snoc hst.1

theorem Run.of_restrict {C : σ → L → Prop} {s : σ} {tr : List L} (h : (S.restrict C).Run tr s) :
    S.Run tr s := by
  obtain ⟨s₀, hi, hs⟩ := h
  exact ⟨s₀, hi, hs.of_restrict⟩

theorem Reach.of_restrict {C : σ → L → Prop} {s : σ} (h : (S.restrict C).Reach s) :
    S.Reach s := by
  obtain ⟨tr, hr⟩ := h
  exact hr.of_restrict.reach

/-- An invariant of the system is one of the restricted system. -/
theorem Inductive.restrict {C : σ → L → Prop} {I : σ → Prop} (h : S.Inductive I) :
    (S.restrict C).Inductive I where
  init := h.init
  step s l s' hi hst := h.step s l s' hi hst.1

end Sys

/-! ## Forward simulation -/

variable {σ : Type u} {L : Type v} {τ : Type w} {M : Type x}

/-- Each step of `C` from a state with `I` is a step of `A` along `f`, with the label that `g`
gives, or (no label) leaves the state of `A` as it is. -/
structure Simulation (C : Sys σ L) (A : Sys τ M) (I : σ → Prop) (f : σ → τ)
    (g : L → Option M) : Prop where
  init : ∀ s, C.init s → A.init (f s)
  step : ∀ s l s', I s → C.step s l s' →
    match g l with
    | some m => A.step (f s) m (f s')
    | none => f s' = f s

namespace Simulation

variable {C : Sys σ L} {A : Sys τ M} {I : σ → Prop} {f : σ → τ} {g : L → Option M}

/-- The steps of `C` are the steps of `A` with the labels that `g` keeps. -/
theorem steps (h : Simulation C A I f g) (hk : ∀ s l s', I s → C.step s l s' → I s')
    {s s' : σ} {tr : List L} (hs : C.Steps s tr s') (hi : I s) :
    A.Steps (f s) (tr.filterMap g) (f s') := by
  induction hs with
  | nil => exact .nil
  | @snoc tr l u v htr hst ih =>
    have hsim := h.step u l v (htr.keep hk hi) hst
    rw [List.filterMap_append]
    cases hg : g l with
    | none =>
      rw [hg] at hsim
      rw [List.filterMap_cons_none hg, List.filterMap_nil, List.append_nil,
        show f v = f u from hsim]
      exact ih
    | some m =>
      rw [hg] at hsim
      rw [List.filterMap_cons_some hg, List.filterMap_nil]
      exact ih.snoc hsim

theorem run (h : Simulation C A I f g) (hI : C.Inductive I) {s : σ} {tr : List L}
    (hr : C.Run tr s) : A.Run (tr.filterMap g) (f s) := by
  obtain ⟨s₀, hi, hs⟩ := hr
  exact ⟨f s₀, h.init s₀ hi, h.steps hI.step hs (hI.init s₀ hi)⟩

end Simulation

/-! ## Simulation by a relation -/

/-- `P` holds after a step of `A` with this label, or (no label) as it is. -/
def Sys.Answers (A : Sys τ M) (P : τ → Prop) (a : τ) : Option M → Prop
  | some m => ∃ a', A.step a m a' ∧ P a'
  | none => P a

/-- Each step of `C` is answered by a step of `A` with the label that `g` gives, or (no label) by
none, and `R` holds again after it. -/
structure SimBy (C : Sys σ L) (A : Sys τ M) (R : σ → τ → Prop) (g : L → Option M) : Prop where
  init : ∀ s, C.init s → ∃ a, A.init a ∧ R s a
  step : ∀ s l s' a, A.Reach a → R s a → C.step s l s' → A.Answers (R s') a (g l)

namespace SimBy

variable {C : Sys σ L} {A : Sys τ M} {R : σ → τ → Prop} {g : L → Option M}

/-- Runs of `C` are runs of `A` with the labels that `g` keeps. -/
theorem run (h : SimBy C A R g) {s : σ} {tr : List L} (hr : C.Run tr s) :
    ∃ a, A.Run (tr.filterMap g) a ∧ R s a := by
  obtain ⟨s₀, hi, hs⟩ := hr
  induction hs with
  | nil =>
    obtain ⟨a, ha, hR⟩ := h.init s₀ hi
    exact ⟨a, .start ha, hR⟩
  | @snoc tr l u v _ hst ih =>
    obtain ⟨a, ha, hR⟩ := ih
    have hsim := h.step u l v a ha.reach hR hst
    rw [List.filterMap_append]
    cases hg : g l with
    | none =>
      rw [hg] at hsim
      refine ⟨a, ?_, hsim⟩
      rw [List.filterMap_cons_none hg, List.filterMap_nil, List.append_nil]
      exact ha
    | some m =>
      rw [hg] at hsim
      obtain ⟨a', hst', hR'⟩ := hsim
      refine ⟨a', ?_, hR'⟩
      rw [List.filterMap_cons_some hg, List.filterMap_nil]
      exact ha.snoc hst'

end SimBy

end Lib
