import CommCore.Lib.Sys

/-!
# Endless runs

`Sys.Endless`: steps one after the other without end. Steps that come back to the state that they
started from can be taken again and again (`Sys.Steps.cycle`): each of their labels comes up without
end, and no other does.

`Endless.keep`: what every step with the labels of the run keeps holds in all of its states.
-/

namespace Lib

universe u v

namespace Sys

variable {σ : Type u} {L : Type v} {S : Sys σ L}

/-- Steps without end: the states and the labels. -/
def Endless (S : Sys σ L) (st : Nat → σ) (lb : Nat → L) : Prop :=
  ∀ n, S.step (st n) (lb n) (st (n + 1))

/-- `P` holds of labels again and again. -/
def Recurs (P : L → Prop) (lb : Nat → L) : Prop := ∀ n, ∃ m, n ≤ m ∧ P (lb m)

theorem Recurs.imp {P Q : L → Prop} {lb : Nat → L} (h : Recurs P lb) (hpq : ∀ l, P l → Q l) :
    Recurs Q lb := by
  intro n
  obtain ⟨m, hm, hp⟩ := h n
  exact ⟨m, hm, hpq _ hp⟩

theorem Endless.keep {st : Nat → σ} {lb : Nat → L} {I : σ → Prop} (h : S.Endless st lb)
    (hk : ∀ n s', I (st n) → S.step (st n) (lb n) s' → I s') (hi : I (st 0)) (n : Nat) :
    I (st n) := by
  induction n with
  | zero => exact hi
  | succ n ih => exact hk n _ ih (h n)

/-- The states that steps pass through. -/
theorem Steps.states {s s' : σ} {tr : List L} (h : S.Steps s tr s') : ∃ f : Nat → σ,
    f 0 = s ∧ f tr.length = s' ∧ ∀ i l, tr[i]? = some l → S.step (f i) l (f (i + 1)) := by
  induction h with
  | nil => exact ⟨fun _ => s, rfl, rfl, nofun⟩
  | @snoc tr l u v _ hst ih =>
    obtain ⟨f, h0, hlen, hf⟩ := ih
    have hle : ∀ i, i ≤ tr.length → (if i ≤ tr.length then f i else v) = f i :=
      fun i hi => if_pos hi
    refine ⟨fun i => if i ≤ tr.length then f i else v, ?_, ?_, fun i l' hl => ?_⟩
    · exact (hle 0 (Nat.zero_le _)).trans h0
    · rw [List.length_append, List.length_singleton]
      exact if_neg (Nat.not_succ_le_self _)
    · dsimp only
      by_cases hi : i < tr.length
      · rw [hle i (Nat.le_of_lt hi), hle (i + 1) hi]
        rw [List.getElem?_append_left hi] at hl
        exact hf i l' hl
      · -- the last step
        have hi' : i = tr.length := by
          have hlt := (List.getElem?_eq_some_iff.mp hl).1
          rw [List.length_append, List.length_singleton] at hlt
          omega
        subst hi'
        rw [List.getElem?_concat_length] at hl
        cases hl
        rw [hle _ (Nat.le_refl _), hlen, if_neg (Nat.not_succ_le_self _)]
        exact hst

/-- **A cycle can be taken again and again.** -/
theorem Steps.cycle {s : σ} {tr : List L} (h : S.Steps s tr s) (hne : tr ≠ []) :
    ∃ (st : Nat → σ) (lb : Nat → L), S.Endless st lb ∧ st 0 = s ∧ (∀ n, lb n ∈ tr) ∧
      ∀ l ∈ tr, Recurs (· = l) lb := by
  obtain ⟨f, h0, hlen, hf⟩ := h.states
  have hpos : 0 < tr.length := List.length_pos_iff.mpr hne
  have hmod : ∀ n, n % tr.length < tr.length := fun n => Nat.mod_lt n hpos
  refine ⟨fun n => f (n % tr.length), fun n => tr.get ⟨n % tr.length, hmod n⟩, fun n => ?_,
    (congrArg f (Nat.zero_mod _)).trans h0, fun n => List.get_mem _ _, fun l hl n => ?_⟩
  · have hst := hf (n % tr.length) _ (List.getElem?_eq_getElem (hmod n))
    have hnext : f ((n + 1) % tr.length) = f (n % tr.length + 1) := by
      rw [← Nat.mod_add_mod]
      by_cases hlast : n % tr.length + 1 = tr.length
      · rw [hlast, Nat.mod_self, h0, hlen]
      · have hlt : n % tr.length + 1 < tr.length := by
          have := hmod n
          omega
        rw [Nat.mod_eq_of_lt hlt]
    dsimp only
    rw [hnext]
    exact hst
  · obtain ⟨i, hi, rfl⟩ := List.mem_iff_getElem.mp hl
    refine ⟨n * tr.length + i, ?_, ?_⟩
    · have hle : n * 1 ≤ n * tr.length := Nat.mul_le_mul_left n hpos
      omega
    · have he : (n * tr.length + i) % tr.length = i := by
        rw [Nat.mul_add_mod_self_right, Nat.mod_eq_of_lt hi]
      simp only [List.get_eq_getElem, he]

end Sys

end Lib
