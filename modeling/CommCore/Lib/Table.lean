import Mathlib.Logic.Function.Basic

/-!
# Tables with one entry for a key

`emplace` inserts where the key is absent and leaves the table as it is otherwise; `assign` always
sets the entry of a key, so that the last assignment to it stands (`assignAll_last`), and the order
of assignments matters exactly if two of them disagree (`assignAll_perm_iff`); `erase` removes the
entry of a key. A table that is `Filed` by a function holds a value only under the key that the
function gives it. In such a table an `erase` removes a given value, and it alone, exactly if it
uses that key (`erase_exact_iff`).
-/

namespace Lib

universe u v

/-- A table: the value of each key, if any. -/
abbrev Table (K : Type u) (V : Type v) := K → Option V

namespace Table

variable {K : Type u} {V : Type v} {t : Table K V} {f : V → K} {k : K} {v w : V}

def empty : Table K V := fun _ => none

/-- The table holds `v`, under some key. -/
def Holds (t : Table K V) (v : V) : Prop := ∃ k, t k = some v

/-- Each value is held under the key that `f` gives it, and no other. -/
def Filed (t : Table K V) (f : V → K) : Prop := ∀ k v, t k = some v → f v = k

theorem filed_empty : (empty : Table K V).Filed f := fun _ _ h => nomatch h

theorem Filed.at (hf : t.Filed f) (hv : t.Holds v) : t (f v) = some v := by
  obtain ⟨k, hk⟩ := hv
  rw [hf k v hk, hk]

variable [DecidableEq K]

/-- Insertion of an entry if its key is absent. -/
def emplace (t : Table K V) (k : K) (v : V) : Table K V :=
  match t k with
  | some _ => t
  | none => Function.update t k (some v)

/-- Removal of the entry of a key. -/
def erase (t : Table K V) (k : K) : Table K V := Function.update t k none

/-- `t[k] = v`. -/
def assign (t : Table K V) (k : K) (v : V) : Table K V := Function.update t k (some v)

/-- The assignments one after the other. -/
def assignAll (t : Table K V) (as : List (K × V)) : Table K V :=
  as.foldl (fun t a => t.assign a.1 a.2) t

theorem assign_self : t.assign k v k = some v := Function.update_self _ _ _

theorem assign_ne {k' : K} (h : k' ≠ k) : t.assign k v k' = t k' := Function.update_of_ne h _ _

/-- Assignments to other keys change nothing for a key. -/
theorem assignAll_ne {as : List (K × V)} (h : k ∉ as.map Prod.fst) : t.assignAll as k = t k := by
  induction as generalizing t with
  | nil => rfl
  | cons a as ih =>
    rw [List.map_cons, List.mem_cons, not_or] at h
    obtain ⟨hne, hk⟩ := h
    show (t.assign a.1 a.2).assignAll as k = t k
    rw [ih hk, assign_ne hne]

/-- The last assignment to a key stands. -/
theorem assignAll_last {as bs : List (K × V)} (h : k ∉ bs.map Prod.fst) :
    t.assignAll (as ++ (k, v) :: bs) k = some v := by
  unfold assignAll
  rw [List.foldl_append]
  exact (assignAll_ne h).trans assign_self

/-- Assignments that agree on a key. -/
theorem assignAll_of_agree {as : List (K × V)} (hk : k ∈ as.map Prod.fst)
    (h : ∀ a ∈ as, a.1 = k → a.2 = v) : t.assignAll as k = some v := by
  induction as generalizing t with
  | nil => cases hk
  | cons a as ih =>
    rw [List.forall_mem_cons] at h
    show (t.assign a.1 a.2).assignAll as k = some v
    by_cases hin : k ∈ as.map Prod.fst
    · exact ih hin h.2
    · have hka : k = a.1 := (List.mem_cons.mp hk).resolve_right hin
      rw [assignAll_ne hin, hka, assign_self, h.1 hka.symm]

/-- The assignment `a` can be the last one. -/
theorem exists_perm_last {as : List (K × V)} {a : K × V} (ha : a ∈ as) :
    ∃ bs : List (K × V), bs.Perm as ∧ t.assignAll bs a.1 = some a.2 := by
  obtain ⟨l, r, rfl⟩ := List.append_of_mem ha
  refine ⟨(l ++ r) ++ [a], ?_, assignAll_last List.not_mem_nil⟩
  exact (List.perm_append_singleton a (l ++ r)).trans List.perm_middle.symm

/-- **The order of assignments does not matter exactly if no two of them disagree.** -/
theorem assignAll_perm_iff (as : List (K × V)) :
    (∀ bs : List (K × V), bs.Perm as → t.assignAll bs = t.assignAll as) ↔
      ∀ a ∈ as, ∀ b ∈ as, a.1 = b.1 → a.2 = b.2 := by
  constructor
  · intro h a ha b hb hab
    obtain ⟨la, hla, hva⟩ := exists_perm_last (t := t) ha
    obtain ⟨lb, hlb, hvb⟩ := exists_perm_last (t := t) hb
    rw [h la hla] at hva
    rw [h lb hlb, ← hab, hva] at hvb
    exact Option.some.inj hvb
  · intro h bs hp
    funext k
    by_cases hk : k ∈ as.map Prod.fst
    · obtain ⟨a, ha, rfl⟩ := List.mem_map.mp hk
      have hagree : ∀ b ∈ as, b.1 = a.1 → b.2 = a.2 := fun b hb hba => h b hb a ha hba
      rw [assignAll_of_agree hk hagree,
        assignAll_of_agree ((hp.map Prod.fst).mem_iff.mpr hk) fun b hb =>
          hagree b (hp.mem_iff.mp hb)]
    · rw [assignAll_ne hk, assignAll_ne fun hk' => hk ((hp.map Prod.fst).mem_iff.mp hk')]

theorem emplace_some (h : t k = some w) : t.emplace k v = t := by
  unfold emplace
  rw [h]

theorem emplace_none (h : t k = none) : t.emplace k v = Function.update t k (some v) := by
  unfold emplace
  rw [h]

theorem emplace_ne {k' : K} (h : k' ≠ k) : t.emplace k v k' = t k' := by
  cases hk : t k with
  | some w => rw [emplace_some hk]
  | none => rw [emplace_none hk, Function.update_of_ne h]

theorem erase_self : t.erase k k = none := Function.update_self _ _ _

theorem erase_ne {k' : K} (h : k' ≠ k) : t.erase k k' = t k' := Function.update_of_ne h _ _

/-- A new value is held after its insertion exactly if its key was absent. -/
theorem holds_emplace_self_iff (hn : ¬ t.Holds v) : (t.emplace k v).Holds v ↔ t k = none := by
  cases hk : t k with
  | some w => simpa [emplace_some hk] using hn
  | none => simpa [emplace_none hk] using ⟨k, Function.update_self _ _ _⟩

/-- An insertion keeps what was held. -/
theorem Holds.emplace (h : t.Holds w) : (t.emplace k v).Holds w := by
  obtain ⟨k', hk'⟩ := h
  cases hk : t k with
  | some u => rw [emplace_some hk]; exact ⟨k', hk'⟩
  | none =>
    refine ⟨k', ?_⟩
    rw [emplace_ne, hk']
    rintro rfl
    rw [hk] at hk'
    cases hk'

/-- An insertion adds the new value only. -/
theorem Holds.of_emplace (h : (t.emplace k v).Holds w) : w = v ∨ t.Holds w := by
  obtain ⟨k', hk'⟩ := h
  by_cases hkk : k' = k
  · subst hkk
    cases hk : t k' with
    | some u => rw [emplace_some hk] at hk'; exact .inr ⟨k', hk'⟩
    | none =>
      rw [emplace_none hk, Function.update_self] at hk'
      exact .inl (Option.some.inj hk').symm
  · rw [emplace_ne hkk] at hk'
    exact .inr ⟨k', hk'⟩

theorem Filed.emplace (hf : t.Filed f) (hk : f v = k) : (t.emplace k v).Filed f := by
  intro k' w hw
  by_cases hkk : k' = k
  · subst hkk
    cases ht : t k' with
    | some u => rw [emplace_some ht] at hw; exact hf k' w hw
    | none =>
      rw [emplace_none ht, Function.update_self] at hw
      rw [← Option.some.inj hw, hk]
  · rw [emplace_ne hkk] at hw
    exact hf k' w hw

theorem Filed.erase (hf : t.Filed f) : (t.erase k).Filed f := by
  intro k' w hw
  by_cases hkk : k' = k
  · subst hkk; rw [erase_self] at hw; cases hw
  · rw [erase_ne hkk] at hw; exact hf k' w hw

/-- A removal drops the value with that key and no other. -/
theorem Filed.holds_erase_iff (hf : t.Filed f) : (t.erase k).Holds w ↔ t.Holds w ∧ f w ≠ k := by
  constructor
  · rintro ⟨k', hk'⟩
    have hne : k' ≠ k := by rintro rfl; rw [erase_self] at hk'; cases hk'
    rw [erase_ne hne] at hk'
    exact ⟨⟨k', hk'⟩, by rw [hf k' w hk']; exact hne⟩
  · rintro ⟨hw, hne⟩
    exact ⟨f w, by rw [erase_ne hne]; exact hf.at hw⟩

/-- **A removal drops `v`, and `v` alone, exactly if it uses the key of `v`.** -/
theorem Filed.erase_exact_iff (hf : t.Filed f) (hv : t.Holds v) :
    (¬ (t.erase k).Holds v ∧ ∀ w, w ≠ v → t.Holds w → (t.erase k).Holds w) ↔ k = f v := by
  simp only [hf.holds_erase_iff]
  constructor
  · rintro ⟨hn, -⟩
    by_contra hne
    exact hn ⟨hv, Ne.symm hne⟩
  · rintro rfl
    refine ⟨fun h => h.2 rfl, fun w hwv hw => ⟨hw, fun he => hwv ?_⟩⟩
    -- two values with one key are one entry
    have h := hf.at hw
    rw [he, hf.at hv] at h
    exact (Option.some.inj h).symm

end Table

end Lib
