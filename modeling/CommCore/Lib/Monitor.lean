import CommCore.Lib.Sys

/-!
# Code under a mutex

Threads that share data under one mutex, statement by statement (`Monitor`):

- **Code.** `stmt` is one statement of a thread that holds the mutex: the data after it, and the
  next statement, or the mutex is given up (`unlock`, or a wait on a condition variable). `enter` is
  the statement at which a thread locks the mutex, `outer` is what threads do without it.
- **Two systems.** In `Monitor.fine` a thread locks the mutex when it is free and then executes its
  statements one at a time; all other threads may take steps between them. In `Monitor.atomic` a
  section, from the lock to the statement that gives the mutex up, is one step (`exec`).
- **They have the same runs**, but for the steps inside the sections: `fine_refines` (if no section
  of the atomic system gets stuck or is longer than `B` statements) and `atomic_realized`.

`Fine.Owns` is mutual exclusion. It needs no hypothesis: `owns_inductive`.
-/

namespace Lib

/-- What a statement under the mutex leads to: the next one, or the mutex is given up with the
event `v`, and the thread is at the place `p`. -/
inductive Goto (K V P : Type) where
  | next (k : K)
  | leave (v : V) (p : P)

/-- Threads `T` with places `P` outside the mutex and statements `K` under it, data `D` and visible
events `V`. -/
structure Monitor (T D P K V : Type) where
  init : D → (T → P) → Prop
  /-- The first statement of a thread that is about to lock the mutex at this place. -/
  enter : P → Option K
  /-- One statement; `none`: it is undefined. -/
  stmt : K → D → Option (D × Goto K V P)
  /-- A step of a thread without the mutex. It does not read or write the data. -/
  outer : (T → P) → T → V → (T → P) → Prop
  /-- It leaves a thread alone that is about to lock the mutex, or has locked it there. -/
  outer_frame : ∀ f t v g, outer f t v g → ∀ u, u ≠ t → enter (f u) ≠ none → g u = f u

/-- A thread's step in the system of single statements. -/
inductive Move (V : Type) where
  | lock
  | stmt
  | vis (v : V)

/-- The system of single statements: who holds the mutex, each thread's place outside it (where it
locked it, for a thread inside), and its next statement inside. -/
structure Fine (T D P K : Type) where
  data : D
  owner : Option T
  place : T → P
  code : T → Option K

/-- The visible part of a step. -/
def visible {T V : Type} : T × Move V → Option (T × V)
  | (t, .vis v) => some (t, v)
  | _ => none

/-- **Mutual exclusion**: exactly the thread that holds the mutex is inside a section. -/
def Fine.Owns {T D P K : Type} (s : Fine T D P K) : Prop :=
  ∀ t, s.owner = some t ↔ s.code t ≠ none

namespace Fine.Owns

variable {T D P K : Type} {s : Fine T D P K}

theorem free (h : s.Owns) (ho : s.owner = none) (t : T) : s.code t = none := by
  by_contra hc
  have ht := (h t).mpr hc
  rw [ho] at ht
  cases ht

/-- Two threads inside are the same one. -/
theorem unique (h : s.Owns) {t u : T} (ht : s.code t ≠ none) (hu : s.code u ≠ none) : u = t := by
  have hot := (h t).mpr ht
  rw [(h u).mpr hu] at hot
  exact Option.some.inj hot

end Fine.Owns

namespace Monitor

variable {T D P K V : Type} (M : Monitor T D P K V)

/-- At most `n` statements from `k`: the data, the event and the place after the one that gives
the mutex up. -/
def exec : Nat → K → D → Option (D × V × P)
  | 0, _, _ => none
  | n + 1, k, d =>
    match M.stmt k d with
    | none => none
    | some (d', .next k') => exec n k' d'
    | some (d', .leave v p) => some (d', v, p)

variable [DecidableEq T]

/-- The steps of the system of single statements. -/
inductive FineStep : Fine T D P K → T × Move V → Fine T D P K → Prop
  | lock {s : Fine T D P K} {t : T} {k : K} : s.owner = none → s.code t = none →
      M.enter (s.place t) = some k →
      FineStep s (t, .lock) { s with owner := some t, code := Function.update s.code t (some k) }
  | stmt {s : Fine T D P K} {t : T} {k k' : K} {d : D} : s.code t = some k →
      M.stmt k s.data = some (d, .next k') →
      FineStep s (t, .stmt) { s with data := d, code := Function.update s.code t (some k') }
  | leave {s : Fine T D P K} {t : T} {k : K} {d : D} {v : V} {p : P} : s.code t = some k →
      M.stmt k s.data = some (d, .leave v p) →
      FineStep s (t, .vis v) ⟨d, none, Function.update s.place t p, Function.update s.code t none⟩
  | outer {s : Fine T D P K} {t : T} {v : V} {g : T → P} : s.code t = none →
      M.outer s.place t v g → FineStep s (t, .vis v) { s with place := g }

/-- The system of single statements. Nobody holds the mutex at first. -/
def fine : Sys (Fine T D P K) (T × Move V) where
  init s := M.init s.data s.place ∧ s.owner = none ∧ s.code = fun _ => none
  step := M.FineStep

/-- The steps of the system of sections. -/
inductive AtomicStep : D × (T → P) → T × V → D × (T → P) → Prop
  | exec {d d' : D} {f : T → P} {t : T} {k : K} {n : Nat} {v : V} {p : P} :
      M.enter (f t) = some k → M.exec n k d = some (d', v, p) →
      AtomicStep (d, f) (t, v) (d', Function.update f t p)
  | outer {d : D} {f g : T → P} {t : T} {v : V} : M.outer f t v g →
      AtomicStep (d, f) (t, v) (d, g)

/-- The system of sections. -/
def atomic : Sys (D × (T → P)) (T × V) where
  init a := M.init a.1 a.2
  step := M.AtomicStep

variable {M}

/-! ## Sections -/

omit [DecidableEq T] in
theorem exec_next {n : Nat} {k k' : K} {d d' : D} (h : M.stmt k d = some (d', .next k')) :
    M.exec (n + 1) k d = M.exec n k' d' := by
  simp only [exec, h]

omit [DecidableEq T] in
theorem exec_leave {n : Nat} {k : K} {d d' : D} {v : V} {p : P}
    (h : M.stmt k d = some (d', .leave v p)) : M.exec (n + 1) k d = some (d', v, p) := by
  simp only [exec, h]

omit [DecidableEq T] in
/-- A section that ends has a first statement, which is defined. -/
theorem exec_some {n : Nat} {k : K} {d : D} {r : D × V × P} (h : M.exec n k d = some r) :
    ∃ m, n = m + 1 ∧
      ((∃ d' k', M.stmt k d = some (d', .next k') ∧ M.exec m k' d' = some r) ∨
        M.stmt k d = some (r.1, .leave r.2.1 r.2.2)) := by
  cases n with
  | zero => cases h
  | succ m =>
    refine ⟨m, rfl, ?_⟩
    cases hs : M.stmt k d with
    | none => simp [exec, hs] at h
    | some x =>
      obtain ⟨d', g⟩ := x
      cases g with
      | next k' => exact .inl ⟨d', k', rfl, (exec_next hs).symm.trans h⟩
      | leave v p =>
        rw [exec_leave hs] at h
        cases h
        exact .inr rfl

omit [DecidableEq T] in
theorem exec_mono {n m : Nat} {k : K} {d : D} {r : D × V × P} (h : M.exec n k d = some r)
    (hn : n ≤ m) : M.exec m k d = some r := by
  induction n generalizing m k d with
  | zero => cases h
  | succ n ih =>
    obtain ⟨m, rfl⟩ : ∃ m', m = m' + 1 := ⟨m - 1, by omega⟩
    obtain ⟨n', hn', ⟨d', k', hs, hr⟩ | hs⟩ := exec_some h
    · obtain rfl : n = n' := Nat.succ.inj hn'
      rw [exec_next hs]
      exact ih hr (by omega)
    · exact exec_leave hs

omit [DecidableEq T] in
/-- How a section ends does not depend on the bound. -/
theorem exec_unique {n m : Nat} {k : K} {d : D} {r r' : D × V × P} (h : M.exec n k d = some r)
    (h' : M.exec m k d = some r') : r = r' := by
  have h₁ := exec_mono h (Nat.le_max_left n m)
  have h₂ := exec_mono h' (Nat.le_max_right n m)
  exact Option.some.inj (h₁.symm.trans h₂)

/-! ## Mutual exclusion -/

theorem owns_step {s s' : Fine T D P K} {l : T × Move V} (h : s.Owns) (hst : M.FineStep s l s') :
    s'.Owns := by
  intro u
  cases hst with
  | @lock t k ho _ _ =>
    by_cases hu : u = t
    · subst hu; simp
    · simp [Function.update_of_ne hu, h.free ho u, Ne.symm hu]
  | @stmt t k k' d hk _ =>
    by_cases hu : u = t
    · subst hu; simp [(h u).mpr (by simp [hk])]
    · simp [Function.update_of_ne hu, h u]
  | @leave t k d v p hk _ =>
    by_cases hu : u = t
    · subst hu; simp
    · have hno : s.code u = none := by
        by_contra hc
        exact hu (h.unique (by simp [hk]) hc)
      simp [Function.update_of_ne hu, hno]
  | outer _ _ => exact h u

/-- **Mutual exclusion holds in every reachable state.** -/
theorem owns_inductive : M.fine.Inductive (Fine.Owns (T := T)) where
  init s h := fun t => by simp [h.2.1, h.2.2]
  step _ _ _ h hst := owns_step h hst

/-! ## Sections of single statements are sections -/

variable (M) in
/-- How a state of single statements stands to one of sections: the sections that are under way
have not happened yet. The thread inside has a section that would end from where it locked the
mutex, and the statements that are left end it in the same way. -/
structure Abs (B : Nat) (s : Fine T D P K) (a : D × (T → P)) : Prop where
  owns : s.Owns
  place : a.2 = s.place
  free : s.owner = none → a.1 = s.data
  inside : ∀ t k, s.code t = some k → ∃ k₀ r, M.enter (s.place t) = some k₀ ∧
    M.exec B k₀ a.1 = some r ∧ ∃ n ≤ B, M.exec n k s.data = some r

/-- What one step does to `Abs`. -/
theorem Abs.step {B : Nat} {s s' : Fine T D P K} {a : D × (T → P)} {l : T × Move V}
    (h : M.Abs B s a) (hB : ∀ t k, M.enter (a.2 t) = some k → ∃ r, M.exec B k a.1 = some r)
    (hst : M.FineStep s l s') : M.atomic.Answers (M.Abs B s') a (visible l) := by
  obtain ⟨d, f⟩ := a
  have howns := owns_step h.owns hst
  obtain rfl : f = s.place := h.place
  cases hst with
  | @lock t k ho _ hk =>
    obtain rfl : d = s.data := h.free ho
    refine ⟨howns, rfl, nofun, fun u k' hu => ?_⟩
    by_cases hut : u = t
    · subst hut
      simp only [Function.update_self, Option.some.injEq] at hu
      subst hu
      obtain ⟨r, hr⟩ := hB u k hk
      exact ⟨k, r, hk, hr, B, Nat.le_refl B, hr⟩
    · simp only [Function.update_of_ne hut, h.owns.free ho u] at hu
      cases hu
  | @stmt t k k' d' hk hs =>
    have hin : s.code t ≠ none := by simp [hk]
    refine ⟨howns, rfl, fun hno => ?_, fun u k₁ hu => ?_⟩
    · rw [show s.owner = some t from (h.owns t).mpr hin] at hno
      cases hno
    · obtain rfl : u = t := by
        by_contra hut
        simp only [Function.update_of_ne hut] at hu
        exact hut (h.owns.unique hin (by simp [hu]))
      simp only [Function.update_self, Option.some.injEq] at hu
      subst hu
      obtain ⟨k₀, r, he, hr, n, hn, hn'⟩ := h.inside u k hk
      obtain ⟨m, rfl, ⟨d₁, k₁, hs', hm⟩ | hs'⟩ := exec_some hn'
      · rw [hs] at hs'
        cases hs'
        exact ⟨k₀, r, he, hr, m, by omega, hm⟩
      · rw [hs] at hs'
        cases hs'
  | @leave t k d' v p hk hs =>
    obtain ⟨k₀, r, he, hr, n, -, hn'⟩ := h.inside t k hk
    obtain ⟨m, rfl, ⟨d₁, k₁, hs', -⟩ | hs'⟩ := exec_some hn'
    · rw [hs] at hs'
      cases hs'
    · rw [hs] at hs'
      cases hs'
      refine ⟨_, AtomicStep.exec he hr, howns, rfl, fun _ => rfl, fun u k' hu => ?_⟩
      cases (howns.free rfl u).symm.trans hu
  | @outer t v g ht hg =>
    refine ⟨_, AtomicStep.outer hg, howns, rfl, h.free, fun u k hu => ?_⟩
    have hu' : s.code u = some k := hu
    obtain ⟨k₀, r, he, hr⟩ := h.inside u k hu'
    have hut : u ≠ t := fun e => by subst e; rw [ht] at hu'; cases hu'
    refine ⟨k₀, r, ?_, hr⟩
    show M.enter (g u) = some k₀
    rw [M.outer_frame _ _ _ _ hg u hut (by simp [he])]
    exact he

/-- **The system of single statements refines that of sections**, if no section there gets stuck
or is longer than `B` statements. -/
theorem fine_refines {B : Nat} (hB : ∀ a, M.atomic.Reach a → ∀ t k, M.enter (a.2 t) = some k →
    ∃ r, M.exec B k a.1 = some r) : SimBy M.fine M.atomic (M.Abs B) visible where
  init s h := ⟨(s.data, s.place), h.1, owns_inductive.init s h, rfl, fun _ => rfl, fun t k hk => by
    rw [h.2.2] at hk; cases hk⟩
  step _ _ _ a ha hR hst := hR.step (hB a ha) hst

/-! ## Sections are sections of single statements -/

/-- The statements of a section, one after the other. -/
theorem exec_steps {n : Nat} {k : K} {s : Fine T D P K} {t : T} {d' : D} {v : V} {p : P}
    (h : M.exec n k s.data = some (d', v, p)) (hk : s.code t = some k) :
    ∃ tr, M.fine.Steps s tr
        ⟨d', none, Function.update s.place t p, Function.update s.code t none⟩ ∧
      tr.filterMap visible = [(t, v)] := by
  induction n generalizing s k with
  | zero => cases h
  | succ n ih =>
    obtain ⟨m, hm, ⟨d₁, k₁, hs, hr⟩ | hs⟩ := exec_some h
    · obtain rfl : n = m := Nat.succ.inj hm
      obtain ⟨tr, htr, hv⟩ := ih
        (s := { s with data := d₁, code := Function.update s.code t (some k₁) }) hr
        (Function.update_self ..)
      simp only [Function.update_idem] at htr
      exact ⟨_, .cons (FineStep.stmt hk hs) htr, (List.filterMap_cons_none rfl).trans hv⟩
    · exact ⟨_, .cons (FineStep.leave hk hs) .nil, rfl⟩

/-- The state of single statements in which nobody is inside. -/
def outside (a : D × (T → P)) : Fine T D P K := ⟨a.1, none, a.2, fun _ => none⟩

/-- **Every run of the system of sections is one of single statements**, in which nobody waits for
the mutex. -/
theorem atomic_realized {tr : List (T × V)} {a : D × (T → P)} (h : M.atomic.Run tr a) :
    ∃ tr', M.fine.Run tr' (outside a) ∧ tr'.filterMap visible = tr := by
  obtain ⟨a₀, hi, hs⟩ := h
  induction hs with
  | nil => exact ⟨[], .start ⟨hi, rfl, rfl⟩, rfl⟩
  | @snoc tr l u w _ hst ih =>
    obtain ⟨tr', hr, htr⟩ := ih
    cases hst with
    | @exec d d' f t k n v p he hx =>
      have hlock : M.FineStep (outside (d, f)) (t, .lock) _ := .lock rfl rfl he
      obtain ⟨tr'', hsec, hv⟩ := exec_steps (t := t)
        (s := ⟨d, some t, f, Function.update (fun _ => none) t (some k)⟩) hx
        (by simp)
      rw [Function.update_idem, Function.update_eq_self] at hsec
      refine ⟨_, (hr.snoc hlock).append hsec, ?_⟩
      rw [List.filterMap_append, List.filterMap_append, htr, hv]
      simp [visible]
    | @outer d f g t v hg =>
      refine ⟨_, hr.snoc (.outer (s := outside (d, f)) rfl hg), ?_⟩
      rw [List.filterMap_append, htr]
      rfl

/-- **Both systems have the same visible runs.** -/
theorem visible_runs {B : Nat} (hB : ∀ a, M.atomic.Reach a → ∀ t k, M.enter (a.2 t) = some k →
    ∃ r, M.exec B k a.1 = some r) (tr : List (T × V)) :
    (∃ tr' s, M.fine.Run tr' s ∧ tr'.filterMap visible = tr) ↔ ∃ a, M.atomic.Run tr a := by
  constructor
  · rintro ⟨tr', s, hr, rfl⟩
    obtain ⟨a, ha, -⟩ := (fine_refines hB).run hr
    exact ⟨a, ha⟩
  · rintro ⟨a, ha⟩
    obtain ⟨tr', hr, htr⟩ := atomic_realized ha
    exact ⟨tr', outside a, hr, htr⟩

/-! ## The thread inside -/

/-- While a thread is inside, the other threads take steps of their own, but the data and what is
left of the section change by its own statements only. -/
theorem inside_steps {s s' : Fine T D P K} {tr : List (T × Move V)} (hs : M.fine.Steps s tr s')
    (ho : s.Owns) {t : T} {k : K} {n : Nat} {r : D × V × P} (hk : s.code t = some k)
    (hr : M.exec n k s.data = some r) (hno : ∀ v, (t, Move.vis v) ∉ tr) :
    ∃ k' m, s'.code t = some k' ∧ M.exec m k' s'.data = some r ∧
      m + tr.countP (·.1 = t) = n := by
  induction hs with
  | nil => exact ⟨k, n, hk, hr, rfl⟩
  | @snoc tr l u w htr hst ih =>
    obtain ⟨k', m, hk', hm, hn⟩ := ih fun v hv => hno v (List.mem_append_left _ hv)
    have hou : u.Owns := htr.keep (I := Fine.Owns) (fun _ _ _ h hst => owns_step h hst) ho
    have hin : u.code t ≠ none := by simp [hk']
    have hlast : ∀ v, l ≠ (t, .vis v) := fun v e =>
      hno v (List.mem_append_right _ (List.mem_singleton.mpr e.symm))
    rw [List.countP_append]
    cases hst with
    | lock hfree _ _ => exact absurd (hou.free hfree t) hin
    | @stmt t' k₁ k₂ d hk₁ hs =>
      obtain rfl : t = t' := hou.unique (by simp [hk₁]) hin
      obtain rfl : k₁ = k' := Option.some.inj (hk₁.symm.trans hk')
      obtain ⟨m', rfl, ⟨d', k'', hs', hm'⟩ | hs'⟩ := exec_some hm
      · rw [hs] at hs'
        cases hs'
        refine ⟨k₂, m', Function.update_self .., hm', ?_⟩
        simp
        omega
      · rw [hs] at hs'
        cases hs'
    | @leave t' k₁ d v p hk₁ _ =>
      obtain rfl : t = t' := hou.unique (by simp [hk₁]) hin
      exact absurd rfl (hlast v)
    | @outer t' v g ht' _ =>
      have hne : t' ≠ t := fun e => by subst e; exact hin ht'
      exact ⟨k', m, hk', hm, by simp [hne, hn]⟩

end Monitor

end Lib
