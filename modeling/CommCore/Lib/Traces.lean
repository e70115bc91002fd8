import CommCore.Lib.Threads

/-!
# What is seen of a run, and simulation in both directions

`Sys.Traces`: what is seen of the runs of a system, where some steps are not seen. A step of one
system may be answered by any number of steps of another one of which the same is seen
(`Sys.Shows`).

* `ForwardSim R`: each step from related states is answered by steps to related states.
* `BackwardSim B`: each step to related states is answered by steps from related states. So an
  answer may depend on what is still to come: the run of the other system is built from its end.

Either one carries what is seen over (`ForwardSim.traces`, `BackwardSim.traces`).

Of an atomic object, its clients see the calls and the returns (`Object.seen`). One object covers
another one up to effects that are skipped (`Object.Covers`): then it has all histories of the other
in which no skipped effect is returned (`Object.Covers.traces`).
-/

namespace Lib

universe u v w x y

variable {σ : Type u} {L : Type v} {τ : Type w} {M : Type x} {V : Type y}

namespace Sys

/-- There are steps from `s` to `s'` of which `vs` is seen. -/
def Shows (S : Sys σ L) (obs : L → Option V) (s : σ) (vs : List V) (s' : σ) : Prop :=
  ∃ tr, S.Steps s tr s' ∧ tr.filterMap obs = vs

/-- There is a run of which `vs` is seen. -/
def Traces (S : Sys σ L) (obs : L → Option V) (vs : List V) : Prop :=
  ∃ tr s, S.Run tr s ∧ tr.filterMap obs = vs

variable {S : Sys σ L} {obs : L → Option V}

theorem Shows.nil {s : σ} : S.Shows obs s [] s := ⟨[], .nil, rfl⟩

theorem Shows.append {s u v : σ} {vs ws : List V} (h : S.Shows obs s vs u)
    (h' : S.Shows obs u ws v) : S.Shows obs s (vs ++ ws) v := by
  obtain ⟨a, ha, rfl⟩ := h
  obtain ⟨b, hb, rfl⟩ := h'
  exact ⟨a ++ b, ha.append hb, List.filterMap_append ..⟩

theorem Shows.step {s u : σ} {l : L} (h : S.step s l u) : S.Shows obs s (obs l).toList u :=
  ⟨[] ++ [l], .snoc .nil h, filterMap_snoc obs [] l⟩

/-- A step that is not seen. -/
theorem Shows.unseen {s u v : σ} {l : L} {vs : List V} (hst : S.step s l u) (hl : obs l = none)
    (h : S.Shows obs u vs v) : S.Shows obs s vs v := by
  have h₁ : S.Shows obs s (obs l).toList u := .step hst
  rw [hl] at h₁
  exact h₁.append h

theorem Traces.of_shows {s₀ s : σ} {vs : List V} (hi : S.init s₀) (h : S.Shows obs s₀ vs s) :
    S.Traces obs vs := by
  obtain ⟨tr, hs, hv⟩ := h
  exact ⟨tr, s, ⟨s₀, hi, hs⟩, hv⟩

/-- A trace whose steps meet a condition is one of the restricted system. -/
theorem Traces.restrict {K : L → Prop} {vs : List V} (h : S.Traces obs vs)
    (hK : ∀ l, K l ∨ ∃ v, obs l = some v ∧ v ∉ vs) :
    (S.restrict fun _ l => K l).Traces obs vs := by
  obtain ⟨tr, s, ⟨s₀, hi, hs⟩, rfl⟩ := h
  have hall : ∀ l ∈ tr, K l := by
    intro l hl
    rcases hK l with hl' | ⟨v, hv, hn⟩
    · exact hl'
    · exact absurd (List.mem_filterMap.mpr ⟨l, hl, hv⟩) hn
  have hs' : (S.restrict fun _ l => K l).Steps s₀ tr s := by
    clear hK
    induction hs with
    | nil => exact .nil
    | snoc _ hst ih =>
      have hinit := ih fun l hl => hall l (List.mem_append_left _ hl)
      exact hinit.snoc ⟨hst, hall _ (List.mem_append_right _ (List.mem_singleton_self _))⟩
  exact ⟨tr, s, ⟨s₀, hi, hs'⟩, rfl⟩

/-- What is seen through a map. -/
theorem Traces.map {W : Type*} (w : V → W) {vs : List V} (h : S.Traces obs vs) :
    S.Traces (fun l => (obs l).map w) (vs.map w) := by
  obtain ⟨tr, s, hr, rfl⟩ := h
  exact ⟨tr, s, hr, (List.map_filterMap ..).symm⟩

end Sys

variable {C : Sys σ L} {A : Sys τ M} {oc : L → Option V} {oa : M → Option V}

/-! ## Forward -/

/-- Each step of `C` from related states is answered by steps of `A` to related states. -/
structure ForwardSim (C : Sys σ L) (A : Sys τ M) (R : σ → τ → Prop) (oc : L → Option V)
    (oa : M → Option V) : Prop where
  init : ∀ s, C.init s → ∃ a, A.init a ∧ R s a
  step : ∀ s l s' a, R s a → C.step s l s' → ∃ a', R s' a' ∧ A.Shows oa a (oc l).toList a'

theorem ForwardSim.traces {R : σ → τ → Prop} (h : ForwardSim C A R oc oa) {vs : List V}
    (hv : C.Traces oc vs) : A.Traces oa vs := by
  obtain ⟨tr, s, ⟨s₀, hi, hs⟩, rfl⟩ := hv
  obtain ⟨a₀, ha, hR⟩ := h.init s₀ hi
  have hrun : ∃ a, R s a ∧ A.Shows oa a₀ (tr.filterMap oc) a := by
    induction hs with
    | nil => exact ⟨a₀, hR, .nil⟩
    | @snoc tr l u v _ hst ih =>
      obtain ⟨a, hRa, hsh⟩ := ih
      obtain ⟨a', hRa', hsh'⟩ := h.step u l v a hRa hst
      rw [filterMap_snoc]
      exact ⟨a', hRa', hsh.append hsh'⟩
  obtain ⟨a, -, hsh⟩ := hrun
  exact .of_shows ha hsh

/-! ## Backward -/

/-- Each step of `C` to related states is answered by steps of `A` from related states. -/
structure BackwardSim (C : Sys σ L) (A : Sys τ M) (B : σ → τ → Prop) (oc : L → Option V)
    (oa : M → Option V) : Prop where
  total : ∀ s, C.Reach s → ∃ a, B s a
  init : ∀ s a, C.init s → B s a → A.init a
  step : ∀ s l s' a', C.Reach s → C.step s l s' → B s' a' →
    ∃ a, B s a ∧ A.Shows oa a (oc l).toList a'

/-- **A run is answered from its end**: to every state that is related to its last one. -/
theorem BackwardSim.shows {B : σ → τ → Prop} (h : BackwardSim C A B oc oa) {s : σ} {tr : List L}
    (hr : C.Run tr s) {a : τ} (hB : B s a) :
    ∃ a₀, A.init a₀ ∧ A.Shows oa a₀ (tr.filterMap oc) a := by
  obtain ⟨s₀, hi, hs⟩ := hr
  induction hs generalizing a with
  | nil => exact ⟨a, h.init s₀ a hi hB, .nil⟩
  | @snoc tr l u v htr hst ih =>
    obtain ⟨a', hB', hsh'⟩ := h.step u l v a ⟨tr, s₀, hi, htr⟩ hst hB
    obtain ⟨a₀, ha, hsh⟩ := ih hB'
    rw [filterMap_snoc]
    exact ⟨a₀, ha, hsh.append hsh'⟩

theorem BackwardSim.traces {B : σ → τ → Prop} (h : BackwardSim C A B oc oa) {vs : List V}
    (hv : C.Traces oc vs) : A.Traces oa vs := by
  obtain ⟨tr, s, hr, rfl⟩ := hv
  obtain ⟨a, hB⟩ := h.total s hr.reach
  obtain ⟨a₀, ha, hsh⟩ := h.shows hr hB
  exact .of_shows ha hsh

/-! ## Objects -/

namespace Object

variable {T C R : Type*}

/-- A step as the client of an object sees it: a call or a return. -/
def seen : T × Act C R → Option (T × Act C R)
  | (_, .eff _ _) => none
  | l => some l

variable {O : Object σ C R} {T : Type} [DecidableEq T] {f : T → Slot C R} {t : T} {s s' : σ}
  {c c' : C} {r : R}

theorem update_back {β : Type*} {g : T → β} {y : β} (hy : g t = y) (x : β) :
    Function.update (Function.update g t x) t y = g := by
  rw [Function.update_idem, ← hy, Function.update_eq_self]

/-- A call, from where the thread is after it. -/
theorem call_back (hf : f t = .pending c) : (O.atomic T).Shows seen
    (s, Function.update f t .idle) [(t, .call c)] (s, f) := by
  have hst : (O.atomic T).step (s, Function.update f t .idle) (t, .call c)
      (s, Function.update (Function.update f t .idle) t (.pending c)) :=
    .call (Function.update_self ..)
  rw [update_back hf] at hst
  exact .step hst

/-- An effect, from where the thread is after it. -/
theorem eff_back (hf : f t = .done c' r) (he : O.eff s c s' c' r) : (O.atomic T).Shows seen
    (s, Function.update f t (.pending c)) [] (s', f) := by
  have hst : (O.atomic T).step (s, Function.update f t (.pending c)) (t, .eff c' r)
      (s', Function.update (Function.update f t (.pending c)) t (.done c' r)) :=
    .eff (Function.update_self ..) he
  rw [update_back hf] at hst
  exact .step hst

/-- A return, from where the thread is after it. -/
theorem ret_back (hf : f t = .idle) : (O.atomic T).Shows seen
    (s, Function.update f t (.done c r)) [(t, .ret c r)] (s, f) := by
  have hst : (O.atomic T).step (s, Function.update f t (.done c r)) (t, .ret c r)
      (s, Function.update (Function.update f t (.done c r)) t .idle) :=
    .ret (Function.update_self ..)
  rw [update_back hf] at hst
  exact .step hst

/-! ## Objects that cover others -/

/-- The call of an action, through `u`. -/
def onCall {D : Type*} (u : C → D) : T × Act C R → T × Act D R
  | (t, .call c) => (t, .call (u c))
  | (t, .eff c r) => (t, .eff (u c) r)
  | (t, .ret c r) => (t, .ret (u c) r)

variable {τ D : Type*} {P : Object τ D R} {u : C → D} {skip : C → R → Prop} {K : σ → τ → Prop}

/-- Each effect of `O` is one of `P`, or is skipped. -/
structure Covers (O : Object σ C R) (P : Object τ D R) (u : C → D) (skip : C → R → Prop)
    (K : σ → τ → Prop) : Prop where
  init : ∀ s, O.init s → ∃ a, P.init a ∧ K s a
  eff : ∀ s c s' c' r a, O.eff s c s' c' r → K s a →
    (skip c' r ∧ K s' a) ∨ ∃ a', P.eff a (u c) a' (u c') r ∧ K s' a'

/-- A thread whose effect was skipped is still in its call. -/
inductive CoversSlot (u : C → D) (skip : C → R → Prop) : Slot C R → Slot D R → Prop
  | idle : CoversSlot u skip .idle .idle
  | pending (c : C) : CoversSlot u skip (.pending c) (.pending (u c))
  | done (c : C) (r : R) : CoversSlot u skip (.done c r) (.done (u c) r)
  | skipped {c : C} {r : R} (d : D) : skip c r → CoversSlot u skip (.done c r) (.pending d)

/-- A thread moves on both sides. -/
theorem CoversSlot.update {f : T → Slot C R} {g : T → Slot D R}
    (h : ∀ t, CoversSlot u skip (f t) (g t)) (t : T) {x : Slot C R} {y : Slot D R}
    (hxy : CoversSlot u skip x y) (v : T) :
    CoversSlot u skip (Function.update f t x v) (Function.update g t y v) := by
  by_cases hv : v = t
  · subst hv
    rw [Function.update_self, Function.update_self]
    exact hxy
  · rw [Function.update_of_ne hv, Function.update_of_ne hv]
    exact h v

variable (T) in
theorem Covers.forwardSim (h : Covers O P u skip K) : ForwardSim
    ((O.atomic T).restrict fun _ l => ∀ c r, l.2 = .ret c r → ¬ skip c r) (P.atomic T)
    (fun a b => K a.1 b.1 ∧ ∀ t, CoversSlot u skip (a.2 t) (b.2 t))
    (fun l => (seen l).map (onCall u)) seen where
  init a ha := by
    obtain ⟨b, hb, hK⟩ := h.init a.1 ha.1
    refine ⟨(b, fun _ => .idle), ⟨hb, fun _ => rfl⟩, hK, fun t => ?_⟩
    rw [ha.2 t]
    exact .idle
  step a l a' b hR hst := by
    obtain ⟨hst, hno⟩ := hst
    obtain ⟨b, g⟩ := b
    obtain ⟨hK, hslots⟩ := hR
    have hslot := hslots l.1
    cases hst with
    | @call s f t c ht =>
      simp only [ht] at hslot
      cases hg : g t with
      | idle =>
        have hst' : (P.atomic T).step (b, g) (t, .call (u c)) _ := .call hg
        exact ⟨(b, Function.update g t (.pending (u c))),
          ⟨hK, CoversSlot.update hslots t (.pending c)⟩, Sys.Shows.step hst'⟩
      | _ => rw [hg] at hslot; cases hslot
    | @eff s s' f t c c' r ht he =>
      simp only [ht] at hslot
      cases hg : g t with
      | pending d =>
        rw [hg] at hslot
        cases hslot
        rcases h.eff _ _ _ _ _ _ he hK with ⟨hskip, hK'⟩ | ⟨b', he', hK'⟩
        · refine ⟨(b, g), ⟨hK', fun v => ?_⟩, .nil⟩
          have hv := CoversSlot.update hslots t (.skipped (u c) hskip) v
          rwa [← hg, Function.update_eq_self] at hv
        · have hst' : (P.atomic T).step (b, g) (t, .eff (u c') r) _ := .eff hg he'
          exact ⟨_, ⟨hK', CoversSlot.update hslots t (.done c' r)⟩, .unseen hst' rfl .nil⟩
      | _ => rw [hg] at hslot; cases hslot
    | @ret s f t c r ht =>
      simp only [ht] at hslot
      cases hg : g t with
      | done d r' =>
        rw [hg] at hslot
        cases hslot
        have hst' : (P.atomic T).step (b, g) (t, .ret (u c) r) _ := .ret hg
        exact ⟨(b, Function.update g t .idle),
          ⟨hK, CoversSlot.update hslots t .idle⟩, Sys.Shows.step hst'⟩
      | pending d =>
        rw [hg] at hslot
        cases hslot with
        | skipped _ hskip => exact absurd hskip (hno c r rfl)
      | idle => rw [hg] at hslot; cases hslot

/-- **An object has the histories of those that it covers**, if no skipped effect is returned. -/
theorem Covers.traces (h : Covers O P u skip K) {vs : List (T × Act C R)}
    (hv : (O.atomic T).Traces seen vs) (hno : ∀ t c r, (t, Act.ret c r) ∈ vs → ¬ skip c r) :
    (P.atomic T).Traces seen (vs.map (onCall u)) := by
  refine (h.forwardSim T).traces ((hv.restrict fun l => ?_).map (onCall u))
  by_cases hl : ∀ c r, l.2 = .ret c r → ¬ skip c r
  · exact .inl hl
  · simp only [not_forall, not_not] at hl
    obtain ⟨c, r, hret, hskip⟩ := hl
    obtain ⟨t, e⟩ := l
    cases hret
    exact .inr ⟨_, rfl, fun hm => hno t c r hm hskip⟩

end Object

end Lib
