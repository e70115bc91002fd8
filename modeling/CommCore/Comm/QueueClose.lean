import CommCore.Comm.QueueFifo

/-!
# The close protocol of `bounded_blocking_queue`

From the moment some `close` has set `closed_`:

- No section accepts an item (`accepted_of_closed`) or waits (`no_wait_of_closed`). A `push` that
  returns `true` after that moment had put its item in before it (`unlocked_of_ret`): between its
  `unlock` and its return, `close` may run.
- `CloseOwes`: while a wait set has a thread, some `close` still owes its `notify_all` on it.
- A `pop` returns `false` only with the queue closed and empty (`Phase.Ok`), so that every item
  ever accepted has been delivered (`drained_of_pop_false`).

`close_protocol` puts them together, for the steps after a reachable closed state.
-/

namespace CommCore

namespace BoundedBlockingQueue

open Lib

variable {α T : Type}

/-- Some thread is in the wait set of `cv`. -/
def State.Sleeps (s : State T α) (cv : Cv) : Prop := ∃ t c, s.phase t = .waiting cv c

/-- A `close` that still owes `notify_all` on `cv`. -/
def Phase.OwesAll (cv : Cv) : Phase α → Prop
  | .unlocked owed c _ => c = .close ∧ .all cv ∈ owed
  | _ => False

/-- In a closed queue, a wait set with a thread is one on which some `close` owes `notify_all`. -/
def State.CloseOwes (s : State T α) : Prop :=
  s.closed = true → ∀ cv, s.Sleeps cv → ∃ t, (s.phase t).OwesAll cv

variable [DecidableEq T] {capacity : Nat}

/-- A thread that sleeps after a move slept before it, or is the one that moved. -/
theorem State.Sleeps.of_move {s : State T α} {t : T} {p : Phase α} {cv : Cv}
    (h : (s.move t p).Sleeps cv) : (∃ c, p = .waiting cv c) ∨ s.Sleeps cv := by
  obtain ⟨u, c, hu⟩ := h
  by_cases hut : u = t
  · subst hut; rw [move_phase_self] at hu; exact .inl ⟨c, hu⟩
  · rw [move_phase_ne _ _ hut] at hu; exact .inr ⟨u, c, hu⟩

/-- A move keeps `CloseOwes` if the thread does not start to wait and still owes what it owed. -/
theorem State.CloseOwes.move {s : State T α} (h : s.CloseOwes) {t : T} {p : Phase α}
    (hw : ∀ cv c, p ≠ .waiting cv c) (ho : ∀ cv, (s.phase t).OwesAll cv → p.OwesAll cv) :
    (s.move t p).CloseOwes := by
  intro hc cv hs
  rcases hs.of_move with ⟨c, hp⟩ | hs
  · exact absurd hp (hw cv c)
  obtain ⟨u, hu⟩ := h hc cv hs
  by_cases hut : u = t
  · subst hut; exact ⟨u, by rw [move_phase_self]; exact ho cv hu⟩
  · exact ⟨u, by rw [move_phase_ne _ _ hut]; exact hu⟩

/-- The same for a thread that owed nothing. -/
theorem State.CloseOwes.move_free {s : State T α} (h : s.CloseOwes) {t : T} {p₀ p : Phase α}
    (ht : s.phase t = p₀) (hno : ∀ cv, ¬ p₀.OwesAll cv) (hw : ∀ cv c, p ≠ .waiting cv c) :
    (s.move t p).CloseOwes := by
  refine h.move hw fun cv ho => ?_
  rw [ht] at ho
  exact absurd ho (hno cv)

theorem not_owesAll_of_resume {p : Phase α} {c : Call α} {b : Bool} (h : p.resume = some (c, b))
    (cv : Cv) : ¬ p.OwesAll cv := by
  cases p with
  | unlocked _ _ _ => cases h
  | _ => exact id

omit [DecidableEq T] in
/-- `notify_all` on `cv` empties its wait set and no other. -/
theorem State.Sleeps.of_wakeAll {s : State T α} {cv cv' : Cv} (h : (s.wakeAll cv).Sleeps cv') :
    cv' ≠ cv ∧ s.Sleeps cv' := by
  obtain ⟨u, c, hu⟩ := h
  change (s.phase u).wake cv = _ at hu
  rcases wake_cases cv (s.phase u) with ⟨h, hne⟩ | ⟨c₁, -, h⟩
  · rw [h] at hu
    exact ⟨fun e => hne c (e ▸ hu), u, c, hu⟩
  · rw [h] at hu; cases hu

theorem owesAll_wake {p : Phase α} {cv cv' : Cv} : (p.wake cv).OwesAll cv' ↔ p.OwesAll cv' := by
  rcases wake_cases cv p with ⟨h, -⟩ | ⟨c, rfl, h⟩
  · rw [h]
  · rw [h]; exact Iff.rfl

theorem State.CloseOwes.step {s s' : State T α} {l : Label T α} (h : s.CloseOwes)
    (hst : Step capacity s l s') : s'.CloseOwes := by
  cases hst with
  | call ht => exact h.move_free ht (fun _ => id) nofun
  | @crit t c c' timedOut d e hr hs =>
    have hno := not_owesAll_of_resume hr
    cases section_sect hs with
    | @wait _ cv _ hcl _ => intro hc; exact absurd (hcl.symm.trans hc) (by decide)
    | accept _ hcl _ => intro hc; exact absurd (hcl.symm.trans hc) (by decide)
    | close =>
      -- the thread itself owes both notifications
      refine fun _ cv _ => ⟨t, ?_⟩
      rw [move_phase_self]
      exact ⟨rfl, by cases cv <;> simp⟩
    | deliver _ _ =>
      have h' : (s.put _).CloseOwes := h
      exact h'.move_free rfl hno nofun
    | _ => exact State.CloseOwes.move_free h rfl hno nofun
  | @notifyOne t u cv owed c c' r ht hu =>
    have hne : t ≠ u := fun e => by subst e; rw [ht] at hu; cases hu
    have h' : (s.move u (.woken cv c' true)).CloseOwes := h.move_free hu (fun _ => id) nofun
    refine h'.move (fun _ _ e => by cases e) fun cv' ho => ?_
    rw [move_phase_ne _ _ hne, ht] at ho
    exact ⟨ho.1, by simpa using ho.2⟩
  | @notifyNone t cv owed c r ht _ =>
    refine h.move (fun _ _ e => by cases e) fun cv' ho => ?_
    rw [ht] at ho
    exact ⟨ho.1, by simpa using ho.2⟩
  | @notifyAll t cv owed c r ht =>
    intro hc cv' hs
    rcases hs.of_move with ⟨c₁, hp⟩ | hs
    · cases hp
    obtain ⟨hne, hs⟩ := hs.of_wakeAll
    obtain ⟨u, hu⟩ := h hc cv' hs
    by_cases hut : u = t
    · subst hut
      rw [ht] at hu
      refine ⟨u, ?_⟩
      rw [move_phase_self]
      exact ⟨hu.1, by simpa [hne] using hu.2⟩
    · exact ⟨u, by rw [move_phase_ne _ _ hut]; exact owesAll_wake.mpr hu⟩
  | spurious ht => exact h.move_free ht (fun _ => id) nofun
  | timeout ht _ => exact h.move_free ht (fun _ => id) nofun
  | overtake ht _ => exact h.move_free ht (fun _ => id) nofun
  | ret ht => exact h.move_free ht (fun _ ho => List.not_mem_nil ho.2) nofun

theorem closeOwes_inductive : (queue α T capacity).Inductive State.CloseOwes where
  init s hi := fun hc => absurd (hi.2.1.symm.trans hc) (by decide)
  step _ _ _ h hst := h.step hst

/-! ## Steps of a closed queue -/

theorem closed_of_step {s s' : State T α} {l : Label T α} (hst : Step capacity s l s')
    (hc : s.closed = true) : s'.closed = true := by
  cases hst with
  | crit _ hs => exact (section_sect hs).closed_mono hc
  | _ => exact hc

/-- A closed queue accepts nothing, and no section waits. -/
theorem event_of_closed {s s' : State T α} {t : T} {e : Event α} (hst : Step capacity s (t, e) s')
    (hc : s.closed = true) : e.accepted = none ∧ ∀ c cv, e ≠ .crit c (.wait cv) := by
  cases hst with
  | crit _ hs =>
    cases section_sect hs with
    | wait _ hcl _ => exact absurd (hcl.symm.trans hc) (by decide)
    | accept _ hcl _ => exact absurd (hcl.symm.trans hc) (by decide)
    | @deliver _ o x rest ho _ =>
      exact ⟨(item_setOut ho x).1, fun _ _ e => by cases e⟩
    | closed => refine ⟨by cases s.closed <;> rfl, fun _ _ e => by cases e⟩
    | _ => exact ⟨rfl, fun _ _ e => by cases e⟩
  | _ => exact ⟨rfl, fun _ _ e => by cases e⟩

/-- A closed and empty queue delivers nothing and stays empty. -/
theorem event_of_drained {s s' : State T α} {t : T} {e : Event α}
    (hst : Step capacity s (t, e) s') (hc : s.closed = true) (hq : s.q = []) :
    e.delivered = none ∧ s'.q = [] := by
  cases hst with
  | crit _ hs =>
    have hsect := section_sect hs
    refine ⟨?_, hsect.empty_mono hc hq⟩
    cases hsect with
    | accept _ hcl _ => exact absurd (hcl.symm.trans hc) (by decide)
    | deliver _ hq' => rw [hq] at hq'; cases hq'
    | closed => cases s.closed <;> rfl
    | _ => rfl
  | _ => exact ⟨rfl, hq⟩

/-- A thread past its section was past it before the step, or the step is that section. -/
theorem unlocked_of_step {s s' : State T α} {t t' : T} {e : Event α} {owed : List Notify}
    {c : Call α} {r : Ret} (hst : Step capacity s (t', e) s')
    (hp : s'.phase t = .unlocked owed c r) :
    (∃ owed', s.phase t = .unlocked owed' c r) ∨ (t' = t ∧ e = .crit c (.leave owed r)) := by
  by_cases ht : t = t'
  · subst ht
    cases hst with
    | @crit _ c₁ c' _ d e _ _ =>
      rw [move_phase_self] at hp
      cases e with
      | wait cv => cases hp
      | leave owed' r' => cases hp; exact .inr ⟨rfl, rfl⟩
    | notifyOne h _ => rw [move_phase_self] at hp; cases hp; exact .inl ⟨_, h⟩
    | notifyNone h _ => rw [move_phase_self] at hp; cases hp; exact .inl ⟨_, h⟩
    | notifyAll h => rw [move_phase_self] at hp; cases hp; exact .inl ⟨_, h⟩
    | _ => rw [move_phase_self] at hp; cases hp
  · rcases phase_of_step_ne hst ht with h | ⟨cv, c₁, -, h⟩
    · exact .inl ⟨owed, h.symm.trans hp⟩
    · rw [h] at hp
      cases hp

/-! ## Runs of a closed queue -/

theorem closed_of_steps {s s' : State T α} {tr : List (Label T α)}
    (hs : (queue α T capacity).Steps s tr s') (hc : s.closed = true) : s'.closed = true :=
  Sys.Steps.keep (I := fun s => s.closed = true) (fun _ _ _ h hst => closed_of_step hst h) hs hc

theorem accepted_of_closed {s s' : State T α} {tr : List (Label T α)}
    (hs : (queue α T capacity).Steps s tr s') (hc : s.closed = true) : accepted tr = [] := by
  induction hs with
  | nil => rfl
  | @snoc tr l u v htr hst ih =>
    have h := (event_of_closed hst (closed_of_steps htr hc)).1
    unfold accepted at ih ⊢
    simp [List.filterMap_append, ih, h]

theorem no_wait_of_closed {s s' : State T α} {tr : List (Label T α)}
    (hs : (queue α T capacity).Steps s tr s') (hc : s.closed = true) (t : T) (c : Call α)
    (cv : Cv) : (t, Event.crit c (.wait cv)) ∉ tr := by
  intro hm
  obtain ⟨a, b, rfl⟩ := List.append_of_mem hm
  obtain ⟨u, u', ha, hst, -⟩ := hs.middle
  exact (event_of_closed hst (closed_of_steps ha hc)).2 c cv rfl

theorem delivered_of_drained {s s' : State T α} {tr : List (Label T α)}
    (hs : (queue α T capacity).Steps s tr s') (hc : s.closed = true) (hq : s.q = []) :
    delivered tr = [] ∧ s'.q = [] := by
  induction hs with
  | nil => exact ⟨rfl, hq⟩
  | @snoc tr l u v htr hst ih =>
    obtain ⟨h1, h2⟩ := event_of_drained hst (closed_of_steps htr hc) ih.2
    refine ⟨?_, h2⟩
    have ih := ih.1
    unfold delivered at ih ⊢
    simp [List.filterMap_append, ih, h1]

/-- A call that returns `r` without a section that gave `r` since `s` was past its section in
`s`. -/
theorem unlocked_of_ret {s s' : State T α} {tr : List (Label T α)} {t : T} {c : Call α} {r : Ret}
    (hs : (queue α T capacity).Steps s tr s') (hm : (t, Event.ret c r) ∈ tr)
    (hno : ∀ owed, (t, Event.crit c (.leave owed r)) ∉ tr) :
    ∃ owed, s.phase t = .unlocked owed c r := by
  obtain ⟨a, b, rfl⟩ := List.append_of_mem hm
  obtain ⟨u, u', ha, hst, -⟩ := hs.middle
  have hu : u.phase t = .unlocked [] c r := by cases hst; assumption
  have hback : ∀ tr v, (queue α T capacity).Steps s tr v →
      (∀ owed, (t, Event.crit c (.leave owed r)) ∉ tr) →
      (∃ owed, v.phase t = .unlocked owed c r) → ∃ owed, s.phase t = .unlocked owed c r := by
    intro tr v hv
    induction hv with
    | nil => exact fun _ h => h
    | @snoc tr l v w _ hst ih =>
      intro hno ⟨owed, hw⟩
      obtain ⟨t', e⟩ := l
      rcases unlocked_of_step hst hw with h | ⟨rfl, rfl⟩
      · exact ih (fun owed hm => hno owed (List.mem_append_left _ hm)) h
      · exact absurd (List.mem_append_right _ (List.mem_singleton_self _)) (hno owed)
  exact hback a u ha (fun owed hm => hno owed (List.mem_append_left _ hm)) ⟨[], hu⟩

omit [DecidableEq T] in
theorem accepted_mem {tr : List (Label T α)} {t : T} {c : Call α} {x : α} {owed : List Notify}
    (hx : c.item = some x) (hm : (t, Event.crit c (.leave owed (.bool true))) ∈ tr) :
    x ∈ accepted tr :=
  List.mem_filterMap.mpr ⟨_, hm, hx⟩

omit [DecidableEq T] in
theorem delivered_mem {tr : List (Label T α)} {t : T} {c : Call α} {x : α} {owed : List Notify}
    (hx : c.out = some x) (hm : (t, Event.crit c (.leave owed (.bool true))) ∈ tr) :
    x ∈ delivered tr :=
  List.mem_filterMap.mpr ⟨_, hm, hx⟩

/-- A `push` or `push_for` that returns `true` where nothing was accepted was past its section. -/
theorem unlocked_of_accepted {s s' : State T α} {tr : List (Label T α)} {t : T} {c : Call α}
    (hs : (queue α T capacity).Steps s tr s') (hacc : accepted tr = []) (hi : c.item ≠ none)
    (hm : (t, .ret c (.bool true)) ∈ tr) : ∃ owed, s.phase t = .unlocked owed c (.bool true) := by
  obtain ⟨x, hx⟩ := Option.ne_none_iff_exists'.mp hi
  refine unlocked_of_ret hs hm fun owed hm' => ?_
  have hmem := accepted_mem hx hm'
  rw [hacc] at hmem
  cases hmem

/-- A `pop` or `pop_for` that returns `true` where nothing was delivered was past its section. -/
theorem unlocked_of_delivered {s s' : State T α} {tr : List (Label T α)} {t : T} {c : Call α}
    (hs : (queue α T capacity).Steps s tr s') (hdel : delivered tr = []) (ho : c.out ≠ none)
    (hm : (t, .ret c (.bool true)) ∈ tr) : ∃ owed, s.phase t = .unlocked owed c (.bool true) := by
  obtain ⟨x, hx⟩ := Option.ne_none_iff_exists'.mp ho
  refine unlocked_of_ret hs hm fun owed hm' => ?_
  have hmem := delivered_mem hx hm'
  rw [hdel] at hmem
  cases hmem

/-- When a `pop` is to return `false`, the queue is closed and empty, and everything ever
accepted has been delivered. -/
theorem drained_of_pop_false {s : State T α} {tr : List (Label T α)} {t : T} {o : α}
    {owed : List Notify} (hr : (queue α T capacity).Run tr s)
    (hp : s.phase t = .unlocked owed (.pop o) (.bool false)) :
    s.closed = true ∧ s.q = [] ∧ accepted tr = delivered tr := by
  obtain ⟨hc, hq⟩ := ((ok_inductive.reach hr.reach).at hp).2 o rfl rfl
  have h := (accepted_eq_delivered_append hr).1
  rw [hq, List.append_nil] at h
  exact ⟨hc, hq, h⟩

/-- What holds from the moment `closed_` is set: `tr₁` leads to `s`, with `closed_` set, and `tr₂`
from there to `s'`.

* `adds`, `push_true`: no item is added, and a `push` or `push_for` that returns `true` was past
  its section, with its item in, when `closed_` was set;
* `wait`, `owes`, `asleep`: no section waits; while a wait set has a thread some `close` owes its
  `notify_all` on it; and once no `close` is past its section nobody sleeps;
* `pop_false`: when a `pop` returns `false` (in the state `u`), the queue is empty, and every item
  that is accepted in the whole run has been delivered by then, in order; no later section
  delivers an item, and a `pop` or `pop_for` that returns `true` later was past its section. -/
structure CloseProtocol (capacity : Nat) (tr₁ : List (Label T α)) (s : State T α)
    (tr₂ : List (Label T α)) (s' : State T α) : Prop where
  adds : accepted tr₂ = []
  push_true : ∀ t c, c.item ≠ none → (t, .ret c (.bool true)) ∈ tr₂ →
    ∃ owed, s.phase t = .unlocked owed c (.bool true)
  wait : ∀ t c cv, (t, Event.crit c (.wait cv)) ∉ tr₂
  owes : ∀ cv, s'.Sleeps cv → ∃ t, (s'.phase t).OwesAll cv
  asleep : (∀ t owed r, s'.phase t ≠ .unlocked owed .close r) → ∀ cv, ¬ s'.Sleeps cv
  pop_false : ∀ a t o b u, tr₂ = a ++ (t, .ret (.pop o) (.bool false)) :: b →
    (queue α T capacity).Steps s a u →
    (queue α T capacity).Steps u ((t, .ret (.pop o) (.bool false)) :: b) s' →
    u.q = [] ∧ accepted (tr₁ ++ tr₂) = delivered (tr₁ ++ a) ∧ delivered b = [] ∧
    ∀ t' c, c.out ≠ none → (t', .ret c (.bool true)) ∈ b →
      ∃ owed, u.phase t' = .unlocked owed c (.bool true)

/-- **The close protocol**, in every run and from every state with `closed_` set. -/
theorem close_protocol {tr₁ tr₂ : List (Label T α)} {s s' : State T α}
    (h₁ : (queue α T capacity).Run tr₁ s) (hc : s.closed = true)
    (h₂ : (queue α T capacity).Steps s tr₂ s') : CloseProtocol capacity tr₁ s tr₂ s' where
  adds := accepted_of_closed h₂ hc
  push_true _ _ hi hm := unlocked_of_accepted h₂ (accepted_of_closed h₂ hc) hi hm
  wait := no_wait_of_closed h₂ hc
  owes cv hs := closeOwes_inductive.reach (h₁.reach.steps h₂) (closed_of_steps h₂ hc) cv hs
  asleep hret cv hs := by
    obtain ⟨t, ht⟩ :=
      closeOwes_inductive.reach (h₁.reach.steps h₂) (closed_of_steps h₂ hc) cv hs
    cases hp : s'.phase t with
    | unlocked owed c r =>
      rw [hp] at ht
      obtain ⟨rfl, -⟩ := ht
      exact hret t owed r hp
    | _ => rw [hp] at ht; exact ht
  pop_false a t o b u htr ha hb := by
    subst htr
    have hu : u.phase t = .unlocked [] (.pop o) (.bool false) := by
      obtain ⟨v, hst, -⟩ := Sys.Steps.split (a := [(t, Event.ret (.pop o) (.bool false))]) hb
      cases hst.single
      assumption
    obtain ⟨hcl, hq, heq⟩ := drained_of_pop_false (h₁.append ha) hu
    have hdr := (delivered_of_drained hb hcl hq).1
    have hdb : delivered b = [] := hdr
    refine ⟨hq, ?_, hdb, fun _ _ ho hm =>
      unlocked_of_delivered hb hdr ho (List.mem_cons_of_mem _ hm)⟩
    have hacc := accepted_of_closed hb hcl
    unfold accepted at hacc heq ⊢
    rw [← List.append_assoc, List.filterMap_append, hacc, List.append_nil, heq]

/-- Thread 0 puts an item in, thread 1 closes the queue; then a `pop` takes the item and the next
one returns `false`. -/
theorem close_protocol_run : ∃ tr₁ s tr₂ s', delivered tr₂ = [7] ∧
    (queue Nat (Fin 2) 1).Run tr₁ s ∧ CloseProtocol 1 tr₁ s tr₂ s' := by
  have h₁ : (queue Nat (Fin 2) 1).Run [] _ := .start (init_idle 1)
  have h₁ := h₁.snoc (.call (t := 0) (c := .push 7) rfl)
  have h₁ := h₁.snoc
    (.runs (t := 0) (.push 7) ⟨[7], false⟩ (.leave [.one .notEmpty] (.bool true)) rfl rfl)
  have h₁ := h₁.snoc (.call (t := 1) (c := .close) rfl)
  have h₁ := h₁.snoc
    (.runs (t := 1) .close ⟨[7], true⟩ (.leave [.all .notEmpty, .all .notFull] .unit) rfl rfl)
  have h₂ := h₁.stay.snoc (.notifyAll (t := 1) rfl)
  have h₂ := h₂.snoc (.notifyAll (t := 1) rfl)
  have h₂ := h₂.snoc (.ret (t := 1) rfl)
  have h₂ := h₂.snoc (.call (t := 1) (c := .pop 0) rfl)
  have h₂ := h₂.snoc
    (.runs (t := 1) (.pop 7) ⟨[], true⟩ (.leave [.one .notFull] (.bool true)) rfl rfl)
  have h₂ := h₂.snoc (.notifyNone (t := 1) rfl (fun | 0 => nofun | 1 => nofun))
  have h₂ := h₂.snoc (.ret (t := 1) rfl)
  have h₂ := h₂.snoc (.call (t := 1) (c := .pop 0) rfl)
  have h₂ := h₂.snoc (.runs (t := 1) (.pop 0) ⟨[], true⟩ (.leave [] (.bool false)) rfl rfl)
  have h₂ := h₂.snoc (.ret (t := 1) rfl)
  exact ⟨_, _, _, _, rfl, h₁, close_protocol h₁ rfl h₂⟩

/-- A `push` may return `true` after `closed_` was set, since `close` may run between its `unlock`
and its return; and, for the same reason, a `pop` after another one has returned `false`. -/
theorem returns_true_after_close :
    (∃ tr₁ s tr₂ s', (queue Nat (Fin 2) 1).Run tr₁ s ∧ s.closed = true ∧
      (queue Nat (Fin 2) 1).Steps s tr₂ s' ∧ (0, .ret (.push 7) (.bool true)) ∈ tr₂) ∧
    ∃ tr₁ s a b s', (queue Nat (Fin 2) 1).Run tr₁ s ∧ s.closed = true ∧
      (queue Nat (Fin 2) 1).Steps s (a ++ (1, .ret (.pop 0) (.bool false)) :: b) s' ∧
      (0, .ret (.pop 7) (.bool true)) ∈ b := by
  have h₁ : (queue Nat (Fin 2) 1).Run [] _ := .start (init_idle 1)
  have h₁ := h₁.snoc (.call (t := 0) (c := .push 7) rfl)
  have h₁ := h₁.snoc
    (.runs (t := 0) (.push 7) ⟨[7], false⟩ (.leave [.one .notEmpty] (.bool true)) rfl rfl)
  have h₁ := h₁.snoc (.call (t := 1) (c := .close) rfl)
  have h₁ := h₁.snoc
    (.runs (t := 1) .close ⟨[7], true⟩ (.leave [.all .notEmpty, .all .notFull] .unit) rfl rfl)
  have h₂ := h₁.stay.snoc (.notifyNone (t := 0) rfl (fun | 0 => nofun | 1 => nofun))
  have h₂ := h₂.snoc (.ret (t := 0) rfl)
  refine ⟨⟨_, _, _, _, h₁, rfl, h₂, by simp⟩, ?_⟩
  -- the closers return; then a `pop` takes the item, and another one finds the queue empty
  have h₃ := h₂.snoc (.notifyAll (t := 1) rfl)
  have h₃ := h₃.snoc (.notifyAll (t := 1) rfl)
  have h₃ := h₃.snoc (.ret (t := 1) rfl)
  have h₃ := h₃.snoc (.call (t := 0) (c := .pop 0) rfl)
  have h₃ := h₃.snoc
    (.runs (t := 0) (.pop 7) ⟨[], true⟩ (.leave [.one .notFull] (.bool true)) rfl rfl)
  have h₃ := h₃.snoc (.call (t := 1) (c := .pop 0) rfl)
  have h₃ := h₃.snoc (.runs (t := 1) (.pop 0) ⟨[], true⟩ (.leave [] (.bool false)) rfl rfl)
  have h₃ := h₃.snoc (.ret (t := 1) rfl)
  have h₃ := h₃.snoc (.notifyNone (t := 0) rfl (fun | 0 => nofun | 1 => nofun))
  have h₃ := h₃.snoc (.ret (t := 0) rfl)
  rw [List.append_assoc, List.append_assoc] at h₃
  exact ⟨_, _, _, _, _, h₁, rfl, h₃, by simp⟩

end BoundedBlockingQueue

end CommCore
