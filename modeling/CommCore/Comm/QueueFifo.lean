import CommCore.Comm.QueueLemmas

/-!
# `bounded_blocking_queue` refines an atomic bounded FIFO

What the queue is for, as a sequential object (`fifo`): a list of items with a capacity and a
closed flag, on which each call takes effect at once. `queue_simulates`: every step of the queue
is a step of the atomic object (`Lib.Object.atomic`) or changes nothing there. The section that
does not wait is the effect of its call; waiting, notifications and wake-ups are not visible.

Two facts of the sequential object are carried over to every run of the queue
(`queue_refines_fifo`): the accepted items are the delivered ones followed by the content, and the
content is never larger than the capacity. A call that returns `false` has one effect only, which
leaves the content and its `out` as they are.
-/

namespace CommCore

namespace BoundedBlockingQueue

open Lib

variable {α : Type}

/-! ## The sequential object -/

/-- A FIFO with a closed flag. -/
structure Fifo (α : Type) where
  items : List α
  closed : Bool

/-- The effect of a call. A timed call may fail in any state (its time is up). -/
inductive Fifo.Eff (capacity : Nat) (f : Fifo α) : Call α → Fifo α → Call α → Ret → Prop
  | put {c : Call α} {x : α} : c.item = some x → f.closed = false → f.items.length < capacity →
      Eff capacity f c { f with items := f.items ++ [x] } c (.bool true)
  | take {c : Call α} {o x : α} {rest : List α} : c.out = some o → f.items = x :: rest →
      Eff capacity f c { f with items := rest } (c.setOut x) (.bool true)
  | fail {c : Call α} : c.Refused true ⟨f.items, f.closed⟩ → Eff capacity f c f c (.bool false)
  | close : Eff capacity f .close { f with closed := true } .close .unit
  | closed : Eff capacity f .closed f .closed (.bool f.closed)
  | size : Eff capacity f .size f .size (.size f.items.length)

/-- The atomic bounded FIFO. -/
def fifo (capacity : Nat) : Object (Fifo α) (Call α) Ret where
  init f := f.items = [] ∧ f.closed = false
  eff := Fifo.Eff capacity

/-- The item that an effect put in. -/
def put? : Call α × Ret → Option α
  | (c, .bool true) => c.item
  | _ => none

/-- The item that an effect took out. -/
def take? : Call α × Ret → Option α
  | (c, .bool true) => c.out
  | _ => none

theorem out_of_item {c : Call α} {x : α} (h : c.item = some x) : c.out = none := by
  cases c <;> first | rfl | cases h

theorem item_setOut {c : Call α} {o : α} (h : c.out = some o) (x : α) :
    (c.setOut x).item = none ∧ (c.setOut x).out = some x := by
  cases c <;> first | exact ⟨rfl, rfl⟩ | cases h

/-- The effects with the result `false` change neither the content nor the call. -/
theorem Fifo.Eff.frame {capacity : Nat} {f f' : Fifo α} {c c' : Call α}
    (h : Fifo.Eff capacity f c f' c' (.bool false)) : f' = f ∧ c' = c := by
  generalize hr : Ret.bool false = r at h
  cases h with
  | put _ _ _ => cases hr
  | take _ _ => cases hr
  | close => cases hr
  | _ => exact ⟨rfl, rfl⟩

/-- One effect: its item goes to the end, or comes from the front. -/
theorem Fifo.Eff.order {capacity : Nat} {f f' : Fifo α} {c c' : Call α} {r : Ret}
    (h : Fifo.Eff capacity f c f' c' r) :
    f.items ++ (put? (c', r)).toList = (take? (c', r)).toList ++ f'.items := by
  cases h with
  | put hx _ _ => simp [put?, take?, hx, out_of_item hx]
  | @take _ o x rest ho hq =>
    obtain ⟨h1, h2⟩ := item_setOut ho x
    simp [put?, take?, h1, h2, hq]
  | closed => cases f.closed <;> simp [put?, take?, Call.item, Call.out]
  | _ => simp [put?, take?]

theorem Fifo.Eff.le_capacity {capacity : Nat} {f f' : Fifo α} {c c' : Call α} {r : Ret}
    (h : Fifo.Eff capacity f c f' c' r) (hf : f.items.length ≤ capacity) :
    f'.items.length ≤ capacity := by
  cases h with
  | put _ _ hlt => simp only [List.length_append, List.length_singleton]; omega
  | take _ hq => rw [hq, List.length_cons] at hf; exact Nat.le_of_succ_le hf
  | _ => exact hf

/-- **The sequential FIFO**: what was put in is what was taken out, followed by the content,
which fits the capacity. -/
theorem fifo_legal {capacity : Nat} {h : List (Call α × Ret)} {f : Fifo α}
    (hl : (fifo capacity).Legal h f) :
    h.filterMap put? = h.filterMap take? ++ f.items ∧ f.items.length ≤ capacity := by
  induction hl with
  | init hi => simp [hi.1]
  | @snoc h f f' c c' r _ he ih =>
    obtain ⟨ih, hcap⟩ := ih
    refine ⟨?_, Fifo.Eff.le_capacity he hcap⟩
    have hp : [(c', r)].filterMap put? = (put? (c', r)).toList := by
      cases e : put? (c', r) <;> simp [e]
    have ht : [(c', r)].filterMap take? = (take? (c', r)).toList := by
      cases e : take? (c', r) <;> simp [e]
    calc (h ++ [(c', r)]).filterMap put?
        = h.filterMap take? ++ (f.items ++ (put? (c', r)).toList) := by
          rw [List.filterMap_append, ih, hp, List.append_assoc]
      _ = h.filterMap take? ++ ((take? (c', r)).toList ++ f'.items) := by
          rw [Fifo.Eff.order he]
      _ = (h ++ [(c', r)]).filterMap take? ++ f'.items := by
          rw [List.filterMap_append, ht, List.append_assoc]

/-! ## The simulation -/

/-- Where a thread is, for the atomic object: a call has not taken effect until the section
that unlocks. -/
def Phase.slot : Phase α → Slot (Call α) Ret
  | .idle => .idle
  | .entering c | .waiting _ c | .woken _ c _ | .expired _ c _ => .pending c
  | .unlocked _ c r => .done c r

/-- The state of the atomic object. -/
def State.abs {T : Type} (s : State T α) : Fifo α × (T → Slot (Call α) Ret) :=
  (⟨s.q, s.closed⟩, fun t => (s.phase t).slot)

/-- The step of the atomic object: a call, its effect, its return; all else is invisible. -/
def act {T : Type} : Label T α → Option (T × Act (Call α) Ret)
  | (t, .call c) => some (t, .call c)
  | (t, .crit c (.leave _ r)) => some (t, .eff c r)
  | (t, .ret c r) => some (t, .ret c r)
  | _ => none

theorem slot_wake (cv : Cv) (p : Phase α) : (p.wake cv).slot = p.slot := by
  rcases wake_cases cv p with ⟨h, -⟩ | ⟨c, rfl, h⟩
  · rw [h]
  · rw [h]; rfl

theorem slot_resume {p : Phase α} {c : Call α} {timedOut : Bool}
    (h : p.resume = some (c, timedOut)) : p.slot = .pending c := by
  cases p <;> cases h <;> rfl

/-- A section that unlocks is the effect of its call. -/
theorem Sect.eff {capacity : Nat} {timedOut : Bool} {d d' : Data α} {c c' : Call α}
    {owed : List Notify} {r : Ret} (h : Sect capacity timedOut d c d' c' (.leave owed r)) :
    Fifo.Eff capacity ⟨d.q, d.closed⟩ c ⟨d'.q, d'.closed⟩ c' r := by
  cases h with
  | accept hx hcl hlt => exact .put hx hcl hlt
  | deliver ho hq => exact .take ho hq
  | refuse hr =>
    refine .fail ?_
    rcases hr with ⟨-, hr⟩ | hr | hr
    · exact .inl ⟨rfl, hr⟩
    · exact .inr (.inl hr)
    · exact .inr (.inr hr)
  | close => exact .close
  | closed => exact .closed
  | size => exact .size

section Threads

variable {T : Type} [DecidableEq T] {capacity : Nat}

omit [DecidableEq T] in
theorem abs_slot {s : State T α} {t : T} {p : Phase α} (hp : s.phase t = p) :
    s.abs.2 t = p.slot := congrArg Phase.slot hp

theorem abs_move (s : State T α) (t : T) (p : Phase α) :
    (s.move t p).abs = (s.abs.1, Function.update s.abs.2 t p.slot) := by
  refine Prod.ext rfl (funext fun u => ?_)
  show ((s.move t p).phase u).slot = Function.update s.abs.2 t p.slot u
  by_cases hu : u = t
  · subst hu; rw [move_phase_self, Function.update_self]
  · rw [move_phase_ne _ _ hu, Function.update_of_ne hu]; rfl

/-- A move to a place with the same slot is invisible. -/
theorem abs_move_same {s : State T α} {t : T} {p p' : Phase α} (hp : s.phase t = p)
    (hs : p'.slot = p.slot) : (s.move t p').abs = s.abs := by
  rw [abs_move, hs, ← hp]
  exact Prod.ext rfl (Function.update_eq_self t s.abs.2)

omit [DecidableEq T] in
theorem abs_wakeAll (s : State T α) (cv : Cv) : (s.wakeAll cv).abs = s.abs :=
  Prod.ext rfl (funext fun t => slot_wake cv (s.phase t))

/-- **Every step of the queue is a step of the atomic FIFO, or invisible.** -/
theorem queue_simulates (capacity : Nat) :
    Simulation (queue α T capacity) ((fifo capacity).atomic T) (fun _ => True) State.abs act where
  init s h := ⟨⟨h.1, h.2.1⟩, fun t => abs_slot (h.2.2 t)⟩
  step s l s' _ hst := by
    cases hst with
    | @call t c ht =>
      show Object.AtomicStep _ _ _ _
      rw [abs_move]
      exact .call (abs_slot ht)
    | @crit t c c' timedOut d e hr hs =>
      have hsect := section_sect hs
      have hslot : s.abs.2 t = .pending c := slot_resume hr
      cases e with
      | wait cv =>
        cases hsect
        show ((s.put s.toData).move t (.waiting cv c)).abs = s.abs
        rw [abs_move]
        refine Prod.ext rfl (Function.update_eq_iff.mpr ⟨hslot.symm, fun _ _ => rfl⟩)
      | leave owed r =>
        show Object.AtomicStep _ _ _ _
        rw [abs_move]
        exact .eff hslot hsect.eff
    | @notifyOne t u cv owed c c' r ht hu =>
      have hne : t ≠ u := fun e => by subst e; rw [ht] at hu; cases hu
      have ht' : (s.move u (.woken cv c' true)).phase t = .unlocked (.one cv :: owed) c r := by
        rw [move_phase_ne _ _ hne]; exact ht
      have h₁ : ((s.move u (.woken cv c' true)).move t (.unlocked owed c r)).abs =
          (s.move u (.woken cv c' true)).abs := abs_move_same ht' rfl
      exact h₁.trans (abs_move_same hu rfl)
    | notifyNone ht _ => exact abs_move_same ht rfl
    | @notifyAll t cv owed c r ht =>
      have ht' : (s.wakeAll cv).phase t = .unlocked (.all cv :: owed) c r := by
        show (s.phase t).wake cv = _; rw [ht]; rfl
      have h₁ : ((s.wakeAll cv).move t (.unlocked owed c r)).abs = (s.wakeAll cv).abs :=
        abs_move_same ht' rfl
      exact h₁.trans (abs_wakeAll s cv)
    | spurious ht => exact abs_move_same ht rfl
    | timeout ht _ => exact abs_move_same ht rfl
    | overtake ht _ => exact abs_move_same ht rfl
    | @ret t c r ht =>
      show Object.AtomicStep _ _ _ _
      rw [abs_move]
      exact .ret (abs_slot ht)

/-! ## Runs -/

/-- The effect of a step of the queue: that of the section that unlocks. -/
def Event.effect : Event α → Option (Call α × Ret)
  | .crit c (.leave _ r) => some (c, r)
  | _ => none

omit [DecidableEq T] in
theorem effect_act (l : Label T α) : (act l).bind Object.effect = l.2.effect := by
  obtain ⟨t, e⟩ := l
  cases e with
  | crit c e => cases e <;> rfl
  | _ => rfl

omit [DecidableEq T] in
/-- What a step's effect shows of the queue, the atomic FIFO shows too. -/
theorem filterMap_effect {β : Type} (g : Call α × Ret → Option β) (tr : List (Label T α)) :
    ((tr.filterMap act).filterMap Object.effect).filterMap g =
      tr.filterMap fun l => l.2.effect.bind g := by
  rw [List.filterMap_filterMap, List.filterMap_filterMap]
  refine List.filterMap_congr fun l _ => ?_
  rw [← effect_act, Option.bind_assoc]

/-- The items of a step are those of its effect. -/
theorem items_eq_effect (e : Event α) :
    e.accepted = e.effect.bind put? ∧ e.delivered = e.effect.bind take? := by
  cases e with
  | crit c e => cases e with
    | wait cv => exact ⟨rfl, rfl⟩
    | leave owed r => cases r with
      | bool b => cases b <;> exact ⟨rfl, rfl⟩
      | _ => exact ⟨rfl, rfl⟩
  | _ => exact ⟨rfl, rfl⟩

omit [DecidableEq T] in
theorem accepted_eq (tr : List (Label T α)) :
    accepted tr = ((tr.filterMap act).filterMap Object.effect).filterMap put? := by
  rw [filterMap_effect]
  exact List.filterMap_congr fun l _ => (items_eq_effect l.2).1

omit [DecidableEq T] in
theorem delivered_eq (tr : List (Label T α)) :
    delivered tr = ((tr.filterMap act).filterMap Object.effect).filterMap take? := by
  rw [filterMap_effect]
  exact List.filterMap_congr fun l _ => (items_eq_effect l.2).2

theorem true_inductive : (queue α T capacity).Inductive fun _ => True where
  init _ _ := trivial
  step _ _ _ _ _ := trivial

/-- The run of the atomic FIFO behind a run of the queue. -/
theorem atomic_run {tr : List (Label T α)} {s : State T α} (hr : (queue α T capacity).Run tr s) :
    ((fifo capacity).atomic T).Run (tr.filterMap act) s.abs :=
  (queue_simulates capacity).run true_inductive hr

theorem accepted_eq_delivered_append {tr : List (Label T α)} {s : State T α}
    (hr : (queue α T capacity).Run tr s) :
    accepted tr = delivered tr ++ s.q ∧ s.q.length ≤ capacity := by
  rw [accepted_eq, delivered_eq]
  exact fifo_legal (Object.legal_of_run (atomic_run hr))

/-- The steps of the atomic FIFO behind the steps of the queue. -/
theorem atomic_steps {tr : List (Label T α)} {s s' : State T α}
    (hs : (queue α T capacity).Steps s tr s') :
    ((fifo capacity).atomic T).Steps s.abs (tr.filterMap act) s'.abs :=
  (queue_simulates capacity).steps (fun _ _ _ _ _ => trivial) hs trivial

/-- What a call that returns `r` did: its one effect is the one with the result `r`. -/
theorem effect_of_call {s s' : State T α} {t : T} {c c' : Call α} {r : Ret}
    {b : List (Label T α)}
    (hs : (queue α T capacity).Steps s ((t, .call c) :: (b ++ [(t, .ret c' r)])) s')
    (hno : ∀ c₁, (t, Event.call c₁) ∉ b) :
    (∃ f f', Fifo.Eff capacity f c f' c' r) ∧
      ∀ c₁ owed r₁, (t, Event.crit c₁ (.leave owed r₁)) ∈ b → c₁ = c' ∧ r₁ = r := by
  obtain ⟨u, hcall, hrest⟩ := Sys.Steps.split (a := [(t, Event.call c)]) hs
  have hu : u.abs.2 t = .pending c := by
    cases hcall.single
    exact abs_slot (move_phase_self s t _)
  have ha := atomic_steps (show (queue α T capacity).Steps u (b ++ [(t, .ret c' r)]) s' from hrest)
  rw [List.filterMap_append] at ha
  have hno' : ∀ c₁, (t, Act.call c₁) ∉ b.filterMap act := by
    intro c₁ hm
    obtain ⟨⟨t', e⟩, hl, hact⟩ := List.mem_filterMap.mp hm
    cases e with
    | call c₂ => cases hact; exact hno c₁ hl
    | crit c₂ e => cases e <;> cases hact
    | _ => cases hact
  obtain ⟨he, hone⟩ := Object.effect_of_ret ha hu hno'
  exact ⟨he, fun c₁ owed r₁ hm => hone c₁ r₁ (List.mem_filterMap.mpr ⟨_, hm, rfl⟩)⟩

/-- What holds of a run with the labels `tr` that ends in `s`:

* `atomic`: with the invisible steps left out, it is a run of the atomic FIFO, so each call takes
  effect at once between its call and its return and returns what that effect gave;
* `order`: the items that were accepted (put in by a section that returns or will return `true`),
  in the order of the sections, are those that were delivered, in the order of theirs, followed
  by `q_`;
* `bound`: `q_` fits the capacity;
* `frame`: a call that returns `false` returns with its argument as it was called, and no step of
  its thread between the call and the return changed `q_`. -/
structure RefinesFifo (capacity : Nat) (tr : List (Label T α)) (s : State T α) : Prop where
  atomic : ((fifo capacity).atomic T).Run (tr.filterMap act) s.abs
  order : accepted tr = delivered tr ++ s.q
  bound : s.q.length ≤ capacity
  frame : ∀ a b t c c', tr = a ++ (t, .call c) :: (b ++ [(t, .ret c' (.bool false))]) →
    (∀ c₁, (t, Event.call c₁) ∉ b) →
    c' = c ∧ ∀ b₁ e b₂ u v, b = b₁ ++ (t, e) :: b₂ →
      (queue α T capacity).Run (a ++ (t, .call c) :: b₁) u → Step capacity u (t, e) v → v.q = u.q

/-- **`bounded_blocking_queue` refines the atomic bounded FIFO**, in every run: of any threads,
with any capacity, calls, interleaving, wake-ups and timeouts. -/
theorem queue_refines_fifo {tr : List (Label T α)} {s : State T α}
    (hr : (queue α T capacity).Run tr s) : RefinesFifo capacity tr s := by
  obtain ⟨horder, hcap⟩ := accepted_eq_delivered_append hr
  refine ⟨atomic_run hr, horder, hcap, fun a b t c c' htr hno => ?_⟩
  subst htr
  obtain ⟨s₁, -, hs⟩ := hr.split
  obtain ⟨⟨f, f', he⟩, hone⟩ := effect_of_call hs hno
  refine ⟨he.frame.2, fun b₁ e b₂ u v hb _ hst => q_of_step hst fun c₁ owed hce => ?_⟩
  -- an effect with the result `true` in between would be the one that is returned
  subst hb hce
  obtain ⟨-, h⟩ := hone c₁ owed (.bool true) (List.mem_append_right _ List.mem_cons_self)
  cases h

end Threads

/-- A `pop_for` of thread 1 times out. Thread 0 pushes 7 and then waits for room with 8; a `pop` of
thread 1 takes 7, and 8 goes in. -/
theorem queue_refines_fifo_run : ∃ tr s, accepted tr = [7, 8] ∧ delivered tr = [7] ∧
    (queue Nat (Fin 2) 1).Run tr s ∧ RefinesFifo 1 tr s := by
  have h : (queue Nat (Fin 2) 1).Run [] _ := .start (init_idle 1)
  have h := h.snoc (.call (t := 1) (c := .popFor 0) rfl)
  have h := h.snoc (.runs (t := 1) (.popFor 0) ⟨[], false⟩ (.wait .notEmpty) rfl rfl)
  have h := h.snoc (.timeout (t := 1) rfl rfl)
  have h := h.snoc (.runs (t := 1) (.popFor 0) ⟨[], false⟩ (.leave [] (.bool false)) rfl rfl)
  have h := h.snoc (.ret (t := 1) rfl)
  have h := h.snoc (.call (t := 0) (c := .push 7) rfl)
  have h := h.snoc
    (.runs (t := 0) (.push 7) ⟨[7], false⟩ (.leave [.one .notEmpty] (.bool true)) rfl rfl)
  have h := h.snoc (.notifyNone (t := 0) rfl (fun | 0 => nofun | 1 => nofun))
  have h := h.snoc (.ret (t := 0) rfl)
  have h := h.snoc (.call (t := 0) (c := .push 8) rfl)
  have h := h.snoc (.runs (t := 0) (.push 8) ⟨[7], false⟩ (.wait .notFull) rfl rfl)
  have h := h.snoc (.call (t := 1) (c := .pop 0) rfl)
  have h := h.snoc
    (.runs (t := 1) (.pop 7) ⟨[], false⟩ (.leave [.one .notFull] (.bool true)) rfl rfl)
  have h := h.snoc (.notifyOne (t := 1) (u := 0) rfl rfl)
  have h := h.snoc
    (.runs (t := 0) (.push 8) ⟨[8], false⟩ (.leave [.one .notEmpty] (.bool true)) rfl rfl)
  exact ⟨_, _, rfl, rfl, h, queue_refines_fifo h⟩

end BoundedBlockingQueue

end CommCore
