import CommCore.Comm.QueueFifo
import CommCore.Comm.QueueStatements
import CommCore.Lib.Traces

/-!
# The histories of `bounded_blocking_queue`

What the threads see of the queue is its history: their calls and returns, in order. It is that of a
FIFO on which every call takes effect at one moment between its call and its return, and on which
`push_for` and `pop_for` give up only where `push` and `pop` would wait (`dueFifo`), although in the
code they give up later, when the queue may have room or items again. And the queue has no fewer
histories (`histories_iff`), nor has the code when it runs statement by statement
(`code_histories_iff`).

- **To the FIFO** (`hindsight`): a timed call that gives up has done so when it last went to wait.
  Only its return shows that it gave up, so the run of the FIFO is built from the end of that of the
  queue (`Lib.BackwardSim`).
- **From the FIFO** (`prompt_simulates`): each call takes its section when the FIFO does its effect,
  and a timed call that gives up goes to wait and times out at once.
-/

namespace CommCore

namespace BoundedBlockingQueue

open Lib

variable {α : Type}

/-! ## The FIFO -/

/-- The effect of a call. A timed call gives up only on an open queue without room, or items. -/
inductive Fifo.Due (capacity : Nat) (f : Fifo α) : Call α → Fifo α → Call α → Ret → Prop
  | put {c : Call α} {x : α} : c.item = some x → f.closed = false → f.items.length < capacity →
      Due capacity f c { f with items := f.items ++ [x] } c (.bool true)
  | take {c : Call α} {o x : α} {rest : List α} : c.out = some o → f.items = x :: rest →
      Due capacity f c { f with items := rest } (c.setOut x) (.bool true)
  | refuse {c : Call α} : c.Refused false ⟨f.items, f.closed⟩ → Due capacity f c f c (.bool false)
  | giveUp {c : Call α} {cv : Cv} : c.timed = true → c.cv = some cv → f.closed = false →
      Data.avail capacity ⟨f.items, f.closed⟩ cv = 0 → Due capacity f c f c (.bool false)
  | close : Due capacity f .close { f with closed := true } .close .unit
  | closed : Due capacity f .closed f .closed (.bool f.closed)
  | size : Due capacity f .size f .size (.size f.items.length)

/-- The atomic bounded FIFO whose timed calls give up only where the others wait. -/
def dueFifo (capacity : Nat) : Object (Fifo α) (Call α) Ret where
  init f := f.items = [] ∧ f.closed = false
  eff := Fifo.Due capacity

/-- A step of the queue as its threads see it. -/
def seen {T : Type} (l : Label T α) : Option (T × Act (Call α) Ret) := (act l).bind Object.seen

/-- A section without a timeout that unlocks is an effect. -/
theorem Sect.due {capacity : Nat} {d d' : Data α} {c c' : Call α} {owed : List Notify} {r : Ret}
    (h : Sect capacity false d c d' c' (.leave owed r)) :
    Fifo.Due capacity ⟨d.q, d.closed⟩ c ⟨d'.q, d'.closed⟩ c' r := by
  cases h with
  | accept hx hcl hlt => exact .put hx hcl hlt
  | deliver ho hq => exact .take ho hq
  | refuse hr => exact .refuse hr
  | close => exact .close
  | closed => exact .closed
  | size => exact .size

/-- An effect is a section, or that of a timed call that would wait. -/
theorem Fifo.Due.section {capacity : Nat} {f f' : Fifo α} {c c' : Call α} {r : Ret}
    (h : Fifo.Due capacity f c f' c' r) :
    (∃ owed, c.section capacity false ⟨f.items, f.closed⟩ =
        (⟨f'.items, f'.closed⟩, c', .leave owed r)) ∨
      c.timed = true ∧ f' = f ∧ c' = c ∧ r = .bool false ∧ ∃ cv,
        c.section capacity false ⟨f.items, f.closed⟩ = (⟨f.items, f.closed⟩, c, .wait cv) := by
  cases h with
  | @put _ x hx hcl hlt =>
    have hroom : ¬ capacity ≤ f.items.length := Nat.not_le.mpr hlt
    refine .inl ⟨[.one .notEmpty], ?_⟩
    cases c <;> cases hx <;> simp [Call.section, pushFor, push, hcl, hroom]
  | @take _ o x rest ho hq =>
    refine .inl ⟨[.one .notFull], ?_⟩
    cases c <;> cases ho <;> simp [Call.section, popFor, pop, hq, Call.setOut]
  | refuse hr =>
    refine .inl ⟨[], ?_⟩
    rcases hr with ⟨h, -⟩ | ⟨hcl, hcv⟩ | ⟨hcl, hq, hcv⟩
    · cases h
    · cases c <;> cases hcv <;> simp [Call.section, pushFor, push, show f.closed = true from hcl]
    · cases c <;> cases hcv <;> simp [Call.section, popFor, pop, show f.closed = true from hcl,
        show f.items = [] from hq]
  | @giveUp _ cv ht hcv hcl hav =>
    refine .inr ⟨ht, rfl, rfl, rfl, cv, ?_⟩
    cases c with
    | pushFor x =>
      cases hcv
      have hfull : capacity ≤ f.items.length := Nat.le_of_sub_eq_zero hav
      simp [Call.section, pushFor, push, hcl, hfull]
    | popFor o =>
      cases hcv
      have hq : f.items = [] := List.eq_nil_of_length_eq_zero hav
      simp [Call.section, popFor, pop, hcl, hq]
    | _ => cases ht
  | close => exact .inl ⟨_, rfl⟩
  | closed => exact .inl ⟨_, rfl⟩
  | size => exact .inl ⟨_, rfl⟩

/-! ## To the FIFO -/

/-- Where a thread is, for the FIFO: a timed call that waits, or is about to look again, may have
given up, and one that times out has. -/
def Phase.Hindsight : Phase α → Slot (Call α) Ret → Prop
  | .idle, x => x = .idle
  | .entering c, x => x = .pending c
  | .waiting _ c, x | .woken _ c _, x =>
    x = .pending c ∨ c.timed = true ∧ x = .done c (.bool false)
  | .expired _ c _, x => x = .done c (.bool false)
  | .unlocked _ c r, x => x = .done c r

/-- A state of the FIFO that the queue may be in. -/
structure State.Hindsight {T : Type} (s : State T α) (a : Fifo α × (T → Slot (Call α) Ret)) :
    Prop where
  data : a.1 = ⟨s.q, s.closed⟩
  slots : ∀ t, (s.phase t).Hindsight (a.2 t)

theorem hindsight_some (p : Phase α) : ∃ x, p.Hindsight x := by
  cases p with
  | waiting cv c => exact ⟨_, .inl rfl⟩
  | woken cv c n => exact ⟨_, .inl rfl⟩
  | _ => exact ⟨_, rfl⟩

section Threads

variable {T : Type} [DecidableEq T] {capacity : Nat}

/-- Before thread `t` moved, with the data as they were. -/
theorem State.Hindsight.before {s : State T α} {d : Data α} {t : T} {p : Phase α} {f : Fifo α}
    {g : T → Slot (Call α) Ret} (h : ((s.put d).move t p).Hindsight (f, g))
    {x : Slot (Call α) Ret} (hx : (s.phase t).Hindsight x) :
    s.Hindsight (⟨s.q, s.closed⟩, Function.update g t x) := by
  refine ⟨rfl, fun u => ?_⟩
  show (s.phase u).Hindsight (Function.update g t x u)
  by_cases hu : u = t
  · subst hu
    rw [Function.update_self]
    exact hx
  · rw [Function.update_of_ne hu]
    have hs := h.slots u
    rw [move_phase_ne _ _ hu] at hs
    exact hs

/-- Thread `t` moved, and whatever fits it there fitted it before. -/
theorem State.Hindsight.of_move {s : State T α} {t : T} {p : Phase α}
    {a : Fifo α × (T → Slot (Call α) Ret)} (h : (s.move t p).Hindsight a)
    (hp : ∀ x, p.Hindsight x → (s.phase t).Hindsight x) : s.Hindsight a := by
  refine ⟨h.data, fun u => ?_⟩
  have hs := h.slots u
  by_cases hu : u = t
  · subst hu
    rw [move_phase_self] at hs
    exact hp _ hs
  · rwa [move_phase_ne _ _ hu] at hs

omit [DecidableEq T] in
theorem State.Hindsight.of_wakeAll {s : State T α} {cv : Cv}
    {a : Fifo α × (T → Slot (Call α) Ret)} (h : (s.wakeAll cv).Hindsight a) : s.Hindsight a := by
  refine ⟨h.data, fun u => ?_⟩
  have hs : ((s.phase u).wake cv).Hindsight (a.2 u) := h.slots u
  rcases wake_cases cv (s.phase u) with ⟨he, -⟩ | ⟨c, hw, he⟩
  · rwa [he] at hs
  · rw [he] at hs
    rw [hw]
    exact hs

/-- The slot of the thread that has moved. -/
theorem State.Hindsight.self {s : State T α} {t : T} {p : Phase α}
    {a : Fifo α × (T → Slot (Call α) Ret)} (h : (s.move t p).Hindsight a) :
    p.Hindsight (a.2 t) := by
  have hs := h.slots t
  rwa [move_phase_self] at hs

theorem resume_false {p : Phase α} {c : Call α} (h : p.resume = some (c, false)) :
    p.Hindsight (.pending c) := by
  cases p with
  | entering c₁ => cases h; exact rfl
  | woken cv c₁ n => cases h; exact .inl rfl
  | _ => cases h

theorem resume_true {p : Phase α} {c : Call α} (h : p.resume = some (c, true)) :
    p.Hindsight (.done c (.bool false)) := by
  cases p with
  | expired cv c₁ n => cases h; exact rfl
  | _ => cases h

/-- A section, answered from its end. -/
theorem hindsight_crit {s : State T α} {t : T} {c c' : Call α} {timedOut : Bool} {d : Data α}
    {e : Exit} (hok : s.Ok) (hr : (s.phase t).resume = some (c, timedOut))
    (hs : c.section capacity timedOut s.toData = (d, c', e))
    {a' : Fifo α × (T → Slot (Call α) Ret)} (h : ((s.put d).move t (e.phase c')).Hindsight a') :
    ∃ a, s.Hindsight a ∧ ((dueFifo capacity).atomic T).Shows Object.seen a [] a' := by
  cases timedOut with
  | true =>
    -- it gave up when it went to wait
    rw [section_expired (resume_timed (hok t) hr rfl)] at hs
    cases hs
    refine ⟨a', State.Hindsight.of_move (s := s) h fun x hx => ?_, .nil⟩
    rw [show x = .done c (.bool false) from hx]
    exact resume_true hr
  | false =>
    obtain ⟨f, g⟩ := a'
    have hd : f = ⟨d.q, d.closed⟩ := h.data
    subst hd
    have hself : (e.phase c').Hindsight (g t) := h.self
    have hpend := h.before (resume_false hr)
    have hsect := section_sect hs
    cases e with
    | leave owed r => exact ⟨_, hpend, Object.eff_back hself hsect.due⟩
    | wait cv =>
      cases hsect with
      | wait hcv hcl hav =>
        rcases hself with hg | ⟨htm, hg⟩
        · -- it does not give up here
          refine ⟨_, hpend, ?_⟩
          rw [← hg, Function.update_eq_self]
          exact .nil
        · exact ⟨_, hpend, Object.eff_back hg (.giveUp htm hcv hcl hav)⟩

/-- **Every step of the queue is answered from its end.** -/
theorem hindsight (capacity : Nat) : BackwardSim (queue α T capacity) ((dueFifo capacity).atomic T)
    State.Hindsight seen Object.seen where
  total s _ := by
    choose g hg using fun t => hindsight_some (s.phase t)
    exact ⟨(⟨s.q, s.closed⟩, g), rfl, hg⟩
  init s a hi h := by
    obtain ⟨hq, hcl, hidle⟩ := hi
    refine ⟨⟨?_, ?_⟩, fun t => ?_⟩
    · rw [h.data]; exact hq
    · rw [h.data]; exact hcl
    · have ht := h.slots t
      rw [hidle t] at ht
      exact ht
  step s l s' a' hr hst h := by
    have hok : s.Ok := ok_inductive.reach hr
    cases hst with
    | @call t c ht =>
      obtain ⟨f, g⟩ := a'
      have hself : g t = .pending c := h.self
      have hd : f = ⟨s.q, s.closed⟩ := h.data
      subst hd
      exact ⟨_, h.before (d := s.toData) (x := .idle) (by rw [ht]; rfl), Object.call_back hself⟩
    | @crit t c c' timedOut d e hres hs =>
      rw [show seen (t, Event.crit c' e) = none by cases e <;> rfl]
      exact hindsight_crit hok hres hs h
    | @notifyOne t u cv owed c c' r ht hu =>
      have hne : t ≠ u := fun he => by subst he; rw [ht] at hu; cases hu
      refine ⟨a', State.Hindsight.of_move (h.of_move fun x hx => ?_) fun x hx => ?_, .nil⟩
      · rw [move_phase_ne _ _ hne, ht]
        exact hx
      · rw [hu]
        exact hx
    | notifyNone ht _ => exact ⟨a', h.of_move fun x hx => by rw [ht]; exact hx, .nil⟩
    | @notifyAll t cv owed c r ht =>
      refine ⟨a', State.Hindsight.of_wakeAll (h.of_move fun x hx => ?_), .nil⟩
      show ((s.phase t).wake cv).Hindsight x
      rw [ht]
      exact hx
    | spurious ht => exact ⟨a', h.of_move fun x hx => by rw [ht]; exact hx, .nil⟩
    | timeout ht htm =>
      exact ⟨a', h.of_move fun x hx => by rw [ht]; exact .inr ⟨htm, hx⟩, .nil⟩
    | overtake ht htm =>
      exact ⟨a', h.of_move fun x hx => by rw [ht]; exact .inr ⟨htm, hx⟩, .nil⟩
    | @ret t c r ht =>
      obtain ⟨f, g⟩ := a'
      have hself : g t = .idle := h.self
      have hd : f = ⟨s.q, s.closed⟩ := h.data
      subst hd
      exact ⟨_, h.before (d := s.toData) (x := .done c r) (by rw [ht]; rfl), Object.ret_back hself⟩

/-! ## From the FIFO -/

/-- Where a thread of the queue is that does everything at once. -/
def prompt : Slot (Call α) Ret → Phase α
  | .idle => .idle
  | .pending c => .entering c
  | .done c r => .unlocked [] c r

omit [DecidableEq T] in
/-- The queue while its threads do everything at once. -/
def Prompt (a : Fifo α × (T → Slot (Call α) Ret)) : State T α :=
  ⟨⟨a.1.items, a.1.closed⟩, fun t => prompt (a.2 t)⟩

omit [DecidableEq T] in
theorem prompt_not_waiting (a : Fifo α × (T → Slot (Call α) Ret)) (t : T) (cv : Cv)
    (c : Call α) : (Prompt a).phase t ≠ .waiting cv c := by
  show prompt (a.2 t) ≠ .waiting cv c
  cases a.2 t <;> exact nofun

theorem prompt_move (f : Fifo α) (g : T → Slot (Call α) Ret) (t : T) (x : Slot (Call α) Ret) :
    Prompt (f, Function.update g t x) = (Prompt (f, g)).move t (prompt x) := by
  unfold Prompt State.move
  congr 1
  exact Function.comp_update prompt g t x

omit [DecidableEq T] in
theorem wakeAll_of_none {s : State T α} {cv : Cv} (h : ∀ u c, s.phase u ≠ .waiting cv c) :
    s.wakeAll cv = s := by
  unfold State.wakeAll
  congr 1
  funext u
  rcases wake_cases cv (s.phase u) with ⟨he, -⟩ | ⟨c, hw, -⟩
  · exact he
  · exact absurd hw (h u c)

/-- With nobody waiting, a thread does the notifications that it owes, unseen. -/
theorem notify_shows {s : State T α} (hs : ∀ u cv c, s.phase u ≠ .waiting cv c) (t : T)
    (owed : List Notify) (c : Call α) (r : Ret) : (queue α T capacity).Shows seen
      (s.move t (.unlocked owed c r)) [] (s.move t (.unlocked [] c r)) := by
  induction owed with
  | nil => exact .nil
  | cons n owed ih =>
    have hnone : ∀ u cv c', (s.move t (.unlocked (n :: owed) c r)).phase u ≠ .waiting cv c' :=
      forall_move (P := fun p => ∀ cv c', p ≠ .waiting cv c') hs fun _ _ => nofun
    cases n with
    | one cv =>
      have hst : Step capacity (s.move t (.unlocked (.one cv :: owed) c r))
          (t, .notify (.one cv)) _ :=
        .notifyNone (move_phase_self ..) fun u c' => hnone u cv c'
      rw [move_move] at hst
      exact .unseen hst rfl ih
    | all cv =>
      have hst : Step capacity (s.move t (.unlocked (.all cv :: owed) c r))
          (t, .notify (.all cv)) _ :=
        .notifyAll (move_phase_self ..)
      rw [wakeAll_of_none fun u c' => hnone u cv c', move_move] at hst
      exact .unseen hst rfl ih

/-- A timed call that has to wait can give up, unseen. -/
theorem giveUp_shows {s : State T α} {t : T} {c : Call α} {cv : Cv} (hc : c.timed = true)
    (hr : (s.phase t).resume = some (c, false))
    (hs : c.section capacity false s.toData = (s.toData, c, .wait cv)) :
    (queue α T capacity).Shows seen s [] (s.move t (.unlocked [] c (.bool false))) := by
  have hwait : Step capacity s (t, .crit c (.wait cv)) (s.move t (.waiting cv c)) := .crit hr hs
  have htime : Step capacity (s.move t (.waiting cv c)) (t, .timeout) _ :=
    .timeout (move_phase_self ..) hc
  rw [move_move] at htime
  have hout : Step capacity (s.move t (.expired cv c false)) (t, .crit c (.leave [] (.bool false)))
      ((s.move t (.expired cv c false)).move t (.unlocked [] c (.bool false))) :=
    .crit (by rw [move_phase_self]; rfl) (section_expired hc _ _)
  rw [move_move] at hout
  exact .unseen hwait rfl (.unseen htime rfl (.unseen hout rfl .nil))

/-- **Every step of the FIFO is taken by the queue at once.** -/
theorem prompt_simulates (capacity : Nat) : ForwardSim ((dueFifo capacity).atomic T)
    (queue α T capacity) (fun a s => s = Prompt a) Object.seen seen where
  init a h := by
    refine ⟨_, ⟨h.1.1, h.1.2, fun t => ?_⟩, rfl⟩
    show prompt (a.2 t) = .idle
    rw [h.2 t]
    rfl
  step a l a' s hs hst := by
    subst hs
    refine ⟨_, rfl, ?_⟩
    cases hst with
    | @call f g t c ht =>
      rw [prompt_move]
      have hst : Step capacity (Prompt (f, g)) (t, .call c) _ := .call (congrArg prompt ht)
      exact Sys.Shows.step (S := queue α T capacity) (l := (t, Event.call c)) hst
    | @ret f g t c r ht =>
      rw [prompt_move]
      have hst : Step capacity (Prompt (f, g)) (t, .ret c r) _ := .ret (congrArg prompt ht)
      exact Sys.Shows.step (S := queue α T capacity) (l := (t, Event.ret c r)) hst
    | @eff f f' g t c c' r ht he =>
      have hres : ((Prompt (f, g)).phase t).resume = some (c, false) := by
        rw [show (Prompt (f, g)).phase t = prompt (g t) from rfl, ht]
        rfl
      rw [prompt_move]
      rcases he.section with ⟨owed, hsec⟩ | ⟨htm, rfl, rfl, rfl, cv, hsec⟩
      · have hst : Step capacity (Prompt (f, g)) (t, .crit c' (.leave owed r))
          ((Prompt (f', g)).move t (.unlocked owed c' r)) := .crit hres hsec
        exact .unseen hst rfl (notify_shows (prompt_not_waiting (f', g)) t owed c' r)
      · -- it goes to wait, and times out
        exact giveUp_shows htm hres hsec

/-! ## The histories -/

/-- The histories of the queue are those of the FIFO. -/
theorem histories_iff {h : List (T × Act (Call α) Ret)} :
    (queue α T capacity).Traces seen h ↔ ((dueFifo capacity).atomic T).Traces Object.seen h :=
  ⟨(hindsight capacity).traces, (prompt_simulates capacity).traces⟩

/-- A step of a statement as the threads see it. -/
def codeSeen (l : T × Move (Event α)) : Option (T × Act (Call α) Ret) := (visible l).bind seen

/-- The statements have the histories of their sections. -/
theorem code_traces_iff {h : List (T × Act (Call α) Ret)} :
    (code α T capacity).fine.Traces codeSeen h ↔ (queue α T capacity).Traces seen h := by
  have hseen : ∀ tr : List (T × Move (Event α)),
      tr.filterMap codeSeen = (tr.filterMap visible).filterMap seen :=
    fun tr => List.filterMap_filterMap.symm
  constructor
  · rintro ⟨tr, s, hr, rfl⟩
    obtain ⟨q, hq, -⟩ := abs_of_run hr
    exact ⟨_, q, hq, (hseen tr).symm⟩
  · rintro ⟨tr, q, hq, rfl⟩
    obtain ⟨tr', hr, rfl⟩ := Monitor.atomic_realized (atomic_run_iff.mpr hq)
    exact ⟨tr', _, hr, hseen tr'⟩

/-- **The code has the histories of the FIFO**, statement by statement, with any threads, calls and
capacity: each call takes effect at one moment between its call and its return, a timed call gives
up only where the others would wait, and whatever the FIFO allows can happen. -/
theorem code_histories_iff (h : List (T × Act (Call α) Ret)) :
    (code α T capacity).fine.Traces codeSeen h ↔
      ((dueFifo capacity).atomic T).Traces Object.seen h := by
  rw [code_traces_iff, histories_iff]

end Threads

end BoundedBlockingQueue

end CommCore
