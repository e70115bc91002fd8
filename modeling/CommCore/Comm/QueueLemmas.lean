import CommCore.Comm.BoundedBlockingQueue

/-!
# What a section and a step of `bounded_blocking_queue` can do

- `Sect` lists what one section can do, with its guards, and `section_sect` says that this is all:
  every fact about a section below is a case analysis of `Sect`.
- `Phase.Ok`: what holds of a thread at each place. `ok_inductive`: of every thread, in every
  reachable state.
-/

namespace CommCore

namespace BoundedBlockingQueue

open Lib

variable {α : Type}

/-- The condition variable that a call may wait on. -/
def Call.cv : Call α → Option Cv
  | .push _ | .pushFor _ => some .notFull
  | .pop _ | .popFor _ => some .notEmpty
  | _ => none

/-- `out = x`. -/
def Call.setOut (x : α) : Call α → Call α
  | .pop _ => .pop x
  | .popFor _ => .popFor x
  | c => c

/-- How many threads that wait on `cv` could go on: the items, or the room. -/
def Data.avail (capacity : Nat) (d : Data α) : Cv → Nat
  | .notEmpty => d.q.length
  | .notFull => capacity - d.q.length

/-- Why a section returns `false`: a timeout, a closed queue for a push, a closed and empty queue
for a pop. -/
def Call.Refused (timedOut : Bool) (d : Data α) (c : Call α) : Prop :=
  (timedOut = true ∧ c.timed = true) ∨ (d.closed = true ∧ c.cv = some .notFull) ∨
    (d.closed = true ∧ d.q = [] ∧ c.cv = some .notEmpty)

/-- What a section of the call `c` does: the data and the call after it, and how it ends. -/
inductive Sect (capacity : Nat) (timedOut : Bool) (d : Data α) :
    Call α → Data α → Call α → Exit → Prop
  | wait {c : Call α} {cv : Cv} : c.cv = some cv → d.closed = false → d.avail capacity cv = 0 →
      Sect capacity timedOut d c d c (.wait cv)
  | accept {c : Call α} {x : α} : c.item = some x → d.closed = false → d.q.length < capacity →
      Sect capacity timedOut d c { d with q := d.q ++ [x] } c
        (.leave [.one .notEmpty] (.bool true))
  | deliver {c : Call α} {o x : α} {rest : List α} : c.out = some o → d.q = x :: rest →
      Sect capacity timedOut d c { d with q := rest } (c.setOut x)
        (.leave [.one .notFull] (.bool true))
  | refuse {c : Call α} : c.Refused timedOut d →
      Sect capacity timedOut d c d c (.leave [] (.bool false))
  | close : Sect capacity timedOut d .close { d with closed := true } .close
      (.leave [.all .notEmpty, .all .notFull] .unit)
  | closed : Sect capacity timedOut d .closed d .closed (.leave [] (.bool d.closed))
  | size : Sect capacity timedOut d .size d .size (.leave [] (.size d.q.length))

theorem push_sect {capacity : Nat} {timedOut : Bool} {d : Data α} {c : Call α} {x : α}
    (hi : c.item = some x) (hc : c.cv = some .notFull) :
    Sect capacity timedOut d c (push capacity x d).1 c (push capacity x d).2 := by
  unfold push
  split
  · rename_i h
    simp only [Bool.and_eq_true, Bool.not_eq_true', decide_eq_true_eq] at h
    exact .wait hc h.1 (Nat.sub_eq_zero_of_le h.2)
  · rename_i h
    split
    · rename_i hcl
      exact .refuse (.inr (.inl ⟨hcl, hc⟩))
    · rename_i hcl
      have hcl : d.closed = false := by simpa using hcl
      simp only [hcl, Bool.not_false, Bool.true_and, decide_eq_true_eq] at h
      exact .accept hi hcl (by omega)

theorem pop_sect {capacity : Nat} {timedOut : Bool} {d : Data α} {c : Call α} {o : α}
    (ho : c.out = some o) (hc : c.cv = some .notEmpty) (hs : c.setOut o = c) :
    Sect capacity timedOut d c (pop o d).1 (c.setOut (pop o d).2.1) (pop o d).2.2 := by
  unfold pop
  split
  · rename_i h
    simp only [Bool.and_eq_true, Bool.not_eq_true', List.isEmpty_iff] at h
    rw [hs]
    exact .wait hc h.1 (by simp [Data.avail, h.2])
  · rename_i h
    split
    · rename_i hq
      have hcl : d.closed = true := by simpa [hq] using h
      rw [hs]
      exact .refuse (.inr (.inr ⟨hcl, hq, hc⟩))
    · rename_i front rest hq
      exact .deliver ho hq

/-- **A section does what `Sect` lists.** -/
theorem section_sect {capacity : Nat} {timedOut : Bool} {d d' : Data α} {c c' : Call α} {e : Exit}
    (h : c.section capacity timedOut d = (d', c', e)) : Sect capacity timedOut d c d' c' e := by
  cases c with
  | push x => cases h; exact push_sect rfl rfl
  | pushFor x =>
    cases timedOut with
    | true => cases h; exact .refuse (.inl ⟨rfl, rfl⟩)
    | false => cases h; exact push_sect rfl rfl
  | pop o => cases h; exact pop_sect (c := .pop o) rfl rfl rfl
  | popFor o =>
    cases timedOut with
    | true => cases h; exact .refuse (.inl ⟨rfl, rfl⟩)
    | false => cases h; exact pop_sect (c := .popFor o) rfl rfl rfl
  | close => cases h; exact .close
  | closed => cases h; exact .closed
  | size => cases h; exact .size

/-- `timed_wait` has reported the timeout. -/
theorem section_expired {c : Call α} (hc : c.timed = true) (capacity : Nat) (d : Data α) :
    c.section capacity true d = (d, c, .leave [] (.bool false)) := by
  cases c with
  | pushFor x => rfl
  | popFor o => rfl
  | _ => cases hc

namespace Sect

variable {capacity : Nat} {timedOut : Bool} {d d' : Data α} {c c' : Call α} {e : Exit}

/-- A closed queue stays closed. -/
theorem closed_mono (h : Sect capacity timedOut d c d' c' e) (hc : d.closed = true) :
    d'.closed = true := by
  cases h <;> first | exact hc | rfl

/-- A closed and empty queue stays empty. -/
theorem empty_mono (h : Sect capacity timedOut d c d' c' e) (hc : d.closed = true)
    (hq : d.q = []) : d'.q = [] := by
  cases h with
  | accept _ hcl _ => rw [hcl] at hc; cases hc
  | deliver _ hq' => rw [hq'] at hq; cases hq
  | _ => exact hq

theorem le_capacity (h : Sect capacity timedOut d c d' c' e) (hq : d.q.length ≤ capacity) :
    d'.q.length ≤ capacity := by
  cases h with
  | accept _ _ hlt => simp only [List.length_append, List.length_singleton]; omega
  | deliver _ hq' => rw [hq'] at hq; simp only [List.length_cons] at hq; simp only; omega
  | _ => exact hq

end Sect

/-- `notify_all` on `cv` wakes a waiter of `cv`, and leaves any other thread where it is. -/
theorem wake_cases (cv : Cv) (p : Phase α) :
    (p.wake cv = p ∧ ∀ c, p ≠ .waiting cv c) ∨
      ∃ c, p = .waiting cv c ∧ p.wake cv = .woken cv c true := by
  cases p with
  | waiting cv' c =>
    by_cases h : cv' = cv
    · subst h; exact .inr ⟨c, rfl, if_pos rfl⟩
    · exact .inl ⟨if_neg h, fun c' e => by cases e; exact h rfl⟩
  | _ => exact .inl ⟨rfl, nofun⟩

/-! ## What holds of a thread at each place -/

/-- What holds of a thread at each place: it waits on the condition variable of its call; only a
timed call can report a timeout; only `close`, with the queue closed, owes a `notify_all`; and a
`pop` that returns `false` has found the queue closed and empty, as it stays. -/
def Phase.Ok (d : Data α) : Phase α → Prop
  | .idle | .entering _ => True
  | .waiting cv c | .woken cv c _ => c.cv = some cv
  | .expired cv c _ => c.cv = some cv ∧ c.timed = true
  | .unlocked owed c r => (∀ cv, .all cv ∈ owed → c = .close ∧ d.closed = true) ∧
      (∀ o, c = .pop o → r = .bool false → d.closed = true ∧ d.q = [])

/-- Of every thread. -/
def State.Ok {T : Type} (s : State T α) : Prop := ∀ t, (s.phase t).Ok s.toData

theorem Phase.Ok.mono {capacity : Nat} {timedOut : Bool} {d d' : Data α} {c c' : Call α}
    {e : Exit} {p : Phase α} (hp : p.Ok d) (h : Sect capacity timedOut d c d' c' e) :
    p.Ok d' := by
  cases p with
  | unlocked owed c₁ r =>
    refine ⟨fun cv hm => ?_, fun o ho hr => ?_⟩
    · obtain ⟨h1, h2⟩ := hp.1 cv hm
      exact ⟨h1, h.closed_mono h2⟩
    · obtain ⟨h1, h2⟩ := hp.2 o ho hr
      exact ⟨h.closed_mono h1, h.empty_mono h1 h2⟩
  | _ => exact hp

theorem Phase.Ok.wake {d : Data α} {p : Phase α} (hp : p.Ok d) (cv : Cv) : (p.wake cv).Ok d := by
  rcases wake_cases cv p with ⟨h, -⟩ | ⟨c, rfl, h⟩
  · rw [h]; exact hp
  · rw [h]; exact hp

/-- A thread that has done its first notification. -/
theorem Phase.Ok.tail {d : Data α} {n : Notify} {owed : List Notify} {c : Call α} {r : Ret}
    (hp : (Phase.unlocked (n :: owed) c r).Ok d) : (Phase.unlocked owed c r).Ok d :=
  ⟨fun cv hm => hp.1 cv (List.mem_cons_of_mem _ hm), hp.2⟩

/-- A thread after a section. -/
theorem Sect.ok {capacity : Nat} {timedOut : Bool} {d d' : Data α} {c c' : Call α} {e : Exit}
    (h : Sect capacity timedOut d c d' c' e) (ht : timedOut = true → c.timed = true) :
    (e.phase c').Ok d' := by
  cases h with
  | wait hc _ _ => exact hc
  | accept _ _ _ => exact ⟨by simp, fun o _ hr => by cases hr⟩
  | deliver _ _ => exact ⟨by simp, fun o _ hr => by cases hr⟩
  | refuse hr =>
    refine ⟨by simp, fun o ho _ => ?_⟩
    subst ho
    rcases hr with ⟨-, hr⟩ | ⟨-, hr⟩ | ⟨hr, hq, -⟩
    · cases hr
    · cases hr
    · exact ⟨hr, hq⟩
  | close => exact ⟨fun cv _ => ⟨rfl, rfl⟩, fun o ho _ => by cases ho⟩
  | closed => exact ⟨by simp, fun o ho _ => by cases ho⟩
  | size => exact ⟨by simp, fun o ho _ => by cases ho⟩

/-! ## Steps -/

section Steps

variable {T : Type} [DecidableEq T] {capacity : Nat}

@[simp] theorem move_phase_self (s : State T α) (t : T) (p : Phase α) :
    (s.move t p).phase t = p := Function.update_self ..

theorem move_phase_ne (s : State T α) {t u : T} (p : Phase α) (h : u ≠ t) :
    (s.move t p).phase u = s.phase u := Function.update_of_ne h ..

theorem move_move (s : State T α) (t : T) (p p' : Phase α) :
    (s.move t p).move t p' = s.move t p' := by
  unfold State.move
  rw [Function.update_idem]

theorem move_eq_self {s : State T α} {t : T} {p : Phase α} (h : s.phase t = p) :
    s.move t p = s := by
  unfold State.move
  rw [← h, Function.update_eq_self]

/-- What holds of every thread holds of them after a move to a place where it holds. -/
theorem forall_move {P : Phase α → Prop} {s : State T α} (h : ∀ u, P (s.phase u)) {t : T}
    {p : Phase α} (hp : P p) (u : T) : P ((s.move t p).phase u) := by
  by_cases hu : u = t
  · subst hu; rw [move_phase_self]; exact hp
  · rw [move_phase_ne _ _ hu]; exact h u

omit [DecidableEq T] in
theorem State.Ok.at {s : State T α} (h : s.Ok) {t : T} {p : Phase α} (hp : s.phase t = p) :
    p.Ok s.toData := hp ▸ h t

theorem State.Ok.move {s : State T α} (h : s.Ok) {t : T} {p : Phase α} (hp : p.Ok s.toData) :
    (s.move t p).Ok :=
  forall_move (P := fun p => p.Ok s.toData) h hp

theorem resume_timed {d : Data α} {p : Phase α} {c : Call α} {timedOut : Bool} (hp : p.Ok d)
    (hr : p.resume = some (c, timedOut)) (ht : timedOut = true) : c.timed = true := by
  cases p with
  | expired cv c₁ b => cases hr; exact hp.2
  | entering c₁ => cases hr; cases ht
  | woken cv c₁ b => cases hr; cases ht
  | _ => cases hr

theorem State.Ok.step {s s' : State T α} {l : Label T α} (h : s.Ok) (hst : Step capacity s l s') :
    s'.Ok := by
  cases hst with
  | call _ => exact h.move trivial
  | @crit t c c' timedOut d e hr hs =>
    have hsect := section_sect hs
    have hput : (s.put d).Ok := fun u => (h u).mono hsect
    exact hput.move (hsect.ok (resume_timed (h t) hr))
  | @notifyOne t u cv owed c c' r ht hu =>
    have hw : (Phase.waiting cv c').Ok s.toData := h.at hu
    have hwoken : (s.move u (.woken cv c' true)).Ok := h.move hw
    exact hwoken.move (h.at ht).tail
  | notifyNone ht _ => exact h.move (h.at ht).tail
  | @notifyAll t cv owed c r ht =>
    have hw : (s.wakeAll cv).Ok := fun u => (h u).wake cv
    exact hw.move (p := .unlocked owed c r) (h.at ht).tail
  | @spurious t cv c ht =>
    have hw := h.at ht
    exact h.move hw
  | @timeout t cv c ht htm =>
    have hw := h.at ht
    exact h.move ⟨hw, htm⟩
  | @overtake t cv c ht htm =>
    have hw := h.at ht
    exact h.move ⟨hw, htm⟩
  | ret _ => exact h.move trivial

/-- **`Phase.Ok` holds of every thread in every reachable state.** -/
theorem ok_inductive : (queue α T capacity).Inductive State.Ok where
  init s h := fun t => by rw [h.2.2 t]; trivial
  step _ _ _ h hst := h.step hst

/-- A run begins with the empty queue and idle threads. -/
theorem init_idle (capacity : Nat) :
    (queue α T capacity).init ⟨⟨[], false⟩, fun _ => .idle⟩ :=
  ⟨rfl, rfl, fun _ => rfl⟩

/-- A section whose effect is written out: the call and the data after it, and how it ends. -/
theorem Step.runs {s : State T α} {t : T} {c : Call α} {timedOut : Bool} (c' : Call α) (d : Data α)
    (e : Exit) (hr : (s.phase t).resume = some (c, timedOut))
    (hs : c.section capacity timedOut s.toData = (d, c', e)) :
    Step capacity s (t, .crit c' e) ((s.put d).move t (e.phase c')) :=
  .crit hr hs

/-- A step of another thread leaves a thread where it is, or wakes it. -/
theorem phase_of_step_ne {s s' : State T α} {t u : T} {ev : Event α}
    (hst : Step capacity s (u, ev) s') (ht : t ≠ u) : s'.phase t = s.phase t ∨
      ∃ cv c, s.phase t = .waiting cv c ∧ s'.phase t = .woken cv c true := by
  cases hst with
  | @notifyOne _ w cv owed c c' r _ hw =>
    rw [move_phase_ne _ _ ht]
    by_cases htw : t = w
    · subst htw
      exact .inr ⟨cv, c', hw, move_phase_self _ _ _⟩
    · exact .inl (move_phase_ne _ _ htw)
  | @notifyAll _ cv owed c r _ =>
    rw [move_phase_ne _ _ ht]
    rcases wake_cases cv (s.phase t) with ⟨h, -⟩ | ⟨c', hw, h⟩
    · exact .inl h
    · exact .inr ⟨cv, c', hw, h⟩
  | _ => exact .inl (move_phase_ne _ _ ht)

/-- Only a section that returns `true` changes `q_`. -/
theorem q_of_step {s s' : State T α} {t : T} {ev : Event α} (hst : Step capacity s (t, ev) s')
    (hev : ∀ c owed, ev ≠ .crit c (.leave owed (.bool true))) : s'.q = s.q := by
  cases hst with
  | crit _ hs =>
    cases section_sect hs with
    | accept _ _ _ => exact absurd rfl (hev _ _)
    | deliver _ _ => exact absurd rfl (hev _ _)
    | _ => rfl
  | _ => rfl

end Steps

end BoundedBlockingQueue

end CommCore
