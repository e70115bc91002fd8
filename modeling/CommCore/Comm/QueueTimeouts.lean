import CommCore.Comm.QueueLemmas

/-!
# When `push_for` and `pop_for` return `false`

- **`LastSection`**: the last section of a thread in a run, with the state in which it ran.
- **`Past`**: what a run has done to bring a thread to its place. `past_of_run`: it holds of every
  thread in every run, by one step (`Past.step`) at a time.
- **`timed_false`**: a timed call that returns `false` found the queue closed (and empty, for
  `pop_for`) in its last section, or it was told of the timeout. In that case the section looks at
  nothing: the queue was full (or empty) when the wait began, but need not be any more
  (`timed_false_with_item`).
-/

namespace CommCore

namespace BoundedBlockingQueue

open Lib

variable {α T : Type}

/-- What a thread in a wait does until its next section. -/
def Event.waits : Event α → Bool
  | .spurious | .timeout | .overtake => true
  | _ => false

/-- A timeout of `t` among the steps. -/
def TimesOut (t : T) (tr : List (Label T α)) : Prop :=
  (t, Event.timeout) ∈ tr ∨ (t, Event.overtake) ∈ tr

/-- The timed call has to wait. -/
def Data.MustWait (capacity : Nat) (d : Data α) : Call α → Prop
  | .pushFor _ => d.closed = false ∧ capacity ≤ d.q.length
  | .popFor _ => d.closed = false ∧ d.q = []
  | _ => False

/-- The timed call can never go on. -/
def Data.Ended (d : Data α) : Call α → Prop
  | .pushFor _ => d.closed = true
  | .popFor _ => d.closed = true ∧ d.q = []
  | _ => False

variable [DecidableEq T] {capacity : Nat}

/-- The last section of `t` in `tr` was for the call `c` and ended with `e`: after the steps `a`, in
the state `u`, and with `b` since then. -/
structure LastSection (capacity : Nat) (tr : List (Label T α)) (t : T) (c : Call α) (e : Exit)
    (a : List (Label T α)) (u : State T α) (b : List (Label T α)) : Prop where
  trace : tr = a ++ (t, .crit c e) :: b
  run : (queue α T capacity).Run a u
  step : ∃ v, Step capacity u (t, .crit c e) v
  since : ∀ ev, (t, ev) ∈ b → ev.waits = true

theorem LastSection.extend {tr : List (Label T α)} {t : T} {c : Call α} {e : Exit}
    {a : List (Label T α)} {u : State T α} {b : List (Label T α)} {l : Label T α}
    (h : LastSection capacity tr t c e a u b) (hl : l.1 = t → l.2.waits = true) :
    LastSection capacity (tr ++ [l]) t c e a u (b ++ [l]) where
  trace := by rw [h.trace, List.append_assoc, List.cons_append]
  run := h.run
  step := h.step
  since ev hm := by
    rcases List.mem_append.mp hm with hm | hm
    · exact h.since ev hm
    · cases List.mem_singleton.mp hm
      exact hl rfl

/-! ## What a section has seen -/

theorem resume_timeout {p : Phase α} {c : Call α} (h : p.resume = some (c, true)) :
    ∃ cv n, p = .expired cv c n := by
  cases p with
  | expired cv c' n => cases h; exact ⟨cv, n, rfl⟩
  | entering c' => cases h
  | woken cv c' n => cases h
  | _ => cases h

/-- A timed call that waits has to. -/
theorem mustWait_of_wait {u v : State T α} {t : T} {c : Call α} {cv : Cv}
    (hst : Step capacity u (t, .crit c (.wait cv)) v) (hc : c.timed = true) :
    u.MustWait capacity c := by
  cases hst with
  | crit hr hs =>
    cases section_sect hs with
    | wait hcv hcl hav =>
      cases c with
      | pushFor x => cases hcv; exact ⟨hcl, Nat.le_of_sub_eq_zero hav⟩
      | popFor o => cases hcv; exact ⟨hcl, List.length_eq_zero_iff.mp hav⟩
      | _ => cases hc

/-- A timed call that gives up has been told of the timeout, or can never go on. -/
theorem ended_or_expired {u v : State T α} {t : T} {c : Call α} {owed : List Notify}
    (hst : Step capacity u (t, .crit c (.leave owed (.bool false))) v) (hc : c.timed = true) :
    u.Ended c ∨ ∃ cv n, u.phase t = .expired cv c n := by
  generalize he : Exit.leave owed (.bool false) = e at hst
  cases hst with
  | crit hr hs =>
    cases section_sect hs with
    | refuse href =>
      rcases href with ⟨rfl, -⟩ | ⟨hcl, hcv⟩ | ⟨hcl, hq, hcv⟩
      · exact .inr (resume_timeout hr)
      · cases c with
        | pushFor x => exact .inl hcl
        | popFor o => cases hcv
        | _ => cases hc
      · cases c with
        | pushFor x => cases hcv
        | popFor o => exact .inl ⟨hcl, hq⟩
        | _ => cases hc
    | closed => cases hc
    | _ => cases he

/-- A section that returns `false` owes no notification. -/
theorem owed_of_false {u v : State T α} {t : T} {c : Call α} {owed : List Notify}
    (hst : Step capacity u (t, .crit c (.leave owed (.bool false))) v) : owed = [] := by
  generalize he : Exit.leave owed (.bool false) = e at hst
  cases hst with
  | crit hr hs =>
    cases section_sect hs with
    | refuse _ => cases he; rfl
    | closed => exact (Exit.leave.inj he).1
    | _ => cases he

/-! ## How a thread came to its place -/

/-- What the run `tr` has done to bring `t` to its place. -/
def Past (capacity : Nat) (tr : List (Label T α)) (t : T) : Phase α → Prop
  | .idle | .entering _ => True
  | .waiting cv c | .woken cv c _ => ∃ a u b, LastSection capacity tr t c (.wait cv) a u b
  | .expired cv c _ => ∃ a u b, LastSection capacity tr t c (.wait cv) a u b ∧ TimesOut t b
  | .unlocked owed c r => r = .bool false → owed = [] ∧
      ∃ a u b, LastSection capacity tr t c (.leave [] (.bool false)) a u b

theorem Past.extend {tr : List (Label T α)} {t : T} {p : Phase α} {l : Label T α}
    (h : Past capacity tr t p) (hl : l.1 = t → l.2.waits = true) :
    Past capacity (tr ++ [l]) t p := by
  cases p with
  | idle => trivial
  | entering c => trivial
  | waiting cv c =>
    obtain ⟨a, u, b, h⟩ := h
    exact ⟨a, u, _, h.extend hl⟩
  | woken cv c n =>
    obtain ⟨a, u, b, h⟩ := h
    exact ⟨a, u, _, h.extend hl⟩
  | expired cv c n =>
    obtain ⟨a, u, b, h, hto⟩ := h
    exact ⟨a, u, _, h.extend hl, hto.imp (List.mem_append_left _) (List.mem_append_left _)⟩
  | unlocked owed c r =>
    intro hr
    obtain ⟨howed, a, u, b, h⟩ := h hr
    exact ⟨howed, a, u, _, h.extend hl⟩

/-- A thread that owes a notification is not to return `false`. -/
theorem Past.notified {tr tr' : List (Label T α)} {t : T} {n : Notify} {owed : List Notify}
    {c : Call α} {r : Ret} (h : Past capacity tr t (.unlocked (n :: owed) c r)) :
    Past capacity tr' t (.unlocked owed c r) :=
  fun hfalse => absurd (h hfalse).1 (List.cons_ne_nil _ _)

/-- One step of a run. -/
theorem Past.step {tr : List (Label T α)} {s s' : State T α} {l : Label T α}
    (hr : (queue α T capacity).Run tr s) (h : ∀ t, Past capacity tr t (s.phase t))
    (hst : Step capacity s l s') (t : T) : Past capacity (tr ++ [l]) t (s'.phase t) := by
  obtain ⟨u, ev⟩ := l
  by_cases ht : t = u
  · subst ht
    have hstep := hst
    have ht := h t
    cases hst with
    | call _ => rw [move_phase_self]; trivial
    | @crit _ c c' timedOut d e hres hs =>
      rw [move_phase_self]
      cases e with
      | wait cv => exact ⟨tr, s, [], rfl, hr, ⟨_, hstep⟩, nofun⟩
      | leave owed r =>
        intro hfalse
        subst hfalse
        obtain rfl := owed_of_false hstep
        exact ⟨rfl, tr, s, [], rfl, hr, ⟨_, hstep⟩, nofun⟩
    | notifyOne hp _ =>
      rw [hp] at ht
      rw [move_phase_self]
      exact ht.notified
    | notifyNone hp _ =>
      rw [hp] at ht
      rw [move_phase_self]
      exact ht.notified
    | notifyAll hp =>
      rw [hp] at ht
      rw [move_phase_self]
      exact ht.notified
    | spurious hp =>
      rw [hp] at ht
      rw [move_phase_self]
      obtain ⟨a, u, b, hlast⟩ := ht
      exact ⟨a, u, _, hlast.extend fun _ => rfl⟩
    | timeout hp _ =>
      rw [hp] at ht
      rw [move_phase_self]
      obtain ⟨a, u, b, hlast⟩ := ht
      exact ⟨a, u, _, hlast.extend fun _ => rfl, .inl (by simp)⟩
    | overtake hp _ =>
      rw [hp] at ht
      rw [move_phase_self]
      obtain ⟨a, u, b, hlast⟩ := ht
      exact ⟨a, u, _, hlast.extend fun _ => rfl, .inr (by simp)⟩
    | ret _ => rw [move_phase_self]; trivial
  · have hext := (h t).extend (l := (u, ev)) fun e => absurd e.symm ht
    rcases phase_of_step_ne hst ht with hp | ⟨cv, c, hp, hp'⟩
    · rw [hp]
      exact hext
    · rw [hp] at hext
      rw [hp']
      exact hext

/-- **Every thread came to its place as `Past` says**, in every run. -/
theorem past_of_run {tr : List (Label T α)} {s : State T α} (hr : (queue α T capacity).Run tr s)
    (t : T) : Past capacity tr t (s.phase t) := by
  obtain ⟨s₀, hi, hs⟩ := hr
  have h : (queue α T capacity).Run tr s ∧ ∀ t, Past capacity tr t (s.phase t) := by
    refine hs.history (H := fun tr s => (queue α T capacity).Run tr s ∧
      ∀ t, Past capacity tr t (s.phase t)) ?_ ⟨⟨s₀, hi, .nil⟩, fun t => ?_⟩
    · rintro tr u l v ⟨hr, h⟩ hst
      exact ⟨hr.snoc hst, Past.step hr h hst⟩
    · rw [hi.2.2 t]
      trivial
  exact h.2 t

/-- How the call `c` of `t` came to return `false` after the steps `tr`: its last section ran in the
state `u`, and the call could not go on there, or it had been told of the timeout. Then its wait
began in the state `w`, where it could not go on. -/
def TimedFailure (capacity : Nat) (tr : List (Label T α)) (t : T) (c : Call α) : Prop :=
  ∃ a u b, LastSection capacity tr t c (.leave [] (.bool false)) a u b ∧
    (u.Ended c ∨ ∃ cv a' w b', LastSection capacity a t c (.wait cv) a' w b' ∧ TimesOut t b' ∧
      w.MustWait capacity c)

/-- **A timed call returns `false` for a closed queue or after a timeout**, in every run. -/
theorem timed_false {tr : List (Label T α)} {s : State T α} {t : T} {c : Call α}
    (hr : (queue α T capacity).Run (tr ++ [(t, .ret c (.bool false))]) s) (hc : c.timed = true) :
    TimedFailure capacity tr t c := by
  obtain ⟨v, hv, hst⟩ := hr.split
  have hp : v.phase t = .unlocked [] c (.bool false) := by
    cases hst.single
    assumption
  have hpast := past_of_run hv t
  rw [hp] at hpast
  obtain ⟨-, a, u, b, hlast⟩ := hpast rfl
  refine ⟨a, u, b, hlast, ?_⟩
  obtain ⟨u', hstep⟩ := hlast.step
  rcases ended_or_expired hstep hc with hend | ⟨cv, n, hexp⟩
  · exact .inl hend
  · have hwait := past_of_run hlast.run t
    rw [hexp] at hwait
    obtain ⟨a', w, b', hlast', hto⟩ := hwait
    obtain ⟨w', hstep'⟩ := hlast'.step
    exact .inr ⟨cv, a', w, b', hlast', hto, mustWait_of_wait hstep' hc⟩

/-! ## A queue that changes after the timeout -/

/-- A `pop_for` that has been told of the timeout, and an item that was put in since. -/
theorem late_item_run : ∃ tr s, (queue Nat (Fin 3) 1).Run tr s ∧
    s.phase 0 = .expired .notEmpty (.popFor 0) false ∧ s.q = [7] := by
  have h : (queue Nat (Fin 3) 1).Run [] _ := .start (init_idle 1)
  have h := h.snoc (.call (t := 0) (c := .popFor 0) rfl)
  have h := h.snoc (.runs (t := 0) (.popFor 0) ⟨[], false⟩ (.wait .notEmpty) rfl rfl)
  have h := h.snoc (.timeout (t := 0) rfl rfl)
  have h := h.snoc (.call (t := 1) (c := .push 7) rfl)
  have h := h.snoc
    (.runs (t := 1) (.push 7) ⟨[7], false⟩ (.leave [.one .notEmpty] (.bool true)) rfl rfl)
  exact ⟨_, _, h, rfl, rfl⟩

/-- A `push_for` that has been told of the timeout, and an item that was taken out since. -/
theorem late_room_run : ∃ tr s, (queue Nat (Fin 3) 1).Run tr s ∧
    s.phase 0 = .expired .notFull (.pushFor 8) false ∧ s.q = [] ∧ s.closed = false := by
  have h : (queue Nat (Fin 3) 1).Run [] _ := .start (init_idle 1)
  have h := h.snoc (.call (t := 1) (c := .push 7) rfl)
  have h := h.snoc
    (.runs (t := 1) (.push 7) ⟨[7], false⟩ (.leave [.one .notEmpty] (.bool true)) rfl rfl)
  have h := h.snoc (.call (t := 0) (c := .pushFor 8) rfl)
  have h := h.snoc (.runs (t := 0) (.pushFor 8) ⟨[7], false⟩ (.wait .notFull) rfl rfl)
  have h := h.snoc (.timeout (t := 0) rfl rfl)
  have h := h.snoc (.call (t := 2) (c := .pop 0) rfl)
  have h := h.snoc
    (.runs (t := 2) (.pop 7) ⟨[], false⟩ (.leave [.one .notFull] (.bool true)) rfl rfl)
  exact ⟨_, _, h, rfl, rfl, rfl⟩

/-- A thread that has been told of the timeout gives up, whatever is in the queue. -/
theorem give_up {tr : List (Label T α)} {s : State T α} {t : T} {cv : Cv} {c : Call α} {n : Bool}
    (hr : (queue α T capacity).Run tr s) (hp : s.phase t = .expired cv c n)
    (hc : c.timed = true) : ∃ v w, Step capacity s (t, .crit c (.leave [] (.bool false))) v ∧
      Step capacity v (t, .ret c (.bool false)) w ∧ v.toData = s.toData ∧
      (queue α T capacity).Run
        (tr ++ [(t, .crit c (.leave [] (.bool false)))] ++ [(t, .ret c (.bool false))]) w := by
  have hcrit : Step capacity s (t, .crit c (.leave [] (.bool false)))
      ((s.put s.toData).move t (.unlocked [] c (.bool false))) :=
    .crit (by rw [hp]; rfl) (section_expired hc capacity s.toData)
  have hret : Step capacity ((s.put s.toData).move t (.unlocked [] c (.bool false)))
      (t, .ret c (.bool false)) _ := .ret (move_phase_self _ _ _)
  exact ⟨_, _, hcrit, hret, rfl, (hr.snoc hcrit).snoc hret⟩

/-- A `pop_for` that timed out has found its queue empty. -/
theorem timed_false_run : ∃ tr, TimedFailure 1 tr (0 : Fin 3) (.popFor 0 : Call Nat) := by
  obtain ⟨tr, s, hr, hp, -⟩ := late_item_run
  obtain ⟨v, w, -, -, -, hw⟩ := give_up hr hp rfl
  exact ⟨_, timed_false hw rfl⟩

/-- A `pop_for` may return `false` with an item in the queue, and a `push_for` with room in the open
queue: after their timeout another thread came first. -/
theorem timed_false_with_item :
    (∃ tr u v w, (queue Nat (Fin 3) 1).Run tr u ∧
      Step 1 u (0, .crit (.popFor 0) (.leave [] (.bool false))) v ∧
      Step 1 v (0, .ret (.popFor 0) (.bool false)) w ∧ v.q = [7]) ∧
    ∃ tr u v w, (queue Nat (Fin 3) 1).Run tr u ∧
      Step 1 u (0, .crit (.pushFor 8) (.leave [] (.bool false))) v ∧
      Step 1 v (0, .ret (.pushFor 8) (.bool false)) w ∧ v.q = [] ∧ v.closed = false := by
  constructor
  · obtain ⟨tr, u, hr, hp, hq⟩ := late_item_run
    obtain ⟨v, w, hcrit, hret, hd, -⟩ := give_up hr hp rfl
    exact ⟨tr, u, v, w, hr, hcrit, hret, by rw [hd]; exact hq⟩
  · obtain ⟨tr, u, hr, hp, hq, hcl⟩ := late_room_run
    obtain ⟨v, w, hcrit, hret, hd, -⟩ := give_up hr hp rfl
    exact ⟨tr, u, v, w, hr, hcrit, hret, by rw [hd]; exact hq, by rw [hd]; exact hcl⟩

end BoundedBlockingQueue

end CommCore
