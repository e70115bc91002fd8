import CommCore.Comm.QueueWakeups

/-!
# Progress in `bounded_blocking_queue`

- **No livelock** (`no_livelock`). The threads have a potential: what each may still do on its own
  before it is outside, or asleep. A call pays 7, a spurious wake-up 2, and every step lowers the
  potential by 1 at least (`potential_step`). So with finitely many calls and spurious wake-ups a
  run is finite, however the threads are scheduled. A closed queue needs no payment for spurious
  wake-ups: nobody goes back to sleep.
- **Somebody can go on** (`exists_own_step`), unless every thread is outside or asleep.
- Together: after `close`, every call returns (`close_unblocks_all`); and without the timed
  functions every call that can go on does (`settles`).
-/

namespace CommCore

namespace BoundedBlockingQueue

open Lib

variable {α T : Type}

/-! ## The potential -/

/-- What a notification may cost: its own step, and for `notify_one` on an open queue the second
section of the thread that it wakes. -/
def Notify.cost : Notify → Nat
  | .one _ => 2
  | .all _ => 1

/-- How many steps a thread may take, and cause, until it is outside or asleep. -/
def Phase.weight (closed : Bool) : Phase α → Nat
  | .idle => 0
  | .entering _ => 6
  | .waiting _ _ => 5
  | .woken _ _ _ => if closed then 4 else 6
  | .expired _ _ _ => 2
  | .unlocked owed _ _ => 1 + (owed.map Notify.cost).sum

/-- What a step is paid. -/
def Event.credit (closed : Bool) : Event α → Nat
  | .call _ => 7
  | .spurious => if closed then 0 else 2
  | _ => 0

theorem weight_closed_le (p : Phase α) (b : Bool) : p.weight true ≤ p.weight b := by
  cases p <;> cases b <;> simp [Phase.weight]

/-- A `notify_all` in a closed queue wakes threads that will not sleep again. -/
theorem weight_wake (cv : Cv) (p : Phase α) : (p.wake cv).weight true ≤ p.weight true := by
  rcases wake_cases cv p with ⟨h, -⟩ | ⟨c, rfl, h⟩
  · rw [h]
  · rw [h]; simp [Phase.weight]

/-- A section lowers the weight of its thread. -/
theorem weight_section {capacity : Nat} {p : Phase α} {c c' : Call α} {timedOut : Bool}
    {d d' : Data α} {e : Exit} (hp : p.Ok d) (hr : p.resume = some (c, timedOut))
    (hs : c.section capacity timedOut d = (d', c', e)) :
    (e.phase c').weight d'.closed + 1 ≤ p.weight d'.closed := by
  have hsect := section_sect hs
  cases p with
  | expired cv c₁ n =>
    cases hr
    rw [section_expired hp.2] at hs
    cases hs
    simp [Exit.phase, Phase.weight]
  | entering c₁ => cases hsect <;> simp [Exit.phase, Phase.weight, Notify.cost]
  | woken cv c₁ n =>
    cases hsect with
    | wait _ hcl _ => simp [Exit.phase, Phase.weight, hcl]
    | close => cases hr; cases hp
    | _ => simp only [Exit.phase, Phase.weight]; split <;> simp [Notify.cost]
  | _ => cases hr

section Steps

variable [DecidableEq T] [Fintype T] {capacity : Nat}

/-- The potential of the threads. -/
def State.potential (s : State T α) : Nat := tally (Phase.weight s.closed) s.phase

theorem potential_move (s : State T α) (t : T) (p : Phase α) :
    (s.move t p).potential + (s.phase t).weight s.closed = s.potential + p.weight s.closed :=
  tally_update _ _ _ _

/-- **Every step lowers the potential, up to its credit.** -/
theorem potential_step {s s' : State T α} {l : Label T α} (hok : s.Ok)
    (hst : Step capacity s l s') :
    s'.potential + 1 ≤ s.potential + l.2.credit s.closed := by
  cases hst with
  | @call t c ht =>
    have hm := potential_move s t (.entering c)
    rw [ht] at hm
    simp only [Phase.weight, Event.credit] at hm ⊢
    omega
  | @crit t c c' timedOut d e hr hs =>
    -- closing the queue lowers the weights of the others too
    have hput : (s.put d).potential ≤ s.potential := by
      refine tally_le fun u => ?_
      show (s.phase u).weight d.closed ≤ (s.phase u).weight s.closed
      cases hcl : s.closed with
      | true => rw [(section_sect hs).closed_mono hcl]
      | false => cases d.closed with
        | true => exact weight_closed_le _ _
        | false => exact Nat.le_refl _
    have hm := potential_move (s.put d) t (e.phase c')
    have hw := weight_section (hok t) hr hs
    change _ + (s.phase t).weight d.closed = _ + _ at hm
    change _ + 1 ≤ s.potential + 0
    change (e.phase c').weight (s.put d).closed + 1 ≤ (s.phase t).weight d.closed at hw
    omega
  | @notifyOne t u cv owed c c' r ht hu =>
    have hne : t ≠ u := fun e => by subst e; rw [ht] at hu; cases hu
    have hm₁ := potential_move s u (.woken cv c' true)
    have hm₂ := potential_move (s.move u (.woken cv c' true)) t (.unlocked owed c r)
    rw [move_phase_ne _ _ hne, ht] at hm₂
    rw [hu] at hm₁
    simp only [Phase.weight, List.map_cons, List.sum_cons, Notify.cost] at hm₁ hm₂
    simp only [Event.credit]
    split at hm₁ <;> omega
  | @notifyNone t cv owed c r ht hno =>
    have hm := potential_move s t (.unlocked owed c r)
    rw [ht] at hm
    simp only [Phase.weight, List.map_cons, List.sum_cons, Notify.cost] at hm
    simp only [Event.credit]
    omega
  | @notifyAll t cv owed c r ht =>
    have hcl := ((hok.at ht).1 cv List.mem_cons_self).2
    have hwake : (s.wakeAll cv).potential ≤ s.potential := by
      show tally (Phase.weight s.closed) _ ≤ tally (Phase.weight s.closed) _
      rw [hcl]
      exact tally_le fun u => weight_wake cv (s.phase u)
    have hm := potential_move (s.wakeAll cv) t (.unlocked owed c r)
    have hp : (s.wakeAll cv).phase t = .unlocked (.all cv :: owed) c r := by
      show (s.phase t).wake cv = _
      rw [ht]
      rfl
    rw [hp] at hm
    simp only [Phase.weight, List.map_cons, List.sum_cons, Notify.cost] at hm
    simp only [Event.credit]
    omega
  | @spurious t cv c ht =>
    have hm := potential_move s t (.woken cv c false)
    rw [ht] at hm
    simp only [Phase.weight, Event.credit] at hm ⊢
    split at hm <;> rename_i hcl <;> simp [hcl] <;> omega
  | @timeout t cv c ht hc =>
    have hm := potential_move s t (.expired cv c false)
    rw [ht] at hm
    simp only [Phase.weight, Event.credit] at hm ⊢
    omega
  | @overtake t cv c ht hc =>
    have hm := potential_move s t (.expired cv c true)
    rw [ht] at hm
    simp only [Phase.weight, Event.credit] at hm ⊢
    split at hm <;> omega
  | @ret t c r ht =>
    have hm := potential_move s t .idle
    rw [ht] at hm
    simp only [Phase.weight, Event.credit, List.map_nil, List.sum_nil] at hm ⊢
    omega

/-! ## How many steps -/

omit [DecidableEq T] [Fintype T] in
/-- The calls among the steps. -/
def calls (tr : List (Label T α)) : Nat := tr.countP fun l => l.2 matches .call _

omit [DecidableEq T] [Fintype T] in
/-- The spurious wake-ups among the steps. -/
def spuriousWakeups (tr : List (Label T α)) : Nat := tr.countP fun l => l.2 matches .spurious

omit [DecidableEq T] [Fintype T] in
theorem sum_credit (tr : List (Label T α)) (b : Bool) :
    (tr.map fun l => l.2.credit b).sum =
      7 * calls tr + (if b then 0 else 2) * spuriousWakeups tr := by
  induction tr with
  | nil => rfl
  | cons l tr ih =>
    obtain ⟨t, ev⟩ := l
    simp only [calls, spuriousWakeups, List.map_cons, List.sum_cons, List.countP_cons] at ih ⊢
    rw [ih]
    cases ev <;> cases b <;> simp [Event.credit] <;> omega

/-- The steps of an open queue are paid for. -/
theorem length_le_credit {s s' : State T α} {tr : List (Label T α)} (hok : s.Ok)
    (hs : (queue α T capacity).Steps s tr s') :
    tr.length + s'.potential ≤ s.potential + (tr.map fun l => l.2.credit false).sum := by
  have hk : ∀ s l s', s.Ok → (queue α T capacity).step s l s' →
      s'.Ok ∧ s'.potential + 1 ≤ s.potential + l.2.credit false := by
    intro s l s' hok hst
    have hle : l.2.credit s.closed ≤ l.2.credit false := by
      obtain ⟨t, ev⟩ := l
      cases ev <;> cases s.closed <;> simp [Event.credit]
    have hp := potential_step hok hst
    exact ⟨hok.step hst, by omega⟩
  exact (hs.amortized hk hok).2

theorem length_run_le {tr : List (Label T α)} {s : State T α}
    (hr : (queue α T capacity).Run tr s) :
    tr.length + s.potential ≤ 7 * calls tr + 2 * spuriousWakeups tr := by
  obtain ⟨s₀, hi, hs⟩ := hr
  have hle := length_le_credit (ok_inductive.init s₀ hi) hs
  have h₀ : s₀.potential = 0 := tally_eq_zero fun t => by rw [hi.2.2 t]; rfl
  rw [sum_credit, h₀] at hle
  simpa using hle

omit [DecidableEq T] [Fintype T] in
/-- The label is neither a call nor a spurious wake-up. -/
def Unpaid (l : Label T α) : Prop := l.2 ≠ .spurious ∧ ∀ c, l.2 ≠ .call c

/-- **No livelock**: after any run, the threads take only so many steps, however they are scheduled,
without a further call or spurious wake-up: with the steps so far, seven for each call and two for
each spurious wake-up so far. -/
theorem no_livelock {tr tr' : List (Label T α)} {s s' : State T α}
    (hr : (queue α T capacity).Run tr s) (hs : (queue α T capacity).Steps s tr' s')
    (hno : ∀ l ∈ tr', Unpaid l) :
    tr.length + tr'.length ≤ 7 * calls tr + 2 * spuriousWakeups tr := by
  have hle := length_run_le (hr.append hs)
  have hcalls : calls (tr ++ tr') = calls tr := by
    unfold calls
    rw [List.countP_append, Nat.add_eq_left, List.countP_eq_zero]
    rintro ⟨t, ev⟩ hl
    have hev := (hno _ hl).2
    cases ev with
    | call c => exact absurd rfl (hev c)
    | _ => simp
  have hspurious : spuriousWakeups (tr ++ tr') = spuriousWakeups tr := by
    unfold spuriousWakeups
    rw [List.countP_append, Nat.add_eq_left, List.countP_eq_zero]
    rintro ⟨t, ev⟩ hl
    have hev := (hno _ hl).1
    cases ev with
    | spurious => exact absurd rfl hev
    | _ => simp
  rw [hcalls, hspurious, List.length_append] at hle
  omega

/-! ## Who can go on -/

/-- A step that a thread takes by running, other than a call. -/
def Event.runs : Event α → Bool
  | .crit _ _ | .notify _ | .ret _ _ => true
  | _ => false

omit [Fintype T] in
/-- A thread that is neither outside nor asleep has a step. -/
theorem runs_of_awake (s : State T α) (t : T) (hi : s.phase t ≠ .idle)
    (hw : ∀ cv c, s.phase t ≠ .waiting cv c) :
    ∃ ev s', ev.runs = true ∧ Step capacity s (t, ev) s' := by
  have hcrit : ∀ c timedOut, (s.phase t).resume = some (c, timedOut) →
      ∃ ev s', ev.runs = true ∧ Step capacity s (t, ev) s' :=
    fun c timedOut hr => ⟨_, _, rfl, .crit hr rfl⟩
  cases hp : s.phase t with
  | idle => exact absurd hp hi
  | waiting cv c => exact absurd hp (hw cv c)
  | entering c => exact hcrit c false (by rw [hp]; rfl)
  | woken cv c n => exact hcrit c false (by rw [hp]; rfl)
  | expired cv c n => exact hcrit c true (by rw [hp]; rfl)
  | unlocked owed c r =>
    cases owed with
    | nil => exact ⟨_, _, rfl, .ret hp⟩
    | cons n owed =>
      cases n with
      | all cv => exact ⟨_, _, rfl, .notifyAll hp⟩
      | one cv =>
        by_cases hu : ∃ u c', s.phase u = .waiting cv c'
        · obtain ⟨u, c', hu⟩ := hu
          exact ⟨_, _, rfl, .notifyOne hp hu⟩
        · exact ⟨_, _, rfl, .notifyNone hp fun u c' h => hu ⟨u, c', h⟩⟩

omit [Fintype T] in
/-- **Somebody can go on**, unless each thread is outside or asleep. -/
theorem exists_own_step {s : State T α} (h : ¬ s.Quiet) :
    ∃ t ev s', ev.runs = true ∧ Step capacity s (t, ev) s' := by
  obtain ⟨t, ht⟩ := not_forall.mp h
  obtain ⟨hi, hw⟩ := not_or.mp ht
  obtain ⟨ev, s', hst⟩ := runs_of_awake s t hi fun cv c e => hw ⟨cv, c, e⟩
  exact ⟨t, ev, s', hst⟩

/-! ## The calls that are pending -/

/-- 1 for a thread in a call. -/
def Phase.inCall : Phase α → Nat
  | .idle => 0
  | _ => 1

omit [DecidableEq T] in
/-- How many calls are pending. -/
def State.pending (s : State T α) : Nat := tally Phase.inCall s.phase

/-- A thread owes at most one `notify_one`, or two `notify_all`. -/
def Phase.OwesFew : Phase α → Prop
  | .unlocked owed _ _ => (owed.map Notify.cost).sum ≤ 2
  | _ => True

theorem Phase.OwesFew.tail {n : Notify} {owed : List Notify} {c : Call α} {r : Ret}
    (h : (Phase.unlocked (n :: owed) c r).OwesFew) : (Phase.unlocked owed c r).OwesFew := by
  simp only [OwesFew, List.map_cons, List.sum_cons] at h ⊢
  omega

omit [Fintype T] in
theorem owesFew_inductive :
    (queue α T capacity).Inductive fun s => ∀ t, (s.phase t).OwesFew where
  init s hi := fun t => by rw [hi.2.2 t]; trivial
  step s l s' h hst := by
    have hat : ∀ {t : T} {p : Phase α}, s.phase t = p → p.OwesFew := fun hp => hp ▸ h _
    cases hst with
    | @crit t c c' b d e hr hs =>
      have hput : ∀ u, ((s.put d).phase u).OwesFew := h
      refine forall_move hput ?_
      cases section_sect hs with
      | wait _ _ _ => trivial
      | _ => simp [Exit.phase, Phase.OwesFew, Notify.cost]
    | @notifyOne t u cv owed c c' r ht _ =>
      have hwoken : ∀ t, ((s.move u (.woken cv c' true)).phase t).OwesFew := forall_move h trivial
      exact forall_move hwoken (hat ht).tail
    | notifyNone ht _ => exact forall_move h (hat ht).tail
    | @notifyAll t cv owed c r ht =>
      have hw : ∀ u, ((s.wakeAll cv).phase u).OwesFew := fun u => by
        show ((s.phase u).wake cv).OwesFew
        rcases wake_cases cv (s.phase u) with ⟨hw, -⟩ | ⟨c', -, hw⟩ <;> rw [hw]
        · exact h u
        · trivial
      exact forall_move hw (hat ht).tail
    | _ => exact forall_move h trivial

omit [DecidableEq T] in
/-- Six steps for each pending call, at most. -/
theorem potential_le {s : State T α} (h : ∀ t, (s.phase t).OwesFew) :
    s.potential ≤ 6 * s.pending := by
  have hw : ∀ t, (s.phase t).weight s.closed ≤ 6 * (s.phase t).inCall := by
    intro t
    have ht := h t
    cases hp : s.phase t with
    | unlocked owed c r =>
      rw [hp] at ht
      simp only [Phase.OwesFew, Phase.weight, Phase.inCall] at ht ⊢
      omega
    | woken cv c n => simp only [Phase.weight, Phase.inCall]; split <;> omega
    | _ => simp [Phase.weight, Phase.inCall]
  calc s.potential ≤ tally (fun p => 6 * p.inCall) s.phase := tally_le hw
    _ = 6 * s.pending := tally_mul ..

/-- **`close` unblocks everybody**: from a reachable state with `closed_` set, and with no further
calls, there are at most six steps for each pending call, spurious wake-ups and timeouts
included; and as long as some call is pending, a thread can go on. So every pending call returns. -/
theorem close_unblocks_all {s s' : State T α} {tr : List (Label T α)}
    (hr : (queue α T capacity).Reach s) (hc : s.closed = true)
    (hs : (queue α T capacity).Steps s tr s') (hno : ∀ t c, (t, Event.call c) ∉ tr) :
    tr.length ≤ 6 * s.pending ∧ ((∀ t, s'.phase t = .idle) ∨
      ∃ t ev s'', ev.runs = true ∧ Step capacity s' (t, ev) s'') := by
  have hk : ∀ s l s', s.Ok ∧ s.closed = true → (queue α T capacity).step s l s' →
      (s'.Ok ∧ s'.closed = true) ∧ s'.potential + 1 ≤ s.potential + l.2.credit true := by
    rintro s l s' ⟨hok, hcl⟩ hst
    have hp := potential_step hok hst
    rw [hcl] at hp
    exact ⟨⟨hok.step hst, closed_of_step hst hcl⟩, hp⟩
  obtain ⟨⟨-, hcl⟩, hle⟩ := hs.amortized hk ⟨ok_inductive.reach hr, hc⟩
  have hcalls : calls tr = 0 := by
    refine List.countP_eq_zero.mpr fun l hl => ?_
    obtain ⟨t, ev⟩ := l
    cases ev with
    | call c => exact absurd hl (hno t c)
    | _ => simp
  rw [sum_credit, hcalls] at hle
  have hpot := potential_le (owesFew_inductive.reach hr)
  refine ⟨by simp at hle; omega, ?_⟩
  by_cases hq : s'.Quiet
  · refine .inl fun t => ?_
    rcases hq t with ht | ⟨cv, c, ht⟩
    · exact ht
    · have hopen := open_of_quiet (hr.steps hs) hq ⟨t, c, ht⟩
      exact absurd (hcl.symm.trans hopen) (by decide)
  · exact .inr (exists_own_step hq)

/-- Where a call of an untimed run may sleep for ever: nothing is there for it. -/
def State.Blocked (capacity : Nat) (s : State T α) (t : T) : Prop :=
  s.closed = false ∧
    ((∃ x, s.phase t = .waiting .notFull (.push x) ∧ s.q.length = capacity) ∨
      ∃ o, s.phase t = .waiting .notEmpty (.pop o) ∧ s.q = [])

omit [Fintype T] in
/-- Threads that only run make no timed calls. -/
theorem untimed_of_runs {s s' : State T α} {tr : List (Label T α)}
    (hs : (queue α T capacity).Steps s tr s') (hrun : ∀ l ∈ tr, l.2.runs = true) :
    ((queue α T capacity).restrict Untimed).Steps s tr s' := by
  induction hs with
  | nil => exact .nil
  | @snoc tr l u v _ hst ih =>
    have hl := hrun l (List.mem_append_right _ (List.mem_singleton_self l))
    refine (ih fun l' hl' => hrun l' (List.mem_append_left _ hl')).snoc ⟨hst, fun c hc => ?_⟩
    rw [hc] at hl
    cases hl

/-- **Without the timed functions, every call that can go on does**: from a state of an untimed
run, running threads take at most six steps for each pending call; and when none can go on, each
thread is outside, or sleeps in a `push` on a full and open queue or in a `pop` on an empty and open
one. -/
theorem settles {s s' : State T α} {tr : List (Label T α)}
    (hr : ((queue α T capacity).restrict Untimed).Reach s)
    (hs : (queue α T capacity).Steps s tr s') (hrun : ∀ l ∈ tr, l.2.runs = true) :
    tr.length ≤ 6 * s.pending ∧ ((∃ t ev s'', ev.runs = true ∧ Step capacity s' (t, ev) s'') ∨
      ∀ t, s'.phase t = .idle ∨ s'.Blocked capacity t) := by
  have hr' : ((queue α T capacity).restrict Untimed).Reach s' := hr.steps (untimed_of_runs hs hrun)
  have hpot := potential_le (owesFew_inductive.reach hr.of_restrict)
  have hle := length_le_credit (ok_inductive.reach hr.of_restrict) hs
  have hzero : (tr.map fun l => l.2.credit false).sum = 0 := by
    refine List.sum_eq_zero fun n hn => ?_
    obtain ⟨l, hl, rfl⟩ := List.mem_map.mp hn
    have := hrun l hl
    revert this
    cases l.2 <;> simp [Event.runs, Event.credit]
  refine ⟨by omega, ?_⟩
  by_cases hq : s'.Quiet
  · refine .inr fun t => (hq t).imp_right fun ⟨cv, c, ht⟩ => ?_
    have hsl : s'.Sleeps cv := ⟨t, c, ht⟩
    obtain ⟨hitems, hroom, -⟩ := (no_lost_wakeup hr').quiet hq
    have hcv := (ok_inductive.reach hr'.of_restrict).at ht
    have hunt := untimed_inductive.reach hr' t
    rw [ht] at hunt
    refine ⟨open_of_quiet hr'.of_restrict hq hsl, ?_⟩
    cases c with
    | push x => cases hcv; exact .inl ⟨x, ht, hroom hsl⟩
    | pop o => cases hcv; exact .inr ⟨o, ht, hitems hsl⟩
    | pushFor x => cases hunt
    | popFor o => cases hunt
    | _ => cases hcv
  · exact .inl (exists_own_step hq)

/-! ## Who can return alone -/

/-- The call has to wait. -/
def Data.Waits (capacity : Nat) (d : Data α) (c : Call α) : Prop :=
  d.closed = false ∧ ∃ cv, c.cv = some cv ∧ d.avail capacity cv = 0

/-- A step of the thread `t` in its call, other than a spurious wake-up. -/
def Alone (t : T) (_ : State T α) (l : Label T α) : Prop :=
  l.1 = t ∧ l.2 ≠ .spurious ∧ ∀ c, l.2 ≠ .call c

/-- `t` gets outside by its own steps. -/
def ReturnsAlone (capacity : Nat) (s : State T α) (t : T) : Prop :=
  ∃ tr s', ((queue α T capacity).restrict (Alone t)).Steps s tr s' ∧ s'.phase t = .idle

omit [Fintype T] in
theorem ReturnsAlone.step {s s' : State T α} {t : T} {ev : Event α}
    (hst : Step capacity s (t, ev) s') (hev : ev ≠ .spurious ∧ ∀ c, ev ≠ .call c)
    (h : ReturnsAlone capacity s' t) : ReturnsAlone capacity s t := by
  obtain ⟨tr, u, hs, hu⟩ := h
  exact ⟨_, u, .cons ⟨hst, rfl, hev⟩ hs, hu⟩

/-- A thread that cannot return alone: an untimed call asleep, or about to look at a queue where it
has to wait. -/
def State.Held (capacity : Nat) (s : State T α) (t : T) : Prop :=
  (∃ cv c, s.phase t = .waiting cv c ∧ c.timed = false) ∨
    ∃ c, (s.phase t).resume = some (c, false) ∧ c.timed = false ∧ s.Waits capacity c

/-- A section where the call has to wait does. -/
theorem Sect.waits {d d' : Data α} {c c' : Call α} {e : Exit}
    (h : Sect capacity false d c d' c' e) (hw : d.Waits capacity c) :
    c' = c ∧ ∃ cv, e = .wait cv := by
  obtain ⟨hcl, cv, hcv, hav⟩ := hw
  cases h with
  | wait _ _ _ => exact ⟨rfl, _, rfl⟩
  | accept hi _ hlt =>
    rw [cv_of_item hi] at hcv
    cases hcv
    simp only [Data.avail] at hav
    omega
  | deliver ho hq =>
    rw [cv_of_out ho] at hcv
    cases hcv
    simp [Data.avail, hq] at hav
  | refuse hr =>
    rcases hr with ⟨hto, -⟩ | ⟨hc, -⟩ | ⟨hc, -⟩
    · cases hto
    · exact absurd (hcl.symm.trans hc) (by decide)
    · exact absurd (hcl.symm.trans hc) (by decide)
  | _ => cases hcv

omit [Fintype T] in
/-- A step of its own leaves such a thread as it is. -/
theorem State.Held.step {s s' : State T α} {t : T} {l : Label T α} (h : s.Held capacity t)
    (hst : Step capacity s l s') (hl : Alone t s l) : s'.Held capacity t := by
  obtain ⟨u, ev⟩ := l
  obtain ⟨ht, hsp, hcall⟩ := hl
  change u = t at ht
  subst ht
  have hat : ∀ {p : Phase α}, s.phase u = p → (∃ cv c, p = .waiting cv c ∧ c.timed = false) ∨
      ∃ c, p.resume = some (c, false) ∧ c.timed = false ∧ s.Waits capacity c := fun hp => hp ▸ h
  cases hst with
  | @crit _ c c' timedOut d e hr hs =>
    rcases h with ⟨cv, c₁, hp, -⟩ | ⟨c₁, hr₁, hc, hw⟩
    · rw [hp] at hr
      cases hr
    · cases hr.symm.trans hr₁
      obtain ⟨rfl, cv, rfl⟩ := (section_sect hs).waits hw
      exact .inl ⟨cv, c', move_phase_self .., hc⟩
  | call _ => exact absurd rfl (hcall _)
  | spurious _ => exact absurd rfl hsp
  | timeout hp htm =>
    rcases hat hp with ⟨cv, c₁, e, hc⟩ | ⟨c₁, e, -⟩
    · cases e
      exact absurd (hc.symm.trans htm) (by decide)
    · cases e
  | overtake hp htm =>
    rcases hat hp with ⟨cv, c₁, e, -⟩ | ⟨c₁, e, hc, -⟩
    · cases e
    · cases e
      exact absurd (hc.symm.trans htm) (by decide)
  | notifyOne hp _ => rcases hat hp with ⟨_, _, e, -⟩ | ⟨_, e, -⟩ <;> cases e
  | notifyNone hp _ => rcases hat hp with ⟨_, _, e, -⟩ | ⟨_, e, -⟩ <;> cases e
  | notifyAll hp => rcases hat hp with ⟨_, _, e, -⟩ | ⟨_, e, -⟩ <;> cases e
  | ret hp => rcases hat hp with ⟨_, _, e, -⟩ | ⟨_, e, -⟩ <;> cases e

end Steps

/-- A `close` after it has set `closed_`, while that `pop` sleeps: the notification is its next
step. -/
theorem no_livelock_run : ∃ (tr tr' : List (Label (Fin 2) Nat)) (s s' : State (Fin 2) Nat),
    (queue Nat (Fin 2) 1).Run tr s ∧ (queue Nat (Fin 2) 1).Steps s tr' s' ∧ tr'.length = 1 ∧
      tr.length + tr'.length ≤ 7 * calls tr + 2 * spuriousWakeups tr := by
  have h : (queue Nat (Fin 2) 1).Run [] _ := .start (init_idle 1)
  have h := h.snoc (.call (t := 0) (c := .pop 0) rfl)
  have h := h.snoc (.runs (t := 0) (.pop 0) ⟨[], false⟩ (.wait .notEmpty) rfl rfl)
  have h := h.snoc (.call (t := 1) (c := .close) rfl)
  have h := h.snoc
    (.runs (t := 1) .close ⟨[], true⟩ (.leave [.all .notEmpty, .all .notFull] .unit) rfl rfl)
  have h₂ := h.stay.snoc (.notifyAll (t := 1) rfl)
  exact ⟨_, _, _, _, h, h₂, rfl, no_livelock h h₂ (by simp [Unpaid])⟩

/-- Two `pop`s sleep, and thread 2 has pushed an item. In five steps of the three calls one `pop` is
notified, takes the item and returns, and so does the `push`; the other `pop` may sleep for ever. -/
theorem settles_run : ∃ (tr : List (Label (Fin 3) Nat)) (s s' : State (Fin 3) Nat),
    (queue Nat (Fin 3) 1).Steps s tr s' ∧ tr.length = 5 ∧ (0, .ret (.pop 7) (.bool true)) ∈ tr ∧
      s'.phase 1 = .waiting .notEmpty (.pop 0) ∧ tr.length ≤ 6 * s.pending ∧
      ((∃ t ev s'', ev.runs = true ∧ Step 1 s' (t, ev) s'') ∨
        ∀ t, s'.phase t = .idle ∨ s'.Blocked 1 t) := by
  have h : ((queue Nat (Fin 3) 1).restrict Untimed).Run [] _ := .start (init_idle 1)
  have h := h.snoc ⟨.call (t := 0) (c := .pop 0) rfl, fun _ hc => by cases hc; rfl⟩
  have h := h.snoc ⟨.runs (t := 0) (.pop 0) ⟨[], false⟩ (.wait .notEmpty) rfl rfl, nofun⟩
  have h := h.snoc ⟨.call (t := 1) (c := .pop 0) rfl, fun _ hc => by cases hc; rfl⟩
  have h := h.snoc ⟨.runs (t := 1) (.pop 0) ⟨[], false⟩ (.wait .notEmpty) rfl rfl, nofun⟩
  have h := h.snoc ⟨.call (t := 2) (c := .push 7) rfl, fun _ hc => by cases hc; rfl⟩
  have h := h.snoc
    ⟨.runs (t := 2) (.push 7) ⟨[7], false⟩ (.leave [.one .notEmpty] (.bool true)) rfl rfl, nofun⟩
  have h₂ := h.of_restrict.stay.snoc (.notifyOne (t := 2) (u := 0) rfl rfl)
  have h₂ := h₂.snoc
    (.runs (t := 0) (.pop 7) ⟨[], false⟩ (.leave [.one .notFull] (.bool true)) rfl rfl)
  have h₂ := h₂.snoc (.notifyNone (t := 0) rfl (fun | 0 => nofun | 1 => nofun | 2 => nofun))
  have h₂ := h₂.snoc (.ret (t := 0) rfl)
  have h₂ := h₂.snoc (.ret (t := 2) rfl)
  exact ⟨_, _, _, h₂, rfl, by simp, rfl, settles h.reach h₂ (by simp [Event.runs])⟩

/-- A `close` of thread 1 that is past its section, and the sleeping `pop`: at most twelve steps. -/
theorem close_unblocks_all_run : ∃ (tr : List (Label (Fin 2) Nat)) (s s' : State (Fin 2) Nat),
    s.phase 0 = .waiting .notEmpty (.pop 0) ∧ s'.phase 0 = .woken .notEmpty (.pop 0) true ∧
      (queue Nat (Fin 2) 1).Steps s tr s' ∧ tr.length ≤ 6 * s.pending ∧
      ((∀ t, s'.phase t = .idle) ∨ ∃ t ev s'', ev.runs = true ∧ Step 1 s' (t, ev) s'') := by
  have h : (queue Nat (Fin 2) 1).Run [] _ := .start (init_idle 1)
  have h := h.snoc (.call (t := 0) (c := .pop 0) rfl)
  have h := h.snoc (.runs (t := 0) (.pop 0) ⟨[], false⟩ (.wait .notEmpty) rfl rfl)
  have h := h.snoc (.call (t := 1) (c := .close) rfl)
  have h := h.snoc
    (.runs (t := 1) .close ⟨[], true⟩ (.leave [.all .notEmpty, .all .notFull] .unit) rfl rfl)
  have h₂ := h.stay.snoc (.notifyAll (t := 1) rfl)
  exact ⟨_, _, _, rfl, rfl, h₂, close_unblocks_all h.reach rfl h₂ (by simp)⟩

end BoundedBlockingQueue

end CommCore
