import CommCore.Comm.QueueClose

/-!
# The wake-ups of `bounded_blocking_queue`

While the queue is open and a thread sleeps on a condition variable, the wake-ups in flight for it
cover what is there for its waiters: the items of `q_` for `cv_not_empty_`, the room for
`cv_not_full_` (`Balanced`). The wake-ups in flight are the threads that left the wait set and have
not looked at the queue yet, and the `notify_one` calls still owed by threads past their `unlock`.

Every step keeps the balance (`Balanced.step`) but one: a timed wait that a notification has ended
and that reports the timeout anyway makes `push_for` and `pop_for` return at once, and the
notification is lost. `Spares` says that such a return loses nothing.

- `no_lost_wakeup`: without the timed functions the balance always holds, and so nobody is
  stranded when nothing is in flight.
- `not_stranded_of_spares`: with them, in the runs whose steps all meet `Spares`. A run that does
  not can strand a waiter (`stranded_by_pop_for`).
-/

namespace CommCore

namespace BoundedBlockingQueue

open Lib

variable {α T : Type}

/-! ## Wake-ups in flight -/

/-- 1 for a thread that left the wait set of `cv` and has not looked at the queue yet. -/
def Phase.wokenOn (cv : Cv) : Phase α → Nat
  | .woken cv' _ _ => if cv' = cv then 1 else 0
  | _ => 0

/-- The `notify_one` calls on `cv` that a thread still owes. -/
def Phase.owesOne (cv : Cv) : Phase α → Nat
  | .unlocked owed _ _ => owed.count (.one cv)
  | _ => 0

/-- 1 for a timed wait on `cv` that a notification has ended and that will report the timeout. -/
def Phase.overtaken (cv : Cv) : Phase α → Nat
  | .expired cv' _ true => if cv' = cv then 1 else 0
  | _ => 0

/-- The wake-ups in flight for `cv`. -/
def Phase.wakeups (cv : Cv) (p : Phase α) : Nat := p.wokenOn cv + p.owesOne cv + p.overtaken cv

section Counts

variable [Fintype T]

/-- The threads woken on `cv` that have not looked at the queue yet. -/
def State.woken (s : State T α) (cv : Cv) : Nat := tally (Phase.wokenOn cv) s.phase

/-- The `notify_one` calls on `cv` still owed by threads past their `unlock`. -/
def State.owed (s : State T α) (cv : Cv) : Nat := tally (Phase.owesOne cv) s.phase

/-- The wake-ups in flight for `cv`. -/
def State.wakeups (s : State T α) (cv : Cv) : Nat := tally (Phase.wakeups cv) s.phase

/-- While the queue is open and a thread sleeps on `cv`, the wake-ups in flight cover what is
there for the waiters. -/
def Balanced (capacity : Nat) (cv : Cv) (s : State T α) : Prop :=
  s.closed = false → s.Sleeps cv → s.avail capacity cv ≤ s.wakeups cv

/-- When the thread of the label looks at the queue after a timed wait that a notification has
ended and that reports the timeout, nothing is lost: the queue is closed, nobody sleeps on the
condition variable, or the other wake-ups in flight cover what is there. -/
def Spares (capacity : Nat) (s : State T α) (l : Label T α) : Prop :=
  ∀ cv c, s.phase l.1 = .expired cv c true →
    s.closed = true ∨ ¬ s.Sleeps cv ∨ s.avail capacity cv < s.wakeups cv

/-- A thread that is not in such a wait loses nothing. -/
theorem spares_of_phase {capacity : Nat} {s : State T α} {l : Label T α} {p : Phase α}
    (h : s.phase l.1 = p) (hp : ∀ cv c, p ≠ .expired cv c true) : Spares capacity s l :=
  fun cv c he => absurd (h.symm.trans he) (hp cv c)

end Counts

/-- No thread is running, woken or owing a notification: each is outside or asleep. -/
def State.Quiet (s : State T α) : Prop :=
  ∀ t, s.phase t = .idle ∨ ∃ cv c, s.phase t = .waiting cv c

theorem wakeups_woken (cv cv₁ : Cv) (c : Call α) (n : Bool) :
    (Phase.woken cv₁ c n).wakeups cv = if cv₁ = cv then 1 else 0 := by
  simp [Phase.wakeups, Phase.wokenOn, Phase.owesOne, Phase.overtaken]

theorem wakeups_expired (cv cv₁ : Cv) (c : Call α) :
    (Phase.expired cv₁ c true).wakeups cv = if cv₁ = cv then 1 else 0 := by
  simp [Phase.wakeups, Phase.wokenOn, Phase.owesOne, Phase.overtaken]

/-- A thread about to lock `m_` is at most one wake-up, and only for its call's condition
variable. -/
theorem wakeups_resume {d : Data α} {p : Phase α} {c : Call α} {b : Bool} (hp : p.Ok d)
    (hr : p.resume = some (c, b)) (cv : Cv) :
    p.wakeups cv ≤ 1 ∧ (c.cv ≠ some cv → p.wakeups cv = 0) := by
  have hone : ∀ cv₁, c.cv = some cv₁ →
      (if cv₁ = cv then 1 else 0) ≤ 1 ∧ (c.cv ≠ some cv → (if cv₁ = cv then 1 else 0) = 0) := by
    intro cv₁ hcv
    by_cases h : cv₁ = cv
    · subst h; exact ⟨by rw [if_pos rfl], fun hne => absurd hcv hne⟩
    · rw [if_neg h]; exact ⟨Nat.zero_le _, fun _ => rfl⟩
  cases p with
  | entering c₁ => exact ⟨Nat.zero_le _, fun _ => rfl⟩
  | woken cv₁ c₁ n => cases hr; rw [wakeups_woken]; exact hone cv₁ hp
  | expired cv₁ c₁ n =>
    cases hr
    cases n with
    | false => exact ⟨Nat.zero_le _, fun _ => rfl⟩
    | true => rw [wakeups_expired]; exact hone cv₁ hp.1
  | _ => cases hr

theorem wakeups_leave (cv : Cv) (owed : List Notify) (c : Call α) (r : Ret) :
    (Phase.unlocked owed c r).wakeups cv = owed.count (.one cv) := by
  simp [Phase.wakeups, Phase.wokenOn, Phase.owesOne, Phase.overtaken]

/-- A timed wait that reports the timeout is a wake-up only if a notification has ended it. -/
theorem expired_of_wakeups {p : Phase α} {c : Call α} {cv : Cv} (hr : p.resume = some (c, true))
    (hz : p.wakeups cv ≠ 0) : p = .expired cv c true := by
  cases p with
  | expired cv₁ c₁ n =>
    cases hr
    cases n with
    | false => exact absurd rfl hz
    | true =>
      rw [wakeups_expired] at hz
      have h : cv₁ = cv := by simpa using hz
      rw [h]
  | _ => cases hr

theorem cv_of_item {c : Call α} {x : α} (h : c.item = some x) : c.cv = some .notFull := by
  cases c <;> first | rfl | cases h

theorem cv_of_out {c : Call α} {x : α} (h : c.out = some x) : c.cv = some .notEmpty := by
  cases c <;> first | rfl | cases h

section Steps

variable [DecidableEq T] [Fintype T] {capacity : Nat}

/-- The wake-ups after a move. -/
theorem wakeups_move (s : State T α) (t : T) (p : Phase α) (cv : Cv) :
    (s.move t p).wakeups cv + (s.phase t).wakeups cv = s.wakeups cv + p.wakeups cv :=
  tally_update (Phase.wakeups cv) s.phase t p

/-- A step of thread `t` alone keeps the balance if what it adds to the queue is covered by what
it adds to the wake-ups. -/
theorem Balanced.move {s : State T α} {cv : Cv} (h : Balanced capacity cv s) {d : Data α} {t : T}
    {p : Phase α} (hc : d.closed = false → s.closed = false)
    (hw : ∀ c, p = .waiting cv c → d.avail capacity cv = 0)
    (ha : d.avail capacity cv + (s.phase t).wakeups cv ≤ s.avail capacity cv + p.wakeups cv) :
    Balanced capacity cv ((s.put d).move t p) := by
  intro hcl hs
  show d.avail capacity cv ≤ _
  rcases hs.of_move with ⟨c, hp⟩ | hs
  · rw [hw c hp]; exact Nat.zero_le _
  · have hb := h (hc hcl) hs
    have hm := wakeups_move (s.put d) t p cv
    have hput : (s.put d).wakeups cv = s.wakeups cv := rfl
    have hph : (s.put d).phase t = s.phase t := rfl
    rw [hput, hph] at hm
    omega

/-- The same for a step that leaves the data as it is. -/
theorem Balanced.stay {s : State T α} {cv : Cv} (h : Balanced capacity cv s) {t : T} {p : Phase α}
    (hw : ∀ c, p ≠ .waiting cv c) (ha : (s.phase t).wakeups cv ≤ p.wakeups cv) :
    Balanced capacity cv (s.move t p) :=
  Balanced.move (d := s.toData) h id (fun c hp => absurd hp (hw c)) (Nat.add_le_add_left ha _)

/-- The same for a thread that was no wake-up. -/
theorem Balanced.stay_free {s : State T α} {cv : Cv} (h : Balanced capacity cv s) {t : T}
    {p₀ p : Phase α} (ht : s.phase t = p₀) (hz : p₀.wakeups cv = 0)
    (hw : ∀ c, p ≠ .waiting cv c) : Balanced capacity cv (s.move t p) := by
  refine h.stay hw ?_
  rw [ht, hz]
  exact Nat.zero_le _

/-- A timed wait that a notification has ended and that reports the timeout leaves a balanced
queue behind exactly if it can be spared. -/
theorem Balanced.giveUp_iff {s : State T α} {cv : Cv} {t : T} {c c' : Call α} {r : Ret}
    (hp : s.phase t = .expired cv c true) :
    Balanced capacity cv (s.move t (.unlocked [] c' r)) ↔
      s.closed = true ∨ ¬ s.Sleeps cv ∨ s.avail capacity cv < s.wakeups cv := by
  have hm := wakeups_move s t (.unlocked [] c' r) cv
  rw [hp, wakeups_expired, if_pos rfl, wakeups_leave, List.count_nil] at hm
  have hs : (s.move t (.unlocked [] c' r)).Sleeps cv ↔ s.Sleeps cv := by
    refine ⟨fun h => ?_, fun ⟨u, c₁, hu⟩ => ?_⟩
    · rcases h.of_move with ⟨_, h⟩ | h
      · cases h
      · exact h
    · have hut : u ≠ t := fun e => by subst e; rw [hp] at hu; cases hu
      exact ⟨u, c₁, by rw [move_phase_ne _ _ hut]; exact hu⟩
  unfold Balanced
  rw [hs]
  show (s.closed = false → _ → s.avail capacity cv ≤ _) ↔ _
  cases s.closed with
  | true => simp
  | false =>
    by_cases hsl : s.Sleeps cv
    · simp only [hsl, not_true_eq_false, false_or, Bool.false_eq_true, forall_const]; omega
    · simp [hsl]

/-- A section keeps the balance, if its return loses no notification. -/
theorem Balanced.crit {s : State T α} {cv : Cv} (h : Balanced capacity cv s) (hok : s.Ok)
    {t : T} {c c' : Call α} {b : Bool} {d : Data α} {e : Exit}
    (hr : (s.phase t).resume = some (c, b)) (hs : Sect capacity b s.toData c d c' e)
    (hsp : ∀ c, s.phase t = .expired cv c true →
      s.closed = true ∨ ¬ s.Sleeps cv ∨ s.avail capacity cv < s.wakeups cv) :
    Balanced capacity cv ((s.put d).move t (e.phase c')) := by
  obtain ⟨hle, hne⟩ := wakeups_resume (hok t) hr cv
  cases hs with
  | @wait _ cv₁ hcv hcl hav =>
    by_cases hcc : cv₁ = cv
    · subst hcc
      intro _ _
      show s.avail capacity cv₁ ≤ _
      rw [hav]; exact Nat.zero_le _
    · have hz := hne (by rw [hcv]; intro e; cases e; exact hcc rfl)
      exact Balanced.stay_free h rfl hz fun c₁ hp => by cases hp; exact hcc rfl
  | accept hi hcl hlt =>
    have hcv := cv_of_item hi
    refine h.move (fun _ => hcl) (fun _ hp => by cases hp) ?_
    show _ ≤ _ + (Phase.unlocked _ _ _).wakeups cv
    rw [wakeups_leave]
    cases cv with
    | notEmpty =>
      rw [hne (by rw [hcv]; decide)]
      simp [Data.avail]
    | notFull =>
      simp only [Data.avail, List.length_append, List.length_singleton]
      omega
  | @deliver _ o x rest ho hq =>
    have hcv := cv_of_out ho
    refine h.move id (fun _ hp => by cases hp) ?_
    show _ ≤ _ + (Phase.unlocked _ _ _).wakeups cv
    rw [wakeups_leave]
    cases cv with
    | notEmpty =>
      simp only [Data.avail, hq, List.length_cons]
      omega
    | notFull =>
      rw [hne (by rw [hcv]; decide)]
      simp [Data.avail, hq]
      omega
  | refuse hrf =>
    intro hcl hsl
    change s.closed = false at hcl
    rcases hrf with ⟨rfl, -⟩ | ⟨hc, -⟩ | ⟨hc, -⟩
    · by_cases hz : (s.phase t).wakeups cv = 0
      · exact Balanced.stay_free h rfl hz (fun _ hp => by cases hp) hcl hsl
      · have hp := expired_of_wakeups hr hz
        exact (Balanced.giveUp_iff hp).mpr (hsp c hp) hcl hsl
    · rw [hcl] at hc; cases hc
    · rw [hcl] at hc; cases hc
  | close => intro hcl; cases hcl
  | closed => exact Balanced.stay_free h rfl (hne (by simp [Call.cv])) fun _ hp => by cases hp
  | size => exact Balanced.stay_free h rfl (hne (by simp [Call.cv])) fun _ hp => by cases hp

/-- **Every step that loses no notification keeps the balance.** -/
theorem Balanced.step {s s' : State T α} {l : Label T α} {cv : Cv} (h : Balanced capacity cv s)
    (hok : s.Ok) (hst : Step capacity s l s') (hsp : Spares capacity s l) :
    Balanced capacity cv s' := by
  cases hst with
  | call ht => exact h.stay_free ht rfl nofun
  | crit hr hs => exact h.crit hok hr (section_sect hs) fun c hp => hsp cv c hp
  | @notifyOne t u cv₁ owed c c' r ht hu =>
    have hne : t ≠ u := fun e => by subst e; rw [ht] at hu; cases hu
    intro hcl hs
    -- the notification moves from the one thread to the other
    have hm₁ := wakeups_move s u (.woken cv₁ c' true) cv
    have hm₂ := wakeups_move (s.move u (.woken cv₁ c' true)) t (.unlocked owed c r) cv
    rw [move_phase_ne _ _ hne, ht, wakeups_leave, wakeups_leave, List.count_cons] at hm₂
    rw [hu] at hm₁
    have hw : (Phase.waiting cv₁ c').wakeups cv = 0 := rfl
    have hw' := wakeups_woken cv cv₁ c' true
    have hi : (if Notify.one cv₁ == Notify.one cv then 1 else 0) = if cv₁ = cv then 1 else 0 := by
      simp
    have hs' : s.Sleeps cv := by
      rcases hs.of_move with ⟨_, hp⟩ | hs
      · cases hp
      rcases hs.of_move with ⟨_, hp⟩ | hs
      · cases hp
      exact hs
    have hb := h hcl hs'
    show s.avail capacity cv ≤ _
    omega
  | @notifyNone t cv₁ owed c r ht hno =>
    by_cases hcc : cv₁ = cv
    · subst hcc
      intro _ hs
      rcases hs.of_move with ⟨_, hp⟩ | ⟨u, c₁, hu⟩
      · cases hp
      · exact absurd hu (hno u c₁)
    · refine h.stay (fun _ hp => by cases hp) ?_
      rw [ht, wakeups_leave, wakeups_leave, List.count_cons_of_ne (by simpa using hcc)]
  | @notifyAll t cv₁ owed c r ht =>
    intro hcl
    have hc := ((hok.at ht).1 cv₁ List.mem_cons_self).2
    exact absurd (hc.symm.trans hcl) (by decide)
  | spurious ht => exact h.stay_free ht rfl nofun
  | timeout ht _ => exact h.stay_free ht rfl nofun
  | overtake ht _ =>
    refine h.stay (fun _ hp => by cases hp) ?_
    rw [ht, wakeups_woken, wakeups_expired]
  | ret ht => exact h.stay_free ht (wakeups_leave cv [] _ _) nofun

/-- The balance holds in every run that loses no notification. -/
theorem balanced_inductive (capacity : Nat) (cv : Cv) :
    ((queue α T capacity).restrict (Spares capacity)).Inductive
      fun s => s.Ok ∧ Balanced capacity cv s :=
  (ok_inductive.restrict).and
    (fun s hi _ ⟨t, c, ht⟩ => by rw [hi.2.2 t] at ht; cases ht)
    fun _ _ _ hok hb hst => hb.step hok hst.1 hst.2

omit [DecidableEq T] in
/-- Nothing is in flight in a quiet state. -/
theorem wakeups_of_quiet {s : State T α} (hq : s.Quiet) (cv : Cv) : s.wakeups cv = 0 :=
  tally_eq_zero fun t => by
    rcases hq t with ht | ⟨cv', c, ht⟩ <;> rw [ht] <;> rfl

omit [Fintype T] in
/-- Nobody sleeps on a closed queue in a quiet state. -/
theorem open_of_quiet {s : State T α} (hs : (queue α T capacity).Reach s) (hq : s.Quiet) {cv : Cv}
    (hsl : s.Sleeps cv) : s.closed = false := by
  refine Bool.eq_false_iff.mpr fun hc => ?_
  obtain ⟨t, ht⟩ := closeOwes_inductive.reach hs hc cv hsl
  rcases hq t with h | ⟨cv', c, h⟩ <;> rw [h] at ht <;> exact ht

/-- In a quiet and balanced state there is nothing for a sleeper. -/
theorem Balanced.quiet {s : State T α} {cv : Cv} (h : Balanced capacity cv s)
    (hs : (queue α T capacity).Reach s) (hq : s.Quiet) (hsl : s.Sleeps cv) :
    s.avail capacity cv = 0 := by
  have hb := h (open_of_quiet hs hq hsl) hsl
  rw [wakeups_of_quiet hq] at hb
  exact Nat.le_zero.mp hb

/-- **Giving up strands nobody if no notification is lost.** In every run, of any calls, whose
steps all meet `Spares`: when no thread is running, woken or owing a notification, nobody sleeps on
`cv_not_empty_` while `q_` has an item, nor on `cv_not_full_` while it has room. -/
theorem not_stranded_of_spares {s : State T α}
    (hs : ((queue α T capacity).restrict (Spares capacity)).Reach s) (hq : s.Quiet) :
    ¬ (s.Sleeps .notEmpty ∧ s.q ≠ []) ∧ ¬ (s.Sleeps .notFull ∧ s.q.length < capacity) := by
  have hr := hs.of_restrict
  refine ⟨fun ⟨hsl, hne⟩ => ?_, fun ⟨hsl, hlt⟩ => ?_⟩
  · have h := ((balanced_inductive capacity .notEmpty).reach hs).2.quiet hr hq hsl
    exact hne (List.eq_nil_of_length_eq_zero h)
  · have h := ((balanced_inductive capacity .notFull).reach hs).2.quiet hr hq hsl
    simp only [Data.avail] at h
    omega

end Steps

/-- The `pop` of thread 0 and the `pop_for` of thread 1 sleep. Thread 2 pushes an item, and the
`pop` of thread 3 takes it before thread 2 notifies. The notification meets the deadline of the
`pop_for`, which gives up: the notification is lost, but the queue is empty again. -/
theorem not_stranded_of_spares_run : ∃ tr, ∃ s : State (Fin 4) Nat,
    ((queue Nat (Fin 4) 1).restrict (Spares 1)).Run tr s ∧
      (1, .overtake) ∈ tr ∧ (1, .crit (.popFor 0) (.leave [] (.bool false))) ∈ tr ∧
      s.Quiet ∧ s.Sleeps .notEmpty ∧
      ¬ (s.Sleeps .notEmpty ∧ s.q ≠ []) ∧ ¬ (s.Sleeps .notFull ∧ s.q.length < 1) := by
  have h : ((queue Nat (Fin 4) 1).restrict (Spares 1)).Run [] _ := .start (init_idle 1)
  have h := h.snoc ⟨.call (t := 0) (c := .pop 0) rfl, spares_of_phase rfl nofun⟩
  have h := h.snoc
    ⟨.runs (t := 0) (.pop 0) ⟨[], false⟩ (.wait .notEmpty) rfl rfl, spares_of_phase rfl nofun⟩
  have h := h.snoc ⟨.call (t := 1) (c := .popFor 0) rfl, spares_of_phase rfl nofun⟩
  have h := h.snoc
    ⟨.runs (t := 1) (.popFor 0) ⟨[], false⟩ (.wait .notEmpty) rfl rfl, spares_of_phase rfl nofun⟩
  have h := h.snoc ⟨.call (t := 2) (c := .push 7) rfl, spares_of_phase rfl nofun⟩
  have h := h.snoc ⟨.runs (t := 2) (.push 7) ⟨[7], false⟩ (.leave [.one .notEmpty] (.bool true))
    rfl rfl, spares_of_phase rfl nofun⟩
  have h := h.snoc ⟨.call (t := 3) (c := .pop 0) rfl, spares_of_phase rfl nofun⟩
  have h := h.snoc ⟨.runs (t := 3) (.pop 7) ⟨[], false⟩ (.leave [.one .notFull] (.bool true))
    rfl rfl, spares_of_phase rfl nofun⟩
  have h := h.snoc ⟨.notifyOne (t := 2) (u := 1) rfl rfl, spares_of_phase rfl nofun⟩
  have h := h.snoc ⟨.overtake (t := 1) rfl rfl, spares_of_phase rfl nofun⟩
  -- there are 0 items and 1 wake-up in flight, so this one can be spared
  have h := h.snoc ⟨.runs (t := 1) (.popFor 0) ⟨[], false⟩ (.leave [] (.bool false)) rfl rfl,
    fun | .notEmpty, _, rfl => .inr (.inr (by decide))⟩
  have h := h.snoc ⟨.notifyNone (t := 3) rfl
    (fun | 0 => nofun | 1 => nofun | 2 => nofun | 3 => nofun), spares_of_phase rfl nofun⟩
  have h := h.snoc ⟨.ret (t := 1) rfl, spares_of_phase rfl nofun⟩
  have h := h.snoc ⟨.ret (t := 2) rfl, spares_of_phase rfl nofun⟩
  have h := h.snoc ⟨.ret (t := 3) rfl, spares_of_phase rfl nofun⟩
  refine ⟨_, _, h, by simp, by simp, ?quiet, ⟨0, .pop 0, rfl⟩,
    not_stranded_of_spares h.reach ?quiet⟩
  exact fun t => match t with
    | 0 => .inr ⟨.notEmpty, .pop 0, rfl⟩
    | 1 | 2 | 3 => .inl rfl

/-- A notification meets the deadline of the `pop_for` of thread 1: it reports the timeout, and the
`pop` of thread 0 sleeps on beside an item. -/
theorem stranded_by_pop_for : ∃ s : State (Fin 3) Nat, (queue Nat (Fin 3) 1).Reach s ∧ s.Quiet ∧
    s.Sleeps .notEmpty ∧ s.q ≠ [] := by
  have h : (queue Nat (Fin 3) 1).Run [] _ := .start (init_idle 1)
  have h := h.snoc (.call (t := 0) (c := .pop 0) rfl)
  have h := h.snoc (.runs (t := 0) (.pop 0) ⟨[], false⟩ (.wait .notEmpty) rfl rfl)
  have h := h.snoc (.call (t := 1) (c := .popFor 0) rfl)
  have h := h.snoc (.runs (t := 1) (.popFor 0) ⟨[], false⟩ (.wait .notEmpty) rfl rfl)
  have h := h.snoc (.call (t := 2) (c := .push 7) rfl)
  have h := h.snoc
    (.runs (t := 2) (.push 7) ⟨[7], false⟩ (.leave [.one .notEmpty] (.bool true)) rfl rfl)
  have h := h.snoc (.notifyOne (t := 2) (u := 1) rfl rfl)
  have h := h.snoc (.overtake (t := 1) rfl rfl)
  have h := h.snoc (.runs (t := 1) (.popFor 0) ⟨[7], false⟩ (.leave [] (.bool false)) rfl rfl)
  have h := h.snoc (.ret (t := 1) rfl)
  have h := h.snoc (.ret (t := 2) rfl)
  exact ⟨_, h.reach, fun t => match t with
    | 0 => .inr ⟨.notEmpty, .pop 0, rfl⟩
    | 1 | 2 => .inl rfl, ⟨0, .pop 0, rfl⟩, fun e => by cases e⟩

/-! ## Runs without the timed functions -/

section Untimed

variable [DecidableEq T] [Fintype T] {capacity : Nat}

/-- The label is not a call of `push_for` or `pop_for`. -/
def Untimed (_ : State T α) (l : Label T α) : Prop := ∀ c, l.2 = .call c → c.timed = false

/-- A thread that is not in a timed function. -/
def Phase.Untimed : Phase α → Prop
  | .entering c | .waiting _ c | .woken _ c _ => c.timed = false
  | .expired _ _ _ => False
  | _ => True

theorem Phase.Untimed.wake {p : Phase α} (h : p.Untimed) (cv : Cv) : (p.wake cv).Untimed := by
  rcases wake_cases cv p with ⟨hw, -⟩ | ⟨c, rfl, hw⟩
  · rw [hw]; exact h
  · rw [hw]; exact h

theorem timed_of_resume {p : Phase α} {c : Call α} {b : Bool} (h : p.Untimed)
    (hr : p.resume = some (c, b)) : c.timed = false := by
  cases p <;> cases hr <;> first | exact h | exact h.elim

omit [Fintype T] in
theorem untimed_inductive : ((queue α T capacity).restrict Untimed).Inductive
    fun s => ∀ t, (s.phase t).Untimed where
  init s hi := fun t => by rw [hi.2.2 t]; trivial
  step s l s' h := fun ⟨hst, hl⟩ => by
    have hat : ∀ {t : T} {p : Phase α}, s.phase t = p → p.Untimed := fun hp => hp ▸ h _
    cases hst with
    | @call t c ht => exact forall_move h (hl c rfl)
    | @crit t c c' b d e hr hs =>
      have ht := timed_of_resume (h t) hr
      have hput : ∀ u, ((s.put d).phase u).Untimed := h
      refine forall_move hput ?_
      cases section_sect hs with
      | wait _ _ _ => exact ht
      | _ => trivial
    | @notifyOne t u cv owed c c' r _ hu =>
      have hw := hat hu
      have hwoken : ∀ t, ((s.move u (.woken cv c' true)).phase t).Untimed := forall_move h hw
      exact forall_move hwoken trivial
    | notifyNone _ _ => exact forall_move h trivial
    | @notifyAll t cv owed c r ht =>
      have hw : ∀ u, ((s.wakeAll cv).phase u).Untimed := fun u => (h u).wake cv
      exact forall_move hw trivial
    | spurious ht =>
      have hw := hat ht
      exact forall_move h hw
    | timeout ht htm =>
      have hw := hat ht
      exact absurd (htm.symm.trans hw) (by decide)
    | overtake ht htm =>
      have hw := hat ht
      exact absurd (htm.symm.trans hw) (by decide)
    | ret _ => exact forall_move h trivial

/-- A run without the timed functions loses no notification. -/
theorem spares_of_untimed {s : State T α}
    (hs : ((queue α T capacity).restrict Untimed).Reach s) :
    ((queue α T capacity).restrict (Spares capacity)).Reach s := by
  obtain ⟨tr, s₀, hi, hst⟩ := hs
  refine ⟨tr, s₀, hi, ?_⟩
  induction hst with
  | nil => exact .nil
  | @snoc tr l u v htr hst ih =>
    refine ih.snoc ⟨hst.1, fun cv c hp => ?_⟩
    have hu := untimed_inductive.reach ⟨tr, s₀, hi, htr⟩ l.1
    rw [hp] at hu
    exact hu.elim

omit [DecidableEq T] in
theorem wakeups_of_untimed {s : State T α} (h : ∀ t, (s.phase t).Untimed) (cv : Cv) :
    s.wakeups cv = s.woken cv + s.owed cv := by
  have ho : tally (Phase.overtaken cv) s.phase = 0 := tally_eq_zero fun t => by
    have := h t
    cases hp : s.phase t with
    | expired _ _ _ => rw [hp] at this; exact this.elim
    | _ => rfl
  unfold State.wakeups State.woken State.owed
  unfold Phase.wakeups
  rw [tally_add, tally_add, ho, Nat.add_zero]

/-- What holds in a reachable state of a run of `push`, `pop`, `close`, `closed` and `size`:

* `items`, `room`: while the queue is open and a thread sleeps on a condition variable, what is
  there for it is at most the threads woken on it that have not looked yet, plus the `notify_one`
  calls on it still owed;
* `quiet`: when nothing is in flight, a thread sleeps on `cv_not_empty_` only if `q_` is empty and
  on `cv_not_full_` only if it is full; so, with a capacity of at least 1, not on both. -/
structure NoLostWakeup (capacity : Nat) (s : State T α) : Prop where
  items : s.closed = false → s.Sleeps .notEmpty → s.q.length ≤ s.woken .notEmpty + s.owed .notEmpty
  room : s.closed = false → s.Sleeps .notFull →
    capacity - s.q.length ≤ s.woken .notFull + s.owed .notFull
  quiet : s.Quiet → (s.Sleeps .notEmpty → s.q = []) ∧
    (s.Sleeps .notFull → s.q.length = capacity) ∧
    (1 ≤ capacity → ¬ (s.Sleeps .notEmpty ∧ s.Sleeps .notFull))

/-- **No lost wake-up between `push` and `pop`**, in every run of the untimed functions. -/
theorem no_lost_wakeup {s : State T α} (hs : ((queue α T capacity).restrict Untimed).Reach s) :
    NoLostWakeup capacity s := by
  have hr := hs.of_restrict
  have hw := wakeups_of_untimed (untimed_inductive.reach hs)
  have hb : ∀ cv, Balanced capacity cv s := fun cv =>
    ((balanced_inductive capacity cv).reach (spares_of_untimed hs)).2
  have hcap : s.q.length ≤ capacity := by
    obtain ⟨tr, hrun⟩ := hr
    exact (accepted_eq_delivered_append hrun).2
  refine ⟨fun hc hsl => ?_, fun hc hsl => ?_, fun hq => ?_⟩
  · rw [← hw]; exact hb .notEmpty hc hsl
  · rw [← hw]; exact hb .notFull hc hsl
  · have hitems : s.Sleeps .notEmpty → s.q.length = 0 := (hb .notEmpty).quiet hr hq
    have hroom : s.Sleeps .notFull → capacity - s.q.length = 0 := (hb .notFull).quiet hr hq
    refine ⟨fun hsl => List.eq_nil_of_length_eq_zero (hitems hsl), fun hsl => ?_,
      fun h1 ⟨hsl, hsl'⟩ => ?_⟩
    · have := hroom hsl; omega
    · have := hitems hsl; have := hroom hsl'; omega

end Untimed

/-- A `pop` of thread 0 sleeps, and a `push` of thread 1 has not notified yet. -/
theorem no_lost_wakeup_run : ∃ s : State (Fin 2) Nat, s.Sleeps .notEmpty ∧ s.q = [7] ∧
    NoLostWakeup 1 s := by
  have h : ((queue Nat (Fin 2) 1).restrict Untimed).Run [] _ := .start (init_idle 1)
  have h := h.snoc ⟨.call (t := 0) (c := .pop 0) rfl, fun _ hc => by cases hc; rfl⟩
  have h := h.snoc ⟨.runs (t := 0) (.pop 0) ⟨[], false⟩ (.wait .notEmpty) rfl rfl, nofun⟩
  have h := h.snoc ⟨.call (t := 1) (c := .push 7) rfl, fun _ hc => by cases hc; rfl⟩
  have h := h.snoc
    ⟨.runs (t := 1) (.push 7) ⟨[7], false⟩ (.leave [.one .notEmpty] (.bool true)) rfl rfl, nofun⟩
  exact ⟨_, ⟨0, .pop 0, rfl⟩, rfl, no_lost_wakeup h.reach⟩

end BoundedBlockingQueue

end CommCore
