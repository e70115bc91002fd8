import CommCore.Comm.QueueLemmas
import CommCore.Lib.Monitor

/-!
# The statements of `bounded_blocking_queue` under `m_`

`queue` takes what a member function does while it holds `m_` as one step. Here every statement is a
step of its own, and `m_` is a mutex (`Lib.Monitor`):

- **Code.** `Stmt` are the statements after the lock, `stmt` is what each of them does: it reads or
  changes `q_` and `closed_`, and leads to the next one or gives `m_` up. A thread that comes back
  from a wait locks `m_` again, at the head of the `while`, or at the `return false` after
  `timed_wait` (`enter`). `none` is undefined behaviour: `front` or `pop_front` of an empty deque.
- **The same runs.** A section of `code` is a section of the queue (`exec_section`), so the system
  of single statements and `queue` have the same runs but for the statements (`statement_runs`):
  what is proved of every run of `queue` holds of the code as it stands.
- **The mutex** (`mutex_discipline`). One thread at a time is between its lock and its unlock; what
  it has tested stays true until it acts on it, so that no statement is undefined; it never waits
  there, and gives `m_` up after seven statements at most.
-/

namespace CommCore

namespace BoundedBlockingQueue

open Lib

variable {α T : Type}

/-! ## The code -/

/-- The statements of the member functions once they have locked `m_`. -/
inductive Stmt (α : Type) where
  /-- `const auto deadline = boost::get_system_time() + timeout;` -/
  | deadline (c : Call α)
  /-- `!closed_`, the first operand of the `while`. -/
  | whileOpen (c : Call α)
  /-- `q_.size() >= capacity_` or `q_.empty()`, the second operand. -/
  | whileBlocked (c : Call α)
  /-- `wait(lk)` or `timed_wait(lk, deadline)`. -/
  | wait (c : Call α)
  /-- `if (closed_)` or `if (q_.empty())`, after the loop. -/
  | ifEnded (c : Call α)
  /-- `q_.push_back(std::move(item));` -/
  | pushBack (c : Call α)
  /-- `out = std::move(q_.front());` -/
  | front (c : Call α)
  /-- `q_.pop_front();` -/
  | popFront (c : Call α)
  /-- `closed_ = true;` -/
  | setClosed
  /-- `return closed_;` -/
  | readClosed
  /-- `return q_.size();` -/
  | readSize
  /-- `lk.unlock()`, or the end of the lock's scope at a `return`. -/
  | unlock (owed : List Notify) (c : Call α) (r : Ret)
  deriving DecidableEq, Repr

/-- The second operand of the `while` of a call. -/
def Call.blocked (capacity : Nat) (d : Data α) : Call α → Option Bool
  | .push _ | .pushFor _ => some (decide (capacity ≤ d.q.length))
  | .pop _ | .popFor _ => some d.q.isEmpty
  | _ => none

/-- The condition of the `if` after the loop, and the statement after it. -/
def Call.ended (d : Data α) (c : Call α) : Option (Bool × Stmt α) :=
  match c with
  | .push _ | .pushFor _ => some (d.closed, .pushBack c)
  | .pop _ | .popFor _ => some (d.q.isEmpty, .front c)
  | _ => none

/-- One statement of a call in a thread that holds `m_`. -/
def stmt (capacity : Nat) :
    Stmt α → Data α → Option (Data α × Goto (Stmt α) (Event α) (Phase α))
  | .deadline c, d => some (d, .next (.whileOpen c))
  | .whileOpen c, d => some (d, .next (if d.closed then .ifEnded c else .whileBlocked c))
  | .whileBlocked c, d => (c.blocked capacity d).map fun blocked =>
    (d, .next (if blocked then .wait c else .ifEnded c))
  | .wait c, d => c.cv.map fun cv => (d, .leave (.crit c (.wait cv)) (.waiting cv c))
  | .ifEnded c, d => (c.ended d).map fun (ended, k) =>
    (d, .next (if ended then .unlock [] c (.bool false) else k))
  | .pushBack c, d => c.item.map fun item =>
    ({ d with q := d.q ++ [item] }, .next (.unlock [.one .notEmpty] c (.bool true)))
  | .front c, d => d.q.head?.map fun front => (d, .next (.popFront (c.setOut front)))
  | .popFront c, d => match d.q with
    | [] => none
    | _ :: rest => some ({ d with q := rest }, .next (.unlock [.one .notFull] c (.bool true)))
  | .setClosed, d => some ({ d with closed := true },
    .next (.unlock [.all .notEmpty, .all .notFull] .close .unit))
  | .readClosed, d => some (d, .next (.unlock [] .closed (.bool d.closed)))
  | .readSize, d => some (d, .next (.unlock [] .size (.size d.q.length)))
  | .unlock owed c r, d => some (d, .leave (.crit c (.leave owed r)) (.unlocked owed c r))

/-- The first statement of a call under `m_`. -/
def Call.first : Call α → Stmt α
  | .push item => .whileOpen (.push item)
  | .pushFor item => .deadline (.pushFor item)
  | .pop out => .whileOpen (.pop out)
  | .popFor out => .deadline (.popFor out)
  | .close => .setClosed
  | .closed => .readClosed
  | .size => .readSize

/-- The statement at which a thread that is about to lock `m_` goes on: the first one, or after its
wait the head of the `while`, or `return false` if `timed_wait` reports the timeout. -/
def enter : Phase α → Option (Stmt α)
  | .entering c => some c.first
  | .woken _ c _ => some (.whileOpen c)
  | .expired _ c _ => some (.unlock [] c (.bool false))
  | _ => none

section Code

variable [DecidableEq T]

/-- A step without `m_`: a step of the queue that is not a section. It leaves the data alone. -/
def Outer (capacity : Nat) (f : T → Phase α) (t : T) (ev : Event α) (g : T → Phase α) : Prop :=
  (∀ c e, ev ≠ .crit c e) ∧ ∀ d, Step capacity ⟨d, f⟩ (t, ev) ⟨d, g⟩

variable (α T) in
/-- The queue of the given capacity, statement by statement, and the threads `T`. -/
def code (capacity : Nat) : Monitor T (Data α) (Phase α) (Stmt α) (Event α) where
  init d f := d.q = [] ∧ d.closed = false ∧ ∀ t, f t = .idle
  enter := enter
  stmt := stmt capacity
  outer := Outer capacity
  outer_frame f t ev g hst u hu he := by
    rcases phase_of_step_ne (hst.2 ⟨[], false⟩) hu with h | ⟨cv, c, h, -⟩
    · exact h
    · change f u = _ at h
      rw [h] at he
      exact absurd rfl he

/-! ## Sections -/

variable {capacity : Nat}

/-- `push` and `push_for`, from the head of the `while`. -/
theorem exec_push {c : Call α} {x : α} (d : Data α) (hx : c.item = some x) :
    (code α T capacity).exec 6 (.whileOpen c) d =
      some ((push capacity x d).1, .crit c (push capacity x d).2,
        (push capacity x d).2.phase c) := by
  have hcv : c.cv = some .notFull := by cases c <;> first | rfl | cases hx
  have hblocked : c.blocked capacity d = some (decide (capacity ≤ d.q.length)) := by
    cases c <;> first | rfl | cases hx
  have hended : c.ended d = some (d.closed, .pushBack c) := by
    cases c <;> first | rfl | cases hx
  cases hcl : d.closed <;> by_cases hq : capacity ≤ d.q.length <;>
    simp [Monitor.exec, code, stmt, push, hx, hcv, hblocked, hended, hcl, hq, Exit.phase]

/-- `pop` and `pop_for`, from the head of the `while`. -/
theorem exec_pop {c : Call α} {o : α} (d : Data α) (ho : c.out = some o) (hs : c.setOut o = c) :
    (code α T capacity).exec 6 (.whileOpen c) d =
      some ((pop o d).1, .crit (c.setOut (pop o d).2.1) (pop o d).2.2,
        (pop o d).2.2.phase (c.setOut (pop o d).2.1)) := by
  have hcv : c.cv = some .notEmpty := by cases c <;> first | rfl | cases ho
  have hblocked : c.blocked capacity d = some d.q.isEmpty := by
    cases c <;> first | rfl | cases ho
  have hended : c.ended d = some (d.q.isEmpty, .front c) := by
    cases c <;> first | rfl | cases ho
  cases hcl : d.closed <;> cases hq : d.q <;>
    simp [Monitor.exec, code, stmt, pop, hcv, hblocked, hended, hcl, hq, Exit.phase, hs]

/-- A call that may wait, from the head of its `while`. -/
theorem exec_while {c c' : Call α} {cv : Cv} {d d' : Data α} {e : Exit} (hcv : c.cv = some cv)
    (hs : c.section capacity false d = (d', c', e)) :
    (code α T capacity).exec 6 (.whileOpen c) d = some (d', .crit c' e, e.phase c') := by
  cases c with
  | push x => cases hs; exact exec_push d rfl
  | pushFor x => cases hs; exact exec_push d rfl
  | pop o => cases hs; exact exec_pop d rfl rfl
  | popFor o => cases hs; exact exec_pop d rfl rfl
  | _ => cases hcv

/-- **The statements of a section do what the section does**, and are seven at most. -/
theorem exec_section {p : Phase α} {c c' : Call α} {timedOut : Bool} {d d' : Data α} {e : Exit}
    (hp : p.Ok d) (hr : p.resume = some (c, timedOut))
    (hs : c.section capacity timedOut d = (d', c', e)) :
    ∃ k, enter p = some k ∧
      (code α T capacity).exec 7 k d = some (d', .crit c' e, e.phase c') := by
  cases p with
  | entering c₁ =>
    cases hr
    refine ⟨c.first, rfl, ?_⟩
    have hwhile : ∀ cv, c.cv = some cv →
        (code α T capacity).exec 6 (.whileOpen c) d = some (d', .crit c' e, e.phase c') :=
      fun cv hcv => exec_while hcv hs
    cases c with
    | push x => exact Monitor.exec_mono (hwhile .notFull rfl) (by omega)
    | pushFor x => exact (Monitor.exec_next rfl).trans (hwhile .notFull rfl)
    | pop o => exact Monitor.exec_mono (hwhile .notEmpty rfl) (by omega)
    | popFor o => exact (Monitor.exec_next rfl).trans (hwhile .notEmpty rfl)
    | _ => cases hs; rfl
  | woken cv c₁ n =>
    cases hr
    exact ⟨_, rfl, Monitor.exec_mono (exec_while hp hs) (by omega)⟩
  | expired cv c₁ n =>
    cases hr
    refine ⟨_, rfl, ?_⟩
    cases c with
    | pushFor x => cases hs; rfl
    | popFor o => cases hs; rfl
    | _ => cases hp.2
  | _ => cases hr

theorem resume_of_enter {p : Phase α} {k : Stmt α} (h : enter p = some k) :
    ∃ c timedOut, p.resume = some (c, timedOut) := by
  cases p <;> first | exact ⟨_, _, rfl⟩ | cases h

/-! ## The same runs -/

/-- A step of the sections of `code` is a step of the queue. -/
theorem step_of_code {a b : Data α × (T → Phase α)} {l : Label T α}
    (hok : (⟨a.1, a.2⟩ : State T α).Ok) (hst : (code α T capacity).AtomicStep a l b) :
    Step capacity ⟨a.1, a.2⟩ l ⟨b.1, b.2⟩ := by
  cases hst with
  | @exec d d' f t k n v p he hx =>
    obtain ⟨c, timedOut, hr⟩ := resume_of_enter he
    obtain ⟨⟨d₁, c', e⟩, hs⟩ : ∃ x, c.section capacity timedOut d = x := ⟨_, rfl⟩
    obtain ⟨k', hk', hx'⟩ := exec_section (T := T) (hok t) hr hs
    obtain rfl : k = k' := Option.some.inj (he.symm.trans hk')
    cases Monitor.exec_unique hx hx'
    exact .crit (s := ⟨d, f⟩) hr hs
  | outer hg => exact hg.2 _

/-- A step of the queue is a step of the sections of `code`. -/
theorem code_of_step {s s' : State T α} {l : Label T α} (hok : s.Ok) (hst : Step capacity s l s') :
    (code α T capacity).AtomicStep (s.toData, s.phase) l (s'.toData, s'.phase) := by
  cases hst with
  | crit hr hs =>
    obtain ⟨k, hk, hx⟩ := exec_section (T := T) (hok _) hr hs
    exact .exec hk hx
  | call ht => exact .outer ⟨nofun, fun d => .call ht⟩
  | notifyOne ht hu => exact .outer ⟨nofun, fun d => .notifyOne ht hu⟩
  | notifyNone ht hno => exact .outer ⟨nofun, fun d => .notifyNone ht hno⟩
  | notifyAll ht => exact .outer ⟨nofun, fun d => .notifyAll ht⟩
  | spurious ht => exact .outer ⟨nofun, fun d => .spurious ht⟩
  | timeout ht hc => exact .outer ⟨nofun, fun d => .timeout ht hc⟩
  | overtake ht hc => exact .outer ⟨nofun, fun d => .overtake ht hc⟩
  | ret ht => exact .outer ⟨nofun, fun d => .ret ht⟩

theorem atomic_ok_inductive : (code α T capacity).atomic.Inductive
    fun a => (⟨a.1, a.2⟩ : State T α).Ok where
  init a h := fun t => by
    show (a.2 t).Ok a.1
    rw [h.2.2 t]
    trivial
  step _ _ _ hok hst := hok.step (step_of_code hok hst)

/-- The runs of the sections of `code` are those of the queue. -/
theorem atomic_run_iff {tr : List (Label T α)} {s : State T α} :
    (code α T capacity).atomic.Run tr (s.toData, s.phase) ↔ (queue α T capacity).Run tr s := by
  have hto : Simulation (code α T capacity).atomic (queue α T capacity)
      (fun a => (⟨a.1, a.2⟩ : State T α).Ok) (fun a => ⟨a.1, a.2⟩) some :=
    ⟨fun _ h => h, fun _ _ _ hok hst => step_of_code hok hst⟩
  have hof : Simulation (queue α T capacity) (code α T capacity).atomic State.Ok
      (fun s => (s.toData, s.phase)) some :=
    ⟨fun _ h => h, fun _ _ _ hok hst => code_of_step hok hst⟩
  refine ⟨fun h => ?_, fun h => ?_⟩
  · have h' := hto.run atomic_ok_inductive h
    rw [List.filterMap_some] at h'
    exact h'
  · have h' := hof.run ok_inductive h
    rw [List.filterMap_some] at h'
    exact h'

/-- Every section ends, after seven statements at most. -/
theorem section_ends {a : Data α × (T → Phase α)} (ha : (code α T capacity).atomic.Reach a) {t : T}
    {k : Stmt α} (hk : enter (a.2 t) = some k) :
    ∃ r, (code α T capacity).exec 7 k a.1 = some r := by
  obtain ⟨c, timedOut, hr⟩ := resume_of_enter hk
  obtain ⟨k', hk', hx⟩ := exec_section (T := T) (atomic_ok_inductive.reach ha t) hr rfl
  obtain rfl : k = k' := Option.some.inj (hk.symm.trans hk')
  exact ⟨_, hx⟩

/-- The queue, as it is between the sections, behind a state of single statements. -/
theorem abs_of_run {tr : List (T × Move (Event α))} {s : Fine T (Data α) (Phase α) (Stmt α)}
    (hr : (code α T capacity).fine.Run tr s) : ∃ q : State T α,
      (queue α T capacity).Run (tr.filterMap visible) q ∧
      (code α T capacity).Abs 7 s (q.toData, q.phase) := by
  obtain ⟨a, ha, habs⟩ :=
    (Monitor.fine_refines fun a ha t k hk => section_ends ha hk).run hr
  exact ⟨⟨a.1, a.2⟩, atomic_run_iff.mp ha, habs⟩

/-- **The statements have the runs of the queue**: for any threads, capacity, calls, interleaving,
wake-ups and timeouts, the runs of single statements, with the steps inside the sections left out,
are the runs of `queue`. -/
theorem statement_runs (tr : List (Label T α)) :
    (∃ tr' s, (code α T capacity).fine.Run tr' s ∧ tr'.filterMap visible = tr) ↔
      ∃ s, (queue α T capacity).Run tr s := by
  rw [Monitor.visible_runs fun a ha t k hk => section_ends ha hk]
  exact ⟨fun ⟨a, ha⟩ => ⟨⟨a.1, a.2⟩, atomic_run_iff.mp ha⟩,
    fun ⟨s, hs⟩ => ⟨_, atomic_run_iff.mpr hs⟩⟩

/-! ## The mutex -/

/-- What holds in a reachable state `s` of single statements:

* `exclusive`: two threads between their lock and their unlock are the same one, and `m_` is theirs;
* `frame`: while a thread holds `m_`, the steps of the others leave `q_` and `closed_` alone;
* `leaves`: a thread that holds `m_` can always take its next step, which is defined, and gives `m_`
  up after seven at most: as long as it has not, it has taken fewer, whatever the others do;
* `between`: when nobody holds `m_`, the queue is one that `queue` reaches. -/
structure MutexDiscipline (capacity : Nat) (s : Fine T (Data α) (Phase α) (Stmt α)) : Prop where
  exclusive : ∀ t u, s.code t ≠ none → s.code u ≠ none → t = u ∧ s.owner = some t
  frame : ∀ t u m s', s.owner = some t → u ≠ t →
    (code α T capacity).FineStep s (u, m) s' → s'.data = s.data
  leaves : ∀ t tr s', s.code t ≠ none → (code α T capacity).fine.Steps s tr s' →
    (∀ ev, (t, .vis ev) ∉ tr) →
    tr.countP (·.1 = t) < 7 ∧ ∃ m s'', (code α T capacity).FineStep s' (t, m) s''
  between : s.owner = none → (queue α T capacity).Reach ⟨s.data, s.place⟩

/-- **The discipline of `m_`**, in every reachable state of single statements. -/
theorem mutex_discipline {s : Fine T (Data α) (Phase α) (Stmt α)}
    (hs : (code α T capacity).fine.Reach s) : MutexDiscipline capacity s := by
  have howns := Monitor.owns_inductive.reach hs
  obtain ⟨tr₀, hr₀⟩ := hs
  obtain ⟨q, hq, habs⟩ := abs_of_run hr₀
  refine ⟨fun t u ht hu => ?_, fun t u m s' ho hne hst => ?_, fun t tr s' ht htr hno => ?_,
    fun hfree => ?_⟩
  · exact ⟨howns.unique hu ht, (howns t).mpr ht⟩
  · have hin := (howns t).mp ho
    cases hst with
    | lock _ _ _ => rfl
    | stmt hk _ => exact absurd (howns.unique hin (by simp [hk])) hne
    | leave hk _ => exact absurd (howns.unique hin (by simp [hk])) hne
    | outer _ _ => rfl
  · obtain ⟨k, hk⟩ := Option.ne_none_iff_exists'.mp ht
    obtain ⟨-, r, -, -, n, hn, hx⟩ := habs.inside t k hk
    obtain ⟨k', m, hk', hm, hcount⟩ := Monitor.inside_steps htr howns hk hx hno
    obtain ⟨m', rfl, ⟨d', k'', hstmt, -⟩ | hstmt⟩ := Monitor.exec_some hm
    · exact ⟨by omega, _, _, .stmt hk' hstmt⟩
    · exact ⟨by omega, _, _, .leave hk' hstmt⟩
  · have hd := habs.free hfree
    have hp := habs.place
    simp only at hd hp
    rw [← hd, ← hp]
    exact hq.reach

theorem outer_call {f : T → Phase α} {t : T} (c : Call α) (ht : f t = .idle) :
    Outer capacity f t (.call c) (Function.update f t (.entering c)) :=
  ⟨nofun, fun d => .call (s := ⟨d, f⟩) ht⟩

end Code

/-- Thread 0 holds `m_` in a `push`, between the two tests of its `while`; thread 1 calls `pop`. -/
theorem mutex_discipline_run : ∃ s : Fine (Fin 2) (Data Nat) (Phase Nat) (Stmt Nat),
    s.code 0 = some (.whileBlocked (.push 7)) ∧ s.place 1 = .entering (.pop 0) ∧
      MutexDiscipline 1 s := by
  have h : (code Nat (Fin 2) 1).fine.Run [] (Monitor.outside ⟨⟨[], false⟩, fun _ => .idle⟩) :=
    .start ⟨⟨rfl, rfl, fun _ => rfl⟩, rfl, rfl⟩
  have h := h.snoc (.outer (t := 0) rfl (outer_call (.push 7) rfl))
  have h := h.snoc (.lock (t := 0) rfl rfl rfl)
  have h := h.snoc (.stmt (t := 0) rfl rfl)
  have h := h.snoc (.outer (t := 1) rfl (outer_call (.pop 0) rfl))
  exact ⟨_, rfl, rfl, mutex_discipline h.reach⟩

end BoundedBlockingQueue

end CommCore
