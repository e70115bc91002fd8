import CommCore.Lib.Threads

/-!
# `bounded_blocking_queue` (`libs/comm/include/comm/utilities/bounded_blocking_queue.hpp`)

The queue and the threads that call it, as a system of atomic steps (`Lib.Sys`).

- **Sections.** What a member function does from the point where it holds `m_` to the point where
  it gives it up is one function (`push`, `pushFor`, `pop`, `popFor`, `close`, `closed`, `size`):
  from the data that `m_` protects (`Data`) to the data after it, and how the section ends
  (`Exit`): it waits on a condition variable, or it unlocks, still owes some notifications, and
  will return. A thread that comes back from `wait` is at the head of the `while` again, so the
  same function is its next section. For the timed functions the section is also given whether
  `timed_wait` reported the timeout.
- **Threads.** A thread is outside (`Phase.idle`), about to lock `m_` (`entering`), in the wait
  set of a condition variable (`waiting`), out of it and about to lock `m_` again (`woken`, or
  `expired` if `timed_wait` will report the timeout), or past its `unlock` (`unlocked`), with the
  notifications that it still owes and its result.
- **Steps** (`Step`). Any thread may take its next step at any moment: the mutex only makes the
  sections atomic. A waiter may wake without a notification (`spurious`), the deadline of a timed
  wait may pass at any moment (`timeout`), and a timed waiter that a notification has already
  taken out of the wait set may still report the timeout (`overtake`: POSIX allows it, and the
  notification is then used up).

`item` and `out` are in the call itself (`Call`): a `pop` that succeeds changes its `out`. The
duration of the timed functions is left out, since a timeout may come at any moment.
-/

namespace CommCore

namespace BoundedBlockingQueue

open Lib

/-- The two condition variables. -/
inductive Cv where
  | notFull
  | notEmpty
  deriving DecidableEq, Repr

/-- A notification: `cv.notify_one()` or `cv.notify_all()`. -/
inductive Notify where
  | one (cv : Cv)
  | all (cv : Cv)
  deriving DecidableEq, Repr

/-- What a member function returns. -/
inductive Ret where
  | unit
  | bool (b : Bool)
  | size (n : Nat)
  deriving DecidableEq, Repr

/-- A call of a member function, with its item or the current content of its `out` argument. -/
inductive Call (α : Type) where
  | push (item : α)
  | pushFor (item : α)
  | pop (out : α)
  | popFor (out : α)
  | close
  | closed
  | size
  deriving DecidableEq, Repr

/-- What `m_` protects. -/
structure Data (α : Type) where
  q : List α
  closed : Bool
  deriving DecidableEq, Repr

/-- How a section ends: `cv.wait(lk)`, or `unlock` with the notifications still owed and the
result. -/
inductive Exit where
  | wait (cv : Cv)
  | leave (owed : List Notify) (r : Ret)
  deriving DecidableEq, Repr

variable {α : Type}

/-! ## Sections -/

/-- `push`, from the head of its `while`. -/
def push (capacity : Nat) (item : α) (d : Data α) : Data α × Exit :=
  if !d.closed && decide (capacity ≤ d.q.length) then (d, .wait .notFull)
  else if d.closed then (d, .leave [] (.bool false))
  else ({ d with q := d.q ++ [item] }, .leave [.one .notEmpty] (.bool true))

/-- `push_for`: `return false` if `timed_wait` reported the timeout, else as `push`. -/
def pushFor (capacity : Nat) (item : α) (timedOut : Bool) (d : Data α) : Data α × Exit :=
  if timedOut then (d, .leave [] (.bool false)) else push capacity item d

/-- `pop`, from the head of its `while`; the second component is `out` after it. -/
def pop (out : α) (d : Data α) : Data α × α × Exit :=
  if !d.closed && d.q.isEmpty then (d, out, .wait .notEmpty)
  else match d.q with
    | [] => (d, out, .leave [] (.bool false))
    | front :: rest => ({ d with q := rest }, front, .leave [.one .notFull] (.bool true))

/-- `pop_for`: `return false` if `timed_wait` reported the timeout, else as `pop`. -/
def popFor (out : α) (timedOut : Bool) (d : Data α) : Data α × α × Exit :=
  if timedOut then (d, out, .leave [] (.bool false)) else pop out d

def close (d : Data α) : Data α × Exit :=
  ({ d with closed := true }, .leave [.all .notEmpty, .all .notFull] .unit)

def closed (d : Data α) : Data α × Exit := (d, .leave [] (.bool d.closed))

def size (d : Data α) : Data α × Exit := (d, .leave [] (.size d.q.length))

/-- The section of a call: the data and the call after it, and how it ends. -/
def Call.section (capacity : Nat) (timedOut : Bool) (d : Data α) :
    Call α → Data α × Call α × Exit
  | .push item => let (d', e) := BoundedBlockingQueue.push capacity item d; (d', .push item, e)
  | .pushFor item =>
    let (d', e) := BoundedBlockingQueue.pushFor capacity item timedOut d; (d', .pushFor item, e)
  | .pop out => let (d', out', e) := BoundedBlockingQueue.pop out d; (d', .pop out', e)
  | .popFor out =>
    let (d', out', e) := BoundedBlockingQueue.popFor out timedOut d; (d', .popFor out', e)
  | .close => let (d', e) := BoundedBlockingQueue.close d; (d', .close, e)
  | .closed => let (d', e) := BoundedBlockingQueue.closed d; (d', .closed, e)
  | .size => let (d', e) := BoundedBlockingQueue.size d; (d', .size, e)

/-- The call is a `push_for` or a `pop_for`. -/
def Call.timed : Call α → Bool
  | .pushFor _ | .popFor _ => true
  | _ => false

/-- The item of a `push` or `push_for`. -/
def Call.item : Call α → Option α
  | .push x | .pushFor x => some x
  | _ => none

/-- The `out` argument of a `pop` or `pop_for`. -/
def Call.out : Call α → Option α
  | .pop x | .popFor x => some x
  | _ => none

/-! ## Threads -/

/-- Where a thread is (module doc). -/
inductive Phase (α : Type) where
  | idle
  | entering (c : Call α)
  | waiting (cv : Cv) (c : Call α)
  /-- `notified`: a notification took the thread out of the wait set. -/
  | woken (cv : Cv) (c : Call α) (notified : Bool)
  /-- `timed_wait` will report the timeout; `notified`: after a notification. -/
  | expired (cv : Cv) (c : Call α) (notified : Bool)
  | unlocked (owed : List Notify) (c : Call α) (r : Ret)
  deriving DecidableEq, Repr

/-- A thread that is about to lock `m_`: its call, and whether `timed_wait` reports the timeout. -/
def Phase.resume : Phase α → Option (Call α × Bool)
  | .entering c | .woken _ c _ => some (c, false)
  | .expired _ c _ => some (c, true)
  | _ => none

/-- Where a thread is after a section of the call `c`. -/
def Exit.phase (c : Call α) : Exit → Phase α
  | .wait cv => .waiting cv c
  | .leave owed r => .unlocked owed c r

/-- A thread after a `notify_all` on `cv`. -/
def Phase.wake (cv : Cv) : Phase α → Phase α
  | .waiting cv' c => if cv' = cv then .woken cv' c true else .waiting cv' c
  | p => p

/-- The queue and its threads. -/
structure State (T α : Type) extends Data α where
  phase : T → Phase α

/-- What a thread does in a step. A section is labelled with its call after it. -/
inductive Event (α : Type) where
  | call (c : Call α)
  | crit (c : Call α) (e : Exit)
  | notify (n : Notify)
  | spurious
  | timeout
  | overtake
  | ret (c : Call α) (r : Ret)

abbrev Label (T α : Type) := T × Event α

variable {T : Type}

/-- The data after a section. -/
def State.put (s : State T α) (d : Data α) : State T α := { toData := d, phase := s.phase }

/-- `notify_all` on `cv` takes every waiter out of its wait set. -/
def State.wakeAll (s : State T α) (cv : Cv) : State T α :=
  { s with phase := fun t => (s.phase t).wake cv }

variable [DecidableEq T]

/-- Thread `t` moves to `p`. -/
def State.move (s : State T α) (t : T) (p : Phase α) : State T α :=
  { s with phase := Function.update s.phase t p }

/-- The steps of the threads (module doc). -/
inductive Step (capacity : Nat) : State T α → Label T α → State T α → Prop
  | call {s : State T α} {t : T} {c : Call α} : s.phase t = .idle →
      Step capacity s (t, .call c) (s.move t (.entering c))
  | crit {s : State T α} {t : T} {c c' : Call α} {timedOut : Bool} {d : Data α} {e : Exit} :
      (s.phase t).resume = some (c, timedOut) →
      c.section capacity timedOut s.toData = (d, c', e) →
      Step capacity s (t, .crit c' e) ((s.put d).move t (e.phase c'))
  /-- `notify_one` takes one waiter out of the wait set. -/
  | notifyOne {s : State T α} {t u : T} {cv : Cv} {owed : List Notify} {c c' : Call α} {r : Ret} :
      s.phase t = .unlocked (.one cv :: owed) c r → s.phase u = .waiting cv c' →
      Step capacity s (t, .notify (.one cv))
        ((s.move u (.woken cv c' true)).move t (.unlocked owed c r))
  /-- `notify_one` with an empty wait set. -/
  | notifyNone {s : State T α} {t : T} {cv : Cv} {owed : List Notify} {c : Call α} {r : Ret} :
      s.phase t = .unlocked (.one cv :: owed) c r → (∀ u c', s.phase u ≠ .waiting cv c') →
      Step capacity s (t, .notify (.one cv)) (s.move t (.unlocked owed c r))
  | notifyAll {s : State T α} {t : T} {cv : Cv} {owed : List Notify} {c : Call α} {r : Ret} :
      s.phase t = .unlocked (.all cv :: owed) c r →
      Step capacity s (t, .notify (.all cv))
        ((s.wakeAll cv).move t (.unlocked owed c r))
  | spurious {s : State T α} {t : T} {cv : Cv} {c : Call α} : s.phase t = .waiting cv c →
      Step capacity s (t, .spurious) (s.move t (.woken cv c false))
  | timeout {s : State T α} {t : T} {cv : Cv} {c : Call α} : s.phase t = .waiting cv c →
      c.timed = true → Step capacity s (t, .timeout) (s.move t (.expired cv c false))
  /-- The deadline passes while the notification is delivered. -/
  | overtake {s : State T α} {t : T} {cv : Cv} {c : Call α} : s.phase t = .woken cv c true →
      c.timed = true → Step capacity s (t, .overtake) (s.move t (.expired cv c true))
  | ret {s : State T α} {t : T} {c : Call α} {r : Ret} : s.phase t = .unlocked [] c r →
      Step capacity s (t, .ret c r) (s.move t .idle)

variable (α T) in
/-- The queue of the given capacity and the threads `T`, with any calls. -/
def queue (capacity : Nat) : Sys (State T α) (Label T α) where
  init s := s.q = [] ∧ s.closed = false ∧ ∀ t, s.phase t = .idle
  step := Step capacity

/-! ## What the steps of a run did -/

/-- The item that a section of a `push` or `push_for` put into `q_`: its result is `true`. -/
def Event.accepted : Event α → Option α
  | .crit c (.leave _ (.bool true)) => c.item
  | _ => none

/-- The item that a section of a `pop` or `pop_for` took out of `q_`: its result is `true`. -/
def Event.delivered : Event α → Option α
  | .crit c (.leave _ (.bool true)) => c.out
  | _ => none

/-- The items that were accepted, in the order of the sections. -/
def accepted (tr : List (Label T α)) : List α := tr.filterMap fun l => l.2.accepted

/-- The items that were delivered, in the order of the sections. -/
def delivered (tr : List (Label T α)) : List α := tr.filterMap fun l => l.2.delivered

end BoundedBlockingQueue

end CommCore
