import CommCore.Comm.QueueProgress
import CommCore.Lib.Clients

/-!
# A producer and its consumers (`tests/src/test_bounded_blocking_queue.cpp`)

The program that the queue is made for, as `producer_consumer_multithreaded` has it, with any items,
any capacity and any number of consumers:

- **Programs** (`program`). The producer pushes its items in order, whatever `push` returns, and
  then closes the queue. A consumer pops until `pop` returns `false` and keeps what it gets.
- **Safety** (`items_received`). The queue is linearizable (`queue_simulates`), so the programs may
  be followed on the atomic FIFO (`Simulation.drive`), where each call takes effect at once:
  `ProducerAt` and `ConsumerAt` say where a thread may be, and each of the three steps of a call
  keeps them.
- **Termination** (`program_ends`). A run is bounded by the items, the threads and the spurious
  wake-ups; and while a thread has not ended, some thread has a step. So every item arrives.
-/

namespace CommCore

namespace BoundedBlockingQueue

open Lib

variable {α T : Type}

/-! ## The programs -/

/-- Where a thread is in its program: the items it still has to push, or its `v` and what it has
received. -/
inductive Stage (α : Type) where
  | produce (left : List α)
  | stopped
  | consume (v : α) (received : List α)
  | finished (received : List α)
  deriving DecidableEq, Repr

namespace Stage

/-- `q.push(i)` in the producer's loop and `q.close()` after it; `q.pop(v)` in a consumer's. -/
def next : Stage α → Option (Call α)
  | .produce (x :: _) => some (.push x)
  | .produce [] => some .close
  | .consume v _ => some (.pop v)
  | _ => none

/-- The producer does not look at the result of `push`; a consumer keeps the item and goes on, or
ends its loop. -/
def got : Stage α → Call α → Ret → Stage α
  | .produce (_ :: left), .push _, _ => .produce left
  | .produce [], .close, _ => .stopped
  | .consume _ received, .pop v, .bool true => .consume v (received ++ [v])
  | .consume _ received, .pop _, .bool false => .finished received
  | k, _, _ => k

/-- What a consumer has received. -/
def received : Stage α → List α
  | .consume _ received | .finished received => received
  | _ => []

/-- The thread has come to the end of its program. -/
def ended : Stage α → Bool
  | .stopped | .finished _ => true
  | _ => false

end Stage

/-- The producer `p` with its items; every other thread is a consumer, with any value in its `v`. -/
def program [DecidableEq T] (p : T) (items : List α) (v : T → α) :
    Client T (Stage α) (Call α) Ret where
  start t := if t = p then .produce items else .consume (v t) []
  next := Stage.next
  got := Stage.got

/-! ## Where a thread may be -/

/-- The producer: `put` are its items that are in, `n` its calls so far, `closed` the flag. -/
inductive ProducerAt (items put : List α) (n : Nat) (closed : Bool) :
    Stage α → Slot (Call α) Ret → Prop
  | outside {left : List α} : put ++ left = items → n = put.length → closed = false →
      ProducerAt items put n closed (.produce left) .idle
  | pushing {x : α} {left : List α} : put ++ x :: left = items → n = put.length + 1 →
      closed = false → ProducerAt items put n closed (.produce (x :: left)) (.pending (.push x))
  | pushed {x : α} {left : List α} : put ++ left = items → n = put.length → closed = false →
      ProducerAt items put n closed (.produce (x :: left)) (.done (.push x) (.bool true))
  | closing : put = items → n = put.length + 1 → closed = false →
      ProducerAt items put n closed (.produce []) (.pending .close)
  | hasClosed : put = items → n = put.length + 1 → closed = true →
      ProducerAt items put n closed (.produce []) (.done .close .unit)
  | stopped : put = items → n = put.length + 1 → closed = true →
      ProducerAt items put n closed .stopped .idle

/-- A consumer: `took` are the items it took out, `n` its calls so far. -/
inductive ConsumerAt (took : List α) (n : Nat) (f : Fifo α) : Stage α → Slot (Call α) Ret → Prop
  | outside {v : α} : n = took.length → ConsumerAt took n f (.consume v took) .idle
  | popping {v : α} : n = took.length + 1 →
      ConsumerAt took n f (.consume v took) (.pending (.pop v))
  | popped {v x : α} {received : List α} : took = received ++ [x] → n = took.length →
      ConsumerAt took n f (.consume v received) (.done (.pop x) (.bool true))
  | ending {v : α} : n = took.length + 1 → f.closed = true → f.items = [] →
      ConsumerAt took n f (.consume v took) (.done (.pop v) (.bool false))
  | finished : n = took.length + 1 → f.closed = true → f.items = [] →
      ConsumerAt took n f (.finished took) .idle

namespace ProducerAt

variable {items put : List α} {n : Nat} {closed : Bool} {k : Stage α} {c c' : Call α} {r : Ret}

theorem call (h : ProducerAt items put n closed k .idle) (hc : k.next = some c) :
    ProducerAt items put (n + 1) closed k (.pending c) := by
  cases h with
  | @outside left hput hn hcl =>
    cases left with
    | nil =>
      cases hc
      rw [List.append_nil] at hput
      exact .closing hput (by omega) hcl
    | cons x left =>
      cases hc
      exact .pushing hput (by omega) hcl
  | stopped _ _ _ => cases hc

/-- The queue is open as long as the producer has items: nothing is refused. -/
theorem eff {capacity : Nat} {f f' : Fifo α} (h : ProducerAt items put n f.closed k (.pending c))
    (he : Fifo.Eff capacity f c f' c' r) :
    ProducerAt items (put ++ (put? (c', r)).toList) n f'.closed k (.done c' r) ∧
      take? (c', r) = none := by
  cases h with
  | @pushing x left hput hn hcl =>
    cases he with
    | put hx _ _ =>
      cases hx
      refine ⟨.pushed (by simpa [put?, Call.item] using hput) ?_ hcl, rfl⟩
      simp [put?, Call.item, hn]
    | take ho _ => cases ho
    | fail hr =>
      rcases hr with ⟨-, hr⟩ | ⟨hr, -⟩ | ⟨-, -, hr⟩
      · cases hr
      · exact absurd (hcl.symm.trans hr) (by decide)
      · cases hr
  | closing hput hn hcl =>
    cases he with
    | close => exact ⟨.hasClosed (by simpa [put?] using hput) (by simpa [put?] using hn) rfl, rfl⟩
    | put hx _ _ => cases hx
    | take ho _ => cases ho
    | fail hr => rcases hr with ⟨-, hr⟩ | ⟨-, hr⟩ | ⟨-, -, hr⟩ <;> cases hr

theorem put_prefix {s : Slot (Call α) Ret} (h : ProducerAt items put n closed k s) :
    ∃ left, put ++ left = items := by
  cases h with
  | outside hput _ _ => exact ⟨_, hput⟩
  | pushing hput _ _ => exact ⟨_, hput⟩
  | pushed hput _ _ => exact ⟨_, hput⟩
  | _ hput _ _ => exact ⟨[], by rw [hput, List.append_nil]⟩

theorem of_closed {s : Slot (Call α) Ret} (h : ProducerAt items put n closed k s)
    (hc : closed = true) : put = items := by
  cases h with
  | hasClosed hput _ _ => exact hput
  | stopped hput _ _ => exact hput
  | _ _ _ hcl => exact absurd (hcl.symm.trans hc) (by decide)

theorem ret (h : ProducerAt items put n closed k (.done c r)) :
    ProducerAt items put n closed (k.got c r) .idle := by
  cases h with
  | pushed hput hn hcl => exact .outside hput hn hcl
  | hasClosed hput hn hcl => exact .stopped hput hn hcl

end ProducerAt

namespace ConsumerAt

variable {took : List α} {n : Nat} {f f' : Fifo α} {k : Stage α} {c c' : Call α} {r : Ret}
  {capacity : Nat}

theorem call (h : ConsumerAt took n f k .idle) (hc : k.next = some c) :
    ConsumerAt took (n + 1) f k (.pending c) := by
  cases h with
  | outside hn => cases hc; exact .popping (by omega)
  | finished _ _ _ => cases hc

theorem eff (h : ConsumerAt took n f k (.pending c)) (he : Fifo.Eff capacity f c f' c' r) :
    ConsumerAt (took ++ (take? (c', r)).toList) n f' k (.done c' r) ∧ put? (c', r) = none ∧
      f'.closed = f.closed := by
  cases h with
  | popping hn =>
    cases he with
    | put hx _ _ => cases hx
    | @take _ o x rest ho hq =>
      refine ⟨.popped (x := x) rfl ?_, rfl, rfl⟩
      simp [take?, Call.setOut, Call.out, hn]
    | fail hr =>
      rcases hr with ⟨-, hr⟩ | ⟨-, hr⟩ | ⟨hcl, hq, -⟩
      · cases hr
      · cases hr
      · exact ⟨by simpa [take?] using ConsumerAt.ending hn hcl hq, rfl, rfl⟩

theorem ret (h : ConsumerAt took n f k (.done c r)) : ConsumerAt took n f (k.got c r) .idle := by
  cases h with
  | popped ht hn => subst ht; exact .outside hn
  | ending hn hcl hq => exact .finished hn hcl hq

theorem of_ended {s : Slot (Call α) Ret} (h : ConsumerAt took n f k s) (hk : k.ended = true) :
    f.closed = true ∧ f.items = [] ∧ s = .idle := by
  cases h with
  | finished _ hcl hq => exact ⟨hcl, hq, rfl⟩
  | _ => cases hk

/-- The effects of the others: a closed and empty queue stays so. -/
theorem frame {s : Slot (Call α) Ret} (h : ConsumerAt took n f k s)
    (he : Fifo.Eff capacity f c f' c' r) : ConsumerAt took n f' k s := by
  have hdr : f.closed = true → f.items = [] → f'.closed = true ∧ f'.items = [] := by
    intro hcl hq
    cases he with
    | put _ hopen _ => exact absurd (hopen.symm.trans hcl) (by decide)
    | take _ hq' => rw [hq] at hq'; cases hq'
    | close => exact ⟨rfl, hq⟩
    | _ => exact ⟨hcl, hq⟩
  cases h with
  | outside hn => exact .outside hn
  | popping hn => exact .popping hn
  | popped ht hn => exact .popped ht hn
  | ending hn hcl hq => exact .ending hn (hdr hcl hq).1 (hdr hcl hq).2
  | finished hn hcl hq => exact .finished hn (hdr hcl hq).1 (hdr hcl hq).2

end ConsumerAt

/-! ## What the threads have done -/

section Runs

/-- The items that went in, in order. -/
def puts (tr : List (T × Act (Call α) Ret)) : List α := (tr.filterMap Object.effect).filterMap put?

/-- The items that came out, in order, each with the thread that took it. -/
def takes (tr : List (T × Act (Call α) Ret)) : List (T × α) :=
  tr.filterMap fun l => ((Object.effect l).bind take?).map fun x => (l.1, x)

variable [DecidableEq T]

/-- The items that went to thread `t`. -/
def takesOf (t : T) (ds : List (T × α)) : List α := (ds.filter (·.1 = t)).map Prod.snd

/-- The calls of thread `t`. -/
def callsOf (t : T) (tr : List (T × Act (Call α) Ret)) : Nat :=
  tr.countP fun l => l.1 = t ∧ l.2 matches .call _

/-- Where every thread is after the actions `tr`. -/
structure Following (p : T) (items : List α) (tr : List (T × Act (Call α) Ret))
    (a : (Fifo α × (T → Slot (Call α) Ret)) × (T → Stage α)) : Prop where
  producer : ProducerAt items (puts tr) (callsOf p tr) a.1.1.closed (a.2 p) (a.1.2 p)
  nothing : takesOf p (takes tr) = []
  consumer : ∀ t, t ≠ p →
    ConsumerAt (takesOf t (takes tr)) (callsOf t tr) a.1.1 (a.2 t) (a.1.2 t)

omit [DecidableEq T] in
theorem puts_snoc (tr : List (T × Act (Call α) Ret)) (l : T × Act (Call α) Ret) :
    puts (tr ++ [l]) = puts tr ++ ((Object.effect l).bind put?).toList := by
  unfold puts
  rw [filterMap_snoc]
  cases h : Object.effect l with
  | none => simp
  | some e => exact filterMap_snoc ..

theorem takesOf_snoc (u : T) (tr : List (T × Act (Call α) Ret)) (l : T × Act (Call α) Ret) :
    takesOf u (takes (tr ++ [l])) =
      takesOf u (takes tr) ++ if l.1 = u then ((Object.effect l).bind take?).toList else [] := by
  unfold takes takesOf
  rw [filterMap_snoc, List.filter_append, List.map_append]
  cases (Object.effect l).bind take? with
  | none => simp
  | some x => by_cases hu : l.1 = u <;> simp [hu]

theorem callsOf_snoc (u t : T) (tr : List (T × Act (Call α) Ret)) (a : Act (Call α) Ret) :
    callsOf u (tr ++ [(t, a)]) =
      callsOf u tr + if t = u then (if a matches .call _ then 1 else 0) else 0 := by
  unfold callsOf
  rw [List.countP_append]
  by_cases hu : t = u <;> cases a <;> simp [hu]

variable {capacity : Nat} {p : T} {items : List α} {v : T → α}

/-- What an action leaves as it is for the thread that does not take it. -/
theorem other_snoc {u t : T} (h : t ≠ u) (tr : List (T × Act (Call α) Ret))
    (a : Act (Call α) Ret) : takesOf u (takes (tr ++ [(t, a)])) = takesOf u (takes tr) ∧
      callsOf u (tr ++ [(t, a)]) = callsOf u tr := by
  refine ⟨?_, ?_⟩
  · rw [takesOf_snoc, if_neg h, List.append_nil]
  · rw [callsOf_snoc, if_neg h, Nat.add_zero]

/-- An action that takes no effect leaves the items as they are. -/
theorem quiet_snoc {t : T} {a : Act (Call α) Ret} (h : Object.effect (t, a) = none) (u : T)
    (tr : List (T × Act (Call α) Ret)) : puts (tr ++ [(t, a)]) = puts tr ∧
      takesOf u (takes (tr ++ [(t, a)])) = takesOf u (takes tr) := by
  refine ⟨?_, ?_⟩
  · rw [puts_snoc, h]; simp
  · rw [takesOf_snoc, h]; simp

/-- A call. -/
theorem Following.call {tr : List (T × Act (Call α) Ret)} {f : Fifo α}
    {slots : T → Slot (Call α) Ret} {k : T → Stage α} {t : T} {c : Call α}
    (h : Following p items tr ((f, slots), k)) (ht : slots t = .idle)
    (hc : (k t).next = some c) :
    Following p items (tr ++ [(t, .call c)]) ((f, Function.update slots t (.pending c)), k) := by
  obtain ⟨hp, hnone, hcons⟩ := h
  have hq := fun u => quiet_snoc (Object.effect_call (R := Ret) t c) u tr
  refine ⟨?_, ?_, fun u hu => ?_⟩
  · rw [(hq p).1]
    by_cases htp : t = p
    · subst htp
      simp only [ht] at hp
      simp only [Function.update_self, callsOf_snoc]
      exact hp.call hc
    · simp only [Function.update_of_ne (Ne.symm htp), (other_snoc htp tr _).2]
      exact hp
  · rw [(hq p).2]
    exact hnone
  · rw [(hq u).2]
    have hcu := hcons u hu
    by_cases htu : t = u
    · subst htu
      simp only [ht] at hcu
      simp only [Function.update_self, callsOf_snoc]
      exact hcu.call hc
    · simp only [Function.update_of_ne (Ne.symm htu), (other_snoc htu tr _).2]
      exact hcu

/-- An effect: of a push of the producer, or of a pop. -/
theorem Following.eff {tr : List (T × Act (Call α) Ret)} {f f' : Fifo α}
    {slots : T → Slot (Call α) Ret} {k : T → Stage α} {t : T} {c c' : Call α} {r : Ret}
    (h : Following p items tr ((f, slots), k)) (ht : slots t = .pending c)
    (he : Fifo.Eff capacity f c f' c' r) :
    Following p items (tr ++ [(t, .eff c' r)])
      ((f', Function.update slots t (.done c' r)), k) := by
  obtain ⟨hp, hnone, hcons⟩ := h
  have hputs : puts (tr ++ [(t, .eff c' r)]) = puts tr ++ (put? (c', r)).toList := puts_snoc ..
  have hcalls : ∀ u, callsOf u (tr ++ [(t, .eff c' r)]) = callsOf u tr := fun u => by
    rw [callsOf_snoc]
    simp
  have hframe : ∀ u, u ≠ t → u ≠ p →
      ConsumerAt (takesOf u (takes (tr ++ [(t, .eff c' r)]))) (callsOf u (tr ++ [(t, .eff c' r)]))
        f' (k u) (Function.update slots t (.done c' r) u) := fun u hut hup => by
    rw [(other_snoc (Ne.symm hut) tr _).1, hcalls, Function.update_of_ne hut]
    exact (hcons u hup).frame he
  by_cases htp : t = p
  · subst htp
    simp only [ht] at hp
    obtain ⟨hp', htake⟩ := hp.eff he
    refine ⟨?_, ?_, fun u hu => hframe u hu hu⟩
    · rw [hputs, hcalls]
      simp only [Function.update_self]
      exact hp'
    · rw [takesOf_snoc, if_pos rfl, hnone]
      show [] ++ (take? (c', r)).toList = []
      rw [htake]
      rfl
  · have hcu := hcons t htp
    simp only [ht] at hcu
    obtain ⟨hcu', hput, hcl⟩ := hcu.eff he
    refine ⟨?_, ?_, fun u hu => ?_⟩
    · rw [hputs, hcalls, hput, Option.toList_none, List.append_nil]
      simp only [Function.update_of_ne (Ne.symm htp), hcl]
      exact hp
    · rw [(other_snoc htp tr _).1]
      exact hnone
    · by_cases hut : u = t
      · subst hut
        rw [takesOf_snoc, if_pos rfl, hcalls]
        simp only [Function.update_self]
        exact hcu'
      · exact hframe u hut hu

/-- A return. -/
theorem Following.ret {tr : List (T × Act (Call α) Ret)} {f : Fifo α}
    {slots : T → Slot (Call α) Ret} {k : T → Stage α} {t : T} {c : Call α} {r : Ret}
    (h : Following p items tr ((f, slots), k)) (ht : slots t = .done c r) :
    Following p items (tr ++ [(t, .ret c r)]) ((f, Function.update slots t .idle),
      Function.update k t ((k t).got c r)) := by
  obtain ⟨hp, hnone, hcons⟩ := h
  have hq := fun u => quiet_snoc (Object.effect_ret t c r) u tr
  have hcalls : ∀ u, callsOf u (tr ++ [(t, .ret c r)]) = callsOf u tr := fun u => by
    rw [callsOf_snoc]
    simp
  refine ⟨?_, ?_, fun u hu => ?_⟩
  · rw [(hq p).1, hcalls]
    by_cases htp : t = p
    · subst htp
      simp only [ht] at hp
      simp only [Function.update_self]
      exact hp.ret
    · simp only [Function.update_of_ne (Ne.symm htp)]
      exact hp
  · rw [(hq p).2]
    exact hnone
  · rw [(hq u).2, hcalls]
    have hcu := hcons u hu
    by_cases htu : t = u
    · subst htu
      simp only [ht] at hcu
      simp only [Function.update_self]
      exact hcu.ret
    · simp only [Function.update_of_ne (Ne.symm htu)]
      exact hcu

/-- **Every thread is where it may be**, after every run of the programs on the atomic FIFO. -/
theorem following {tr : List (T × Act (Call α) Ret)}
    {a : (Fifo α × (T → Slot (Call α) Ret)) × (T → Stage α)}
    (hr : (((fifo capacity).atomic T).drive some (program p items v)).Run tr a) :
    Following p items tr a := by
  obtain ⟨a₀, hi, hs⟩ := hr
  refine hs.history ?_ ?_
  · rintro tr ⟨⟨f, slots⟩, k⟩ l ⟨⟨f', slots'⟩, k'⟩ h ⟨hst, hall, hk⟩
    change k' = _ at hk
    subst hk
    cases hst with
    | call ht => exact h.call ht hall
    | eff ht he => exact h.eff ht he
    | ret ht => exact h.ret ht
  · obtain ⟨⟨f, slots⟩, k⟩ := a₀
    obtain ⟨⟨⟨hq, hcl⟩, hidle⟩, hk⟩ := hi
    simp only at hq hcl hidle hk
    subst hk
    refine ⟨?_, rfl, fun t ht => ?_⟩
    · simp only [hidle, program]
      exact .outside rfl rfl hcl
    · simp only [hidle, program, if_neg ht]
      exact .outside rfl

/-! ## What becomes of the items -/

variable (capacity p items v) in
/-- The queue with the producer and its consumers. -/
def producerConsumer : Sys (State T α × (T → Stage α)) (Label T α) :=
  (queue α T capacity).drive act (program p items v)

/-- The items that the producer has not put in: those it still has to push, without the one whose
`push` has put it in and not returned yet. -/
def Stage.unsent : Stage α → Phase α → List α
  | .produce (_ :: left), .unlocked _ _ (.bool true) => left
  | .produce left, _ => left
  | _, _ => []

/-- The item that a `pop` has taken out and its thread has not kept yet. -/
def Phase.inHand : Phase α → List α
  | .unlocked _ (.pop x) (.bool true) => [x]
  | _ => []

theorem program_step {s s' : State T α} {k : T → Stage α} {l : Label T α}
    (hst : Step capacity s l s') (hall : (program p items v).Allows k (act l)) :
    (producerConsumer capacity p items v).step (s, k) l
      (s', (program p items v).after k (act l)) :=
  ⟨hst, hall, rfl⟩

/-- What has become of the items: `ds` have come out of the queue, in order, each with the consumer
that took it.

* `order`: they, then the content of the queue, then what the producer has not put in, are all;
* `each`: a consumer has received its own, in order, the last of them perhaps still in hand;
* `consumers`: each went to a consumer; and to the only one, if there is one only;
* `all`: when a consumer has ended, every item has come out. -/
structure Arrived (p : T) (items : List α) (s : State T α) (k : T → Stage α)
    (ds : List (T × α)) : Prop where
  order : items = ds.map Prod.snd ++ s.q ++ (k p).unsent (s.phase p)
  each : ∀ t, t ≠ p → (k t).received ++ (s.phase t).inHand = takesOf t ds
  consumers : (∀ d ∈ ds, d.1 ≠ p) ∧
    ∀ c, (∀ t, t ≠ p → t = c) → takesOf c ds = ds.map Prod.snd
  all : ∀ t, t ≠ p → (k t).ended = true → ds.map Prod.snd = items ∧ s.phase t = .idle

theorem following_of_run {tr : List (Label T α)} {s : State T α} {k : T → Stage α}
    (hr : (producerConsumer capacity p items v).Run tr (s, k)) :
    Following p items (tr.filterMap act) (s.abs, k) :=
  following ((queue_simulates capacity).drive_run hr)

omit [DecidableEq T] in
theorem takes_snd (tr : List (T × Act (Call α) Ret)) :
    (takes tr).map Prod.snd = (tr.filterMap Object.effect).filterMap take? := by
  unfold takes
  rw [List.map_filterMap, List.filterMap_filterMap]
  refine List.filterMap_congr fun l _ => ?_
  cases (Object.effect l).bind take? <;> rfl

omit [DecidableEq T] in
theorem phase_of_idle_slot {s : State T α} {t : T} (h : s.abs.2 t = .idle) : s.phase t = .idle := by
  change (s.phase t).slot = .idle at h
  cases hp : s.phase t <;> rw [hp] at h <;> first | rfl | cases h

/-- What the producer has put in and what it has not, where it may be. -/
theorem ProducerAt.unsent {put : List α} {n : Nat} {closed : Bool} {k : Stage α} {ph : Phase α}
    (h : ProducerAt items put n closed k ph.slot) : put ++ k.unsent ph = items := by
  generalize hs : ph.slot = sl at h
  cases h with
  | @pushing x left hput _ _ =>
    cases ph with
    | unlocked owed c r => cases hs
    | _ => exact hput
  | pushed hput _ _ =>
    cases ph with
    | unlocked owed c r => cases hs; exact hput
    | _ => cases hs
  | @outside left hput _ _ =>
    cases ph with
    | unlocked owed c r => cases hs
    | _ => cases left <;> exact hput
  | closing hput _ _ => cases ph <;> exact (List.append_nil _).trans hput
  | hasClosed hput _ _ => cases ph <;> exact (List.append_nil _).trans hput
  | stopped hput _ _ => exact (List.append_nil _).trans hput

/-- What a consumer has received, where it may be. -/
theorem ConsumerAt.received {took : List α} {n : Nat} {f : Fifo α} {k : Stage α} {ph : Phase α}
    (h : ConsumerAt took n f k ph.slot) : k.received ++ ph.inHand = took := by
  generalize hs : ph.slot = sl at h
  cases h with
  | popped ht _ =>
    cases ph with
    | unlocked owed c r => cases hs; exact ht.symm
    | _ => cases hs
  | ending _ _ _ =>
    cases ph with
    | unlocked owed c r => cases hs; exact List.append_nil _
    | _ => cases hs
  | _ =>
    cases ph with
    | unlocked owed c r => cases hs
    | _ => exact List.append_nil _

/-- **Every item is received once, and each consumer's items come in order**: in every reachable
state of the program, for any items, capacity, number of consumers, interleaving and spurious
wake-ups. -/
theorem items_received {s : State T α} {k : T → Stage α}
    (hr : (producerConsumer capacity p items v).Reach (s, k)) :
    ∃ ds, Arrived p items s k ds := by
  obtain ⟨tr, hr⟩ := hr
  have h := following_of_run hr
  have hq := (accepted_eq_delivered_append hr.of_drive).1
  rw [accepted_eq, delivered_eq, ← takes_snd] at hq
  change puts (tr.filterMap act) = _ at hq
  have hcons : ∀ d ∈ takes (tr.filterMap act), d.1 ≠ p := by
    have hnone := h.nothing
    unfold takesOf at hnone
    rw [List.map_eq_nil_iff, List.filter_eq_nil_iff] at hnone
    intro d hd
    simpa using hnone d hd
  refine ⟨takes (tr.filterMap act), ?_, fun t ht => (h.consumer t ht).received, ⟨hcons, ?_⟩, ?_⟩
  · rw [← hq]
    exact h.producer.unsent.symm
  · intro c hc
    unfold takesOf
    rw [List.filter_eq_self.mpr fun d hd => by simpa using hc d.1 (hcons d hd)]
  · intro t ht hend
    obtain ⟨hcl, hempty, hidle⟩ := (h.consumer t ht).of_ended hend
    change s.q = [] at hempty
    rw [← h.producer.of_closed hcl, hq, hempty, List.append_nil]
    exact ⟨rfl, phase_of_idle_slot hidle⟩

/-! ## Every run ends -/

theorem ProducerAt.calls_le {put : List α} {n : Nat} {closed : Bool} {k : Stage α}
    {sl : Slot (Call α) Ret} (h : ProducerAt items put n closed k sl) :
    n ≤ items.length + 1 := by
  obtain ⟨left, hleft⟩ := h.put_prefix
  have hlen := congrArg List.length hleft
  rw [List.length_append] at hlen
  cases h <;> omega

theorem ConsumerAt.calls_le {took : List α} {n : Nat} {f : Fifo α} {k : Stage α}
    {sl : Slot (Call α) Ret} (h : ConsumerAt took n f k sl) : n ≤ took.length + 1 := by
  cases h <;> omega

omit [DecidableEq T] in
theorem calls_act (tr : List (Label T α)) :
    calls tr = (tr.filterMap act).countP fun l => l.2 matches .call _ := by
  unfold calls
  rw [List.countP_filterMap]
  refine List.countP_congr fun l _ => ?_
  obtain ⟨t, ev⟩ := l
  cases ev with
  | crit c e => cases e <;> simp [act]
  | _ => simp [act]

theorem length_takesOf [Fintype T] (ds : List (T × α)) :
    ∑ t, (takesOf t ds).length = ds.length := by
  have h := sum_countP (fun _ : α => true) ds
  simp only [List.countP_true] at h
  rw [← h]
  refine Finset.sum_congr rfl fun t _ => ?_
  rw [takesOf, List.length_map, List.countP_eq_length_filter]
  simp

/-- The calls of all threads: one for each item that goes in, one for each that comes out, and one
for each thread. -/
theorem calls_le [Fintype T] {tr : List (Label T α)} {s : State T α} {k : T → Stage α}
    (hr : (producerConsumer capacity p items v).Run tr (s, k)) :
    calls tr ≤ 2 * items.length + Fintype.card T := by
  have h := following_of_run hr
  have hq := (accepted_eq_delivered_append hr.of_drive).1
  rw [accepted_eq, delivered_eq, ← takes_snd] at hq
  change puts (tr.filterMap act) = _ at hq
  obtain ⟨left, hleft⟩ := h.producer.put_prefix
  have hlen := congrArg List.length hleft
  rw [hq] at hlen
  simp only [List.length_append, List.length_map] at hlen
  have hone : ∀ t, callsOf t (tr.filterMap act) ≤
      (takesOf t (takes (tr.filterMap act))).length + (1 + if t = p then items.length else 0) := by
    intro t
    by_cases htp : t = p
    · subst htp
      rw [if_pos rfl]
      have hp := h.producer.calls_le
      omega
    · rw [if_neg htp]
      exact (h.consumer t htp).calls_le
  calc calls tr = ∑ t, callsOf t (tr.filterMap act) := by
        rw [calls_act]
        exact (sum_countP (fun a : Act (Call α) Ret => a matches .call _) _).symm
    _ ≤ ∑ t, ((takesOf t (takes (tr.filterMap act))).length +
          (1 + if t = p then items.length else 0)) := Finset.sum_le_sum fun t _ => hone t
    _ = (takes (tr.filterMap act)).length + (Fintype.card T + items.length) := by
        rw [Finset.sum_add_distrib, Finset.sum_add_distrib, length_takesOf]
        simp
    _ ≤ 2 * items.length + Fintype.card T := by omega

/-- The programs call no timed function. -/
theorem untimed_of_run {tr : List (Label T α)} {a : State T α × (T → Stage α)}
    (hr : (producerConsumer capacity p items v).Run tr a) :
    ((queue α T capacity).restrict Untimed).Run tr a.1 := by
  obtain ⟨a₀, hi, hs⟩ := hr
  refine ⟨a₀.1, hi.1, ?_⟩
  induction hs with
  | nil => exact .nil
  | @snoc tr l u w _ hst ih =>
    obtain ⟨hstep, hall, -⟩ := hst
    refine ih.snoc ⟨hstep, fun c hc => ?_⟩
    obtain ⟨t, ev⟩ := l
    change ev = .call c at hc
    subst hc
    change Stage.next (u.2 t) = some c at hall
    revert hall
    cases u.2 t with
    | produce left => cases left <;> (intro hall; cases hall; rfl)
    | consume v received => intro hall; cases hall; rfl
    | _ => intro hall; cases hall

theorem ProducerAt.of_idle {put : List α} {n : Nat} {closed : Bool} {k : Stage α}
    (h : ProducerAt items put n closed k .idle) :
    (∃ c, k.next = some c) ∨ (k.ended = true ∧ closed = true) := by
  cases h with
  | @outside left _ _ _ => cases left <;> exact .inl ⟨_, rfl⟩
  | stopped _ _ hcl => exact .inr ⟨rfl, hcl⟩

theorem ConsumerAt.of_idle {took : List α} {n : Nat} {f : Fifo α} {k : Stage α}
    (h : ConsumerAt took n f k .idle) :
    (∃ c, k.next = some c) ∨ (k.ended = true ∧ f.closed = true) := by
  cases h with
  | outside _ => exact .inl ⟨_, rfl⟩
  | finished _ hcl _ => exact .inr ⟨rfl, hcl⟩

theorem ProducerAt.of_waiting {put : List α} {n : Nat} {closed : Bool} {k : Stage α} {c : Call α}
    {cv : Cv} (h : ProducerAt items put n closed k (.pending c)) (hc : c.cv = some cv) :
    cv = .notFull := by
  cases h with
  | pushing _ _ _ => cases hc; rfl
  | closing _ _ _ => cases hc

theorem ConsumerAt.of_waiting {took : List α} {n : Nat} {f : Fifo α} {k : Stage α} {c : Call α}
    {cv : Cv} (h : ConsumerAt took n f k (.pending c)) (hc : c.cv = some cv) :
    cv = .notEmpty := by
  cases h with
  | popping _ => cases hc; rfl

/-- While a thread has not ended, some thread has a step: with room for one item, the producer and
a consumer never both sleep. -/
theorem exists_program_step [Fintype T] {s : State T α} {k : T → Stage α} (hcap : 1 ≤ capacity)
    (hc : ∃ c, c ≠ p) (hr : (producerConsumer capacity p items v).Reach (s, k))
    (hend : ¬ ∀ t, (k t).ended = true) :
    ∃ t ev b, ev ≠ .spurious ∧ (producerConsumer capacity p items v).step (s, k) (t, ev) b := by
  obtain ⟨tr, hr⟩ := hr
  have h := following_of_run hr
  have hunt := (untimed_of_run hr).reach
  have hok := ok_inductive.reach hunt.of_restrict
  by_contra hstuck
  -- nobody can run, so each thread is outside or asleep
  have hquiet : s.Quiet := by
    by_contra hq
    obtain ⟨t, ev, s', hruns, hst⟩ := exists_own_step hq
    refine hstuck ⟨t, ev, _, ?_, program_step hst ?_⟩
    · rintro rfl
      cases hruns
    · cases ev with
      | crit c e => cases e <;> trivial
      | call c => cases hruns
      | _ => trivial
  -- and a thread outside has no call to make
  have hnext : ∀ t, s.phase t = .idle → ∀ c, (k t).next ≠ some c := fun t ht c hcall =>
    hstuck ⟨t, .call c, _, nofun, program_step (.call ht) hcall⟩
  have hslot : ∀ t ph, s.phase t = ph → s.abs.2 t = ph.slot := fun t ph ht => abs_slot ht
  have hidle : ∀ t, s.phase t = .idle → (k t).ended = true ∧ s.closed = true := by
    intro t ht
    by_cases htp : t = p
    · subst htp
      have hp := h.producer
      simp only [hslot _ _ ht, Phase.slot] at hp
      exact hp.of_idle.resolve_left fun ⟨c, hcall⟩ => hnext _ ht c hcall
    · have hcons := h.consumer t htp
      simp only [hslot _ _ ht, Phase.slot] at hcons
      exact hcons.of_idle.resolve_left fun ⟨c, hcall⟩ => hnext _ ht c hcall
  -- some thread sleeps, so the queue is open, and then all of them do
  have hopen : s.closed = false := by
    obtain ⟨t, ht⟩ := not_forall.mp hend
    rcases hquiet t with hti | ⟨cv, c, htw⟩
    · exact absurd (hidle t hti).1 ht
    · exact open_of_quiet hunt.of_restrict hquiet ⟨t, c, htw⟩
  have hasleep : ∀ t, ∃ cv c, s.phase t = .waiting cv c := fun t =>
    (hquiet t).resolve_left fun hti => absurd (hopen.symm.trans (hidle t hti).2) (by decide)
  have hfull : s.Sleeps .notFull := by
    obtain ⟨cv, c, hw⟩ := hasleep p
    have hp := h.producer
    simp only [hslot _ _ hw, Phase.slot] at hp
    obtain rfl := hp.of_waiting (hok.at hw)
    exact ⟨p, c, hw⟩
  have hempty : s.Sleeps .notEmpty := by
    obtain ⟨t, ht⟩ := hc
    obtain ⟨cv, c, hw⟩ := hasleep t
    have hcons := h.consumer t ht
    simp only [hslot _ _ hw, Phase.slot] at hcons
    obtain rfl := hcons.of_waiting (hok.at hw)
    exact ⟨t, c, hw⟩
  exact ((no_lost_wakeup hunt).quiet hquiet).2.2 hcap ⟨hempty, hfull⟩

/-- **Every run of the program ends**, with all threads at their ends: with a capacity of at least 1
and a consumer, a run is bounded by the items, the threads and the spurious wake-ups, and while a
thread has not ended some thread has a step. -/
theorem program_ends [Fintype T] {tr : List (Label T α)} {s : State T α} {k : T → Stage α}
    (hcap : 1 ≤ capacity) (hc : ∃ c, c ≠ p)
    (hr : (producerConsumer capacity p items v).Run tr (s, k)) :
    tr.length ≤ 7 * (2 * items.length + Fintype.card T) + 2 * spuriousWakeups tr ∧
      ((∀ t, (k t).ended = true) ∨ ∃ t ev b, ev ≠ .spurious ∧
        (producerConsumer capacity p items v).step (s, k) (t, ev) b) := by
  have hcalls := calls_le hr
  have hlen := length_run_le hr.of_drive
  refine ⟨by omega, ?_⟩
  by_cases hend : ∀ t, (k t).ended = true
  · exact .inl hend
  · exact .inr (exists_program_step hcap hc hr.reach hend)

end Runs

/-- Thread 0 produces four items for the threads 1 and 2: thread 1 has received the first one,
thread 2 has the second one in hand, the third one is in the queue and the fourth one is to come. -/
theorem four_items_run : ∃ tr s k,
    (producerConsumer 1 (0 : Fin 3) [7, 8, 9, 10] fun _ => 0).Run tr (s, k) ∧
      ((k 1).received = [7] ∧ (s.phase 2).inHand = [8] ∧ s.q = [9] ∧
        (k 0).unsent (s.phase 0) = [10]) ∧ tr.length = 17 := by
  have h : (producerConsumer 1 (0 : Fin 3) [7, 8, 9, 10] fun _ => 0).Run []
      (⟨⟨[], false⟩, fun _ => .idle⟩, (program 0 [7, 8, 9, 10] fun _ => 0).start) :=
    .start ⟨init_idle 1, rfl⟩
  have h := h.snoc (program_step (.call (t := 1) (c := .pop 0) rfl) rfl)
  have h := h.snoc
    (program_step (.runs (t := 1) (.pop 0) ⟨[], false⟩ (.wait .notEmpty) rfl rfl) trivial)
  have h := h.snoc (program_step (.call (t := 0) (c := .push 7) rfl) rfl)
  have h := h.snoc (program_step
    (.runs (t := 0) (.push 7) ⟨[7], false⟩ (.leave [.one .notEmpty] (.bool true)) rfl rfl) trivial)
  have h := h.snoc (program_step (.notifyOne (t := 0) (u := 1) rfl rfl) trivial)
  have h := h.snoc (program_step (.ret (t := 0) rfl) trivial)
  have h := h.snoc (program_step
    (.runs (t := 1) (.pop 7) ⟨[], false⟩ (.leave [.one .notFull] (.bool true)) rfl rfl) trivial)
  have h := h.snoc (program_step
    (.notifyNone (t := 1) rfl (fun | 0 => nofun | 1 => nofun | 2 => nofun)) trivial)
  have h := h.snoc (program_step (.ret (t := 1) rfl) trivial)
  have h := h.snoc (program_step (.call (t := 0) (c := .push 8) rfl) rfl)
  have h := h.snoc (program_step
    (.runs (t := 0) (.push 8) ⟨[8], false⟩ (.leave [.one .notEmpty] (.bool true)) rfl rfl) trivial)
  have h := h.snoc (program_step (.call (t := 2) (c := .pop 0) rfl) rfl)
  have h := h.snoc (program_step
    (.runs (t := 2) (.pop 8) ⟨[], false⟩ (.leave [.one .notFull] (.bool true)) rfl rfl) trivial)
  have h := h.snoc (program_step
    (.notifyNone (t := 0) rfl (fun | 0 => nofun | 1 => nofun | 2 => nofun)) trivial)
  have h := h.snoc (program_step (.ret (t := 0) rfl) trivial)
  have h := h.snoc (program_step (.call (t := 0) (c := .push 9) rfl) rfl)
  have h := h.snoc (program_step
    (.runs (t := 0) (.push 9) ⟨[9], false⟩ (.leave [.one .notEmpty] (.bool true)) rfl rfl) trivial)
  exact ⟨_, _, _, h, ⟨rfl, rfl, rfl, rfl⟩, rfl⟩

theorem items_received_run : ∃ (s : State (Fin 3) Nat) (k : Fin 3 → Stage Nat)
    (ds : List (Fin 3 × Nat)),
    ((k 1).received = [7] ∧ (s.phase 2).inHand = [8] ∧ s.q = [9] ∧
      (k 0).unsent (s.phase 0) = [10]) ∧ Arrived 0 [7, 8, 9, 10] s k ds := by
  obtain ⟨tr, s, k, h, hparts, -⟩ := four_items_run
  obtain ⟨ds, hds⟩ := items_received h.reach
  exact ⟨s, k, ds, hparts, hds⟩

theorem program_ends_run : ∃ (tr : List (Label (Fin 3) Nat)) (s : State (Fin 3) Nat)
    (k : Fin 3 → Stage Nat), tr.length = 17 ∧
      tr.length ≤ 7 * (2 * 4 + 3) + 2 * spuriousWakeups tr ∧
      ((∀ t, (k t).ended = true) ∨ ∃ t ev b, ev ≠ .spurious ∧
        (producerConsumer 1 0 [7, 8, 9, 10] fun _ => 0).step (s, k) (t, ev) b) := by
  obtain ⟨tr, s, k, h, -, hlen⟩ := four_items_run
  exact ⟨tr, s, k, hlen, program_ends (by omega) ⟨1, by decide⟩ h⟩

end BoundedBlockingQueue

end CommCore
