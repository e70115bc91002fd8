import CommCore.Comm.QueueHistories

/-!
# More room, and calls without a timeout

What the threads can see of a `bounded_blocking_queue` in which no timed call gives up, they can see
of one with a larger capacity too, and with `push` and `pop` for `push_for` and `pop_for`
(`histories_carry_over`). Of a larger queue they may see more, such as a larger size.

Both are comparisons of the FIFOs (`Lib.Object.Covers`): where a timed call gives up, the other
queue leaves it in its call.
-/

namespace CommCore

namespace BoundedBlockingQueue

open Lib

variable {α : Type}

/-- A call without its timeout. -/
def Call.untimed : Call α → Call α
  | .pushFor x => .push x
  | .popFor o => .pop o
  | c => c

theorem untimed_cv (c : Call α) : c.untimed.cv = c.cv := by cases c <;> rfl

theorem untimed_item (c : Call α) : c.untimed.item = c.item := by cases c <;> rfl

theorem untimed_out (c : Call α) : c.untimed.out = c.out := by cases c <;> rfl

theorem untimed_setOut (c : Call α) (x : α) : (c.setOut x).untimed = c.untimed.setOut x := by
  cases c <;> rfl

/-- A `push_for` that does not put its item in. -/
def PushGaveUp (c : Call α) (r : Ret) : Prop :=
  c.timed = true ∧ c.cv = some .notFull ∧ r = .bool false

/-- A timed call that fails. -/
def GaveUp (c : Call α) (r : Ret) : Prop := c.timed = true ∧ r = .bool false

/-- A larger queue, up to the `push_for`s that give up. -/
theorem larger_covers {m n : Nat} (hmn : m ≤ n) :
    (dueFifo (α := α) m).Covers (dueFifo n) id PushGaveUp Eq where
  init s hs := ⟨s, hs, rfl⟩
  eff f c f' c' r a he hfa := by
    subst hfa
    cases he with
    | put hx hcl hlt => exact .inr ⟨_, .put hx hcl (Nat.lt_of_lt_of_le hlt hmn), rfl⟩
    | take ho hq => exact .inr ⟨_, .take ho hq, rfl⟩
    | refuse hr => exact .inr ⟨_, .refuse hr, rfl⟩
    | @giveUp _ cv ht hcv hcl hav =>
      cases cv with
      | notFull => exact .inl ⟨⟨ht, hcv, rfl⟩, rfl⟩
      | notEmpty => exact .inr ⟨_, .giveUp ht hcv hcl hav, rfl⟩
    | close => exact .inr ⟨_, .close, rfl⟩
    | closed => exact .inr ⟨_, .closed, rfl⟩
    | size => exact .inr ⟨_, .size, rfl⟩

/-- A queue whose calls have no timeout, up to the calls that give up. -/
theorem untimed_covers (capacity : Nat) :
    (dueFifo (α := α) capacity).Covers (dueFifo capacity) Call.untimed GaveUp Eq where
  init s hs := ⟨s, hs, rfl⟩
  eff f c f' c' r a he hfa := by
    subst hfa
    cases he with
    | put hx hcl hlt => exact .inr ⟨_, .put ((untimed_item c).trans hx) hcl hlt, rfl⟩
    | take ho hq =>
      rw [untimed_setOut]
      exact .inr ⟨_, .take ((untimed_out c).trans ho) hq, rfl⟩
    | refuse hr =>
      refine .inr ⟨_, .refuse ?_, rfl⟩
      rcases hr with ⟨h, -⟩ | ⟨hcl, hcv⟩ | ⟨hcl, hq, hcv⟩
      · cases h
      · exact .inr (.inl ⟨hcl, (untimed_cv c).trans hcv⟩)
      · exact .inr (.inr ⟨hcl, hq, (untimed_cv c).trans hcv⟩)
    | giveUp ht _ _ _ => exact .inl ⟨⟨ht, rfl⟩, rfl⟩
    | close => exact .inr ⟨_, .close, rfl⟩
    | closed => exact .inr ⟨_, .closed, rfl⟩
    | size => exact .inr ⟨_, .size, rfl⟩

section Threads

variable {T : Type} [DecidableEq T]

omit [DecidableEq T] in
theorem onCall_id {C R : Type*} (h : List (T × Act C R)) : h.map (Object.onCall id) = h := by
  have hid : Object.onCall (T := T) (C := C) (R := R) id = id := by
    funext l
    obtain ⟨t, e⟩ := l
    cases e <;> rfl
  rw [hid, List.map_id]

/-- A history `h` on a queue of capacity `n`:

* `larger`: it is one, if in `h` no `push_for` fails;
* `untimed`: it is one with `push` and `pop` for `push_for` and `pop_for`, if in `h` none of these
  fails. -/
structure CarriesOver (n : Nat) (h : List (T × Act (Call α) Ret)) : Prop where
  larger : (∀ t x, (t, Act.ret (.pushFor x) (.bool false)) ∉ h) → (queue α T n).Traces seen h
  untimed : (∀ t c, c.timed = true → (t, Act.ret c (.bool false)) ∉ h) →
    (queue α T n).Traces seen (h.map (Object.onCall Call.untimed))

/-- **The histories of a queue carry over** to every larger one, and to calls without a timeout, if
no timed call fails in them. -/
theorem histories_carry_over {m n : Nat} (hmn : m ≤ n) {h : List (T × Act (Call α) Ret)}
    (hh : (queue α T m).Traces seen h) : CarriesOver n h where
  larger hno := by
    have hf := (larger_covers hmn).traces ((hindsight m).traces hh) fun t c r hm hskip => ?_
    · rw [onCall_id] at hf
      exact (prompt_simulates n).traces hf
    · obtain ⟨ht, hcv, rfl⟩ := hskip
      cases c with
      | pushFor x => exact hno t x hm
      | popFor o => cases hcv
      | _ => cases ht
  untimed hno := by
    have hf := (untimed_covers m).traces ((hindsight m).traces hh) fun t c r hm hskip => ?_
    · have hf' := (larger_covers hmn).traces hf fun t c r hm hskip => ?_
      · rw [onCall_id] at hf'
        exact (prompt_simulates n).traces hf'
      · -- nothing in it is timed
        obtain ⟨l, -, hl⟩ := List.mem_map.mp hm
        obtain ⟨u, e⟩ := l
        cases e with
        | ret c₁ r₁ =>
          cases hl
          obtain ⟨ht, -⟩ := hskip
          cases c₁ <;> cases ht
        | _ => cases hl
    · obtain ⟨ht, rfl⟩ := hskip
      exact hno t c ht hm

end Threads

/-- What two threads see of a queue of capacity 1: the second `push_for` of thread `a` waits for the
`pop_for` of thread `b`. -/
def twoClients {T : Type} (a b : T) : List (T × Act (Call Nat) Ret) :=
  [(a, .call (.pushFor 7)), (b, .call .size), (b, .ret .size (.size 1)),
    (a, .ret (.pushFor 7) (.bool true)), (a, .call (.pushFor 8)), (b, .call (.popFor 0)),
    (b, .ret (.popFor 7) (.bool true)), (a, .ret (.pushFor 8) (.bool true))]

/-- They can see it of one of capacity 2, and with `push` and `pop`. -/
theorem histories_carry_over_twoClients : (queue Nat (Fin 2) 1).Traces seen (twoClients 0 1) ∧
    (queue Nat (Fin 2) 2).Traces seen (twoClients 0 1) ∧
    (queue Nat (Fin 2) 2).Traces seen ((twoClients 0 1).map (Object.onCall Call.untimed)) := by
  have h : (queue Nat (Fin 2) 1).Run [] _ := .start (init_idle 1)
  have h := h.snoc (.call (t := 0) (c := .pushFor 7) rfl)
  have h := h.snoc
    (.runs (t := 0) (.pushFor 7) ⟨[7], false⟩ (.leave [.one .notEmpty] (.bool true)) rfl rfl)
  have h := h.snoc (.call (t := 1) (c := .size) rfl)
  have h := h.snoc (.runs (t := 1) .size ⟨[7], false⟩ (.leave [] (.size 1)) rfl rfl)
  have h := h.snoc (.ret (t := 1) rfl)
  have h := h.snoc (.notifyNone (t := 0) rfl (fun | 0 => nofun | 1 => nofun))
  have h := h.snoc (.ret (t := 0) rfl)
  have h := h.snoc (.call (t := 0) (c := .pushFor 8) rfl)
  have h := h.snoc (.runs (t := 0) (.pushFor 8) ⟨[7], false⟩ (.wait .notFull) rfl rfl)
  have h := h.snoc (.call (t := 1) (c := .popFor 0) rfl)
  have h := h.snoc
    (.runs (t := 1) (.popFor 7) ⟨[], false⟩ (.leave [.one .notFull] (.bool true)) rfl rfl)
  have h := h.snoc (.notifyOne (t := 1) (u := 0) rfl rfl)
  have h := h.snoc (.ret (t := 1) rfl)
  have h := h.snoc
    (.runs (t := 0) (.pushFor 8) ⟨[8], false⟩ (.leave [.one .notEmpty] (.bool true)) rfl rfl)
  have h := h.snoc (.notifyNone (t := 0) rfl (fun | 0 => nofun | 1 => nofun))
  have h := h.snoc (.ret (t := 0) rfl)
  have hseen : (queue Nat (Fin 2) 1).Traces seen (twoClients 0 1) := ⟨_, _, h, rfl⟩
  have hover : CarriesOver 2 (twoClients (0 : Fin 2) 1) := histories_carry_over (by decide) hseen
  refine ⟨hseen, hover.larger ?_, hover.untimed ?_⟩
  · simp [twoClients]
  · simp [twoClients]

end BoundedBlockingQueue

end CommCore
