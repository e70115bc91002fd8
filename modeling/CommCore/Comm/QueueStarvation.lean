import CommCore.Comm.QueueLemmas
import CommCore.Lib.Endless

/-!
# Starvation in `bounded_blocking_queue`

A notification wakes a thread, but does not keep for it what it was notified of: another thread may
lock `m_` first. So `push` and `pop` are not free of starvation (`push_pop_starve`): there are
endless runs in which every thread that is in a call takes steps again and again, none wakes without
a notification, items are accepted and delivered without end, and one call is woken each time, looks
at the queue, and waits again.

The run is a cycle (`Bypass.starves`): a giver makes what the sleeper waits for and wakes it, a
taker takes it, and the sleeper is too late.
-/

namespace CommCore

namespace BoundedBlockingQueue

open Lib

variable {α T : Type} [DecidableEq T]

/-! ## Three threads -/

/-- The threads `a`, `b` and `p` at the given places, and all others outside. -/
def trio (a b p : T) (d : Data α) (pa pb pp : Phase α) : State T α where
  toData := d
  phase u := if u = a then pa else if u = b then pb else if u = p then pp else .idle

section Trio

variable {a b p : T} {d : Data α} {pa pb pp : Phase α}

theorem trio_fst : (trio a b p d pa pb pp).phase a = pa := if_pos rfl

theorem trio_snd (hab : a ≠ b) : (trio a b p d pa pb pp).phase b = pb := by
  simp [trio, hab.symm]

theorem trio_thd (hap : a ≠ p) (hbp : b ≠ p) : (trio a b p d pa pb pp).phase p = pp := by
  simp [trio, hap.symm, hbp.symm]

theorem trio_other {t : T} (ha : t ≠ a) (hb : t ≠ b) (hp : t ≠ p) :
    (trio a b p d pa pb pp).phase t = .idle := by
  simp [trio, ha, hb, hp]

theorem trio_put (d' : Data α) :
    (trio a b p d pa pb pp).put d' = trio a b p d' pa pb pp := rfl

theorem trio_move_fst (q : Phase α) :
    (trio a b p d pa pb pp).move a q = trio a b p d q pb pp := by
  unfold State.move trio
  congr 1
  funext u
  by_cases hu : u = a
  · simp [hu]
  · simp [hu]

theorem trio_move_thd (hap : a ≠ p) (hbp : b ≠ p) (q : Phase α) :
    (trio a b p d pa pb pp).move p q = trio a b p d pa pb q := by
  unfold State.move trio
  congr 1
  funext u
  by_cases hu : u = p
  · simp [hu, hap.symm, hbp.symm]
  · simp [hu]

/-- Nobody else waits, if these three do not. -/
theorem trio_not_waiting {cv : Cv} (ha : ∀ c, pa ≠ .waiting cv c) (hb : ∀ c, pb ≠ .waiting cv c)
    (hp : ∀ c, pp ≠ .waiting cv c) (u : T) (c : Call α) :
    (trio a b p d pa pb pp).phase u ≠ .waiting cv c := by
  unfold trio
  dsimp only
  split
  · exact ha c
  split
  · exact hb c
  split
  · exact hp c
  · exact nofun

end Trio

/-! ## The cycle -/

/-- The steps of a call that does not wait, and notifies `cv`. -/
def oneCall (t : T) (c c' : Call α) (cv : Cv) (r : Ret) : List (Label T α) :=
  [(t, .call c), (t, .crit c' (.leave [.one cv] r)), (t, .notify (.one cv)), (t, .ret c' r)]

/-- A call while nobody waits on what it notifies. -/
theorem oneCall_steps {capacity : Nat} {s : State T α} {t : T} {c c' : Call α} {d : Data α}
    {cv : Cv} {r : Ret} (ht : s.phase t = .idle)
    (hc : c.section capacity false s.toData = (d, c', .leave [.one cv] r))
    (hn : ∀ u c₁, s.phase u ≠ .waiting cv c₁) :
    (queue α T capacity).Steps s (oneCall t c c' cv r) (s.put d) := by
  have hs : (queue α T capacity).Steps s [] s := .nil
  have hs := hs.snoc (.call (c := c) ht)
  have hs := hs.snoc (.crit (t := t) (by rw [move_phase_self]; rfl) hc)
  rw [show (s.move t (.entering c)).put d = (s.put d).move t (.entering c) from rfl,
    move_move] at hs
  have hs := hs.snoc (.notifyNone (move_phase_self ..)
    (forall_move (P := fun p => ∀ c₁, p ≠ .waiting cv c₁) hn fun _ => nofun))
  rw [move_move] at hs
  have hs := hs.snoc (.ret (move_phase_self ..))
  rw [move_move, move_eq_self (show (s.put d).phase t = .idle from ht)] at hs
  exact hs

/-- The sleeper `c` waits in `d`; the giver `g` makes what it waits for, and the taker `k` takes
that. -/
structure Bypass (capacity : Nat) (cv cv' : Cv) (c g g' k k' : Call α) (d d₁ : Data α) : Prop where
  sleeps : c.section capacity false d = (d, c, .wait cv)
  gives : g.section capacity false d = (d₁, g', .leave [.one cv] (.bool true))
  takes : k.section capacity false d₁ = (d, k', .leave [.one cv'] (.bool true))

/-- A call of the giver `p`, one of the taker `b`, and the section of the sleeper `a`. -/
def round (a b p : T) (cv cv' : Cv) (c g g' k k' : Call α) : List (Label T α) :=
  oneCall p g g' cv (.bool true) ++ oneCall b k k' cv' (.bool true) ++ [(a, .crit c (.wait cv))]

section Cycle

variable {capacity : Nat} {cv cv' : Cv} {c g g' k k' : Call α} {d d₁ : Data α} {a b p : T}

/-- The sleeper is woken, looks, and sleeps again. -/
theorem Bypass.steps (h : Bypass capacity cv cv' c g g' k k' d d₁) (hab : a ≠ b) (hap : a ≠ p)
    (hbp : b ≠ p) :
    (queue α T capacity).Steps (trio a b p d (.waiting cv c) .idle .idle)
      (round a b p cv cv' c g g' k k') (trio a b p d (.waiting cv c) .idle .idle) := by
  have hs : (queue α T capacity).Steps (trio a b p d (.waiting cv c) .idle .idle) [] _ := .nil
  -- the giver
  have hs := hs.snoc (.call (c := g) (trio_thd hap hbp))
  rw [trio_move_thd hap hbp] at hs
  have hs := hs.snoc (.crit (t := p) (by rw [trio_thd hap hbp]; rfl) h.gives)
  rw [trio_put, trio_move_thd hap hbp] at hs
  have hs := hs.snoc (.notifyOne (trio_thd hap hbp) trio_fst)
  rw [trio_move_fst, trio_move_thd hap hbp] at hs
  have hs := hs.snoc (.ret (trio_thd hap hbp))
  rw [trio_move_thd hap hbp] at hs
  -- the taker
  have hs := hs.append (oneCall_steps (trio_snd hab) h.takes
    (trio_not_waiting nofun nofun nofun))
  rw [trio_put] at hs
  -- the sleeper
  have hs := hs.snoc (.crit (t := a) (by rw [trio_fst]; rfl) h.sleeps)
  rw [trio_put, trio_move_fst] at hs
  exact hs

/-! ## Starvation -/

/-- A thread in a call stays in it until it returns. -/
theorem inCall_step {s s' : State T α} {t : T} {l : Label T α} (hst : Step capacity s l s')
    (h : s.phase t ≠ .idle) (hl : ∀ c r, l ≠ (t, .ret c r)) : s'.phase t ≠ .idle := by
  obtain ⟨u, ev⟩ := l
  by_cases hu : t = u
  · subst hu
    cases hst with
    | @crit _ c c' timedOut d e _ _ =>
      rw [move_phase_self]
      cases e <;> exact nofun
    | ret _ => exact absurd rfl (hl _ _)
    | _ =>
      rw [move_phase_self]
      exact nofun
  · rcases phase_of_step_ne hst hu with he | ⟨cv, c, -, he⟩
    · rwa [he]
    · rw [he]
      exact nofun

/-- A thread outside stays there until it calls. -/
theorem idle_step {s s' : State T α} {t : T} {l : Label T α} (hst : Step capacity s l s')
    (h : s.phase t = .idle) (hl : l.1 ≠ t) : s'.phase t = .idle := by
  obtain ⟨u, ev⟩ := l
  rcases phase_of_step_ne hst (Ne.symm hl) with he | ⟨cv, c, hw, -⟩
  · rw [he, h]
  · rw [h] at hw
    cases hw

/-- The call `c` of the thread `t` starves in an endless run, from a reachable state:

* `fair`: each thread is always outside, or takes steps again and again;
* `quiet`: no thread wakes without a notification, and none times out;
* `flows`: items are accepted and delivered again and again;
* `looks`: `t` looks at the queue again and again, and has to wait each time;
* `never`: it never returns. -/
structure Starves (capacity : Nat) (t : T) (c : Call α) (cv : Cv) (st : Nat → State T α)
    (lb : Nat → Label T α) : Prop where
  reach : (queue α T capacity).Reach (st 0)
  run : (queue α T capacity).Endless st lb
  fair : ∀ u, (∀ n, (st n).phase u = .idle) ∨ Sys.Recurs (fun l => l.1 = u) lb
  quiet : ∀ n, (lb n).2 ≠ .spurious ∧ (lb n).2 ≠ .timeout ∧ (lb n).2 ≠ .overtake
  flows : Sys.Recurs (fun l => l.2.accepted.isSome = true) lb ∧
    Sys.Recurs (fun l => l.2.delivered.isSome = true) lb
  looks : Sys.Recurs (· = (t, .crit c (.wait cv))) lb
  never : ∀ n, (st n).phase t ≠ .idle ∧ ∀ c' r, lb n ≠ (t, .ret c' r)

/-- The items go from the giver to the taker, or from the taker to the giver. -/
def Flow (g k : Call α) : Prop :=
  (g.item.isSome = true ∧ k.out.isSome = true) ∨ (g.out.isSome = true ∧ k.item.isSome = true)

/-- What a sleeper that can be bypassed goes through. -/
theorem Bypass.starves (h : Bypass capacity cv cv' c g g' k k' d d₁) (hab : a ≠ b) (hap : a ≠ p)
    (hbp : b ≠ p) (hf : Flow g' k')
    (hr : (queue α T capacity).Reach (trio a b p d (.waiting cv c) .idle .idle)) :
    ∃ st lb, Starves capacity a c cv st lb := by
  obtain ⟨st, lb, hrun, h0, hmem, hrec⟩ := (h.steps hab hap hbp).cycle (List.cons_ne_nil _ _)
  have hgive := hrec (p, .crit g' (.leave [.one cv] (.bool true))) (by simp [round, oneCall])
  have htake := hrec (b, .crit k' (.leave [.one cv'] (.bool true))) (by simp [round, oneCall])
  have hlook := hrec (a, .crit c (.wait cv)) (by simp [round, oneCall])
  -- what the labels of a round are not
  have hlabel : ∀ l ∈ round a b p cv cv' c g g' k k',
      (l.1 = a ∨ l.1 = b ∨ l.1 = p) ∧ (∀ c' r, l ≠ (a, .ret c' r)) ∧
        l.2 ≠ .spurious ∧ l.2 ≠ .timeout ∧ l.2 ≠ .overtake := by
    intro l hl
    simp only [round, oneCall, List.cons_append, List.nil_append, List.mem_cons, List.not_mem_nil,
      or_false] at hl
    rcases hl with rfl | rfl | rfl | rfl | rfl | rfl | rfl | rfl | rfl <;>
      simp [hap.symm, hab.symm]
  have hnever : ∀ n c' r, lb n ≠ (a, .ret c' r) := fun n => (hlabel _ (hmem n)).2.1
  refine ⟨st, lb, by rw [h0]; exact hr, hrun, fun u => ?_, fun n => (hlabel _ (hmem n)).2.2, ?_,
    hlook, fun n => ⟨?_, hnever n⟩⟩
  · by_cases ha : u = a
    · exact .inr (hlook.imp fun l hl => by rw [hl, ha])
    by_cases hb : u = b
    · exact .inr (htake.imp fun l hl => by rw [hl, hb])
    by_cases hp : u = p
    · exact .inr (hgive.imp fun l hl => by rw [hl, hp])
    refine .inl (hrun.keep (I := fun s => s.phase u = .idle) (fun n s' hi hst => ?_) ?_)
    · refine idle_step hst hi fun he => ?_
      rcases (hlabel _ (hmem n)).1 with hl | hl | hl
      · exact ha (he.symm.trans hl)
      · exact hb (he.symm.trans hl)
      · exact hp (he.symm.trans hl)
    · rw [h0]
      exact trio_other ha hb hp
  · rcases hf with ⟨hi, ho⟩ | ⟨ho, hi⟩
    · exact ⟨hgive.imp fun l hl => by rw [hl]; exact hi, htake.imp fun l hl => by rw [hl]; exact ho⟩
    · exact ⟨htake.imp fun l hl => by rw [hl]; exact hi, hgive.imp fun l hl => by rw [hl]; exact ho⟩
  · refine hrun.keep (I := fun s => s.phase a ≠ .idle) (fun n s' hi hst => ?_) ?_ n
    · exact inCall_step hst hi (hnever n)
    · rw [h0, trio_fst]
      exact nofun

end Cycle

/-! ## `push` and `pop` -/

/-- `push` with room, on a queue of copies of its item. -/
theorem push_section {capacity k : Nat} (x : α) (hk : k < capacity) :
    (Call.push x).section capacity false ⟨List.replicate k x, false⟩ =
      (⟨List.replicate (k + 1) x, false⟩, .push x, .leave [.one .notEmpty] (.bool true)) := by
  have hroom : ¬ capacity ≤ k := Nat.not_le.mpr hk
  simp [Call.section, push, hroom, List.replicate_succ']

/-- `push` on a full queue. -/
theorem push_section_full {capacity : Nat} (x : α) :
    (Call.push x).section capacity false ⟨List.replicate capacity x, false⟩ =
      (⟨List.replicate capacity x, false⟩, .push x, .wait .notFull) := by
  simp [Call.section, push]

/-- `pop` on a queue of copies of an item. -/
theorem pop_section {capacity k : Nat} (o x : α) :
    (Call.pop o).section capacity false ⟨List.replicate (k + 1) x, false⟩ =
      (⟨List.replicate k x, false⟩, .pop x, .leave [.one .notFull] (.bool true)) := rfl

/-- `pop` on an empty queue. -/
theorem pop_section_empty {capacity : Nat} (o : α) :
    (Call.pop o).section capacity false ⟨[], false⟩ = (⟨[], false⟩, .pop o, .wait .notEmpty) := rfl

section Pair

variable {capacity : Nat} {a b p : T}

/-- The thread `p` fills the queue. -/
theorem fill_reach (hap : a ≠ p) (hbp : b ≠ p) (x : α) {k : Nat} (hk : k ≤ capacity) :
    (queue α T capacity).Reach (trio a b p ⟨List.replicate k x, false⟩ .idle .idle .idle) := by
  induction k with
  | zero =>
    refine ⟨[], .start ⟨rfl, rfl, fun t => ?_⟩⟩
    simp [trio]
  | succ k ih =>
    exact (ih (Nat.le_of_succ_le hk)).steps (oneCall_steps (trio_thd hap hbp) (push_section x hk)
      (trio_not_waiting nofun nofun nofun))

/-- The thread `a` calls `c` and goes to sleep. -/
theorem asleep_reach {cv : Cv} {c : Call α} {d : Data α}
    (hr : (queue α T capacity).Reach (trio a b p d .idle .idle .idle))
    (hc : c.section capacity false d = (d, c, .wait cv)) :
    (queue α T capacity).Reach (trio a b p d (.waiting cv c) .idle .idle) := by
  have hs : (queue α T capacity).Steps (trio a b p d .idle .idle .idle) [] _ := .nil
  have hs := hs.snoc (.call (c := c) trio_fst)
  rw [trio_move_fst] at hs
  have hs := hs.snoc (.crit (t := a) (by rw [trio_fst]; rfl) hc)
  rw [trio_put, trio_move_fst] at hs
  exact hr.steps hs

/-- **`push` and `pop` can starve**, whatever the capacity, the item and the content of `out`. -/
theorem push_pop_starve (hcap : 0 < capacity) (hab : a ≠ b) (hap : a ≠ p) (hbp : b ≠ p)
    (x o : α) :
    (∃ st lb, Starves capacity a (.pop o) .notEmpty st lb) ∧
      ∃ st lb, Starves capacity a (.push x) .notFull st lb := by
  constructor
  · -- the queue is empty; `p` pushes `x`, and `b` pops it
    have h : Bypass capacity .notEmpty .notFull (.pop o) (.push x) (.push x) (.pop o) (.pop x)
        ⟨[], false⟩ ⟨[x], false⟩ :=
      ⟨pop_section_empty o, push_section (k := 0) x hcap, pop_section (k := 0) o x⟩
    have hr := fill_reach (a := a) hap hbp x (Nat.zero_le capacity)
    exact h.starves hab hap hbp (.inl ⟨rfl, rfl⟩) (asleep_reach hr h.sleeps)
  · -- the queue is full; `p` pops an item, and `b` pushes it again
    obtain ⟨k, rfl⟩ := Nat.exists_eq_succ_of_ne_zero hcap.ne'
    have h : Bypass (k + 1) .notFull .notEmpty (.push x) (.pop o) (.pop x) (.push x) (.push x)
        ⟨List.replicate (k + 1) x, false⟩ ⟨List.replicate k x, false⟩ :=
      ⟨push_section_full x, pop_section o x, push_section x (Nat.lt_succ_self k)⟩
    have hr := fill_reach (a := a) hap hbp x (Nat.le_refl (k + 1))
    exact h.starves hab hap hbp (.inr ⟨rfl, rfl⟩) (asleep_reach hr h.sleeps)

end Pair

theorem push_pop_starve_three :
    (∃ st lb, Starves (T := Fin 3) 1 0 (.pop 0) .notEmpty st lb) ∧
      ∃ st lb, Starves (T := Fin 3) 1 0 (.push 7) .notFull st lb :=
  push_pop_starve (b := 1) (p := 2) (by decide) (by decide) (by decide) (by decide) (7 : Nat) 0

end BoundedBlockingQueue

end CommCore
