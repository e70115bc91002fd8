import CommCore.Lib.Threads

/-!
# Client programs

Threads that run a program of calls on a system (`Sys`) whose steps show its calls and returns as
the actions of an atomic object (`Act`):

* `Client`: each thread's program, as an automaton: what it calls next (`next`), or nothing any
  more, and its state after a return (`got`).
* `Sys.drive`: the system with these clients. A call has to be the one that the thread's program
  makes next; every other step is as before.
* `Simulation.drive`: clients carry over a simulation. So a program whose calls go to a linearizable
  object may be verified as one whose calls take effect at once.
-/

namespace Lib

universe u v

/-- A program for each thread: its first state, its next call, and its state after a return. -/
structure Client (T K C R : Type) where
  start : T → K
  next : K → Option C
  got : K → C → R → K

namespace Client

variable {T K C R : Type} (cl : Client T K C R)

/-- The action is a step of the programs: a call is the next one of its thread. -/
def Allows (k : T → K) : Option (T × Act C R) → Prop
  | some (t, .call c) => cl.next (k t) = some c
  | _ => True

/-- The states of the programs after an action. -/
def after [DecidableEq T] (k : T → K) : Option (T × Act C R) → T → K
  | some (t, .ret c r) => Function.update k t (cl.got (k t) c r)
  | _ => k

end Client

variable {T K C R : Type} [DecidableEq T]

/-- The system with the client programs. `g` is the action of a step. -/
def Sys.drive {σ : Type u} {L : Type v} (S : Sys σ L) (g : L → Option (T × Act C R))
    (cl : Client T K C R) : Sys (σ × (T → K)) L where
  init p := S.init p.1 ∧ p.2 = cl.start
  step p l p' := S.step p.1 l p'.1 ∧ cl.Allows p.2 (g l) ∧ p'.2 = cl.after p.2 (g l)

section Drive

variable {σ : Type u} {L : Type v} {S : Sys σ L} {g : L → Option (T × Act C R)}
  {cl : Client T K C R}

theorem Sys.Steps.of_drive {p p' : σ × (T → K)} {tr : List L}
    (h : (S.drive g cl).Steps p tr p') : S.Steps p.1 tr p'.1 := by
  induction h with
  | nil => exact .nil
  | snoc _ hst ih => exact ih.snoc hst.1

/-- A run with clients is a run. -/
theorem Sys.Run.of_drive {p : σ × (T → K)} {tr : List L} (h : (S.drive g cl).Run tr p) :
    S.Run tr p.1 := by
  obtain ⟨p₀, hi, hs⟩ := h
  exact ⟨p₀.1, hi.1, hs.of_drive⟩

/-- **Clients carry over a simulation.** -/
theorem Simulation.drive {τ : Type} {A : Sys τ (T × Act C R)} {I : σ → Prop} {f : σ → τ}
    (h : Simulation S A I f g) (cl : Client T K C R) :
    Simulation (S.drive g cl) (A.drive some cl) (fun p => I p.1) (fun p => (f p.1, p.2)) g where
  init p hp := ⟨h.init p.1 hp.1, hp.2⟩
  step p l p' hI hst := by
    obtain ⟨hs, hall, hk⟩ := hst
    have hsim := h.step p.1 l p'.1 hI hs
    cases hg : g l with
    | none =>
      rw [hg] at hsim hk
      exact Prod.ext hsim hk
    | some m =>
      rw [hg] at hsim hall hk
      exact ⟨hsim, hall, hk⟩

/-- The run of the atomic object behind a run with clients. -/
theorem Simulation.drive_run {τ : Type} {A : Sys τ (T × Act C R)} {f : σ → τ}
    (h : Simulation S A (fun _ => True) f g) {p : σ × (T → K)} {tr : List L}
    (hr : (S.drive g cl).Run tr p) :
    (A.drive some cl).Run (tr.filterMap g) (f p.1, p.2) :=
  (h.drive cl).run ⟨fun _ _ => trivial, fun _ _ _ _ _ => trivial⟩ hr

end Drive

end Lib
