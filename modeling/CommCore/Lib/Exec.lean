import Mathlib.Init

/-!
# Programs that throw

`Exec ε σ α` is a program over a state `σ` that returns an `α` or throws an `ε`: core's `EStateM`,
which keeps the state reached at the throw, as C++ does. A program may also do something undefined
(`Fault.undefined`: an access outside an object, a null dereference); no handler catches that.

`Exec.run_*` say what the commands do to a state; `Exec.final` is the state that a program leaves,
however it ends.
-/

namespace Lib

/-- Why a program stopped: it threw, or did something undefined. -/
inductive Fault (ε : Type) where
  | thrown (e : ε)
  | undefined
  deriving DecidableEq, Repr

abbrev Exec (ε σ α : Type) := EStateM (Fault ε) σ α

namespace Exec

variable {ε σ α β : Type}

/-- `throw e`. -/
def throw (e : ε) : Exec ε σ α := fun s => .error (.thrown e) s

/-- `if (p) throw e;`. -/
def throwIf (p : Prop) [Decidable p] (e : ε) : Exec ε σ Unit := if p then throw e else pure ()

/-- The value of an access, undefined where there is none. -/
def need : Option α → Exec ε σ α
  | some a => pure a
  | none => fun s => .error .undefined s

/-- A call that returns or throws and does not use the state. -/
def ofExcept : Except ε α → Exec ε σ α
  | .ok a => pure a
  | .error e => throw e

/-- `try c catch (e) handler`: the handler starts in the state that the throw left. -/
def tryCatch {ε' : Type} (c : Exec ε σ α) (handler : ε → Exec ε' σ α) : Exec ε' σ α := fun s =>
  match c.run s with
  | .ok a s' => .ok a s'
  | .error (.thrown e) s' => (handler e).run s'
  | .error .undefined s' => .error .undefined s'

/-- The state that a program leaves, also when it stops before its end. -/
def final (c : Exec ε σ α) (s : σ) : σ :=
  match c.run s with
  | .ok _ s' => s'
  | .error _ s' => s'

theorem final_ok {c : Exec ε σ α} {s s' : σ} {a : α} (h : c.run s = .ok a s') :
    c.final s = s' := by
  unfold final
  rw [h]

theorem final_error {c : Exec ε σ α} {s s' : σ} {x : Fault ε} (h : c.run s = .error x s') :
    c.final s = s' := by
  unfold final
  rw [h]

/-- A program after one that returned. -/
theorem run_bind_ok {c : Exec ε σ α} {f : α → Exec ε σ β} {s s' : σ} {a : α}
    (h : c.run s = .ok a s') : (c >>= f).run s = (f a).run s' := by
  rw [EStateM.run_bind, h]

/-- What follows `if (p) throw e;`. -/
theorem run_throwIf_bind {p : Prop} [Decidable p] (e : ε) (f : Unit → Exec ε σ α) (s : σ) :
    (throwIf p e >>= f).run s = if p then .error (.thrown e) s else (f ()).run s := by
  unfold throwIf
  by_cases hp : p
  · rw [if_pos hp, if_pos hp]; rfl
  · rw [if_neg hp, if_neg hp]; rfl

theorem ofExcept_bind (x : Except ε α) (f : α → Except ε β) :
    (ofExcept (x >>= f) : Exec ε σ β) = ofExcept x >>= fun a => ofExcept (f a) := by
  cases x <;> rfl

/-- What follows a call that does not use the state. -/
theorem run_ofExcept_bind (x : Except ε α) (f : α → Exec ε σ β) (s : σ) :
    (ofExcept x >>= f).run s =
      match x with
      | .ok a => (f a).run s
      | .error e => .error (.thrown e) s := by
  cases x <;> rfl

theorem run_tryCatch {ε' : Type} (c : Exec ε σ α) (handler : ε → Exec ε' σ α) (s : σ) :
    (tryCatch c handler).run s =
      match c.run s with
      | .ok a s' => .ok a s'
      | .error (.thrown e) s' => (handler e).run s'
      | .error .undefined s' => .error .undefined s' := rfl

@[simp] theorem run_need_some (a : α) (s : σ) : (need (some a) : Exec ε σ α).run s = .ok a s := rfl

end Exec

end Lib
