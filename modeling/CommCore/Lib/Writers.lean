import CommCore.Lib.Schema

/-!
# What writers of JSON values keep

- `Back e r a`: a reader gives `a` back, or fails with the error `e`; it reads nothing else. Readers
  are put together of readers with this property (`Back.bind`, `Back.member`, `back_list`).
- **Writers that lose nothing.** An object is written key by key, so two objects that are equal have
  equal values under a key (`find_inj`). A list is written item by item (`valueFrom_list_inj`).
- `Value.Has`: a value that is an object with a key, and what is said of the value under the key.
-/

namespace Lib

namespace Json

variable {α β : Type} {e : Error}

/-- The reader gave `a`, or failed with `e`. -/
def Back (e : Error) (r : Except Error α) (a : α) : Prop := r = .ok a ∨ r = .error e

theorem Back.ok {r : Except Error α} {a b : α} (h : Back e r a) (hr : r = .ok b) : b = a := by
  rcases h with h | h
  · rw [h] at hr
    exact (Except.ok.inj hr).symm
  · rw [h] at hr
    cases hr

theorem Back.bind {r : Except Error α} {a : α} {f : α → Except Error β} {b : β}
    (h : Back e r a) (hf : Back e (f a) b) : Back e (r >>= f) b := by
  rcases h with rfl | rfl
  · exact hf
  · exact .inr rfl

/-- A member that was written. -/
theorem Back.member {obj : Obj} {key : Str} {v : Value} {read : Value → Except Error α} {a : α}
    (hk : obj.find key = some v) (h : Back e (read v) a) (absent : α) :
    Back e (obj.readMember key read absent) a := by
  rw [readMember_some hk]
  exact h

theorem RoundTrips.back [ValueTo α] [ValueFrom α] {a : α} (h : RoundTrips a) :
    Back e (valueTo (valueFrom a)) a := .inl h

/-- An absent optional is refused. -/
theorem back_opt (o : Option Str) : Back .notString (readSome (valueFrom o)) o := by
  cases o with
  | none => exact .inr rfl
  | some s => exact .inl rfl

/-- The items are read until one is refused. -/
theorem back_list [ValueTo α] [ValueFrom α] (h : ∀ a : α, Back e (valueTo (valueFrom a)) a)
    (as : List α) : Back e (valueTo (valueFrom as)) as := by
  show Back e ((as.map valueFrom).mapM valueTo) as
  induction as with
  | nil => exact .inl rfl
  | cons a as ih =>
    rw [List.map_cons, List.mapM_cons]
    exact (h a).bind (ih.bind (.inl rfl))

/-! ## Writers that lose nothing -/

/-- Equal objects have equal values under a key. -/
theorem find_inj {obj obj' : Obj} {key : Str} {v w : Value}
    (h : Value.object obj = Value.object obj') (hv : obj.find key = some v)
    (hw : obj'.find key = some w) : v = w := by
  have heq : obj = obj' := Value.object.inj h
  rw [heq, hw] at hv
  exact (Option.some.inj hv).symm

theorem valueFrom_bool_inj : Function.Injective (valueFrom : Bool → Value) :=
  fun _ _ => Value.bool.inj

theorem valueFrom_str_inj : Function.Injective (valueFrom : Str → Value) :=
  fun _ _ => Value.string.inj

/-- No string is written as an absent one is. -/
theorem valueFrom_opt_inj : Function.Injective (valueFrom : Option Str → Value) := by
  intro o o' h
  cases o with
  | none =>
    cases o' with
    | none => rfl
    | some s => cases h
  | some s =>
    cases o' with
    | none => cases h
    | some s' => exact congrArg some (Value.string.inj h)

theorem valueFrom_list_inj [ValueFrom α] (h : Function.Injective (valueFrom : α → Value)) :
    Function.Injective (valueFrom : List α → Value) := by
  intro as as' heq
  exact List.map_injective_iff.mpr h (Value.array.inj heq)

/-- A writer with a reader that gives every value back. -/
theorem valueFrom_inj_of_roundTrips [ValueTo α] [ValueFrom α] (h : ∀ a : α, RoundTrips a) :
    Function.Injective (valueFrom : α → Value) := by
  intro a b heq
  have hb := h b
  unfold RoundTrips at hb
  rw [← heq, h a] at hb
  exact Except.ok.inj hb

/-! ## Keys that are there -/

/-- The value is an object with the key, and `Q` holds of the value under it. -/
def Value.Has (v : Value) (key : Str) (Q : Value → Prop) : Prop :=
  ∃ (obj : Obj) (w : Value), v = .object obj ∧ obj.find key = some w ∧ Q w

theorem has_object {obj : Obj} {key : Str} {Q : Value → Prop} :
    (Value.object obj).Has key Q ↔ ∃ w, obj.find key = some w ∧ Q w := by
  constructor
  · rintro ⟨obj', w, hv, hw, hQ⟩
    cases hv
    exact ⟨w, hw, hQ⟩
  · rintro ⟨w, hw, hQ⟩
    exact ⟨obj, w, rfl, hw, hQ⟩

end Json

end Lib
