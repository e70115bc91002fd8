import CommCore.Lib.Bytes

/-!
# JSON values and their conversions

- **Values.** A number is of one of three kinds; an object is the list of its members, in the order
  of insertion. `find` looks a key up and `set` assigns to it (`obj[key] = v`).
- **Conversions.** `ValueTo` reads a value of a type, `ValueFrom` writes one, as the customisation
  points of a library do. The readers of the basic types are strict: each takes its own kind only.
  An absent optional is written as `null`, which no strict reader takes back
  (`readSome_valueFrom_iff`).
- **Round trips.** `RoundTrips a`: what is written for `a` reads back as `a`. For a list it is the
  round trip of its elements (`roundTrips_list_iff`); for an object it is that of its members,
  which `readMember` finds by their keys.
-/

namespace Lib

namespace Json

/-- A JSON value. -/
inductive Value where
  | null
  | bool (b : Bool)
  | int64 (n : Int)
  | uint64 (n : Nat)
  | double (bits : Word 8)
  | string (s : Str)
  | array (vs : List Value)
  | object (members : List (Str × Value))

/-- The members of an object. -/
abbrev Obj := List (Str × Value)

/-- Why a conversion failed. -/
inductive Error where
  | notBool
  | notString
  | notArray
  | notObject
  deriving DecidableEq, Repr

/-! ## Members -/

/-- `obj.if_contains(key)`. -/
def Obj.find (obj : Obj) (key : Str) : Option Value := List.lookup key obj

/-- `obj[key] = v`. -/
def Obj.set (obj : Obj) (key : Str) (v : Value) : Obj :=
  match obj with
  | [] => [(key, v)]
  | (k, w) :: rest => if k = key then (k, v) :: rest else (k, w) :: Obj.set rest key v

@[simp] theorem find_nil (key : Str) : Obj.find [] key = none := rfl

theorem find_cons (k key : Str) (v : Value) (obj : Obj) :
    Obj.find ((k, v) :: obj) key = if key = k then some v else Obj.find obj key := by
  unfold Obj.find
  by_cases h : key = k
  · simp [h]
  · have hb : (key == k) = false := by simpa using h
    rw [List.lookup_cons, hb, if_neg h]

/-- A key after an assignment to it. -/
@[simp] theorem find_set_self (obj : Obj) (key : Str) (v : Value) :
    (obj.set key v).find key = some v := by
  induction obj with
  | nil => rw [Obj.set, find_cons, if_pos rfl]
  | cons m rest ih =>
    obtain ⟨k, w⟩ := m
    rw [Obj.set]
    by_cases h : k = key
    · rw [if_pos h, find_cons, if_pos h.symm]
    · rw [if_neg h, find_cons, if_neg (Ne.symm h), ih]

/-- A key after an assignment to another one. -/
theorem find_set_ne (obj : Obj) {key key' : Str} (v : Value) (h : key' ≠ key) :
    (obj.set key v).find key' = obj.find key' := by
  induction obj with
  | nil => rw [Obj.set, find_cons, if_neg h]
  | cons m rest ih =>
    obtain ⟨k, w⟩ := m
    rw [Obj.set]
    by_cases hk : k = key
    · rw [if_pos hk, find_cons, find_cons, if_neg (hk ▸ h), if_neg (hk ▸ h)]
    · rw [if_neg hk, find_cons, find_cons, ih]

/-! ## Conversions -/

/-- `value_to<α>`. -/
class ValueTo (α : Type) where
  valueTo : Value → Except Error α

/-- `value_from` of an `α`. -/
class ValueFrom (α : Type) where
  valueFrom : α → Value

export ValueTo (valueTo)

export ValueFrom (valueFrom)

/-- `as_object()`. -/
def Value.asObject : Value → Except Error Obj
  | .object obj => .ok obj
  | _ => .error .notObject

def Value.asBool : Value → Except Error Bool
  | .bool b => .ok b
  | _ => .error .notBool

def Value.asString : Value → Except Error Str
  | .string s => .ok s
  | _ => .error .notString

def Value.asArray : Value → Except Error (List Value)
  | .array vs => .ok vs
  | _ => .error .notArray

instance : ValueTo Bool := ⟨Value.asBool⟩

instance : ValueTo Str := ⟨Value.asString⟩

/-- A vector: every element is converted, and the first failure is that of the whole. -/
instance {α : Type} [ValueTo α] : ValueTo (List α) := ⟨fun v => v.asArray >>= List.mapM valueTo⟩

instance : ValueFrom Bool := ⟨.bool⟩

instance : ValueFrom Str := ⟨.string⟩

instance {α : Type} [ValueFrom α] : ValueFrom (List α) := ⟨fun as => .array (as.map valueFrom)⟩

/-- An absent optional is `null`. -/
instance {α : Type} [ValueFrom α] : ValueFrom (Option α) where
  valueFrom
    | some a => valueFrom a
    | none => .null

/-- `obj.if_contains(key) ? read(obj.at(key)) : absent`. -/
def Obj.readMember {α : Type} (obj : Obj) (key : Str) (read : Value → Except Error α)
    (absent : α) : Except Error α :=
  match obj.find key with
  | some v => read v
  | none => .ok absent

/-! ## Round trips -/

/-- What is written for `a` reads back as `a`. -/
def RoundTrips {α : Type} [ValueTo α] [ValueFrom α] (a : α) : Prop :=
  valueTo (valueFrom a) = .ok a

theorem roundTrips_bool (b : Bool) : RoundTrips b := rfl

theorem roundTrips_str (s : Str) : RoundTrips s := rfl

/-- A conversion in two parts. -/
theorem bind_ok_iff {α β : Type} {x : Except Error α} {f : α → Except Error β} {b : β} :
    (x >>= f) = .ok b ↔ ∃ a, x = .ok a ∧ f a = .ok b := by
  cases x with
  | error e => simp [bind, Except.bind]
  | ok a => simp [bind, Except.bind]

theorem asObject_ok_iff {v : Value} {obj : Obj} : v.asObject = .ok obj ↔ v = .object obj := by
  cases v <;> simp [Value.asObject]

/-- A member that is there is read. -/
theorem readMember_some {α : Type} {obj : Obj} {key : Str} {v : Value}
    (h : obj.find key = some v) (read : Value → Except Error α) (absent : α) :
    obj.readMember key read absent = read v := by
  unfold Obj.readMember
  rw [h]

/-- What `valueTo` reads, as a present optional. -/
def readSome {α : Type} [ValueTo α] (v : Value) : Except Error (Option α) := some <$> valueTo v

/-- An optional string reads back exactly if it is present. -/
theorem readSome_valueFrom_iff (o : Option Str) :
    readSome (valueFrom o) = .ok o ↔ o.isSome := by
  cases o with
  | none => exact ⟨nofun, nofun⟩
  | some s => exact ⟨fun _ => rfl, fun _ => rfl⟩

/-- A member that was written reads back exactly if its value does. -/
theorem readMember_iff {α : Type} [ValueTo α] [ValueFrom α] {obj : Obj} {key : Str} {a : α}
    (h : obj.find key = some (valueFrom a)) (absent : α) :
    obj.readMember key valueTo absent = .ok a ↔ RoundTrips a := by
  rw [readMember_some h]
  rfl

/-- An optional member that was written reads back exactly if it is present. -/
theorem readMember_opt_iff {obj : Obj} {key : Str} {o : Option Str}
    (h : obj.find key = some (valueFrom o)) (absent : Option Str) :
    obj.readMember key readSome absent = .ok o ↔ o.isSome := by
  rw [readMember_some h, readSome_valueFrom_iff]

/-- A member that was left out reads as the value for an absent one. -/
theorem readMember_none {α : Type} {obj : Obj} {key : Str} (h : obj.find key = none)
    (read : Value → Except Error α) (absent : α) : obj.readMember key read absent = .ok absent := by
  unfold Obj.readMember
  rw [h]

section Lists

variable {α : Type} [ValueTo α] [ValueFrom α]

/-- A list reads back exactly if its elements do. -/
theorem roundTrips_list_iff (as : List α) : RoundTrips as ↔ ∀ a ∈ as, RoundTrips a := by
  show (as.map valueFrom).mapM valueTo = .ok as ↔ _
  induction as with
  | nil => simp [pure, Except.pure]
  | cons a as ih =>
    rw [List.map_cons, List.mapM_cons, List.forall_mem_cons, ← ih]
    unfold RoundTrips
    cases ha : valueTo (α := α) (valueFrom a) with
    | error e => simp [bind, Except.bind]
    | ok b =>
      cases hs : (as.map valueFrom).mapM (valueTo (α := α)) with
      | error e => simp [bind, Except.bind]
      | ok bs => simp [bind, Except.bind, pure, Except.pure]

end Lists

end Json

end Lib
