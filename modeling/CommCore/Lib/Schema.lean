import CommCore.Lib.Json
import Mathlib.Data.List.Forall2
import Mathlib.Data.List.Nodup

/-!
# Grammars of JSON values

- **Schemas.** A schema names a kind of value, an array of one kind of items, or an object with the
  members that are read. Every member is optional, and other members are ignored.
- `Schema.Accepts`: the values of the grammar.
- `Schema.Agree`: two values that agree in all that the schema names. Neither the order of keys nor
  a member that is not named matters, at any level (`Reordered.agree`).
- `Reads s read`: the reader succeeds exactly on what `s` accepts, and its result depends on what
  `s` names only. A reader is built of the readers of its members, and so is this fact
  (`reads_object`, `ReadsMembers.member`).
- `Obj.Gives`: the value under a key, or a default without it.
-/

namespace Lib

namespace Json

inductive Schema where
  | bool
  | string
  | array (items : Schema)
  | object (members : List (Str × Schema))

/-- The values of the grammar. -/
inductive Schema.Accepts : Schema → Value → Prop
  | bool (b : Bool) : Accepts .bool (.bool b)
  | string (s : Str) : Accepts .string (.string s)
  | array {s : Schema} {vs : List Value} : (∀ v ∈ vs, Accepts s v) →
      Accepts (.array s) (.array vs)
  | object {members : List (Str × Schema)} {obj : Obj} :
      (∀ m ∈ members, ∀ v, obj.find m.1 = some v → Accepts m.2 v) →
      Accepts (.object members) (.object obj)

/-- The value is of the kind that the schema names. -/
def Schema.fits : Schema → Value → Bool
  | .bool, .bool _ | .string, .string _ | .array _, .array _ | .object _, .object _ => true
  | _, _ => false

theorem asBool_unfit {v : Value} (h : Schema.fits .bool v = false) :
    v.asBool = .error .notBool := by
  cases v <;> first | rfl | cases h

theorem asString_unfit {v : Value} (h : Schema.fits .string v = false) :
    v.asString = .error .notString := by
  cases v <;> first | rfl | cases h

theorem asArray_unfit {s : Schema} {v : Value} (h : Schema.fits (.array s) v = false) :
    v.asArray = .error .notArray := by
  cases v <;> first | rfl | cases h

theorem asObject_unfit {members : List (Str × Schema)} {v : Value}
    (h : Schema.fits (.object members) v = false) : v.asObject = .error .notObject := by
  cases v <;> first | rfl | cases h

/-- The two values agree in all that the schema names. -/
inductive Schema.Agree : Schema → Value → Value → Prop
  | refl (s : Schema) (v : Value) : Agree s v v
  | unfit {s : Schema} {v w : Value} : s.fits v = false → s.fits w = false → Agree s v w
  | array {s : Schema} {vs ws : List Value} : vs.length = ws.length →
      (∀ (i : Nat) v w, vs[i]? = some v → ws[i]? = some w → Agree s v w) →
      Agree (.array s) (.array vs) (.array ws)
  | object {members : List (Str × Schema)} {obj obj' : Obj} :
      (∀ m ∈ members, (obj.find m.1).isSome = (obj'.find m.1).isSome) →
      (∀ m ∈ members, ∀ v w, obj.find m.1 = some v → obj'.find m.1 = some w → Agree m.2 v w) →
      Agree (.object members) (.object obj) (.object obj')

/-! ## The order of keys -/

/-- One value is the other with the keys of its objects in another order, at any level. -/
inductive Reordered : Value → Value → Prop
  | refl (v : Value) : Reordered v v
  | array {vs ws : List Value} : vs.length = ws.length →
      (∀ (i : Nat) v w, vs[i]? = some v → ws[i]? = some w → Reordered v w) →
      Reordered (.array vs) (.array ws)
  | object {obj obj' : Obj} : (obj.map Prod.fst).Nodup →
      (obj.map Prod.fst).Perm (obj'.map Prod.fst) →
      (∀ key v w, (key, v) ∈ obj → (key, w) ∈ obj' → Reordered v w) →
      Reordered (.object obj) (.object obj')

theorem mem_of_find {obj : Obj} {key : Str} {v : Value} (h : obj.find key = some v) :
    (key, v) ∈ obj := by
  induction obj with
  | nil => cases h
  | cons m obj ih =>
    obtain ⟨k, w⟩ := m
    rw [find_cons] at h
    by_cases hk : key = k
    · rw [if_pos hk] at h
      cases h
      rw [hk]
      exact List.mem_cons_self
    · rw [if_neg hk] at h
      exact List.mem_cons_of_mem _ (ih h)

theorem find_isSome_iff {obj : Obj} {key : Str} :
    (obj.find key).isSome = true ↔ key ∈ obj.map Prod.fst := by
  induction obj with
  | nil => simp
  | cons m obj ih =>
    obtain ⟨k, w⟩ := m
    rw [find_cons, List.map_cons, List.mem_cons]
    by_cases hk : key = k
    · simp [hk]
    · simp [hk, ih]

/-- The order of keys does not matter to any schema. -/
theorem Reordered.agree {v w : Value} (h : Reordered v w) (s : Schema) : s.Agree v w := by
  induction h generalizing s with
  | refl v => exact .refl s v
  | array hlen _ ih =>
    cases s with
    | array items => exact .array hlen fun i v w hv hw => ih i v w hv hw items
    | _ => exact .unfit rfl rfl
  | object _ hperm _ ih =>
    cases s with
    | object members =>
      refine .object (fun m _ => ?_) fun m _ v w hv hw =>
        ih m.1 v w (mem_of_find hv) (mem_of_find hw) m.2
      rw [Bool.eq_iff_iff, find_isSome_iff, find_isSome_iff]
      exact hperm.mem_iff
    | _ => exact .unfit rfl rfl

/-! ## Readers -/

/-- The reader accepts what the schema accepts, and sees what the schema names. -/
structure Reads {α : Type} (s : Schema) (read : Value → Except Error α) : Prop where
  accepts : ∀ v, (∃ a, read v = .ok a) ↔ s.Accepts v
  agree : ∀ v w, s.Agree v w → read v = read w

theorem reads_bool : Reads .bool (valueTo (α := Bool)) where
  accepts v := by
    constructor
    · rintro ⟨b, h⟩
      cases v <;> first | exact .bool _ | cases h
    · intro h
      cases h with
      | bool b => exact ⟨b, rfl⟩
  agree v w h := by
    cases h with
    | refl => rfl
    | unfit hv hw => exact (asBool_unfit hv).trans (asBool_unfit hw).symm

theorem reads_str : Reads .string (valueTo (α := Str)) where
  accepts v := by
    constructor
    · rintro ⟨s, h⟩
      cases v <;> first | exact .string _ | cases h
    · intro h
      cases h with
      | string s => exact ⟨s, rfl⟩
  agree v w h := by
    cases h with
    | refl => rfl
    | unfit hv hw => exact (asString_unfit hv).trans (asString_unfit hw).symm

section Composed

variable {α β : Type} {s : Schema} {read : Value → Except Error α}

/-- A present optional is read as its value. -/
theorem reads_some [ValueTo α] (h : Reads s (valueTo (α := α))) : Reads s (readSome (α := α)) where
  accepts v := by
    rw [← h.accepts v]
    unfold readSome
    cases valueTo (α := α) v with
    | error e => simp
    | ok a => simp
  agree v w hvw := by
    unfold readSome
    rw [h.agree v w hvw]

/-- Every item is read, in order. -/
theorem mapM_ok_iff {vs : List Value} {as : List α} :
    vs.mapM read = .ok as ↔ List.Forall₂ (fun v a => read v = .ok a) vs as := by
  induction vs generalizing as with
  | nil => cases as <;> simp [pure, Except.pure]
  | cons v vs ih =>
    rw [List.mapM_cons, bind_ok_iff]
    constructor
    · rintro ⟨a, ha, hrest⟩
      obtain ⟨as', has, hp⟩ := bind_ok_iff.mp hrest
      cases hp
      exact .cons ha (ih.mp has)
    · rintro (_ | ⟨ha, has⟩)
      exact ⟨_, ha, bind_ok_iff.mpr ⟨_, ih.mpr has, rfl⟩⟩

theorem mapM_isOk_iff {vs : List Value} :
    (∃ as, vs.mapM read = .ok as) ↔ ∀ v ∈ vs, ∃ a, read v = .ok a := by
  simp only [mapM_ok_iff]
  induction vs with
  | nil => simp
  | cons v vs ih =>
    rw [List.forall_mem_cons, ← ih]
    constructor
    · rintro ⟨as, ha | ⟨ha, has⟩⟩
      exact ⟨⟨_, ha⟩, _, has⟩
    · rintro ⟨⟨a, ha⟩, as, has⟩
      exact ⟨a :: as, .cons ha has⟩

theorem mapM_congr {vs ws : List Value} (hlen : vs.length = ws.length)
    (h : ∀ (i : Nat) v w, vs[i]? = some v → ws[i]? = some w → read v = read w) :
    vs.mapM read = ws.mapM read := by
  induction vs generalizing ws with
  | nil =>
    cases ws with
    | nil => rfl
    | cons w ws => cases hlen
  | cons v vs ih =>
    cases ws with
    | nil => cases hlen
    | cons w ws =>
      rw [List.mapM_cons, List.mapM_cons, h 0 v w rfl rfl,
        ih (Nat.succ.inj hlen) fun i v w hv hw => h (i + 1) v w hv hw]

theorem reads_list [ValueTo α] (h : Reads s (valueTo (α := α))) :
    Reads (.array s) (valueTo (α := List α)) where
  accepts v := by
    show (∃ as, (v.asArray >>= List.mapM valueTo) = .ok as) ↔ _
    simp only [bind_ok_iff]
    constructor
    · rintro ⟨as, vs, hvs, has⟩
      cases v <;> cases hvs
      exact .array fun v hv => (h.accepts v).mp (mapM_isOk_iff.mp ⟨as, has⟩ v hv)
    · intro ha
      cases ha with
      | array hvs =>
        obtain ⟨as, has⟩ := mapM_isOk_iff.mpr fun v hv => (h.accepts v).mpr (hvs v hv)
        exact ⟨as, _, rfl, has⟩
  agree v w hvw := by
    show (v.asArray >>= List.mapM valueTo) = (w.asArray >>= List.mapM valueTo)
    cases hvw with
    | refl => rfl
    | unfit hv hw => rw [asArray_unfit hv, asArray_unfit hw]
    | array hlen hi => exact mapM_congr hlen fun i v w hv hw => h.agree v w (hi i v w hv hw)

/-- A reader of the members of an object. -/
structure ReadsMembers (members : List (Str × Schema)) (body : Obj → Except Error α) : Prop where
  accepts : ∀ obj : Obj, (∃ a, body obj = .ok a) ↔
    ∀ m ∈ members, ∀ v, obj.find m.1 = some v → m.2.Accepts v
  agree : ∀ obj obj' : Obj, (∀ m ∈ members, (obj.find m.1).isSome = (obj'.find m.1).isSome) →
    (∀ m ∈ members, ∀ v w, obj.find m.1 = some v → obj'.find m.1 = some w → m.2.Agree v w) →
    body obj = body obj'

theorem ReadsMembers.pure (a : α) : ReadsMembers [] fun _ => Pure.pure a where
  accepts _ := iff_of_true ⟨a, rfl⟩ (fun _ h => absurd h List.not_mem_nil)
  agree _ _ _ _ := rfl

/-- One member is read, and then the others. -/
theorem ReadsMembers.member {key : Str} {members : List (Str × Schema)}
    {next : α → Obj → Except Error β} (h : Reads s read) (absent : α)
    (hnext : ∀ a, ReadsMembers members (next a)) :
    ReadsMembers ((key, s) :: members) fun obj =>
      obj.readMember key read absent >>= fun a => next a obj where
  accepts obj := by
    rw [List.forall_mem_cons]
    simp only [bind_ok_iff]
    cases hk : obj.find key with
    | none =>
      rw [readMember_none hk]
      constructor
      · rintro ⟨b, a, -, hb⟩
        exact ⟨nofun, ((hnext a).accepts obj).mp ⟨b, hb⟩⟩
      · rintro ⟨-, hm⟩
        obtain ⟨b, hb⟩ := ((hnext absent).accepts obj).mpr hm
        exact ⟨b, absent, rfl, hb⟩
    | some v =>
      rw [readMember_some hk]
      constructor
      · rintro ⟨b, a, ha, hb⟩
        refine ⟨fun w hw => ?_, ((hnext a).accepts obj).mp ⟨b, hb⟩⟩
        cases hw
        exact (h.accepts v).mp ⟨a, ha⟩
      · rintro ⟨hv, hm⟩
        obtain ⟨a, ha⟩ := (h.accepts v).mpr (hv v rfl)
        obtain ⟨b, hb⟩ := ((hnext a).accepts obj).mpr hm
        exact ⟨b, a, ha, hb⟩
  agree obj obj' hsome hvals := by
    rw [List.forall_mem_cons] at hsome hvals
    obtain ⟨hsome, hsomes⟩ := hsome
    obtain ⟨hval, hvals⟩ := hvals
    have hread : obj.readMember key read absent = obj'.readMember key read absent := by
      cases hk : obj.find key with
      | none =>
        have hk' : obj'.find key = none := by simpa [hk] using hsome
        rw [readMember_none hk, readMember_none hk']
      | some v =>
        have hk' : (obj'.find key).isSome = true := by simpa [hk] using hsome.symm
        obtain ⟨w, hw⟩ := Option.isSome_iff_exists.mp hk'
        rw [readMember_some hk, readMember_some hw, h.agree v w (hval v w hk hw)]
    rw [hread]
    exact congrArg _ (funext fun a => (hnext a).agree obj obj' hsomes hvals)

/-- An object is read by its members. -/
theorem reads_object {members : List (Str × Schema)} {body : Obj → Except Error α}
    (h : ReadsMembers members body) : Reads (.object members) fun v => v.asObject >>= body where
  accepts v := by
    simp only [bind_ok_iff, asObject_ok_iff]
    constructor
    · rintro ⟨a, obj, rfl, ha⟩
      exact .object ((h.accepts obj).mp ⟨a, ha⟩)
    · intro ha
      cases ha with
      | @object _ obj hm =>
        obtain ⟨a, ha⟩ := (h.accepts obj).mpr hm
        exact ⟨a, obj, rfl, ha⟩
  agree v w hvw := by
    cases hvw with
    | refl => rfl
    | unfit hv hw => rw [asObject_unfit hv, asObject_unfit hw]
    | @object _ obj obj' hsome hvals => exact h.agree obj obj' hsome hvals

/-- `a` is what `At` says of the value under the key, or the default without one. -/
def Obj.Gives (obj : Obj) (key : Str) (At : Value → α → Prop) (absent a : α) : Prop :=
  match obj.find key with
  | some v => At v a
  | none => a = absent

theorem gives_of_readMember {obj : Obj} {key : Str} {At : Value → α → Prop} {absent a : α}
    (hAt : ∀ v a, read v = .ok a → At v a) (h : obj.readMember key read absent = .ok a) :
    obj.Gives key At absent a := by
  unfold Obj.Gives
  cases hk : obj.find key with
  | none =>
    rw [readMember_none hk] at h
    cases h
    rfl
  | some v =>
    rw [readMember_some hk] at h
    exact hAt v a h

end Composed

end Json

end Lib
