import CommCore.Comm.MessageFactory

/-!
# Registrations in any order (`libs/comm/{include/comm,src}/messages/message_{factory,register}`)

The registrations are made by static objects, in an order that is not the program's.

- **Order** (`registration_order_iff`). The order does not matter to `create_message` exactly if no
  two registrations of a type have different creators.
- **Arrivals** (`registrations_arrive_iff`). In every order, every registered type is sent, and
  arrives at its own creator, exactly if the types are different, not empty, of at most 25 bytes and
  without a NUL byte.
-/

namespace CommCore

namespace MessageFactory

open Lib MessageHeader

variable {M W : Type} {regs : List (Str × Exec Exn W M)} {r : Str × Exec Exn W M}

/-- A type that is not registered. -/
theorem createMessage_unknown {k : Str} (hk : k ∉ regs.map Prod.fst) :
    createMessage k (registerAll regs) =
      Exec.throw (.runtimeError (lit "Unknown message type: " ++ k)) := by
  have hnone : registerAll regs k = none := by
    rw [registerAll_eq, Table.assignAll_ne (by rwa [keys_entries])]
    rfl
  unfold createMessage
  rw [hnone]

/-- A type with one creator. -/
theorem createMessage_agreed (hr : r ∈ regs) (h : ∀ r' ∈ regs, r'.1 = r.1 → r'.2 = r.2) :
    createMessage r.1 (registerAll regs) = r.2 := by
  have hsome : registerAll regs r.1 = some (some r.2) := by
    rw [registerAll_eq]
    refine Table.assignAll_of_agree ?_ ?_
    · rw [keys_entries]
      exact List.mem_map_of_mem hr
    · intro a ha hk
      obtain ⟨r', hr', rfl⟩ := List.mem_map.mp ha
      exact congrArg some (h r' hr' hk)
  unfold createMessage
  rw [hsome]
  rfl

/-- The creator of any registration of a type can be the one that stands. -/
theorem exists_order (hr : r ∈ regs) : ∃ regs' : List (Str × Exec Exn W M), regs'.Perm regs ∧
    createMessage r.1 (registerAll regs') = r.2 := by
  obtain ⟨as, bs, rfl⟩ := List.append_of_mem hr
  refine ⟨(as ++ bs) ++ [r],
    (List.perm_append_singleton r (as ++ bs)).trans List.perm_middle.symm, ?_⟩
  unfold createMessage
  rw [registerAll_last List.not_mem_nil]
  rfl

/-- **The order of the registrations does not matter exactly if no two of them disagree on a
type.** -/
theorem registration_order_iff (regs : List (Str × Exec Exn W M)) :
    (∀ regs' : List (Str × Exec Exn W M), regs'.Perm regs →
      ∀ type, createMessage type (registerAll regs') = createMessage type (registerAll regs)) ↔
      ∀ r ∈ regs, ∀ r' ∈ regs, r.1 = r'.1 → r.2 = r'.2 := by
  constructor
  · intro h r hr r' hr' hkey
    obtain ⟨as, has, hr⟩ := exists_order hr
    obtain ⟨bs, hbs, hr'⟩ := exists_order hr'
    rw [← hr, ← hr', h as has, h bs hbs, hkey]
  · intro h regs' hp type
    have hentries : ∀ a ∈ entries regs, ∀ b ∈ entries regs, a.1 = b.1 → a.2 = b.2 := by
      intro a ha b hb hab
      obtain ⟨r, hr, rfl⟩ := List.mem_map.mp ha
      obtain ⟨r', hr', rfl⟩ := List.mem_map.mp hb
      exact congrArg some (h r hr r' hr' hab)
    have hperm : (entries regs').Perm (entries regs) := hp.map _
    rw [registerAll_eq, registerAll_eq,
      (Table.assignAll_perm_iff (entries regs)).mpr hentries _ hperm]

/-! ## Arrivals -/

/-- A type arrives at the creator of what precedes its first NUL. -/
theorem arrives_iff {creators : Creators M W} {k : Str} {make : Exec Exn W M} :
    Arrives creators k make ↔
      k ≠ [] ∧ k.length ≤ 25 ∧ createMessage (cstr k) creators = make := by
  constructor
  · intro h
    obtain ⟨h', hs, g', hd, hc⟩ :=
      h .little .little 0 1 { data := fun _ => 0 } { data := fun _ => 0 }
    obtain ⟨ht, hn, rfl⟩ := accepted_of_send .little 0 1 _ hs
    rw [decode_send .little 0 1 _ _ ht] at hd
    cases hd
    exact ⟨hn, Nat.le_of_lt_succ ht, hc⟩
  · rintro ⟨hn, hlen, hc⟩ e e' l v h g
    have ht : k.length < typeSize := Nat.lt_succ_of_le hlen
    exact ⟨_, send_ok e l v h ht hn, _, decode_send e' l v g h.data ht, hc⟩

/-- A header can carry the type. -/
structure Carried (k : Str) : Prop where
  nonempty : k ≠ []
  short : k.length ≤ 25
  noNul : 0 ∉ k

/-- What `message_register<T>` registers: creators of different types are different, and none throws
what the factory throws for an unknown type. -/
structure OwnCreators (regs : List (Str × Exec Exn W M)) : Prop where
  distinct : ∀ r ∈ regs, ∀ r' ∈ regs, r.2 = r'.2 → r = r'
  known : ∀ r ∈ regs, ∀ k,
    r.2 ≠ Exec.throw (.runtimeError (lit "Unknown message type: " ++ k))

/-- A type with a NUL does not arrive at its own creator. -/
theorem OwnCreators.noNul (h : OwnCreators regs) (hr : r ∈ regs)
    (hagree : ∀ r₁ ∈ regs, ∀ r₂ ∈ regs, r₁.1 = r₂.1 → r₁.2 = r₂.2)
    (hc : createMessage (cstr r.1) (registerAll regs) = r.2) : 0 ∉ r.1 := by
  by_cases hk : cstr r.1 ∈ regs.map Prod.fst
  · obtain ⟨r', hr', hkey⟩ := List.mem_map.mp hk
    rw [← hkey, createMessage_agreed hr' fun r₁ h₁ he => hagree r₁ h₁ r' hr' he] at hc
    rw [h.distinct r' hr' r hr hc] at hkey
    exact (cstr_eq_self_iff r.1).mp hkey.symm
  · rw [createMessage_unknown hk] at hc
    exact absurd hc.symm (h.known r hr _)

/-- **Whatever the order of the registrations, every registered type arrives at its own creator
exactly if the types are different and a header can carry each of them.** -/
theorem registrations_arrive_iff (h : OwnCreators regs) :
    (∀ regs' : List (Str × Exec Exn W M), regs'.Perm regs →
      ∀ r ∈ regs, Arrives (registerAll regs') r.1 r.2) ↔
      (∀ r ∈ regs, ∀ r' ∈ regs, r.1 = r'.1 → r = r') ∧ ∀ r ∈ regs, Carried r.1 := by
  simp only [arrives_iff]
  constructor
  · intro harr
    have hkeys : ∀ r ∈ regs, ∀ r' ∈ regs, r.1 = r'.1 → r.2 = r'.2 := by
      intro r hr r' hr' hkey
      have hc := (harr regs (.refl regs) r hr).2.2
      rw [hkey] at hc
      exact hc.symm.trans (harr regs (.refl regs) r' hr').2.2
    refine ⟨fun r hr r' hr' hkey => h.distinct r hr r' hr' (hkeys r hr r' hr' hkey), fun r hr => ?_⟩
    obtain ⟨hn, hlen, hc⟩ := harr regs (.refl regs) r hr
    exact ⟨hn, hlen, h.noNul hr hkeys hc⟩
  · rintro ⟨hdistinct, hcarried⟩ regs' hp r hr
    obtain ⟨hn, hlen, hnul⟩ := hcarried r hr
    refine ⟨hn, hlen, ?_⟩
    rw [(cstr_eq_self_iff r.1).mpr hnul]
    refine createMessage_agreed (hp.mem_iff.mpr hr) fun r' hr' hkey => ?_
    rw [hdistinct r' (hp.mem_iff.mp hr') r hr hkey]

/-- Two types and the numbers of their messages. -/
def twoTypes : List (Str × Exec Exn Unit Nat) := [(lit "login", pure 1), (lit "logout", pure 2)]

theorem twoTypes_own : OwnCreators twoTypes where
  distinct r hr r' hr' he := by
    have hret := congrFun he ()
    rcases List.mem_pair.mp hr with rfl | rfl
    · rcases List.mem_pair.mp hr' with rfl | rfl
      · rfl
      · cases hret
    · rcases List.mem_pair.mp hr' with rfl | rfl
      · cases hret
      · rfl
  known r hr k he := by
    have hret := congrFun he ()
    rcases List.mem_pair.mp hr with rfl | rfl
    · cases hret
    · cases hret

/-- They arrive in either order. -/
theorem registrations_arrive_two : twoTypes.map Prod.fst = [lit "login", lit "logout"] ∧
    ∀ regs' : List (Str × Exec Exn Unit Nat), regs'.Perm twoTypes →
      ∀ r ∈ twoTypes, Arrives (registerAll regs') r.1 r.2 := by
  refine ⟨rfl, (registrations_arrive_iff twoTypes_own).mpr
    ⟨fun r hr r' hr' he => ?_, fun r hr => ?_⟩⟩
  · have hne : lit "login" ≠ lit "logout" := by decide
    rcases List.mem_pair.mp hr with rfl | rfl
    · rcases List.mem_pair.mp hr' with rfl | rfl
      · rfl
      · exact absurd he hne
    · rcases List.mem_pair.mp hr' with rfl | rfl
      · exact absurd he.symm hne
      · rfl
  · rcases List.mem_pair.mp hr with rfl | rfl
    · exact ⟨by decide, by decide, by decide⟩
    · exact ⟨by decide, by decide, by decide⟩

end MessageFactory

end CommCore
