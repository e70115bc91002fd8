import CommCore.Comm.HeaderRoundTrip
import CommCore.Lib.Table

/-!
# `message_factory` (`libs/comm/{include/comm,src}/messages/message_{factory,register}.{hpp,cpp}`)

The factory is a table from the types to the functions that make their messages. A later
registration of a type replaces an earlier one; a call with a type that is not registered throws,
and so does a call of an empty function.

The type of a message arrives in a header. A registered type is sent and reaches the creator that
was registered last for it, if the header can carry it: it is not empty, fits 25 bytes and has no
NUL byte (`registered_arrives`). The factory takes other types too (`unfit_types_lost`).
-/

namespace CommCore

namespace MessageFactory

open Lib MessageHeader

/-- What the factory or a creator throws. -/
inductive Exn where
  | runtimeError (what : Str)
  | badFunctionCall
  | other (what : Str)
  deriving DecidableEq, Repr

-- the messages, and the state that the creators work on
variable {M W : Type}

/-- `boost::function<std::shared_ptr<message>()>`: what it does, or empty. -/
abbrev Creator (M W : Type) := Option (Exec Exn W M)

def Creator.call : Creator M W → Exec Exn W M
  | some make => make
  | none => Exec.throw .badFunctionCall

/-- `creators_`. -/
abbrev Creators (M W : Type) := Table Str (Creator M W)

def registerMessage (type : Str) (creator : Creator M W) (creators : Creators M W) :
    Creators M W :=
  creators.assign type creator

def createMessage (type : Str) (creators : Creators M W) : Exec Exn W M :=
  match creators type with
  | some creator => Creator.call creator
  | none => Exec.throw (.runtimeError (lit "Unknown message type: " ++ type))

/-- The registration of a function that is not empty; `message_register<T>` makes it with
`T::type()` and `std::make_shared<T>`. -/
def messageRegister (type : Str) (make : Exec Exn W M) (creators : Creators M W) : Creators M W :=
  registerMessage type (some make) creators

/-- The factory after the registrations, in order. -/
def registerAll (regs : List (Str × Exec Exn W M)) : Creators M W :=
  regs.foldl (fun creators r => messageRegister r.1 r.2 creators) Table.empty

/-- A header with the type `k` can be sent, arrives, and makes its message with `make`: whatever
its length and version, what the headers held, and the byte orders. -/
def Arrives (creators : Creators M W) (k : Str) (make : Exec Exn W M) : Prop :=
  ∀ (e e' : Endian) (l : Word 4) (v : Word 2) (h g : Header),
    ∃ h', (send e k l v).run h = .ok () h' ∧
    ∃ g', (decodeHeader e').run { g with data := h'.data } = .ok () g' ∧
      createMessage g'.messageType creators = make

/-- The registrations as assignments to a table. -/
def entries (regs : List (Str × Exec Exn W M)) : List (Str × Creator M W) :=
  regs.map fun r => (r.1, some r.2)

theorem registerAll_eq (regs : List (Str × Exec Exn W M)) :
    registerAll regs = Table.assignAll Table.empty (entries regs) := by
  unfold registerAll Table.assignAll entries
  rw [List.foldl_map]
  rfl

theorem keys_entries (regs : List (Str × Exec Exn W M)) :
    (entries regs).map Prod.fst = regs.map Prod.fst := by
  unfold entries
  rw [List.map_map]
  rfl

theorem entries_append (as bs : List (Str × Exec Exn W M)) (k : Str) (make : Exec Exn W M) :
    entries (as ++ (k, make) :: bs) = entries as ++ (k, some make) :: entries bs :=
  List.map_append

/-- The last registration of a type stands. -/
theorem registerAll_last {as bs : List (Str × Exec Exn W M)} {k : Str} {make : Exec Exn W M}
    (h : k ∉ bs.map Prod.fst) : registerAll (as ++ (k, make) :: bs) k = some (some make) := by
  rw [registerAll_eq, entries_append]
  refine Table.assignAll_last ?_
  rwa [keys_entries]

/-- **A registered type that a header can carry is sent, and arrives at the creator last
registered for it.** -/
theorem registered_arrives {as bs : List (Str × Exec Exn W M)} {k : Str} {make : Exec Exn W M}
    (hlast : k ∉ bs.map Prod.fst) (hn : k ≠ []) (hlen : k.length ≤ 25) (hnul : 0 ∉ k) :
    Arrives (registerAll (as ++ (k, make) :: bs)) k make := by
  intro e e' l v h g
  have ht : k.length < typeSize := Nat.lt_succ_of_le hlen
  refine ⟨_, send_ok e l v h ht hn, _, decode_send e' l v g h.data ht, ?_⟩
  unfold createMessage
  rw [(cstr_eq_self_iff k).mpr hnul, registerAll_last hlast]
  rfl

/-- The type `a` is registered twice, and `b` in between. -/
theorem registered_arrives_twice :
    Arrives (registerAll [([97], (pure 1 : Exec Exn Unit Nat)), ([98], pure 2), ([97], pure 3)])
      [97] (pure 3) := by
  show Arrives (registerAll ([([97], pure 1), ([98], pure 2)] ++ ([97], pure 3) :: [])) _ _
  exact registered_arrives List.not_mem_nil (by simp) (by decide) (by decide)

/-- A type of 26 bytes is registered, and refused by the header; so is the empty type. A type with a
NUL is sent, and arrives as what precedes it. -/
theorem unfit_types_lost :
    ¬ Arrives (registerAll [(List.replicate 26 97, (pure 1 : Exec Exn Unit Nat))])
        (List.replicate 26 97) (pure 1) ∧
      ¬ Arrives (registerAll [([], (pure 1 : Exec Exn Unit Nat))]) [] (pure 1) ∧
      ¬ Arrives (registerAll [([97, 0, 98], (pure 1 : Exec Exn Unit Nat))]) [97, 0, 98]
        (pure 1) := by
  refine ⟨fun harr => ?_, fun harr => ?_, fun harr => ?_⟩
  · obtain ⟨h', hs, -⟩ := harr .little .little 0 1 { data := fun _ => 0 } { data := fun _ => 0 }
    rw [send_run, if_pos (by decide)] at hs
    cases hs
  · obtain ⟨h', hs, -⟩ := harr .little .little 0 1 { data := fun _ => 0 } { data := fun _ => 0 }
    rw [send_run, if_neg (by decide), if_pos rfl] at hs
    cases hs
  · obtain ⟨h', hs, g', hd, hc⟩ :=
      harr .little .little 0 1 { data := fun _ => 0 } { data := fun _ => 0 }
    rw [send_ok .little 0 1 _ (by decide) (by decide)] at hs
    cases hs
    rw [decode_send .little 0 1 _ _ (by decide)] at hd
    cases hd
    -- the type that arrives is not registered
    have hrun := congrFun hc ()
    cases hrun

end MessageFactory

end CommCore
