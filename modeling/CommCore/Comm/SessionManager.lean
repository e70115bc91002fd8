import CommCore.Comm.Session
import CommCore.Lib.Exec
import CommCore.Lib.Table

/-!
# `session_manager` (`libs/comm/include/comm/session_manager.hpp`)

`sessions_` is a table with one session for an id. `add_session` files a session under its id,
unless the id is taken, and connects a slot to its error signal, which is a function on the manager;
`remove_session` erases the id that the session has by then. A session is a shared pointer (`none`:
null), and a null dereference is undefined: `add_session` uses its pointer after it was moved into
the table.

`remove_session` removes the given session and only it exactly if the session still has the id that
it was filed under (`removeSession_exact_iff`). It does not when the peer has disconnected
(`disconnected_session_stays`).

`add_session` connects its slot only if its id is taken, and then only if the pointer was not moved
from (`addsSlot_iff`): whenever it files the session, it dereferences null
(`new_session_undefined`).
-/

namespace CommCore

namespace SessionManager

open Lib Session

structure Manager (S : Type) where
  sessions : Table Str S

/-- A slot of a session's error signal: what it does to the manager when it is invoked with a
session, with the sockets of the sessions at the time. -/
abbrev Slot (S : Type) := (S → Socket) → Option S → Exec Empty (Manager S) Unit

/-- The manager, and the slots of the sessions' error signals. -/
structure World (S : Type) extends Manager S where
  errorSlots : S → List (Slot S)

variable {S : Type} [DecidableEq S] (text : Address → Str)

/-- `remove_session(session)`, with the sockets of the sessions at the time. -/
def removeSession (socket : S → Socket) (session : Option S) : Exec Empty (Manager S) Unit := do
  let s ← Exec.need session
  modify fun m => { m with sessions := m.sessions.erase (Session.id text (socket s)) }

/-- `add_session(new_session)`, with the sockets of the sessions at the time. `emplace` moves from
`new_session` if it inserts; `moves`: also if it does not. -/
def addSession (moves : Bool) (socket : S → Socket) (newSession : Option S) :
    Exec Empty (World S) Unit := do
  let s ← Exec.need newSession
  let key := Session.id text (socket s)
  let inserted := ((← get).sessions key).isNone
  modify fun m => { m with sessions := m.sessions.emplace key s }
  -- a shared pointer that was moved from is null
  let s' ← Exec.need (if inserted || moves then none else newSession)
  let slot : Slot S := fun now session => removeSession text now session
  modify fun m => { m with
    errorSlots := Function.update m.errorSlots s' (m.errorSlots s' ++ [slot]) }

/-- `add_session` files the session, and then dereferences null if its pointer was moved from. -/
theorem addSession_run (moves : Bool) (socket : S → Socket) (s : S) (m : World S) :
    (addSession text moves socket (some s)).run m =
      if (m.sessions (Session.id text (socket s))).isNone || moves then
        .error .undefined
          { m with sessions := m.sessions.emplace (Session.id text (socket s)) s }
      else
        .ok () {
          sessions := m.sessions.emplace (Session.id text (socket s)) s
          errorSlots := Function.update m.errorSlots s
            (m.errorSlots s ++ [removeSession text]) } := by
  unfold addSession
  rw [Exec.run_bind_ok (Exec.run_need_some s m), Exec.run_bind_ok (EStateM.run_get m),
    Exec.run_bind_ok (EStateM.run_modify _ m)]
  cases (m.sessions (Session.id text (socket s))).isNone || moves <;> rfl

/-- What `add_session` leaves in the table, also when it then dereferences null. -/
theorem addSession_sessions (moves : Bool) (socket : S → Socket) (s : S) (m : World S) :
    ((addSession text moves socket (some s)).final m).sessions =
      m.sessions.emplace (Session.id text (socket s)) s := by
  unfold Exec.final
  rw [addSession_run]
  cases (m.sessions (Session.id text (socket s))).isNone || moves <;> rfl

omit [DecidableEq S] in
theorem removeSession_run (socket : S → Socket) (s : S) (m : Manager S) :
    (removeSession text socket (some s)).run m =
      .ok () { m with sessions := m.sessions.erase (Session.id text (socket s)) } := rfl

/-- `m'` holds what `m` holds, but not `s`. -/
def RemovesOnly (m m' : Manager S) (s : S) : Prop :=
  ¬ m'.sessions.Holds s ∧ ∀ u, u ≠ s → m.sessions.Holds u → m'.sessions.Holds u

omit [DecidableEq S] in
/-- **`remove_session` removes the given session and only it exactly if it still has the id that it
was filed under**, whatever has become of the other sockets. -/
theorem removeSession_exact_iff {m : Manager S} {added now : S → Socket} {s : S}
    (hf : m.sessions.Filed fun u => Session.id text (added u)) (hs : m.sessions.Holds s) :
    (∃ m', (removeSession text now (some s)).run m = .ok () m' ∧ RemovesOnly m m' s) ↔
      Session.id text (now s) = Session.id text (added s) := by
  rw [← hf.erase_exact_iff hs (k := Session.id text (now s)), removeSession_run]
  constructor
  · rintro ⟨m', hm, h⟩
    cases hm
    exact h
  · intro h
    exact ⟨_, rfl, h⟩

/-! ## A peer that disconnects -/

/-- The host 192.0.2.1, as the only one. -/
def onlyHost : Address → Str := fun _ => lit "192.0.2.1"

/-- A socket connected to a port of that host. -/
def connected (port : Word 2) : Socket := ⟨some ⟨.v4 ![192, 0, 2, 1], port⟩⟩

/-- A socket that has lost its peer. -/
def disconnected : Socket := ⟨none⟩

/-- Two sessions: the first connected when it was added, the second already without its peer. -/
def addedSockets : Fin 2 → Socket := ![connected 5000, disconnected]

def twoTable : Table Str (Fin 2) :=
  (Table.empty.emplace (lit "192.0.2.1:5000") 0).emplace (lit "unknown") 1

def twoSessions : Manager (Fin 2) := ⟨twoTable⟩

theorem twoTable_filed : twoTable.Filed fun u => Session.id onlyHost (addedSockets u) := by
  unfold twoTable
  apply Table.Filed.emplace
  · apply Table.Filed.emplace Table.filed_empty
    decide
  · decide

theorem twoTable_holds (u : Fin 2) : twoTable.Holds u :=
  match u with
  | 0 => ⟨lit "192.0.2.1:5000", by decide⟩
  | 1 => ⟨lit "unknown", by decide⟩

/-- While both sockets are as they were, `remove_session` is exact. -/
theorem removeSession_exact_connected :
    ∃ m', (removeSession onlyHost addedSockets (some 0)).run twoSessions = .ok () m' ∧
      RemovesOnly twoSessions m' 0 :=
  (removeSession_exact_iff onlyHost twoTable_filed (twoTable_holds 0)).mpr rfl

/-- When its peer has disconnected, the session stays and the other one goes. -/
theorem disconnected_session_stays :
    ∃ m', (removeSession onlyHost (fun _ => disconnected) (some 0)).run twoSessions = .ok () m' ∧
      m'.sessions.Holds 0 ∧ ¬ m'.sessions.Holds 1 := by
  refine ⟨_, rfl, ?_, ?_⟩
  · exact twoTable_filed.holds_erase_iff.mpr ⟨twoTable_holds 0, by decide⟩
  · intro h
    exact (twoTable_filed.holds_erase_iff.mp h).2 (by decide)

/-! ## The slot of an added session -/

/-- `add_session(s)` dereferences no null pointer, and when it returns, the error signal of `s` has
one more slot, which calls `remove_session(s)` when it is invoked with `s`. -/
structure AddsSlot (moves : Bool) (socket : S → Socket) (s : S) (m : World S) : Prop where
  safe : ∀ m', (addSession text moves socket (some s)).run m ≠ .error .undefined m'
  slot : ∀ m', (addSession text moves socket (some s)).run m = .ok () m' →
    ∃ slot : Slot S, m'.errorSlots s = m.errorSlots s ++ [slot] ∧
      ∀ now, slot now (some s) = removeSession text now (some s)

/-- **`add_session` connects its slot exactly if the id is taken** and `emplace` leaves the pointer
that it does not insert. -/
theorem addsSlot_iff {moves : Bool} {socket : S → Socket} {s : S} {m : World S} :
    AddsSlot text moves socket s m ↔
      m.sessions (Session.id text (socket s)) ≠ none ∧ moves = false := by
  have hrun := addSession_run text moves socket s m
  by_cases hc : ((m.sessions (Session.id text (socket s))).isNone || moves) = true
  · rw [if_pos hc] at hrun
    refine iff_of_false (fun h => h.safe _ hrun) fun h => ?_
    rw [Bool.or_eq_true, Option.isNone_iff_eq_none] at hc
    rcases hc with hnone | hmoves
    · exact h.1 hnone
    · rw [h.2] at hmoves
      cases hmoves
  · rw [if_neg hc] at hrun
    have htaken : m.sessions (Session.id text (socket s)) ≠ none ∧ moves = false := by
      simpa using hc
    refine iff_of_true ⟨fun m' h => ?_, fun m' h => ?_⟩ htaken
    · rw [hrun] at h
      cases h
    · rw [hrun] at h
      cases h
      exact ⟨removeSession text, Function.update_self _ _ _, fun _ => rfl⟩

/-- The first session of an empty table is filed, and then its null pointer is dereferenced, also
with an `emplace` that moves only if it inserts. -/
theorem new_session_undefined :
    ∃ m', (addSession onlyHost false (fun _ => connected 5000) (some ())).run
        ⟨⟨Table.empty⟩, fun _ => []⟩ = .error .undefined m' ∧
      m'.sessions.Holds () ∧ m'.errorSlots () = [] :=
  ⟨_, addSession_run onlyHost false _ _ _, ⟨lit "192.0.2.1:5000", by decide⟩, rfl⟩

end SessionManager

end CommCore
