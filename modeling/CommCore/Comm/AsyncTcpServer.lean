import CommCore.Comm.SessionManager
import CommCore.Lib.Sys

/-!
# The accept loop of `async_tcp_server` (`libs/comm/src/async_tcp_server.cpp`)

`start_accepting` makes a session of every successful accept and gives it to `add_session`, until
an accept is aborted. Between two accepts the sockets change and `remove_session` is called for
sessions that were made. The system (`server`) runs any sequence of these events.

- The sessions made are those of the successful accepts before the first abort (`made_of_run`).
- A session that was made and not given to `remove_session` is held (`Kept`) in every run whose
  steps are `Separate`: no accepted session has the id of an entry, and no removal has the id that
  another session is filed under. A step that is not drops a session (`kept_step_iff`,
  `second_unknown_dropped`).

`add_session` is judged by what it leaves in the table (`Exec.final`).
-/

namespace CommCore

namespace AsyncTcpServer

open Lib Session SessionManager

/-- What `async_accept` gives. -/
inductive Outcome where
  /-- `operation_aborted`. -/
  | aborted
  /-- Any other error. -/
  | failed
  | accepted (socket : Socket)

/-- The server and its sessions, numbered in the order in which they were made. -/
structure Server where
  manager : World Nat
  /-- The socket of each session when it was made. -/
  made : List Socket
  /-- The sockets of the sessions now. -/
  socket : Nat → Socket
  /-- The sessions given to `remove_session`. -/
  removed : List Nat
  /-- The loop has not ended. -/
  accepting : Bool

inductive Event where
  | accept (o : Outcome)
  | change (session : Nat) (socket : Socket)
  | remove (session : Nat)

variable (text : Address → Str) (moves : Bool) (service : Str)

/-- The body of the loop. -/
def Server.accept (s : Server) : Outcome → Server
  | .aborted => { s with accepting := false }
  | .failed => s
  | .accepted k =>
    let new := s.made.length
    let socket := Function.update s.socket new k
    { s with
      made := s.made ++ [k]
      socket := socket
      manager := (addSession text moves socket (some new)).final s.manager }

def Server.next (s : Server) : Event → Server
  | .accept o => if s.accepting then s.accept text moves o else s
  | .change i k => { s with socket := Function.update s.socket i k }
  | .remove i => { s with
      manager.toManager := (removeSession text s.socket (some i)).final s.manager.toManager
      removed := i :: s.removed }

/-- `start_accepting(service)` and what happens around it. Without a service it accepts nothing. -/
def server : Sys Server Event where
  init s := s.manager.sessions = .empty ∧ s.made = [] ∧ s.removed = [] ∧
    s.accepting = !service.isEmpty
  step s l s' := (∀ i, l = .remove i → i < s.made.length) ∧ s' = s.next text moves l

/-- Every session that was made is held until it is given to `remove_session`. -/
def Kept (s : Server) : Prop :=
  ∀ i, i < s.made.length → i ∉ s.removed → s.manager.sessions.Holds i

/-- No accepted session has the id of an entry, and no removal has the id that another session is
filed under. -/
def Separate (s : Server) : Event → Prop
  | .accept (.accepted k) => s.accepting = true → s.manager.sessions (Session.id text k) = none
  | .remove i => ∀ j, j ≠ i → j ∉ s.removed →
      s.manager.sessions (Session.id text (s.socket i)) ≠ some j
  | _ => True

/-- The socket of a successful accept. -/
def Event.success : Event → Option Socket
  | .accept (.accepted k) => some k
  | _ => none

def Event.isAbort : Event → Bool
  | .accept .aborted => true
  | _ => false

/-- The sockets of the successful accepts before the first abort. -/
def successes : List Event → List Socket
  | [] => []
  | l :: tr => if l.isAbort then [] else l.success.toList ++ successes tr

/-! ## What the table holds -/

/-- The id that a session had when it was made. -/
def Server.addedId (s : Server) (i : Nat) : Str := (s.made[i]?.map (Session.id text)).getD []

/-- Each session that is held was made, and is filed under the id that it had then. -/
structure Server.Ok (s : Server) : Prop where
  filed : s.manager.sessions.Filed (s.addedId text)
  held : ∀ i, s.manager.sessions.Holds i → i < s.made.length
  removed : ∀ i ∈ s.removed, i < s.made.length

variable {text moves service} {s s' : Server} {l : Event}

theorem addedId_append {k : Socket} {i : Nat} (hi : i < s.made.length) (m : World Nat)
    (sk : Nat → Socket) :
    Server.addedId text { s with manager := m, made := s.made ++ [k], socket := sk } i =
      s.addedId text i := by
  unfold Server.addedId
  rw [List.getElem?_append_left hi]

theorem addedId_self {k : Socket} (m : World Nat) (sk : Nat → Socket) :
    Server.addedId text { s with manager := m, made := s.made ++ [k], socket := sk }
      s.made.length = Session.id text k := by
  unfold Server.addedId
  rw [List.getElem?_append_right (Nat.le_refl _), Nat.sub_self]
  rfl

theorem next_accept (s : Server) (o : Outcome) : s.next text moves (.accept o) =
    if s.accepting then s.accept text moves o else s := rfl

variable (moves) in
/-- A session accepted by the loop: its id is that of its socket. -/
theorem accept_sessions (s : Server) (k : Socket) :
    (s.accept text moves (.accepted k)).manager.sessions =
      s.manager.sessions.emplace (Session.id text k) s.made.length := by
  show ((addSession text moves _ (some s.made.length)).final s.manager).sessions = _
  rw [addSession_sessions, Function.update_self]

theorem Server.Ok.accept (h : s.Ok text) (o : Outcome) : (s.accept text moves o).Ok text := by
  cases o with
  | aborted => exact ⟨h.filed, h.held, h.removed⟩
  | failed => exact h
  | accepted k =>
    have hlen : (s.accept text moves (.accepted k)).made.length = s.made.length + 1 :=
      List.length_append
    refine ⟨?_, fun i hi => ?_, fun i hi => ?_⟩
    · rw [accept_sessions]
      apply Table.Filed.emplace
      · intro key i hi
        have hlt := h.held i ⟨key, hi⟩
        rw [← h.filed key i hi]
        exact addedId_append hlt _ _
      · exact addedId_self _ _
    · rw [accept_sessions] at hi
      rcases hi.of_emplace with rfl | hi
      · omega
      · have := h.held i hi
        omega
    · have := h.removed i hi
      omega

theorem Server.Ok.step (h : s.Ok text) (hst : (server text moves service).step s l s') :
    s'.Ok text := by
  obtain ⟨hr, rfl⟩ := hst
  cases l with
  | accept o =>
    rw [next_accept]
    by_cases ha : s.accepting = true
    · rw [if_pos ha]; exact h.accept o
    · rw [if_neg ha]; exact h
  | change i k => exact ⟨h.filed, h.held, h.removed⟩
  | remove i =>
    refine ⟨h.filed.erase, fun j hj => h.held j (h.filed.holds_erase_iff.mp hj).1, fun j hj => ?_⟩
    rcases List.mem_cons.mp hj with rfl | hj
    · exact hr j rfl
    · exact h.removed j hj

theorem ok_inductive : (server text moves service).Inductive (Server.Ok text) where
  init s hi := by
    obtain ⟨ht, -, hrem, -⟩ := hi
    refine ⟨?_, fun i => ?_, fun i h => ?_⟩
    · rw [ht]; exact Table.filed_empty
    · rw [ht]; rintro ⟨k, hk⟩; cases hk
    · rw [hrem] at h; cases h
  step _ _ _ h hst := h.step hst

/-! ## Which steps keep the sessions -/

/-- The loop keeps every session exactly if the id of the new one is free. -/
theorem kept_accept_iff (h : s.Ok text) (hk : Kept s) (k : Socket) :
    Kept (s.accept text moves (.accepted k)) ↔ s.manager.sessions (Session.id text k) = none := by
  have hnew : ¬ s.manager.sessions.Holds s.made.length := fun hh =>
    Nat.lt_irrefl _ (h.held _ hh)
  have hlen : (s.accept text moves (.accepted k)).made.length = s.made.length + 1 :=
    List.length_append
  rw [← Table.holds_emplace_self_iff hnew, ← accept_sessions moves]
  constructor
  · intro hkept
    exact hkept _ (by omega) fun hr => Nat.lt_irrefl _ (h.removed _ hr)
  · intro hheld i hi hr
    by_cases hin : i = s.made.length
    · rw [hin]; exact hheld
    · rw [accept_sessions]
      exact (hk i (by omega) hr).emplace

/-- A removal keeps every other session exactly if none is filed under the id that it erases. -/
theorem kept_remove_iff (h : s.Ok text) (hk : Kept s) (i : Nat) :
    Kept (s.next text moves (.remove i)) ↔ Separate text s (.remove i) := by
  show (∀ j, j < s.made.length → j ∉ i :: s.removed → (s.manager.sessions.erase _).Holds j) ↔ _
  simp only [h.filed.holds_erase_iff]
  constructor
  · intro hkept j hji hr hj
    have hnot : j ∉ i :: s.removed := fun hm => (List.mem_cons.mp hm).elim hji hr
    exact (hkept j (h.held j ⟨_, hj⟩) hnot).2 (h.filed _ _ hj)
  · intro hsep j hj hnot
    rw [List.mem_cons, not_or] at hnot
    have hheld := hk j hj hnot.2
    refine ⟨hheld, fun he => hsep j hnot.1 hnot.2 ?_⟩
    rw [← he]
    exact h.filed.at hheld

/-- **A step drops no session exactly if it is `Separate`.** -/
theorem kept_step_iff (h : s.Ok text) (hk : Kept s)
    (hst : (server text moves service).step s l s') : Kept s' ↔ Separate text s l := by
  obtain ⟨-, rfl⟩ := hst
  match l with
  | .accept o =>
    by_cases ha : s.accepting = true
    · rw [next_accept, if_pos ha]
      match o with
      | .aborted => exact iff_of_true hk trivial
      | .failed => exact iff_of_true hk trivial
      | .accepted k => exact (kept_accept_iff h hk k).trans ⟨fun hn _ => hn, fun hs => hs ha⟩
    · rw [next_accept, if_neg ha]
      match o with
      | .aborted => exact iff_of_true hk trivial
      | .failed => exact iff_of_true hk trivial
      | .accepted k => exact iff_of_true hk fun hacc => absurd hacc ha
  | .change i k => exact iff_of_true hk trivial
  | .remove i => exact kept_remove_iff h hk i

theorem kept_inductive : ((server text moves service).restrict (Separate text)).Inductive
    fun s => s.Ok text ∧ Kept s :=
  ok_inductive.restrict.and
    (fun s hi i hlt _ => by rw [hi.2.1] at hlt; exact absurd hlt (Nat.not_lt_zero i))
    fun _ _ _ h hk hst => (kept_step_iff h hk hst.1).mpr hst.2

/-! ## Which sessions are made -/

theorem successes_append (tr : List Event) (l : Event) : successes (tr ++ [l]) =
    if tr.any Event.isAbort then successes tr else successes tr ++ successes [l] := by
  induction tr with
  | nil => rfl
  | cons e tr ih =>
    rw [List.cons_append, List.any_cons]
    unfold successes
    by_cases he : e.isAbort = true
    · simp [he]
    · rw [if_neg he, if_neg he, ih]
      by_cases ha : tr.any Event.isAbort = true
      · simp [ha]
      · rw [if_neg ha, if_neg (by simp [he, ha]), List.append_assoc]
        rfl

/-- The loop runs until the first abort, and has made a session of each success before it. -/
def Made (service : Str) (tr : List Event) (s : Server) : Prop :=
  s.accepting = (!service.isEmpty && !tr.any Event.isAbort) ∧
    s.made = if service = [] then [] else successes tr

theorem Made.step {tr : List Event} (h : Made service tr s) (l : Event) :
    Made service (tr ++ [l]) (s.next text moves l) := by
  obtain ⟨ha, hm⟩ := h
  unfold Made
  rw [successes_append, List.any_append]
  match l with
  | .change i k => simpa [Server.next, successes, Event.isAbort, Event.success] using ⟨ha, hm⟩
  | .remove i => simpa [Server.next, successes, Event.isAbort, Event.success] using ⟨ha, hm⟩
  | .accept o =>
    rw [next_accept]
    by_cases hacc : s.accepting = true
    · rw [if_pos hacc]
      rw [hacc] at ha
      have hs : service ≠ [] ∧ tr.any Event.isAbort = false := by simpa using ha.symm
      match o with
      | .aborted => simp [Server.accept, successes, Event.isAbort, hm, hs]
      | .failed => simp [Server.accept, successes, Event.isAbort, Event.success, hm, hs, hacc]
      | .accepted k => simp [Server.accept, successes, Event.isAbort, Event.success, hm, hs, hacc]
    · -- the loop has ended: nothing more is accepted
      rw [if_neg hacc]
      rw [Bool.not_eq_true] at hacc
      rw [hacc] at ha
      have hs : service = [] ∨ tr.any Event.isAbort = true := by
        by_contra hn
        rw [not_or, Bool.not_eq_true] at hn
        simp [hn] at ha
      rcases hs with hs | hs
      · simp [hacc, hm, hs]
      · simp [hacc, hm, hs]

/-- In every run the sessions made are those of the successes before the first abort. -/
theorem made_of_run {tr : List Event} (hr : (server text moves service).Run tr s) :
    Made service tr s := by
  obtain ⟨s₀, ⟨-, hmade, -, hacc⟩, hs⟩ := hr
  refine hs.history (H := Made service) ?_ ⟨by simpa using hacc, by simpa [successes] using hmade⟩
  rintro tr u l v h ⟨-, rfl⟩
  exact h.step l

variable (text moves service) in
/-- What holds after the events `tr`, in the state `s`:

* `kept`: every session that was made is held, unless it was given to `remove_session`;
* `made`: the sessions made are those of the successful accepts before the first abort;
* `exact`: the next step keeps every session exactly if it is `Separate`. -/
structure NoneDropped (tr : List Event) (s : Server) : Prop where
  kept : Kept s
  made : s.made = if service = [] then [] else successes tr
  exact : ∀ l s', (server text moves service).step s l s' → (Kept s' ↔ Separate text s l)

/-- **No accepted session is dropped in the runs whose steps are `Separate`**, and in no others. -/
theorem accepted_kept {tr : List Event}
    (hr : ((server text moves service).restrict (Separate text)).Run tr s) :
    NoneDropped text moves service tr s := by
  obtain ⟨hok, hk⟩ := kept_inductive.reach hr.reach
  exact ⟨hk, (made_of_run hr.of_restrict).2, fun l s' hst => kept_step_iff hok hk hst⟩

/-- A server without sessions, at the head of its loop. -/
def fresh : Server := ⟨⟨⟨Table.empty⟩, fun _ => []⟩, [], fun _ => disconnected, [], true⟩

/-- Two accepts, one of which fails, a peer that disconnects, and an abort. -/
theorem accepted_kept_run : ∃ tr s, s.made = [connected 5000] ∧
    NoneDropped onlyHost true (lit "5000") tr s := by
  have h : ((server onlyHost true (lit "5000")).restrict (Separate onlyHost)).Run [] fresh :=
    .start ⟨rfl, rfl, rfl, rfl⟩
  have h := h.snoc (l := .accept (.accepted (connected 5000))) ⟨⟨nofun, rfl⟩, fun _ => rfl⟩
  have h := h.snoc (l := .accept .failed) ⟨⟨nofun, rfl⟩, trivial⟩
  have h := h.snoc (l := .change 0 disconnected) ⟨⟨nofun, rfl⟩, trivial⟩
  have h := h.snoc (l := .accept .aborted) ⟨⟨nofun, rfl⟩, trivial⟩
  exact ⟨_, _, rfl, accepted_kept h⟩

/-- Of two accepted sessions whose peers have already reset, the second is not held. -/
theorem second_unknown_dropped : ∃ s, (server onlyHost true (lit "5000")).Reach s ∧
    s.made.length = 2 ∧ s.removed = [] ∧ ¬ s.manager.sessions.Holds 1 := by
  have h : (server onlyHost true (lit "5000")).Run [] fresh := .start ⟨rfl, rfl, rfl, rfl⟩
  have h := h.snoc (l := .accept (.accepted disconnected)) ⟨nofun, rfl⟩
  have h := h.snoc (l := .accept (.accepted disconnected)) ⟨nofun, rfl⟩
  refine ⟨_, h.reach, rfl, rfl, fun hheld => ?_⟩
  change ((Table.empty.emplace unknownId 0).emplace unknownId 1).Holds 1 at hheld
  have hn : ¬ (Table.empty.emplace unknownId 0 : Table Str Nat).Holds 1 := fun h =>
    h.of_emplace.elim (by decide) fun ⟨_, hk⟩ => nomatch hk
  have hk := (Table.holds_emplace_self_iff hn).mp hheld
  exact absurd hk (by decide)

end AsyncTcpServer

end CommCore
