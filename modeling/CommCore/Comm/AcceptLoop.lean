import CommCore.Comm.AsyncTcpServer

/-!
# `start_accepting` with what is undefined in it (`libs/comm/src/async_tcp_server.cpp`)

`server` judges `add_session` by what it leaves in the table. Here the coroutine runs statement by
statement: it resolves the service, makes the acceptor, and accepts. An exception ends it, and what
is undefined is no step: the runs of `startAccepting` are those in which nothing undefined happens.

- **Refinement** (`event_simulation`). They are runs of `server`, so what holds of those holds here.
- **Fruitless** (`start_accepting_fruitless`). In all of them the loop never adds a session: each
  session that it accepts has an id that is taken, and is dropped. A connection with a free id is
  undefined, and from an empty table that is the first one.
-/

namespace CommCore

namespace AsyncTcpServer

open Lib Session SessionManager

/-- Where the coroutine is. -/
inductive Phase where
  /-- At `co_await resolver.async_resolve`. -/
  | resolving
  /-- At the constructor of the acceptor. -/
  | opening
  /-- At `co_await acceptor.async_accept`. -/
  | accepting
  | returned
  /-- Ended by a `system_error`. -/
  | threw (ec : Int)
  deriving DecidableEq, Repr

structure Coroutine where
  phase : Phase
  server : Server

/-- What the coroutine gets from what it waits for, and what happens around it. -/
inductive Await where
  | resolve (r : Except Int Unit)
  | acceptor (r : Except Int Unit)
  | event (e : Event)

def Await.event? : Await → Option Event
  | .event e => some e
  | _ => none

variable (text : Address → Str) (moves : Bool) (service : Str)

/-- The body of the loop; `none`: it does something undefined. -/
def Server.tryAccept (s : Server) : Outcome → Option Server
  | .aborted => some { s with accepting := false }
  | .failed => some s
  | .accepted k =>
    let new := s.made.length
    let socket := Function.update s.socket new k
    match (addSession text moves socket (some new)).run s.manager with
    | .ok _ m => some { s with made := s.made ++ [k], socket := socket, manager := m }
    | .error _ _ => none

/-- The phase after a value or an error. -/
def Phase.after (next : Phase) : Except Int Unit → Phase
  | .ok _ => next
  | .error ec => .threw ec

/-- The phase after a pass of the loop. -/
def Phase.loop : Outcome → Phase
  | .aborted => .returned
  | _ => .accepting

/-- Without a service there is nothing to do. -/
def Phase.start : Phase := if service = [] then .returned else .resolving

/-- `start_accepting(service)` and what happens around it. -/
def startAccepting : Sys Coroutine Await where
  init c := (server text moves service).init c.server ∧ c.phase = Phase.start service
  step c l c' :=
    match l with
    | .resolve r => c.phase = .resolving ∧ c' = { c with phase := Phase.after .opening r }
    | .acceptor r => c.phase = .opening ∧ c' = { c with phase := Phase.after .accepting r }
    | .event (.accept o) => c.phase = .accepting ∧
        ∃ s, c.server.tryAccept text moves o = some s ∧ c' = ⟨Phase.loop o, s⟩
    | .event e => (∀ i, e = .remove i → i < c.server.made.length) ∧
        c' = { c with server := c.server.next text moves e }

variable {text moves service} {s s' : Server} {c c' c₀ : Coroutine} {tr : List Await}

/-! ## A pass of the loop -/

/-- A pass without anything undefined is one of `server`. -/
theorem tryAccept_accept {o : Outcome} (h : s.tryAccept text moves o = some s') :
    s' = s.accept text moves o := by
  cases o with
  | aborted => exact (Option.some.inj h).symm
  | failed => exact (Option.some.inj h).symm
  | accepted k =>
    unfold Server.tryAccept at h
    dsimp only at h
    unfold Server.accept
    dsimp only
    cases hrun : (addSession text moves (Function.update s.socket s.made.length k)
        (some s.made.length)).run s.manager with
    | ok u m =>
      rw [hrun] at h
      rw [Exec.final_ok hrun]
      exact (Option.some.inj h).symm
    | error x m =>
      rw [hrun] at h
      cases h

/-- An accept is undefined exactly if it succeeds with a free id, or with any if `emplace` moves
from a pointer that it does not insert. -/
theorem tryAccept_none_iff {o : Outcome} : s.tryAccept text moves o = none ↔
    ∃ k, o = .accepted k ∧ (s.manager.sessions (Session.id text k) = none ∨ moves = true) := by
  cases o with
  | aborted => exact iff_of_false nofun nofun
  | failed => exact iff_of_false nofun nofun
  | accepted k =>
    have hrun := addSession_run text moves (Function.update s.socket s.made.length k)
      s.made.length s.manager
    rw [Function.update_self] at hrun
    unfold Server.tryAccept
    dsimp only
    rw [hrun]
    by_cases hc : ((s.manager.sessions (Session.id text k)).isNone || moves) = true
    · rw [if_pos hc]
      refine iff_of_true rfl ⟨k, rfl, ?_⟩
      simpa using hc
    · rw [if_neg hc]
      refine iff_of_false nofun ?_
      rintro ⟨k', hk, h⟩
      cases hk
      exact hc (by simpa using h)

/-- A pass adds no entry. -/
theorem tryAccept_sessions {o : Outcome} (h : s.tryAccept text moves o = some s') :
    s'.manager.sessions = s.manager.sessions := by
  have hdef : s.tryAccept text moves o ≠ none := by rw [h]; exact nofun
  rw [tryAccept_accept h]
  cases o with
  | aborted => rfl
  | failed => rfl
  | accepted k =>
    rw [accept_sessions]
    cases hk : s.manager.sessions (Session.id text k) with
    | none => exact absurd (tryAccept_none_iff.mpr ⟨k, rfl, .inl hk⟩) hdef
    | some w => exact Table.emplace_some hk

/-! ## The coroutine in `server` -/

/-- The loop of `server` goes on until the coroutine returns. -/
def Coroutine.InLoop (c : Coroutine) : Prop := c.phase ≠ .returned → c.server.accepting = true

theorem Coroutine.InLoop.step (hin : c.InLoop) {l : Await}
    (hst : (startAccepting text moves service).step c l c') : c'.InLoop := by
  match l with
  | .resolve r =>
    obtain ⟨hphase, rfl⟩ := hst
    exact fun _ => hin (by rw [hphase]; exact nofun)
  | .acceptor r =>
    obtain ⟨hphase, rfl⟩ := hst
    exact fun _ => hin (by rw [hphase]; exact nofun)
  | .event (.accept o) =>
    obtain ⟨hphase, s, hs, rfl⟩ := hst
    have hacc : c.server.accepting = true := hin (by rw [hphase]; exact nofun)
    intro hne
    rw [tryAccept_accept hs]
    cases o with
    | aborted => exact absurd rfl hne
    | failed => exact hacc
    | accepted k => exact hacc
  | .event (.change i k) =>
    obtain ⟨-, rfl⟩ := hst
    exact hin
  | .event (.remove i) =>
    obtain ⟨-, rfl⟩ := hst
    exact hin

/-- The runs of the coroutine are runs of `server`. -/
theorem event_simulation : Simulation (startAccepting text moves service)
    (server text moves service) Coroutine.InLoop Coroutine.server Await.event? where
  init _ h := h.1
  step c l c' hin hst := by
    match l with
    | .resolve r =>
      obtain ⟨-, rfl⟩ := hst
      rfl
    | .acceptor r =>
      obtain ⟨-, rfl⟩ := hst
      rfl
    | .event (.accept o) =>
      obtain ⟨hphase, s, hs, rfl⟩ := hst
      have hacc : c.server.accepting = true := hin (by rw [hphase]; exact nofun)
      refine ⟨nofun, ?_⟩
      rw [next_accept, if_pos hacc]
      exact tryAccept_accept hs
    | .event (.change i k) =>
      obtain ⟨hi, rfl⟩ := hst
      exact ⟨hi, rfl⟩
    | .event (.remove i) =>
      obtain ⟨hi, rfl⟩ := hst
      exact ⟨hi, rfl⟩

/-! ## How it ends -/

/-- How the coroutine has ended. -/
def Phase.ended : Phase → Option Phase
  | .returned => some .returned
  | .threw ec => some (.threw ec)
  | _ => none

/-- How what it gets ends the coroutine. -/
def Await.ends : Await → Option Phase
  | .resolve (.error ec) | .acceptor (.error ec) => some (.threw ec)
  | .event (.accept .aborted) => some .returned
  | _ => none

/-- It ends once, by what it has got that ends it; without a service, by itself. -/
def EndsBy (service : Str) (tr : List Await) (c : Coroutine) : Prop :=
  c.phase.ended.toList = if service = [] then [.returned] else tr.filterMap Await.ends

/-- Before its end it has got nothing that ends it. -/
theorem EndsBy.not_ended (h : EndsBy service tr c) (hn : c.phase.ended = none) :
    service ≠ [] ∧ tr.filterMap Await.ends = [] := by
  unfold EndsBy at h
  rw [hn] at h
  by_cases hs : service = []
  · rw [if_pos hs] at h
    cases h
  · rw [if_neg hs] at h
    exact ⟨hs, h.symm⟩

/-- What it gets then decides. -/
theorem EndsBy.snoc (h : EndsBy service tr c) (hn : c.phase.ended = none) {l : Await}
    (hl : c'.phase.ended = l.ends) : EndsBy service (tr ++ [l]) c' := by
  obtain ⟨hs, htr⟩ := h.not_ended hn
  unfold EndsBy
  rw [if_neg hs, List.filterMap_append, htr, hl]
  cases hl' : l.ends with
  | none => simp [hl']
  | some p => simp [hl']

/-- Other events do not matter. -/
theorem EndsBy.idle (h : EndsBy service tr c) {l : Await} (hl : l.ends = none)
    (hp : c'.phase = c.phase) : EndsBy service (tr ++ [l]) c' := by
  unfold EndsBy at h ⊢
  rw [List.filterMap_append, List.filterMap_cons_none hl, List.filterMap_nil, List.append_nil, hp]
  exact h

theorem EndsBy.step (h : EndsBy service tr c) {l : Await}
    (hst : (startAccepting text moves service).step c l c') : EndsBy service (tr ++ [l]) c' := by
  match l with
  | .resolve r =>
    obtain ⟨hphase, rfl⟩ := hst
    refine h.snoc (by rw [hphase]; rfl) ?_
    cases r <;> rfl
  | .acceptor r =>
    obtain ⟨hphase, rfl⟩ := hst
    refine h.snoc (by rw [hphase]; rfl) ?_
    cases r <;> rfl
  | .event (.accept o) =>
    obtain ⟨hphase, s, hs, rfl⟩ := hst
    refine h.snoc (by rw [hphase]; rfl) ?_
    cases o <;> rfl
  | .event (.change i k) =>
    obtain ⟨-, rfl⟩ := hst
    exact h.idle rfl rfl
  | .event (.remove i) =>
    obtain ⟨-, rfl⟩ := hst
    exact h.idle rfl rfl

/-! ## What a run adds -/

/-- Nothing is added to the table, and from an empty one no session is made. -/
structure Coroutine.AddsNone (c₀ c : Coroutine) : Prop where
  table : ∀ k i, c.server.manager.sessions k = some i → c₀.server.manager.sessions k = some i
  made : c₀.server.manager.sessions = .empty → c.server.made = c₀.server.made

/-- A table without more entries than the empty one. -/
theorem Coroutine.AddsNone.empty (h : c₀.AddsNone c)
    (h₀ : c₀.server.manager.sessions = .empty) : c.server.manager.sessions = .empty := by
  funext k
  cases hk : c.server.manager.sessions k with
  | none => rfl
  | some i =>
    have hi := h.table k i hk
    rw [h₀] at hi
    cases hi

theorem Coroutine.AddsNone.accept (h : c₀.AddsNone c) {o : Outcome} {p : Phase}
    (hs : c.server.tryAccept text moves o = some s) : c₀.AddsNone ⟨p, s⟩ where
  table k i hk := by
    change s.manager.sessions k = some i at hk
    rw [tryAccept_sessions hs] at hk
    exact h.table k i hk
  made h₀ := by
    show s.made = _
    rw [tryAccept_accept hs, ← h.made h₀]
    cases o with
    | aborted => rfl
    | failed => rfl
    | accepted k =>
      -- in an empty table every id is free
      have hfree : c.server.manager.sessions (Session.id text k) = none := by
        rw [h.empty h₀]
        rfl
      rw [tryAccept_none_iff.mpr ⟨k, rfl, .inl hfree⟩] at hs
      cases hs

theorem Coroutine.AddsNone.step (h : c₀.AddsNone c) {l : Await}
    (hst : (startAccepting text moves service).step c l c') : c₀.AddsNone c' := by
  match l with
  | .resolve r =>
    obtain ⟨-, rfl⟩ := hst
    exact ⟨h.table, h.made⟩
  | .acceptor r =>
    obtain ⟨-, rfl⟩ := hst
    exact ⟨h.table, h.made⟩
  | .event (.accept o) =>
    obtain ⟨-, s, hs, rfl⟩ := hst
    exact h.accept hs
  | .event (.change i k) =>
    obtain ⟨-, rfl⟩ := hst
    exact ⟨h.table, h.made⟩
  | .event (.remove i) =>
    obtain ⟨-, rfl⟩ := hst
    refine ⟨fun k j hk => ?_, h.made⟩
    by_cases hki : k = Session.id text (c.server.socket i)
    · change c.server.manager.sessions.erase _ k = some j at hk
      rw [hki, Table.erase_self] at hk
      cases hk
    · change c.server.manager.sessions.erase _ k = some j at hk
      rw [Table.erase_ne hki] at hk
      exact h.table k j hk

/-- A coroutine that starts, over sessions that were added before. -/
structure Coroutine.Starts (text : Address → Str) (service : Str) (c₀ : Coroutine) : Prop where
  ok : c₀.server.Ok text
  accepting : c₀.server.accepting = !service.isEmpty
  phase : c₀.phase = Phase.start service

theorem Coroutine.Starts.inLoop (h : c₀.Starts text service) : c₀.InLoop := by
  intro hne
  rw [h.accepting]
  rw [h.phase] at hne
  by_cases hs : service = []
  · exact absurd (if_pos hs) hne
  · simpa using hs

theorem Coroutine.Starts.endsBy (h : c₀.Starts text service) : EndsBy service [] c₀ := by
  unfold EndsBy
  rw [h.phase]
  unfold Phase.start
  by_cases hs : service = []
  · rw [if_pos hs, if_pos hs]
    rfl
  · rw [if_neg hs, if_neg hs]
    rfl

variable (text moves service) in
/-- A run of the coroutine from `c₀`, with nothing undefined in it:

* `refines`: it is one of `server`;
* `table`, `dropped`: it adds no entry, and none of the sessions that it has made is held;
* `unmade`: from an empty table, it makes no session;
* `undefined`: what the loop gets next is undefined exactly if it is a connection whose id is free,
  or any one if `emplace` moves from a pointer that it does not insert;
* `ends`: it ends once, by what ends it. -/
structure Fruitless (c₀ : Coroutine) (tr : List Await) (c : Coroutine) : Prop where
  refines : (server text moves service).Steps c₀.server (tr.filterMap Await.event?) c.server
  table : ∀ k i, c.server.manager.sessions k = some i → c₀.server.manager.sessions k = some i
  dropped : ∀ i, c₀.server.made.length ≤ i → ¬ c.server.manager.sessions.Holds i
  unmade : c₀.server.manager.sessions = .empty → c.server.made = c₀.server.made
  undefined : c.phase = .accepting → ∀ o,
    ((∀ c', ¬ (startAccepting text moves service).step c (.event (.accept o)) c') ↔
      ∃ k, o = .accepted k ∧ (c.server.manager.sessions (Session.id text k) = none ∨ moves = true))
  ends : c.phase.ended.toList = if service = [] then [.returned] else tr.filterMap Await.ends

/-- **The accept loop never adds a session**: a connection with a new id is undefined, and one
without is dropped. -/
theorem start_accepting_fruitless (h₀ : c₀.Starts text service)
    (hs : (startAccepting text moves service).Steps c₀ tr c) :
    Fruitless text moves service c₀ tr c := by
  have hadds : c₀.AddsNone c :=
    hs.keep (I := c₀.AddsNone) (fun _ _ _ h hst => h.step hst) ⟨fun _ _ hk => hk, fun _ => rfl⟩
  have hends : EndsBy service tr c :=
    hs.history (H := EndsBy service) (fun _ _ _ _ h hst => h.step hst) h₀.endsBy
  refine ⟨event_simulation.steps (fun _ _ _ h hst => h.step hst) hs h₀.inLoop, hadds.table,
    fun i hi hheld => ?_, hadds.made, fun hphase o => ?_, hends⟩
  · obtain ⟨k, hk⟩ := hheld
    have := h₀.ok.held i ⟨k, hadds.table k i hk⟩
    omega
  · rw [← tryAccept_none_iff]
    constructor
    · intro hn
      cases hacc : c.server.tryAccept text moves o with
      | none => rfl
      | some s => exact absurd ⟨hphase, s, hacc, rfl⟩ (hn ⟨Phase.loop o, s⟩)
    · rintro hn c' ⟨-, s, hacc, -⟩
      rw [hn] at hacc
      cases hacc

/-! ## A connection twice -/

/-- A server that has added the session of one connection. -/
def oneSession : Server where
  manager := ⟨⟨Table.empty.emplace (lit "192.0.2.1:5000") 0⟩, fun _ => []⟩
  made := [connected 5000]
  socket _ := connected 5000
  removed := []
  accepting := true

theorem oneSession_starts :
    (Coroutine.mk .resolving oneSession).Starts onlyHost (lit "5000") where
  ok := {
    filed := Table.filed_empty.emplace (by decide)
    held := fun i hi => by
      change (Table.empty.emplace (lit "192.0.2.1:5000") 0).Holds i at hi
      rcases hi.of_emplace with rfl | ⟨k, hk⟩
      · exact Nat.zero_lt_one
      · cases hk
    removed := nofun }
  accepting := by decide
  phase := by decide

/-- The session of the same connection is dropped, and the loop goes on to its abort. -/
theorem start_accepting_fruitless_again : ∃ tr c, c.server.made = [connected 5000, connected 5000] ∧
    c.phase = .returned ∧
    Fruitless onlyHost false (lit "5000") (Coroutine.mk .resolving oneSession) tr c := by
  have h : (startAccepting onlyHost false (lit "5000")).Steps (Coroutine.mk .resolving oneSession)
    [] _ := .nil
  have h := h.snoc (l := Await.resolve (.ok ())) ⟨rfl, rfl⟩
  have h := h.snoc (l := Await.acceptor (.ok ())) ⟨rfl, rfl⟩
  have h := h.snoc (l := Await.event (.accept (.accepted (connected 5000)))) ⟨rfl, _, rfl, rfl⟩
  have h := h.snoc (l := Await.event (.accept .aborted)) ⟨rfl, _, rfl, rfl⟩
  exact ⟨_, _, rfl, rfl, start_accepting_fruitless oneSession_starts h⟩

end AsyncTcpServer

end CommCore
