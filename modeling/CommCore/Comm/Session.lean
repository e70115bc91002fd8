import CommCore.Lib.Bytes

/-!
# `session` (`libs/comm/include/comm/session.hpp`)

- **Sockets.** What a session's id depends on is the remote endpoint of its socket, which is lost
  when the peer has disconnected. The text of an address (`address::to_string`) is a parameter.
- **Ids** (`id`). `host:port`, or `[host]:port` for an IPv6 host, each `%` of it escaped
  (`escapeZone`), or `unknown` without a remote endpoint.
-/

namespace CommCore

namespace Session

open Lib

/-! ## Sockets -/

/-- `asio::ip::address`. -/
inductive Address where
  | v4 (bytes : Buf 4)
  | v6 (bytes : Buf 16) (scopeId : Word 4)

def Address.isV6 : Address → Bool
  | .v4 _ => false
  | .v6 _ _ => true

/-- `tcp::endpoint`. -/
structure Endpoint where
  address : Address
  port : Word 2

/-- A socket: what `remote_endpoint(ec)` gives, `none` if it sets `ec`. -/
structure Socket where
  remoteEndpoint : Option Endpoint

/-! ## Ids -/

def unknownId : Str := lit "unknown"

/-- `find('%', pos)`. -/
def findPercent (host : Str) (pos : Nat) : Option Nat :=
  ((host.drop pos).findIdx? (· = 37)).map (pos + ·)

theorem findPercent_bounds {host : Str} {pos p : Nat} (h : findPercent host pos = some p) :
    pos ≤ p ∧ p < host.length := by
  unfold findPercent at h
  obtain ⟨i, hi, rfl⟩ := Option.map_eq_some_iff.mp h
  obtain ⟨hlt, -⟩ := List.findIdx?_eq_some_iff_getElem.mp hi
  rw [List.length_drop] at hlt
  omega

/-- `replace(pos, 1, "%25")`. -/
def replacePercent (host : Str) (pos : Nat) : Str :=
  host.take pos ++ lit "%25" ++ host.drop (pos + 1)

/-- The loop that escapes the zone, from `pos` on. -/
def escapeZone (host : Str) (pos : Nat) : Str :=
  match h : findPercent host pos with
  | none => host
  | some p => escapeZone (replacePercent host p) (p + 3)
termination_by host.length - pos
decreasing_by
  obtain ⟨hle, hlt⟩ := findPercent_bounds h
  have hlen : (lit "%25").length = 3 := by decide
  simp only [replacePercent, List.length_append, List.length_take, List.length_drop, hlen]
  omega

/-- `id()` of a session with the given socket. -/
protected def id (text : Address → Str) (socket : Socket) : Str :=
  match socket.remoteEndpoint with
  | none => unknownId
  | some e =>
    let host := text e.address
    let host := if e.address.isV6 then lit "[" ++ escapeZone host 0 ++ lit "]" else host
    host ++ lit ":" ++ lit (toString e.port.val)

end Session

end CommCore
