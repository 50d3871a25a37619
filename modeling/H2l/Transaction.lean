import H2l.Frame.Basic

/-!
# Transactions

The messages of every channel: the shared one into a forward loop and the
outgoing ones into the write loops. A `LinkRef` is the identity of an
`Arc<Link>`, which its token alone does not determine, since tokens are reused.
-/

namespace H2l

open Base

/-- The token of a link or client, a raw socket number. -/
structure Token where
  raw : Nat
deriving DecidableEq, Repr

/-- Which link an `Arc<Link>` points to. -/
structure LinkRef where
  index : Nat
deriving DecidableEq, Repr

/-- The flags of a link. -/
abbrev LinkFlags := FlagSet (0xf : Word)

namespace LinkFlags

/-- No loop has left. -/
def none : LinkFlags := ⟨0x0, by decide⟩

/-- The read loop has left. -/
def readClosed : LinkFlags := ⟨0x1, by decide⟩

/-- The write loop has left. -/
def writeClosed : LinkFlags := ⟨0x2, by decide⟩

/-- Both loops have left. -/
def readWriteClosed : LinkFlags := FlagSet.union readClosed writeClosed

/-- The link was put into the table. Callbacks alone say so. -/
def attached : LinkFlags := ⟨0x4, by decide⟩

/-- The link was taken out of the table. Callbacks alone say so. -/
def detached : LinkFlags := ⟨0x8, by decide⟩

end LinkFlags

/-- The flags of the server. -/
abbrev ServerFlags := FlagSet (0x3 : Word)

namespace ServerFlags

/-- The accept loop returns. -/
def acceptLoopExited : ServerFlags := ⟨0x1, by decide⟩

/-- The forward loop returns. -/
def forwardLoopExited : ServerFlags := ⟨0x2, by decide⟩

/-- Both loops have returned. -/
def terminated : ServerFlags := FlagSet.union acceptLoopExited forwardLoopExited

end ServerFlags

/-- The flags of a client. -/
abbrev ClientFlags := FlagSet (0x3f : Word)

namespace ClientFlags

/-- The maintenance loop returns. -/
def mantainLoopExited : ClientFlags := ⟨0x1, by decide⟩

/-- The forward loop returns. -/
def forwardLoopExited : ClientFlags := ⟨0x2, by decide⟩

/-- Both loops have returned. -/
def terminated : ClientFlags := FlagSet.union mantainLoopExited forwardLoopExited

/-- The handshake has completed. -/
def handshaked : ClientFlags := ⟨0x4, by decide⟩

/-- The read loop has left. -/
def readClosed : ClientFlags := ⟨0x8, by decide⟩

/-- The write loop has left. -/
def writeClosed : ClientFlags := ⟨0x10, by decide⟩

/-- Both loops have left. -/
def readWriteClosed : ClientFlags := FlagSet.union readClosed writeClosed

/-- The connection is not the first. -/
def reconnected : ClientFlags := ⟨0x20, by decide⟩

/-- Exactly HANDSHAKED, with RECONNECTED or without. -/
def isNewlyHandshaked (flags : ClientFlags) : Bool :=
  flags == handshaked || flags == FlagSet.union handshaked reconnected

end ClientFlags

/-- A message of a channel. -/
inductive Transaction where
  | bytes (data : List Byte) (token : Option Token)
  | frame (frame : Frame) (token : Option Token)
  | clientChanged (flags : ClientFlags) (token : Token)
  | linkChanged (flags : LinkFlags) (token : Token)
  | newLink (link : LinkRef)
  | serverChanged (flags : ServerFlags)
deriving DecidableEq

namespace Transaction

/-- The bytes a write loop hands to its socket for a transaction. -/
def emitted : Transaction → List Byte
  | .bytes data _ => data
  | .frame written _ => written.writeTo
  | _ => []

end Transaction

end H2l
