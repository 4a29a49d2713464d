import Overlay.Text.Hex

/-!
# Identities

Who a node is: the key that it proves to hold, the port that it listens on and
the protocol version that it speaks.
-/

namespace Overlay

/-- The beginning of a key, in hexadecimal. -/
def shortKey (key : Bytes) : String :=
  Text.Hex.encode (key.take 6)

structure Identity where
  publicKey : Bytes
  port : UInt16
  version : UInt32
  deriving DecidableEq, Repr

namespace Identity

/-- The beginning of the key of a node. -/
def shortId (identity : Identity) : String :=
  shortKey identity.publicKey

def display (identity : Identity) : String :=
  s!"{identity.shortId} (v{identity.version.toNat})"

end Identity

end Overlay
