import Overlay.Crypto.P256
import Overlay.Crypto.Sha256

/-!
# Signatures

ECDSA on P-256 with SHA-256.  A signature is two numbers of 32 bytes each.
-/

namespace Overlay.Crypto.Ecdsa

open P256

/-- The digest of a message as a number modulo the number of points. -/
def digestNumber (message : Bytes) : Nat :=
  Bytes.ofBigEndian (Sha256.digest message) % n

/-- Whether a signature of a message was made with the secret of a public key. -/
def verify (publicKey signature message : Bytes) : Bool :=
  match decode? publicKey with
  | none => false
  | some q =>
    let r := Bytes.ofBigEndian (signature.take 32)
    let s := Bytes.ofBigEndian (signature.drop 32)
    if signature.length = 64 ∧ 0 < r ∧ r < n ∧ 0 < s ∧ s < n then
      let w := inverse n s
      let sum := add (multiply (digestNumber message * w % n) base) (multiply (r * w % n) q)
      match affine? sum with
      | none => false
      | some (x, _) => x % n == r
    else false

def publicKey (secret : Nat) : Bytes :=
  encode (multiply secret base)

/-- The signature of a message with a one-time number, unless that number is unusable. -/
def signWith? (secret k : Nat) (message : Bytes) : Option Bytes := do
  let (x, _) ← affine? (multiply k base)
  let r := x % n
  let s := inverse n k * (digestNumber message + r * secret) % n
  if r = 0 ∨ s = 0 then none else some (Bytes.bigEndian 32 r ++ Bytes.bigEndian 32 s)

/-- The one-time number of an attempt, which depends on the secret and on all that is signed. -/
def oneTimeNumber (secret attempt : Nat) (message : Bytes) : Nat :=
  let seed := Bytes.bigEndian 32 secret ++ Bytes.bigEndian 4 attempt ++ Sha256.digest message
  Bytes.ofBigEndian (Sha256.digest seed) % (n - 1) + 1

/-- The signature of a message, from the first of sixteen attempts that is usable. -/
def sign (secret : Nat) (message : Bytes) : Bytes :=
  ((List.range 16).findSome? fun attempt =>
    signWith? secret (oneTimeNumber secret attempt message) message).getD []

end Overlay.Crypto.Ecdsa
