import Overlay.Crypto.Der
import Overlay.Crypto.Ecdsa
import Overlay.Error

/-!
# Key pairs and their documents

A key pair is kept as a PKCS#8 document: the algorithm, and within it the
secret and the public key.  Reading checks the parts in order and that the
public key is the one of the secret.
-/

namespace Overlay.Crypto

/-- A secret with its public key, and the document that it is kept as. -/
structure KeyPair where
  secret : Nat
  publicKey : Bytes
  document : Bytes
  deriving DecidableEq, Repr

namespace KeyPair

/-- The name of the curve, as an encoded value. -/
def curveName : Bytes :=
  [0x06, 0x08, 0x2a, 0x86, 0x48, 0xce, 0x3d, 0x03, 0x01, 0x07]

/-- The names of the kind of key and of the curve, as encoded values. -/
def algorithm : Bytes :=
  [0x06, 0x07, 0x2a, 0x86, 0x48, 0xce, 0x3d, 0x02, 0x01] ++ curveName

/-- The document of a secret and its public key. -/
def writeDocument (secret : Nat) (publicKey : Bytes) : Bytes :=
  let keys := Der.write .sequence
    (Der.write .integer [1] ++ Der.write .octetString (Bytes.bigEndian 32 secret) ++
      Der.write .context1 (Der.write .bitString (0 :: publicKey)))
  Der.write .sequence
    (Der.write .integer [0] ++ Der.write .sequence algorithm ++ Der.write .octetString keys)

/-- The key pair of a secret. -/
def ofSecret (secret : Nat) : KeyPair :=
  let publicKey := Ecdsa.publicKey secret
  ⟨secret, publicKey, writeDocument secret publicKey⟩

def generate (entropy : Bytes) : KeyPair :=
  ofSecret (Bytes.ofBigEndian (Sha256.digest entropy) % (P256.n - 1) + 1)

/-- Reads the secret and the public key within a document. -/
def readComponents (bytes : Bytes) : Except KeyDocumentFault (Bytes × Bytes) := do
  let some (inner, []) := Der.read? .sequence bytes | throw .invalidEncoding
  let some (version, inner) := Der.readSmall? inner | throw .invalidEncoding
  if version ≠ 1 then throw .versionNotSupported
  let some (secret, inner) := Der.read? .octetString inner | throw .invalidEncoding
  let inner ← if Der.startsWith .context0 inner then do
      let some (curve, inner) := Der.read? .context0 inner | throw .invalidEncoding
      if curve ≠ curveName then throw .wrongAlgorithm
      pure inner
    else pure inner
  let some (wrapped, inner) := Der.read? .context1 inner | throw .invalidEncoding
  let some (0 :: publicKey, []) := Der.read? .bitString wrapped | throw .invalidEncoding
  if inner ≠ [] then throw .invalidEncoding
  return (secret, publicKey)

/-- Reads the part of a document that holds the keys. -/
def readWrapping (bytes : Bytes) : Except KeyDocumentFault Bytes := do
  let some (outer, []) := Der.read? .sequence bytes | throw .invalidEncoding
  let some (version, outer) := Der.readSmall? outer | throw .invalidEncoding
  if 1 < version then throw .versionNotSupported
  let some (name, outer) := Der.read? .sequence outer | throw .invalidEncoding
  if name ≠ algorithm then throw .wrongAlgorithm
  if version = 1 then throw .versionNotSupported
  let some (keys, outer) := Der.read? .octetString outer | throw .invalidEncoding
  let outer ← if Der.startsWith .context0 outer then do
      let some (_, outer) := Der.read? .context0 outer | throw .invalidEncoding
      pure outer
    else pure outer
  if outer ≠ [] then throw .invalidEncoding
  return keys

def ofDocument (bytes : Bytes) : Except KeyDocumentFault KeyPair := do
  let (secretBytes, publicKey) ← readComponents (← readWrapping bytes)
  let secret := Bytes.ofBigEndian secretBytes
  if secretBytes.length ≠ 32 ∨ secret = 0 ∨ P256.n ≤ secret then throw .invalidComponent
  if Ecdsa.publicKey secret ≠ publicKey then throw .inconsistentComponents
  return ⟨secret, publicKey, bytes⟩

def load (bytes : Bytes) : Except NetError KeyPair :=
  (ofDocument bytes).mapError fun fault => .crypto (.document fault)

def sign (pair : KeyPair) (message : Bytes) : Bytes :=
  Ecdsa.sign pair.secret message

end KeyPair

end Overlay.Crypto
