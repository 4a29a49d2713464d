import Overlay.Crypto.KeyPair

/-!
# Keys and signatures of a node

However a node comes by its key pair, the public key is that of the secret.
A public key has at most 65 bytes and a signature at most 64.
-/

namespace Overlay.Crypto

theorem P256.length_encode_le (q : Point) : (encode q).length ≤ 65 := by
  rw [encode]
  split
  · simp [Bytes.bigEndian, Bytes.length_littleEndian]
  · exact Nat.zero_le 65

namespace Ecdsa

theorem length_signWith? {secret k : Nat} {message signature : Bytes}
    (hsign : signWith? secret k message = some signature) : signature.length = 64 := by
  simp only [signWith?, Option.bind_eq_bind, Option.bind_eq_some_iff] at hsign
  obtain ⟨point, -, hsign⟩ := hsign
  split at hsign
  · exact absurd hsign nofun
  · rw [← Option.some.inj hsign]
    simp [Bytes.bigEndian, Bytes.length_littleEndian]

theorem length_sign_le (secret : Nat) (message : Bytes) : (sign secret message).length ≤ 64 := by
  rw [sign]
  cases hfound : (List.range 16).findSome? fun attempt =>
      signWith? secret (oneTimeNumber secret attempt message) message with
  | none => exact Nat.zero_le 64
  | some signature =>
      obtain ⟨attempt, -, hsign⟩ := List.exists_of_findSome?_eq_some hfound
      exact Nat.le_of_eq (length_signWith? hsign)

end Ecdsa

namespace KeyPair

/-- The public key is the one of the secret. -/
def IsMatched (pair : KeyPair) : Prop :=
  pair.publicKey = Ecdsa.publicKey pair.secret

theorem isMatched_ofSecret (secret : Nat) : (ofSecret secret).IsMatched :=
  rfl

theorem isMatched_generate (entropy : Bytes) : (generate entropy).IsMatched :=
  rfl

/-- A document whose public key is not that of its secret is refused. -/
theorem isMatched_of_ofDocument {bytes : Bytes} {pair : KeyPair}
    (hread : ofDocument bytes = .ok pair) : pair.IsMatched := by
  simp only [ofDocument, bind, Except.bind, pure, Except.pure, throw, throwThe,
    MonadExceptOf.throw] at hread
  split at hread
  · exact absurd hread nofun
  · split at hread
    · exact absurd hread nofun
    · split at hread
      · exact absurd hread nofun
      · split at hread
        · exact absurd hread nofun
        · next hsame =>
            obtain rfl := Except.ok.inj hread
            exact (Decidable.not_not.1 hsame).symm

theorem IsMatched.length_publicKey_le {pair : KeyPair} (hmatched : pair.IsMatched) :
    pair.publicKey.length ≤ 65 := by
  rw [hmatched]
  exact P256.length_encode_le _

theorem length_sign_le (pair : KeyPair) (message : Bytes) : (pair.sign message).length ≤ 64 :=
  Ecdsa.length_sign_le pair.secret message

end KeyPair

end Overlay.Crypto
