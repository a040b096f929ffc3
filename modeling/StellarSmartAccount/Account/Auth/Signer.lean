import Std.Data.ExtTreeMap
import StellarSmartAccount.Account.Auth.Permissions

/-! # Signers, their keys and their proofs

An Ed25519 signer is stored under its public key and a Secp256r1 signer under its
key id. A proof of the other scheme is an error; a signature the host does not
verify aborts the invocation.
-/

namespace StellarSmartAccount
open Foundations Soroban

inductive SignerKey where
  | ed25519 (publicKey : BytesN 32)
  | secp256r1 (keyId : Bytes)
  deriving DecidableEq

namespace SignerKey

/-- The position of the variant's symbol. -/
def scheme : SignerKey → ℕ
  | .ed25519 _ => 0
  | .secp256r1 _ => 1

def bytes : SignerKey → Bytes
  | .ed25519 publicKey => publicKey.toList
  | .secp256r1 keyId => keyId

/-- The host orders keys by variant symbol and then bytewise. -/
instance : Ord SignerKey := ⟨compareLex (compareOn scheme) (compareOn bytes)⟩

instance : Std.TransOrd SignerKey :=
  inferInstanceAs (Std.TransCmp (compareLex (compareOn scheme) (compareOn bytes)))

instance : Std.LawfulEqOrd SignerKey where
  eq_of_compare {a b} h := by
    obtain ⟨hscheme, hbytes⟩ := compareLex_eq_eq.mp h
    have hs : a.scheme = b.scheme := Std.LawfulEqOrd.eq_of_compare hscheme
    have hb : a.bytes = b.bytes := Std.LawfulEqOrd.eq_of_compare hbytes
    cases a <;> cases b <;> simp_all [scheme, bytes]
    exact Subtype.ext hb

end SignerKey

structure Ed25519Signer where
  publicKey : BytesN 32
  deriving DecidableEq

structure Secp256r1Signer where
  keyId : Bytes
  publicKey : BytesN 65
  deriving DecidableEq

structure Secp256r1Signature where
  authenticatorData : Bytes
  clientDataJson : Bytes
  signature : BytesN 64
  deriving DecidableEq

inductive SignerProof where
  | ed25519 (signature : BytesN 64)
  | secp256r1 (signature : Secp256r1Signature)
  deriving DecidableEq

/-- The proofs of one authorization entry, iterated in key order. -/
structure SignatureProofs where
  proofs : Std.ExtTreeMap SignerKey SignerProof compare

def Ed25519Signer.verify (self : Ed25519Signer) (env : Env) (payload : BytesN 32)
    (proof : SignerProof) : Fallible Error Unit := do
  match proof with
  | .ed25519 signature => Soroban.ed25519Verify env self.publicKey payload.toList signature
  | .secp256r1 _ => throw .invalidProofType

/-- The digest that a WebAuthn authenticator signs. -/
def Secp256r1Signature.digest (self : Secp256r1Signature) (crypto : Crypto) : BytesN 32 :=
  crypto.sha256 (self.authenticatorData ++ (crypto.sha256 self.clientDataJson).toList)

/-- The payload argument is not read. -/
def Secp256r1Signer.verify (self : Secp256r1Signer) (env : Env) (_payload : BytesN 32)
    (proof : SignerProof) : Fallible Error Unit := do
  match proof with
  | .secp256r1 signature =>
    Soroban.secp256r1Verify env self.publicKey (signature.digest env.crypto) signature.signature
  | _ => throw .invalidProofType

theorem Ed25519Signer.verify_exec (self : Ed25519Signer) (env : Env) (payload : BytesN 32)
    (signature : BytesN 64) (s : State) :
    (self.verify env payload (.ed25519 signature)).exec s =
      Call.outcome ⟨⟩ s (if env.crypto.ed25519Verify self.publicKey payload.toList signature
        then none else some (.abort .crypto)) := by
  rw [Ed25519Signer.verify, Call.exec_lift, ed25519Verify_exec]
  by_cases h : env.crypto.ed25519Verify self.publicKey payload.toList signature = true
  · rw [if_pos h, if_pos h]
    rfl
  · rw [if_neg h, if_neg h]
    rfl

theorem Secp256r1Signer.verify_exec (self : Secp256r1Signer) (env : Env) (payload : BytesN 32)
    (signature : Secp256r1Signature) (s : State) :
    (self.verify env payload (.secp256r1 signature)).exec s =
      Call.outcome ⟨⟩ s (if env.crypto.secp256r1Verify self.publicKey
        (signature.digest env.crypto) signature.signature
        then none else some (.abort .crypto)) := by
  rw [Secp256r1Signer.verify, Call.exec_lift, secp256r1Verify_exec]
  by_cases h : env.crypto.secp256r1Verify self.publicKey (signature.digest env.crypto)
      signature.signature = true
  · rw [if_pos h, if_pos h]
    rfl
  · rw [if_neg h, if_neg h]
    rfl

inductive Signer where
  | ed25519 (signer : Ed25519Signer) (role : SignerRole)
  | secp256r1 (signer : Secp256r1Signer) (role : SignerRole)
  deriving DecidableEq

namespace Signer

def verify (self : Signer) (env : Env) (payload : BytesN 32) (proof : SignerProof) :
    Fallible Error Unit :=
  match self with
  | .ed25519 signer _ => signer.verify env payload proof
  | .secp256r1 signer _ => signer.verify env payload proof

/-- `SignerKey::from(signer)`. -/
def key : Signer → SignerKey
  | .ed25519 signer _ => .ed25519 signer.publicKey
  | .secp256r1 signer _ => .secp256r1 signer.keyId

def role : Signer → SignerRole
  | .ed25519 _ role => role
  | .secp256r1 _ role => role

def isAuthorized (self : Signer) (env : Env) (context : Context) : Bool :=
  self.role.isAuthorized env context

/-- The proof is of the signer's scheme. -/
def sameScheme : Signer → SignerProof → Bool
  | .ed25519 _ _, .ed25519 _ => true
  | .secp256r1 _ _, .secp256r1 _ => true
  | _, _ => false

/-- The host verifies the proof under the signer's own public key. -/
def hostVerifies (crypto : Crypto) (payload : BytesN 32) : Signer → SignerProof → Bool
  | .ed25519 signer _, .ed25519 signature =>
    crypto.ed25519Verify signer.publicKey payload.toList signature
  | .secp256r1 signer _, .secp256r1 signature =>
    crypto.secp256r1Verify signer.publicKey (signature.digest crypto) signature.signature
  | _, _ => false

/-- Why the signer does not accept the proof. -/
def refusal (crypto : Crypto) (payload : BytesN 32) (self : Signer) (proof : SignerProof) :
    Option (Call.Refusal Abort Error) :=
  if self.sameScheme proof then
    if self.hostVerifies crypto payload proof then none else some (.abort .crypto)
  else some (.error .invalidProofType)

theorem verify_exec (self : Signer) (env : Env) (payload : BytesN 32) (proof : SignerProof)
    (s : State) :
    (self.verify env payload proof).exec s =
      Call.outcome ⟨⟩ s (self.refusal env.crypto payload proof) := by
  cases self with
  | ed25519 signer role =>
    cases proof with
    | ed25519 signature => exact signer.verify_exec env payload signature s
    | secp256r1 signature => rfl
  | secp256r1 signer role =>
    cases proof with
    | ed25519 signature => rfl
    | secp256r1 signature => exact signer.verify_exec env payload signature s

theorem sameScheme_of_hostVerifies {crypto : Crypto} {payload : BytesN 32} {signer : Signer}
    {proof : SignerProof} (h : signer.hostVerifies crypto payload proof = true) :
    signer.sameScheme proof = true := by
  cases signer <;> cases proof <;> first | rfl | cases h

theorem refusal_eq_none_iff {crypto : Crypto} {payload : BytesN 32} {signer : Signer}
    {proof : SignerProof} :
    signer.refusal crypto payload proof = none ↔
      signer.hostVerifies crypto payload proof = true := by
  rw [refusal]
  constructor
  · intro h
    split_ifs at h with hscheme hverifies
    exact hverifies
  · intro h
    rw [if_pos (sameScheme_of_hostVerifies h), if_pos h]

end Signer
end StellarSmartAccount
