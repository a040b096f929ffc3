import StellarSmartAccount.Account.Auth.Signer

/-! # Encoding of signers and policies

The contract-type codec of everything the account stores or publishes, with the
round trip of each type. An encoded signer key is a vector, so it never collides
with a symbol key of the same storage.
-/

namespace StellarSmartAccount
open Soroban

instance : IntoVal TimeBasedPolicy where
  intoVal p := .map [(.symbol "not_after", intoVal p.notAfter),
    (.symbol "not_before", intoVal p.notBefore)]

instance : TryFromVal TimeBasedPolicy where
  tryFromVal
    | .map [(.symbol "not_after", a), (.symbol "not_before", b)] => do
      return ⟨← tryFromVal b, ← tryFromVal a⟩
    | _ => none

instance : LawfulVal TimeBasedPolicy := ⟨fun _ => rfl⟩

instance : IntoVal ContractDenyListPolicy where
  intoVal p := .map [(.symbol "denied_contracts", intoVal p.deniedContracts)]

instance : TryFromVal ContractDenyListPolicy where
  tryFromVal
    | .map [(.symbol "denied_contracts", v)] => (tryFromVal v).map .mk
    | _ => none

instance : LawfulVal ContractDenyListPolicy where
  tryFromVal_intoVal p := by
    change (tryFromVal (intoVal p.deniedContracts)).map ContractDenyListPolicy.mk = some p
    simp

instance : IntoVal ContractAllowListPolicy where
  intoVal p := .map [(.symbol "allowed_contracts", intoVal p.allowedContracts)]

instance : TryFromVal ContractAllowListPolicy where
  tryFromVal
    | .map [(.symbol "allowed_contracts", v)] => (tryFromVal v).map .mk
    | _ => none

instance : LawfulVal ContractAllowListPolicy where
  tryFromVal_intoVal p := by
    change (tryFromVal (intoVal p.allowedContracts)).map ContractAllowListPolicy.mk = some p
    simp

instance : IntoVal SignerPolicy where
  intoVal
    | .timeBased p => .variant "TimeBased" [intoVal p]
    | .contractDenyList p => .variant "ContractDenyList" [intoVal p]
    | .contractAllowList p => .variant "ContractAllowList" [intoVal p]

instance : TryFromVal SignerPolicy where
  tryFromVal
    | .variant "TimeBased" [v] => (tryFromVal v).map .timeBased
    | .variant "ContractDenyList" [v] => (tryFromVal v).map .contractDenyList
    | .variant "ContractAllowList" [v] => (tryFromVal v).map .contractAllowList
    | _ => none

instance : LawfulVal SignerPolicy where
  tryFromVal_intoVal
    | .timeBased _ => rfl
    | .contractDenyList p =>
      congrArg (Option.map SignerPolicy.contractDenyList) (LawfulVal.tryFromVal_intoVal p)
    | .contractAllowList p =>
      congrArg (Option.map SignerPolicy.contractAllowList) (LawfulVal.tryFromVal_intoVal p)

instance : IntoVal SignerRole where
  intoVal
    | .admin => .variant "Admin" []
    | .standard => .variant "Standard" []
    | .restricted policies => .variant "Restricted" [intoVal policies]

instance : TryFromVal SignerRole where
  tryFromVal
    | .variant "Admin" [] => some .admin
    | .variant "Standard" [] => some .standard
    | .variant "Restricted" [v] => (tryFromVal v).map .restricted
    | _ => none

instance : LawfulVal SignerRole where
  tryFromVal_intoVal
    | .admin => rfl
    | .standard => rfl
    | .restricted policies =>
      congrArg (Option.map SignerRole.restricted) (LawfulVal.tryFromVal_intoVal policies)

instance : IntoVal SignerKey where
  intoVal
    | .ed25519 publicKey => .variant "Ed25519" [intoVal publicKey]
    | .secp256r1 keyId => .variant "Secp256r1" [intoVal keyId]

instance : TryFromVal SignerKey where
  tryFromVal
    | .variant "Ed25519" [v] => (tryFromVal v).map .ed25519
    | .variant "Secp256r1" [v] => (tryFromVal v).map .secp256r1
    | _ => none

instance : LawfulVal SignerKey where
  tryFromVal_intoVal
    | .ed25519 publicKey =>
      congrArg (Option.map SignerKey.ed25519) (LawfulVal.tryFromVal_intoVal publicKey)
    | .secp256r1 _ => rfl

instance : IntoVal Ed25519Signer where
  intoVal signer := .map [(.symbol "public_key", intoVal signer.publicKey)]

instance : TryFromVal Ed25519Signer where
  tryFromVal
    | .map [(.symbol "public_key", v)] => (tryFromVal v).map .mk
    | _ => none

instance : LawfulVal Ed25519Signer where
  tryFromVal_intoVal signer :=
    congrArg (Option.map Ed25519Signer.mk) (LawfulVal.tryFromVal_intoVal signer.publicKey)

instance : IntoVal Secp256r1Signer where
  intoVal signer := .map [(.symbol "key_id", intoVal signer.keyId),
    (.symbol "public_key", intoVal signer.publicKey)]

instance : TryFromVal Secp256r1Signer where
  tryFromVal
    | .map [(.symbol "key_id", i), (.symbol "public_key", p)] => do
      return ⟨← tryFromVal i, ← tryFromVal p⟩
    | _ => none

instance : LawfulVal Secp256r1Signer where
  tryFromVal_intoVal signer := by
    change (do return ⟨← tryFromVal (intoVal signer.keyId),
      ← tryFromVal (intoVal signer.publicKey)⟩ : Option Secp256r1Signer) = some signer
    simp

instance : IntoVal Signer where
  intoVal
    | .ed25519 signer role => .variant "Ed25519" [intoVal signer, intoVal role]
    | .secp256r1 signer role => .variant "Secp256r1" [intoVal signer, intoVal role]

instance : TryFromVal Signer where
  tryFromVal
    | .variant "Ed25519" [s, r] => do return .ed25519 (← tryFromVal s) (← tryFromVal r)
    | .variant "Secp256r1" [s, r] => do return .secp256r1 (← tryFromVal s) (← tryFromVal r)
    | _ => none

instance : LawfulVal Signer where
  tryFromVal_intoVal signer := by
    cases signer with
    | ed25519 signer role =>
      change (do return .ed25519 (← tryFromVal (intoVal signer)) (← tryFromVal (intoVal role)) :
        Option Signer) = _
      simp
    | secp256r1 signer role =>
      change (do return .secp256r1 (← tryFromVal (intoVal signer)) (← tryFromVal (intoVal role)) :
        Option Signer) = _
      simp

theorem intoVal_signerKey_ne_symbol (key : SignerKey) (s : Symbol) :
    intoVal key ≠ intoVal s := by
  cases key <;> exact Val.noConfusion

end StellarSmartAccount
