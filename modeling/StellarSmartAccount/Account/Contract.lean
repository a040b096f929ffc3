import StellarSmartAccount.Account.Auth.Codec
import StellarSmartAccount.Upgradeable

/-! # The smart account contract

The constructor, the three signer operations, the upgrade and the authorization
entry point of the account, over one instance storage shared by the signer table,
the `init` flag and the `MIGRATING` flag.
-/

namespace StellarSmartAccount
open Foundations Soroban

structure SignerAddedEvent where
  signerKey : SignerKey
  signer : Signer
  deriving DecidableEq

structure SignerUpdatedEvent where
  signerKey : SignerKey
  newSigner : Signer
  deriving DecidableEq

structure SignerRevokedEvent where
  signerKey : SignerKey
  revokedSigner : Signer
  deriving DecidableEq

instance : IntoVal SignerAddedEvent where
  intoVal e := .map [(.symbol "signer", intoVal e.signer),
    (.symbol "signer_key", intoVal e.signerKey)]

instance : TryFromVal SignerAddedEvent where
  tryFromVal
    | .map [(.symbol "signer", s), (.symbol "signer_key", k)] => do
      return ⟨← tryFromVal k, ← tryFromVal s⟩
    | _ => none

instance : LawfulVal SignerAddedEvent where
  tryFromVal_intoVal e := by
    change (do return ⟨← tryFromVal (intoVal e.signerKey), ← tryFromVal (intoVal e.signer)⟩ :
      Option SignerAddedEvent) = some e
    simp

instance : IntoVal SignerUpdatedEvent where
  intoVal e := .map [(.symbol "new_signer", intoVal e.newSigner),
    (.symbol "signer_key", intoVal e.signerKey)]

instance : TryFromVal SignerUpdatedEvent where
  tryFromVal
    | .map [(.symbol "new_signer", s), (.symbol "signer_key", k)] => do
      return ⟨← tryFromVal k, ← tryFromVal s⟩
    | _ => none

instance : LawfulVal SignerUpdatedEvent where
  tryFromVal_intoVal e := by
    change (do return ⟨← tryFromVal (intoVal e.signerKey), ← tryFromVal (intoVal e.newSigner)⟩ :
      Option SignerUpdatedEvent) = some e
    simp

instance : IntoVal SignerRevokedEvent where
  intoVal e := .map [(.symbol "revoked_signer", intoVal e.revokedSigner),
    (.symbol "signer_key", intoVal e.signerKey)]

instance : TryFromVal SignerRevokedEvent where
  tryFromVal
    | .map [(.symbol "revoked_signer", s), (.symbol "signer_key", k)] => do
      return ⟨← tryFromVal k, ← tryFromVal s⟩
    | _ => none

instance : LawfulVal SignerRevokedEvent where
  tryFromVal_intoVal e := by
    change (do return ⟨← tryFromVal (intoVal e.signerKey), ← tryFromVal (intoVal e.revokedSigner)⟩ :
      Option SignerRevokedEvent) = some e
    simp

namespace SmartAccount

/-- `_require_auth_upgrade`. -/
def requireAuthUpgrade (env : Env) : Host Unit :=
  requireAuth env env.currentContractAddress

def requireAuthIfInitialized (env : Env) : Host Unit := do
  if ← Initializable.isInitialized then
    requireAuth env env.currentContractAddress

def addSigner (env : Env) (signer : Signer) : Fallible Error Unit := do
  requireAuthIfInitialized env
  let key := signer.key
  ExceptT.adapt Error.ofStorage ((default : Storage).store key signer)
  publish ["signer", "added"] (⟨key, signer⟩ : SignerAddedEvent)

def updateSigner (env : Env) (signer : Signer) : Fallible Error Unit := do
  requireAuthIfInitialized env
  let key := signer.key
  ExceptT.adapt Error.ofStorage ((default : Storage).update key signer)
  publish ["signer", "updated"] (⟨key, signer⟩ : SignerUpdatedEvent)

def revokeSigner (env : Env) (signerKey : SignerKey) : Fallible Error Unit := do
  requireAuthIfInitialized env
  let storage : Storage := default
  match ← storage.get (ν := Signer) signerKey with
  | none => throw .signerNotFound
  | some signerToRevoke =>
    if signerToRevoke.role = .admin then
      throw .cannotRevokeAdminSigner
    ExceptT.adapt Error.ofStorage (storage.delete signerKey)
    publish ["signer", "revoked"] (⟨signerKey, signerToRevoke⟩ : SignerRevokedEvent)

def upgrade (env : Env) (newWasmHash : BytesN 32) : Host Unit :=
  Upgradeable.upgrade (requireAuthUpgrade env) env newWasmHash

/-- The duplicate scan over the keys of the list, with the keys seen so far. -/
def checkDistinctKeys (signers : List Signer) : Host (List SignerKey) :=
  signers.foldlM (fun seenSignerKeys signer => do
    if seenSignerKeys.contains signer.key then
      panicWithError Error.signerAlreadyExists.code
    return seenSignerKeys ++ [signer.key]) []

/-- Only the policies of a restricted signer are validated. -/
def checkPolicies (env : Env) : SignerRole → Host Unit
  | .restricted policies =>
    policies.forM fun policy => unwrapOrPanic Error.code (policy.check env)
  | _ => pure ()

/-- `__constructor`. -/
def constructor (env : Env) (signers : List Signer) : Host Unit := do
  Initializable.onlyNotInitialized Error.alreadyInitialized.code
  if !signers.any (·.role = .admin) then
    panicWithError Error.insufficientPermissionsOnCreation.code
  let _ ← checkDistinctKeys signers
  signers.forM fun signer => do
    checkPolicies env signer.role
    unwrapOrPanic Error.code (← (addSigner env signer).run)
  unwrapOrPanic InitializableError.code (← Initializable.initializeContract.run)

abbrev VerifiedSigners := Std.ExtTreeMap SignerKey Signer compare

/-- First pass: every key of the proof map is stored. -/
def requireStored (storage : Storage) (proofMap : List (SignerKey × SignerProof)) :
    Fallible Error Unit :=
  proofMap.forM fun (signerKey, _) => do
    if !(← storage.has signerKey) then
      throw .signerNotFound

/-- Second pass: every proof verifies; the signers are cached. -/
def verifyProofs (storage : Storage) (env : Env) (signaturePayload : BytesN 32)
    (proofMap : List (SignerKey × SignerProof)) : Fallible Error VerifiedSigners :=
  proofMap.foldlM (fun verifiedSigners (signerKey, proof) => do
    let signer ← (do unwrap (← storage.get signerKey) : Host Signer)
    signer.verify env signaturePayload proof
    return verifiedSigners.insert signerKey signer) ∅

/-- The inner loop of the third pass, which stops at the first authorizing signer. -/
def contextAuthorized (env : Env) (verifiedSigners : VerifiedSigners) (context : Context)
    (proofMap : List (SignerKey × SignerProof)) : Host Bool :=
  proofMap.anyM fun (signerKey, _) => do
    let signer ← unwrap verifiedSigners[signerKey]?
    return signer.role.isAuthorized env context

/-- Third pass: every context is authorized by one of the cached signers. -/
def authorizeContexts (env : Env) (verifiedSigners : VerifiedSigners)
    (proofMap : List (SignerKey × SignerProof)) (authContexts : List Context) :
    Fallible Error Unit :=
  authContexts.forM fun context => do
    if !(← contextAuthorized env verifiedSigners context proofMap) then
      throw .insufficientPermissions

/-- `__check_auth`. -/
def checkAuth (env : Env) (signaturePayload : BytesN 32) (authPayloads : SignatureProofs)
    (authContexts : List Context) : Fallible Error Unit := do
  let storage : Storage := default
  let proofMap := authPayloads.proofs
  if proofMap.isEmpty then
    throw .noProofsInAuthEntry
  requireStored storage proofMap.toList
  let verifiedSigners ← verifyProofs storage env signaturePayload proofMap.toList
  authorizeContexts env verifiedSigners proofMap.toList authContexts

end SmartAccount
end StellarSmartAccount
