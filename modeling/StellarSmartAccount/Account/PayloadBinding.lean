import StellarSmartAccount.Account.Construction

/-! # Binding of a proof map to the signed payload

An Ed25519 proof is checked against the payload and binds the whole proof map to
it. A passkey proof is checked against its own client data only. A proof map is
therefore accepted for two payloads exactly when all its proofs are passkey
proofs that the host verifies.
-/

namespace StellarSmartAccount.SmartAccount
open Foundations Soroban

/-- The proof map is accepted for at most one payload, whatever it authorizes and
whenever it is used. -/
def PayloadBound (account : Account) (s : State) (proofs : SignatureProofs) : Prop :=
  ∀ (timestamp timestamp' : UInt64) (payload payload' : BytesN 32)
    (contexts contexts' : List Context), payload ≠ payload' →
    account.accepts timestamp ⟨payload, proofs, contexts⟩ s = true →
      ¬ account.accepts timestamp' ⟨payload', proofs, contexts'⟩ s = true

/-- Every proof of the map is a passkey proof that the host verifies under the
public key of the Secp256r1 signer stored under its key. -/
def PasskeyOnly (account : Account) (s : State) (proofs : SignatureProofs) : Prop :=
  ∀ entry ∈ proofs.proofs.toList, ∃ signer role signature,
    signers s entry.1 = some (.secp256r1 signer role) ∧ entry.2 = .secp256r1 signature ∧
      account.crypto.secp256r1Verify signer.publicKey (signature.digest account.crypto)
        signature.signature = true

section
variable {account : Account} {s : State} {proofs : SignatureProofs}

theorem accepts_of_passkeyOnly (hne : proofs.proofs.toList ≠ [])
    (hpasskey : PasskeyOnly account s proofs) (timestamp : UInt64) (payload : BytesN 32) :
    account.accepts timestamp ⟨payload, proofs, []⟩ s = true := by
  apply accepts_iff.mpr
  refine ⟨hne, fun entry hentry => ?_, nofun⟩
  obtain ⟨signer, role, signature, hsigner, hproof, hverifies⟩ := hpasskey entry hentry
  refine ⟨_, hsigner, ?_⟩
  rw [hproof]
  exact hverifies

theorem not_payloadBound_of_passkeyOnly (hne : proofs.proofs.toList ≠ [])
    (hpasskey : PasskeyOnly account s proofs) : ¬ PayloadBound account s proofs := by
  intro hbound
  have hdistinct : List.Vector.replicate 32 (0 : UInt8) ≠ List.Vector.replicate 32 1 := by decide
  have haccepts := accepts_of_passkeyOnly hne hpasskey 0
  exact hbound 0 0 _ _ [] [] hdistinct (haccepts _) (haccepts _)

/-- A proof that verifies for two payloads is a passkey proof. -/
theorem passkey_of_hostVerifies
    (hed : ∀ publicKey signature m m', account.crypto.ed25519Verify publicKey m signature = true →
      account.crypto.ed25519Verify publicKey m' signature = true → m = m')
    {signer : Signer} {proof : SignerProof} {payload payload' : BytesN 32}
    (hne : payload ≠ payload')
    (h : signer.hostVerifies account.crypto payload proof = true)
    (h' : signer.hostVerifies account.crypto payload' proof = true) :
    ∃ passkey role signature, signer = .secp256r1 passkey role ∧ proof = .secp256r1 signature ∧
      account.crypto.secp256r1Verify passkey.publicKey (signature.digest account.crypto)
        signature.signature = true := by
  cases signer with
  | ed25519 signer role =>
    cases proof with
    | ed25519 signature =>
      have hlist : payload.toList = payload'.toList := hed _ _ _ _ h h'
      exact absurd (Subtype.ext hlist) hne
    | secp256r1 signature => cases h
  | secp256r1 passkey role =>
    cases proof with
    | ed25519 signature => cases h
    | secp256r1 signature => exact ⟨passkey, role, signature, rfl, rfl, h⟩

/-- In every state a non-empty proof map is bound to one payload exactly when it
contains more than verified passkey proofs. -/
theorem payloadBound_iff
    (hed : ∀ publicKey signature m m', account.crypto.ed25519Verify publicKey m signature = true →
      account.crypto.ed25519Verify publicKey m' signature = true → m = m')
    (hne : proofs.proofs.toList ≠ []) :
    PayloadBound account s proofs ↔ ¬ PasskeyOnly account s proofs := by
  constructor
  · intro hbound hpasskey
    exact not_payloadBound_of_passkeyOnly hne hpasskey hbound
  · intro hpasskey timestamp timestamp' payload payload' contexts contexts' hdistinct haccepts
      haccepts'
    apply hpasskey
    intro entry hentry
    obtain ⟨signer, hsigner, hverifies⟩ := (accepts_iff.mp haccepts).verified entry hentry
    obtain ⟨signer', hsigner', hverifies'⟩ := (accepts_iff.mp haccepts').verified entry hentry
    obtain rfl : signer' = signer := Option.some.inj (hsigner'.symm.trans hsigner)
    obtain ⟨passkey, role, signature, rfl, hproof, hpass⟩ :=
      passkey_of_hostVerifies hed hdistinct hverifies hverifies'
    exact ⟨passkey, role, signature, hsigner, hproof, hpass⟩

theorem sample_ed25519Verify_unique (publicKey : BytesN 32) (signature : BytesN 64) (m m' : Bytes)
    (h : Sample.crypto.ed25519Verify publicKey m signature = true)
    (h' : Sample.crypto.ed25519Verify publicKey m' signature = true) : m = m' := by
  simp only [Sample.crypto, Bool.and_eq_true, decide_eq_true_eq] at h h'
  rw [h.1.2, h'.1.2]

theorem sample_secp256r1Verify_unique (publicKey : BytesN 65) (signature : BytesN 64)
    (m m' : BytesN 32) (h : Sample.crypto.secp256r1Verify publicKey m signature = true)
    (h' : Sample.crypto.secp256r1Verify publicKey m' signature = true) : m = m' := by
  simp only [Sample.crypto, Bool.and_eq_true, decide_eq_true_eq] at h h'
  rw [h.1.2, h'.1.2]

/-- The Ed25519 proof of the sample admin is bound to its payload. -/
theorem sample_payloadBound : PayloadBound Sample.account Sample.state Sample.proofs := by
  apply (payloadBound_iff sample_ed25519Verify_unique (by decide)).mpr
  intro hpasskey
  obtain ⟨signer, role, signature, -, hproof, -⟩ :=
    hpasskey (Sample.admin.key, .ed25519 Sample.signature) (List.mem_singleton_self _)
  cases hproof

/-- A genuine passkey proof is accepted for every payload, on a host that verifies
one message for each key and signature and hashes without collision. -/
theorem passkey_proof_not_payloadBound :
    (∀ publicKey signature m m', Sample.crypto.ed25519Verify publicKey m signature = true →
      Sample.crypto.ed25519Verify publicKey m' signature = true → m = m') ∧
    (∀ publicKey signature m m', Sample.crypto.secp256r1Verify publicKey m signature = true →
      Sample.crypto.secp256r1Verify publicKey m' signature = true → m = m') ∧
    (∀ b ∈ [Sample.clientDataJson, Sample.authenticatorData ++ Sample.clientDataHash.toList],
      ∀ b' ∈ [Sample.clientDataJson, Sample.authenticatorData ++ Sample.clientDataHash.toList],
        Sample.crypto.sha256 b = Sample.crypto.sha256 b' → b = b') ∧
    Sample.account.deploy Sample.passkeyDeployment = .ok (⟨⟩, Sample.passkeyState) ∧
    Sample.passkeyProofs.proofs.toList ≠ [] ∧
    ¬ PayloadBound Sample.account Sample.passkeyState Sample.passkeyProofs := by
  have hne : Sample.passkeyProofs.proofs.toList ≠ [] := by decide
  have hpasskey : PasskeyOnly Sample.account Sample.passkeyState Sample.passkeyProofs := by
    intro entry hentry
    rw [Sample.toList_passkeyProofs, List.mem_singleton] at hentry
    rw [hentry]
    exact ⟨_, _, _, Sample.signers_passkeyState, rfl, by decide⟩
  refine ⟨sample_ed25519Verify_unique, sample_secp256r1Verify_unique, by decide,
    Sample.deploy_passkeyDeployment, hne, not_payloadBound_of_passkeyOnly hne hpasskey⟩

end
end StellarSmartAccount.SmartAccount
