import StellarSmartAccount.Account.Decision

/-! # The instance storage of a reachable account

All entries of all types share one untyped map. In every reachable state each
signer key holds a signer with that key and nothing else is stored but the two
flags, so no read of the contract fails.
-/

namespace StellarSmartAccount.SmartAccount
open Foundations Soroban

section Unwrap
variable {env : Env} {payload : BytesN 32} {proofs : SignatureProofs} {contexts : List Context}
  {s : State}

/-- On a represented state only a signature that the host refuses aborts
`__check_auth`. -/
theorem eq_crypto_of_checkAuth_abort (h : Represented s) {r : Abort}
    (habort : (checkAuth env payload proofs contexts).exec s = .error r) : r = .crypto := by
  rw [checkAuth_exec, Call.outcome_eq_error_iff] at habort
  have hresponse : Call.response ⟨⟩ (refusal env payload (entries s) proofs.proofs.toList
      contexts) = (.error r : Response) := by
    rw [habort]
    rfl
  have hverdict := (verdict_iff h).mpr hresponse
  cases hverdict
  rfl

end Unwrap

section Run
variable {account : Account} {d : Deployment} {s : State}

/-- In every reachable state the storage is well typed, `__check_auth` fails at
neither unwrap nor at a conversion, and the typed read of `revoke_signer` always
returns. -/
theorem storage_wellTyped (h : account.deploy d = .ok (⟨⟩, s)) (is : List Invocation) :
    (∀ k v, (account.machine.final s is).instanceMap.lookup k = some v →
      (∃ key signer, k = intoVal (key : SignerKey) ∧ tryFromVal v = some (signer : Signer) ∧
        signer.key = key) ∨
      ((k = intoVal Initializable.initialized ∨ k = intoVal Upgradeable.migrating) ∧
        ∃ b : Bool, v = intoVal b)) ∧
    (∀ env payload proofs contexts,
      (checkAuth env payload proofs contexts).exec (account.machine.final s is) ≠
          .error .unwrapNone ∧
        (checkAuth env payload proofs contexts).exec (account.machine.final s is) ≠
          .error .conversion) ∧
    (∀ key : SignerKey, ∃ signer : Option Signer,
      ((default : Storage).get key).exec (account.machine.final s is) =
        .ok (signer, account.machine.final s is)) ∧
    ∀ env key, (revokeSigner env key).exec (account.machine.final s is) ≠ .error .conversion := by
  have hrep := ((live_of_deploy h).final account is).represented
  generalize account.machine.final s is = t at hrep
  refine ⟨?_, ?_, ?_, ?_⟩
  · intro k v hv
    rcases hrep.entry k v hv with ⟨signer, rfl, rfl⟩ | hflag
    · exact .inl ⟨signer.key, signer, rfl, LawfulVal.tryFromVal_intoVal signer, rfl⟩
    · exact .inr hflag
  · intro env payload proofs contexts
    constructor
    · intro habort
      cases eq_crypto_of_checkAuth_abort hrep habort
    · intro habort
      cases eq_crypto_of_checkAuth_abort hrep habort
  · intro key
    exact ⟨signers t key, get_exec_signers hrep key⟩
  · intro env key
    rw [revokeSigner_exec hrep]
    split_ifs
    · cases signers t key with
      | none => simp
      | some signer =>
        by_cases hrole : signer.role = .admin <;> simp [hrole]
    · simp

/-- After a refused and a successful addition the sample account reads its signers safely. -/
theorem sample_storage_wellTyped :
    (revokeSigner (Sample.account.checkEnv 0) Sample.passkeyAdmin.key).exec
        (Sample.account.machine.final Sample.state
          [Sample.invoke (.addSigner Sample.admin), Sample.addPasskey .standard]) ≠
        .error .conversion ∧
      (checkAuth (Sample.account.checkEnv 0) Sample.payload Sample.passkeyProofs []).exec
        (Sample.account.machine.final Sample.state
          [Sample.invoke (.addSigner Sample.admin), Sample.addPasskey .standard]) ≠
        .error .unwrapNone := by
  obtain ⟨-, hcheck, -, hrevoke⟩ := storage_wellTyped Sample.deploy_deployment
    [Sample.invoke (.addSigner Sample.admin), Sample.addPasskey .standard]
  exact ⟨hrevoke _ _, (hcheck _ _ _ _).1⟩

end Run
end StellarSmartAccount.SmartAccount
