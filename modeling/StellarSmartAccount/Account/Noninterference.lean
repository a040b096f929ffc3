import StellarSmartAccount.Account.Decision
import StellarSmartAccount.Account.Identity

/-! # Noninterference for administrative operations

Who may change signers or upgrade depends only on the public keys and the admin roles
stored under the keys of the proof map. Two states that agree on these answer calls on
the account alike, whatever their clocks, their policies and the rest of their storage.
-/

namespace StellarSmartAccount.SmartAccount
open Foundations Soroban

/-- The signers have the same scheme and public key, and both are admins or neither is. -/
structure SameAdmin (signer signer' : Signer) : Prop where
  publicKey : signer.publicKey = signer'.publicKey
  admin : signer.role = .admin ↔ signer'.role = .admin

/-- The entries that the proof map names are absent in both states, undecodable in both,
or the same to an administrative operation. -/
def AgreeOn (proofMap : List (SignerKey × SignerProof)) (s s' : State) : Prop :=
  ∀ entry ∈ proofMap, Option.Rel (Option.Rel SameAdmin) (entries s entry.1) (entries s' entry.1)

/-- Policies and the clock have no say in a call on the account. -/
theorem isAuthorized_of_callsAccount {env : Env} {context : Context}
    (h : CallsAccount env.currentContractAddress context) (role : SignerRole) :
    role.isAuthorized env context = true ↔ role = .admin := by
  rw [isAuthorized_iff_permits]
  cases role with
  | admin => simp [Permits]
  | standard => simp [Permits, h]
  | restricted policies => simp [Permits, h]

section Agreement
variable {env env' : Env} {payload : BytesN 32} {s s' : State}
  {proofMap : List (SignerKey × SignerProof)} {contexts : List Context}

theorem AgreeOn.stored (hagree : AgreeOn proofMap s s') {entry : SignerKey × SignerProof}
    (hentry : entry ∈ proofMap) :
    (entries s entry.1 = none ∧ entries s' entry.1 = none) ∨
      (entries s entry.1 = some none ∧ entries s' entry.1 = some none) ∨
      ∃ signer signer', entries s entry.1 = some (some signer) ∧
        entries s' entry.1 = some (some signer') ∧ SameAdmin signer signer' := by
  have hrel := hagree entry hentry
  generalize entries s entry.1 = stored at hrel
  generalize entries s' entry.1 = stored' at hrel
  cases hrel with
  | none => exact .inl ⟨rfl, rfl⟩
  | some hrel =>
    cases hrel with
    | none => exact .inr (.inl ⟨rfl, rfl⟩)
    | some hsame => exact .inr (.inr ⟨_, _, rfl, rfl, hsame⟩)

theorem keyRefusal_congr (hagree : AgreeOn proofMap s s') {entry : SignerKey × SignerProof}
    (hentry : entry ∈ proofMap) :
    keyRefusal (entries s) entry = keyRefusal (entries s') entry := by
  rw [keyRefusal, keyRefusal]
  rcases hagree.stored hentry with ⟨h, h'⟩ | ⟨h, h'⟩ | ⟨signer, signer', h, h', -⟩
  · rw [h, h']
  · rw [h, h']
  · rw [h, h']
    rfl

theorem proofRefusal_congr (hcrypto : env.crypto = env'.crypto) (hagree : AgreeOn proofMap s s')
    {entry : SignerKey × SignerProof} (hentry : entry ∈ proofMap) :
    proofRefusal env payload (entries s) entry =
      proofRefusal env' payload (entries s') entry := by
  rw [proofRefusal, proofRefusal]
  rcases hagree.stored hentry with ⟨h, h'⟩ | ⟨h, h'⟩ | ⟨signer, signer', h, h', hsame⟩
  · rw [h, h']
  · rw [h, h']
  · rw [h, h', hcrypto]
    exact Signer.refusal_congr hsame.publicKey env'.crypto payload entry.2

theorem entry_isAuthorized_congr (hagree : AgreeOn proofMap s s') {context : Context}
    (hself : CallsAccount env.currentContractAddress context)
    (hself' : CallsAccount env'.currentContractAddress context) {entry : SignerKey × SignerProof}
    (hentry : entry ∈ proofMap) :
    (entries s entry.1).join.any (·.role.isAuthorized env context) =
      (entries s' entry.1).join.any (·.role.isAuthorized env' context) := by
  rcases hagree.stored hentry with ⟨h, h'⟩ | ⟨h, h'⟩ | ⟨signer, signer', h, h', hsame⟩
  · rw [h, h']
    rfl
  · rw [h, h']
    rfl
  · rw [h, h', Bool.eq_iff_iff]
    calc signer.role.isAuthorized env context = true
        ↔ signer.role = .admin := isAuthorized_of_callsAccount hself signer.role
      _ ↔ signer'.role = .admin := hsame.admin
      _ ↔ signer'.role.isAuthorized env' context = true :=
        (isAuthorized_of_callsAccount hself' signer'.role).symm

theorem authorizedBy_congr (hagree : AgreeOn proofMap s s') {context : Context}
    (hself : CallsAccount env.currentContractAddress context)
    (hself' : CallsAccount env'.currentContractAddress context) :
    authorizedBy env (entries s) proofMap context =
      authorizedBy env' (entries s') proofMap context := by
  rw [authorizedBy, authorizedBy, Bool.eq_iff_iff, List.any_eq_true, List.any_eq_true]
  refine exists_congr fun entry => and_congr_right fun hentry => ?_
  rw [entry_isAuthorized_congr hagree hself hself' hentry]

theorem refusal_congr (hcrypto : env.crypto = env'.crypto)
    (haddress : env.currentContractAddress = env'.currentContractAddress)
    (hagree : AgreeOn proofMap s s')
    (hself : ∀ context ∈ contexts, CallsAccount env.currentContractAddress context) :
    refusal env payload (entries s) proofMap contexts =
      refusal env' payload (entries s') proofMap contexts := by
  refine refusal_eq_of_passes (fun _ hentry => keyRefusal_congr hagree hentry)
    (fun _ hentry => proofRefusal_congr hcrypto hagree hentry) fun context hcontext => ?_
  have hcalls := hself context hcontext
  rw [contextRefusal, contextRefusal, authorizedBy_congr hagree hcalls (haddress ▸ hcalls)]

end Agreement

/-- On calls on the account `__check_auth` has the same outcome in any two states that
agree on the entries of the proof map, at any two ledger times. -/
theorem checkAuth_noninterference (account : Account) (timestamp timestamp' : UInt64)
    (payload : BytesN 32) (proofs : SignatureProofs) (contexts : List Context) (s s' : State)
    (hagree : AgreeOn proofs.proofs.toList s s')
    (hself : ∀ context ∈ contexts, CallsAccount account.address context) :
    ((checkAuth (account.checkEnv timestamp) payload proofs contexts).exec s).map Prod.fst =
      ((checkAuth (account.checkEnv timestamp') payload proofs contexts).exec s').map
        Prod.fst := by
  have hrefusal : refusal (account.checkEnv timestamp) payload (entries s)
      proofs.proofs.toList contexts =
        refusal (account.checkEnv timestamp') payload (entries s') proofs.proofs.toList contexts :=
    refusal_congr rfl rfl hagree hself
  rw [checkAuth_exec, checkAuth_exec, Call.map_fst_outcome, Call.map_fst_outcome, hrefusal]

/-- Storing a passkey and waiting do not change whether the sample admin may revoke it. -/
theorem sample_checkAuth_noninterference :
    ((checkAuth (Sample.account.checkEnv 0) Sample.payload Sample.proofs
        [(Operation.revokeSigner Sample.passkeyAdmin.key).context Sample.account.address]).exec
          Sample.state).map Prod.fst =
      ((checkAuth (Sample.account.checkEnv 7) Sample.payload Sample.proofs
        [(Operation.revokeSigner Sample.passkeyAdmin.key).context Sample.account.address]).exec
          (added Sample.state Sample.passkeyAdmin)).map Prod.fst := by
  have hadmin : signers (added Sample.state Sample.passkeyAdmin) Sample.admin.key =
      some Sample.admin := by
    rw [signers_added, Table.set_of_ne _ (by decide), Sample.signers_state]
  apply checkAuth_noninterference
  · intro entry hentry
    rw [Sample.toList_proofs] at hentry
    rw [List.mem_singleton.mp hentry, signers_eq_some_iff.mp Sample.signers_state,
      signers_eq_some_iff.mp hadmin]
    exact .some (.some ⟨rfl, Iff.rfl⟩)
  · intro context hcontext
    rw [List.mem_singleton.mp hcontext]
    exact ⟨_, rfl, rfl⟩

end StellarSmartAccount.SmartAccount
