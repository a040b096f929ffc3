import Mathlib.Order.Monotone.Defs
import StellarSmartAccount.Account.Decision
import StellarSmartAccount.Account.Identity

/-! # Monotonicity of authorization in roles

Roles are ordered by what they may authorize: a restricted role lies below every
restricted role with fewer policies, below the standard role and below the admin
role. A higher role authorizes more contexts, so raising roles never withdraws an
acceptance and lowering them never grants one.
-/

namespace StellarSmartAccount
open SmartAccount Soroban

namespace SignerRole

def Below : SignerRole → SignerRole → Prop
  | .restricted policies, .restricted policies' => policies' ⊆ policies
  | .restricted _, _ => True
  | .standard, .restricted _ => False
  | .standard, _ => True
  | .admin, .admin => True
  | .admin, _ => False

instance : Preorder SignerRole where
  le := Below
  le_refl role := by cases role <;> simp [Below]
  le_trans a b c hab hbc := by
    cases a <;> cases b <;> cases c <;> simp_all only [Below]
    exact List.Subset.trans hbc hab

theorem restricted_le_restricted {policies policies' : List SignerPolicy} :
    restricted policies ≤ restricted policies' ↔ policies' ⊆ policies := Iff.rfl

theorem isAuthorized_mono (env : Env) (context : Context) :
    Monotone fun role : SignerRole => role.isAuthorized env context := by
  intro role role' hle
  apply Bool.le_iff_imp.mpr
  intro h
  rw [isAuthorized_iff_permits] at h ⊢
  match role, role', hle with
  | _, .admin, _ => trivial
  | .standard, .standard, _ => exact h
  | .restricted policies, .standard, _ => exact h.1
  | .restricted policies, .restricted policies', hsub =>
    exact ⟨h.1, fun policy hpolicy => h.2 policy (hsub hpolicy)⟩

end SignerRole

namespace SmartAccount
open Foundations

/-- The same keys are stored with the same public keys and roles that are below or
equal. -/
def RolesBelow (s s' : State) : Prop :=
  ∀ key, Option.Rel (fun signer signer' : Signer => signer.publicKey = signer'.publicKey ∧
    signer.role ≤ signer'.role) (signers s key) (signers s' key)

variable {env : Env} {payload : BytesN 32} {contexts : List Context} {s s' : State}

theorem RolesBelow.exists_signer (h : RolesBelow s s') {key : SignerKey} {signer : Signer}
    (hsigner : signers s key = some signer) :
    ∃ signer', signers s' key = some signer' ∧ signer.publicKey = signer'.publicKey ∧
      signer.role ≤ signer'.role := by
  have hkey := h key
  rw [hsigner] at hkey
  generalize signers s' key = stored at hkey
  cases hkey with
  | some hrel => exact ⟨_, rfl, hrel.1, hrel.2⟩

theorem Accepts.mono {proofMap : List (SignerKey × SignerProof)} (h : RolesBelow s s')
    (haccepts : Accepts env payload (signers s) proofMap contexts) :
    Accepts env payload (signers s') proofMap contexts := by
  refine ⟨haccepts.nonempty, fun entry hentry => ?_, fun context hcontext => ?_⟩
  · obtain ⟨signer, hsigner, hverifies⟩ := haccepts.verified entry hentry
    obtain ⟨signer', hsigner', hpublic, -⟩ := h.exists_signer hsigner
    rw [Signer.hostVerifies_congr hpublic] at hverifies
    exact ⟨signer', hsigner', hverifies⟩
  · obtain ⟨entry, hentry, signer, hsigner, hauthorized⟩ := haccepts.authorized context hcontext
    obtain ⟨signer', hsigner', -, hrole⟩ := h.exists_signer hsigner
    have hmono := Bool.le_iff_imp.mp (SignerRole.isAuthorized_mono env context hrole)
    exact ⟨entry, hentry, signer', hsigner', hmono hauthorized⟩

theorem rolesBelow_updated {old new : Signer} (hold : signers s new.key = some old)
    (hpublic : new.publicKey = old.publicKey) (hrole : new.role ≤ old.role) :
    RolesBelow (updated s new) s := by
  intro key
  rw [signers_updated, Table.set_apply]
  split_ifs with hkey
  · rw [hkey, hold]
    exact .some ⟨hpublic, hrole⟩
  · cases signers s key with
    | none => exact .none
    | some signer => exact .some ⟨rfl, le_rfl⟩

/-- Raising roles keeps every Ok of `__check_auth`; lowering the role of a stored signer,
or adding a policy to a restricted one, turns no refusal into an Ok. -/
theorem authorization_monotone (account : Account) (timestamp : UInt64) (payload : BytesN 32)
    (proofs : SignatureProofs) (contexts : List Context) :
    (∀ s s', RolesBelow s s' →
      (checkAuth (account.checkEnv timestamp) payload proofs contexts).exec s =
        .ok (.ok ⟨⟩, s) →
      (checkAuth (account.checkEnv timestamp) payload proofs contexts).exec s' =
        .ok (.ok ⟨⟩, s')) ∧
    (∀ s old new, signers s new.key = some old → new.publicKey = old.publicKey →
      new.role ≤ old.role →
      (checkAuth (account.checkEnv timestamp) payload proofs contexts).exec s ≠
        .ok (.ok ⟨⟩, s) →
      (checkAuth (account.checkEnv timestamp) payload proofs contexts).exec (updated s new) ≠
        .ok (.ok ⟨⟩, updated s new)) ∧
    ∀ policy policies,
      SignerRole.restricted (policy :: policies) ≤ SignerRole.restricted policies := by
  refine ⟨?_, ?_, ?_⟩
  · intro s s' hbelow hok
    exact checkAuth_ok_iff.mpr ((checkAuth_ok_iff.mp hok).mono hbelow)
  · intro s old new hold hpublic hrole hrefused hok
    have haccepts := (checkAuth_ok_iff.mp hok).mono (rolesBelow_updated hold hpublic hrole)
    exact hrefused (checkAuth_ok_iff.mpr haccepts)
  · intro policy policies
    exact SignerRole.restricted_le_restricted.mpr (List.subset_cons_self policy policies)

/-- The sample admin as a standard signer. -/
def Sample.demoted : Signer := .ed25519 ⟨Sample.publicKey⟩ .standard

/-- The sample admin as a signer of a closed window. -/
def Sample.restricted : Signer := .ed25519 ⟨Sample.publicKey⟩ (.restricted [.timeBased ⟨5, 9⟩])

/-- A call of another contract. -/
def Sample.transfer : Context := .contract ⟨.contract (List.Vector.replicate 32 2), "transfer", []⟩

theorem Sample.signers_demoted :
    signers (updated Sample.state Sample.demoted) Sample.demoted.key = some Sample.demoted := by
  rw [signers_updated]
  exact Table.set_self _ _ _

/-- The transfer that the demoted sample admin may make it may make as an admin; the operation
that it may not authorize it may not authorize with a policy either. -/
theorem sample_authorization_monotone :
    (checkAuth (Sample.account.checkEnv 0) Sample.payload Sample.proofs [Sample.transfer]).exec
        Sample.state = .ok (.ok ⟨⟩, Sample.state) ∧
      (checkAuth (Sample.account.checkEnv 0) Sample.payload Sample.proofs
        [(Operation.revokeSigner Sample.admin.key).context Sample.account.address]).exec
          (updated (updated Sample.state Sample.demoted) Sample.restricted) ≠
        .ok (.ok ⟨⟩, updated (updated Sample.state Sample.demoted) Sample.restricted) := by
  constructor
  · have hbelow : RolesBelow (updated Sample.state Sample.demoted) Sample.state :=
      rolesBelow_updated Sample.signers_state rfl trivial
    apply (authorization_monotone Sample.account 0 Sample.payload Sample.proofs _).1 _ _ hbelow
    apply checkAuth_ok_iff.mpr
    rw [Sample.toList_proofs]
    refine ⟨List.cons_ne_nil _ _, fun entry hentry => ?_, fun context hcontext => ?_⟩
    · rw [List.mem_singleton.mp hentry]
      exact ⟨Sample.demoted, Sample.signers_demoted, by decide⟩
    · rw [List.mem_singleton.mp hcontext]
      exact ⟨_, List.mem_singleton_self _, Sample.demoted, Sample.signers_demoted, by decide⟩
  · apply (authorization_monotone Sample.account 0 Sample.payload Sample.proofs _).2.1 _
      Sample.demoted Sample.restricted Sample.signers_demoted rfl trivial
    intro hok
    obtain ⟨entry, hentry, signer, hsigner, hauthorized⟩ :=
      (checkAuth_ok_iff.mp hok).authorized _ (List.mem_singleton_self _)
    rw [Sample.toList_proofs] at hentry
    rw [List.mem_singleton.mp hentry] at hsigner
    cases hsigner.symm.trans Sample.signers_demoted
    revert hauthorized
    decide

end SmartAccount
end StellarSmartAccount
