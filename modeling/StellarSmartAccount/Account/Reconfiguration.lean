import StellarSmartAccount.Account.Privilege
import StellarSmartAccount.Account.SignerRegistry
import StellarSmartAccount.Foundations.Governance

/-! # Which signer tables an account can be brought to

The signer table is a governed registry: an admin whose signature verifies approves requests.
From any reachable state exactly those finite changes can be reached that leave a key under
which a signature can verify. Without an admin that can sign, the account never changes again.
-/

namespace StellarSmartAccount.SmartAccount
open Foundations Soroban

/-- The same signer with another role. -/
def withRole (role : SignerRole) : Signer → Signer
  | .ed25519 signer _ => .ed25519 signer role
  | .secp256r1 signer _ => .secp256r1 signer role

@[simp] theorem key_withRole (role : SignerRole) (signer : Signer) :
    (withRole role signer).key = signer.key := by
  cases signer <;> rfl

@[simp] theorem role_withRole (role : SignerRole) (signer : Signer) :
    (withRole role signer).role = role := by
  cases signer <;> rfl

/-- Some proof of the signer verifies. -/
def Account.CanSign (account : Account) (signer : Signer) : Prop :=
  ∃ payload proof, signer.hostVerifies account.crypto payload proof = true

@[simp] theorem hostVerifies_withRole (crypto : Crypto) (payload : BytesN 32) (role : SignerRole)
    (signer : Signer) (proof : SignerProof) :
    (withRole role signer).hostVerifies crypto payload proof =
      signer.hostVerifies crypto payload proof := by
  cases signer <;> cases proof <;> rfl

theorem canSign_withRole {account : Account} {signer : Signer} (role : SignerRole) :
    account.CanSign (withRole role signer) ↔ account.CanSign signer := by
  simp only [Account.CanSign, hostVerifies_withRole]

theorem exists_signer_of_key (key : SignerKey) (role : SignerRole) :
    ∃ signer : Signer, signer.key = key ∧ signer.role = role := by
  cases key with
  | ed25519 publicKey => exact ⟨.ed25519 ⟨publicKey⟩ role, rfl, rfl⟩
  | secp256r1 keyId => exact ⟨.secp256r1 ⟨keyId, List.Vector.replicate 65 0⟩ role, rfl, rfl⟩

/-- The signers as a governed registry. -/
def Account.governance (account : Account) : Governed SignerKey Signer where
  toRegistry := signerRegistry
  keyOf := Signer.key
  approves signer := signer.role = .admin ∧ account.CanSign signer
  keeps_of_approves _ h := decide_eq_true h.1

section Step
variable {account : Account} {s : State}

/-- The proof of one signer. -/
def singleProof (signer : Signer) (proof : SignerProof) : SignatureProofs :=
  ⟨(∅ : Std.ExtTreeMap SignerKey SignerProof compare).insert signer.key proof⟩

theorem mem_toList_singleProof {signer : Signer} {proof : SignerProof}
    {entry : SignerKey × SignerProof} :
    entry ∈ (singleProof signer proof).proofs.toList ↔ entry = (signer.key, proof) := by
  obtain ⟨key, proof'⟩ := entry
  rw [singleProof, Std.ExtTreeMap.mem_toList_iff_getElem?_eq_some,
    Std.ExtTreeMap.getElem?_insert, Prod.mk.injEq]
  simp only [Std.ExtTreeMap.getElem?_empty, Std.compare_eq_iff_eq]
  split_ifs with hkey
  · simp [hkey, eq_comm]
  · simp [Ne.symm hkey]

theorem accepts_singleProof {admin : Signer} {payload : BytesN 32} {proof : SignerProof}
    (hadmin : signers s admin.key = some admin) (hrole : admin.role = .admin)
    (hverifies : admin.hostVerifies account.crypto payload proof = true) (timestamp : UInt64)
    (contexts : List Context) :
    account.accepts timestamp ⟨payload, singleProof admin proof, contexts⟩ s = true := by
  have hmem : (admin.key, proof) ∈ (singleProof admin proof).proofs.toList :=
    mem_toList_singleProof.mpr rfl
  refine accepts_iff.mpr ⟨List.ne_nil_of_mem hmem, fun entry hentry => ?_, fun context _ => ?_⟩
  · rw [mem_toList_singleProof.mp hentry]
    exact ⟨admin, hadmin, hverifies⟩
  · refine ⟨_, hmem, admin, hadmin, ?_⟩
    rw [hrole]
    rfl

/-- An admin that can sign performs every enabled operation. -/
theorem exists_step_of_enabled (h : Live s) (hhas : (signers s).Has account.governance.approves)
    {op : Operation} (henabled : op.Enabled (fun _ => false) s) :
    ∃ inv, inv.call = .operation op ∧ account.step inv s = (.ok (.ok ⟨⟩), op.next s) := by
  obtain ⟨key, admin, hadmin, hrole, payload, proof, hverifies⟩ := hhas
  obtain rfl := h.represented.key_eq hadmin
  refine ⟨⟨0, fun _ => false, some ⟨payload, singleProof admin proof,
    [op.context account.address]⟩, .operation op⟩, rfl, step_of_enabled h rfl ?_ henabled⟩
  exact authorizes_iff.mpr ⟨_, rfl, List.mem_singleton_self _,
    accepts_singleProof hadmin hrole hverifies 0 _⟩

/-- An invocation makes a request of the governed registry, or keeps the table. -/
theorem governance_step_or (h : Live s) (account : Account) (inv : Invocation) :
    signers (account.step inv s).2 = signers s ∨
      account.governance.Step (signers s) (signers (account.step inv s).2) := by
  refine step_preserves (P := fun t => signers t = signers s ∨
    account.governance.Step (signers s) (signers t)) h (.inl rfl) ?_
  intro op hcall hauth henabled
  cases hrequest : op.request with
  | none =>
    left
    rw [signers_next]
    cases op with
    | addSigner signer => cases hrequest
    | updateSigner signer => cases hrequest
    | revokeSigner key => cases hrequest
    | upgrade hash => rfl
  | some request =>
    right
    obtain ⟨-, entry, -, -, -, -, proof, -, admin, hadmin, hrole, hverifies⟩ :=
      adminAuthorized_of_authorizes hcall hauth
    refine ⟨request, ⟨proof.1, admin, hadmin, hrole, entry.signaturePayload, proof.2, hverifies⟩,
      ?_, (enabled_iff_serves hrequest _).mp henabled, signers_next_request hrequest⟩
    intro signer hvalue
    cases op <;> cases hrequest <;> cases hvalue <;> rfl

theorem exists_step_of_governance (h : Live s) {t : Table SignerKey Signer}
    (hstep : account.governance.Step (signers s) t) :
    ∃ inv, signers (account.step inv s).2 = t := by
  obtain ⟨request, hhas, hkeyed, hserves, rfl⟩ := hstep
  obtain ⟨op, hop⟩ : ∃ op : Operation, op.request = some request := by
    cases request with
    | insert key signer =>
      obtain rfl : signer.key = key := hkeyed signer rfl
      exact ⟨.addSigner signer, rfl⟩
    | replace key signer =>
      obtain rfl : signer.key = key := hkeyed signer rfl
      exact ⟨.updateSigner signer, rfl⟩
    | remove key => exact ⟨.revokeSigner key, rfl⟩
  obtain ⟨inv, -, hinv⟩ := exists_step_of_enabled h hhas ((enabled_iff_serves hop _).mpr hserves)
  refine ⟨inv, ?_⟩
  rw [hinv]
  exact signers_next_request hop

end Step

section Run
variable {account : Account} {s : State}

/-- The runs of the account reach exactly the tables of the governed registry. -/
theorem final_iff_reaches (h : Live s) {t : Table SignerKey Signer} :
    (∃ is, signers (account.machine.final s is) = t) ↔
      account.governance.Reaches (signers s) t := by
  constructor
  · rintro ⟨is, rfl⟩
    induction is using List.reverseRecOn with
    | nil => exact .refl
    | append_singleton is inv ih =>
      rw [Machine.final_append, Machine.final_singleton]
      rcases governance_step_or (h.final account is) account inv with hsame | hstep
      · exact hsame ▸ ih
      · exact ih.tail hstep
  · intro hreaches
    induction hreaches with
    | refl => exact ⟨[], rfl⟩
    | tail _ hstep ih =>
      obtain ⟨is, rfl⟩ := ih
      obtain ⟨inv, hinv⟩ := exists_step_of_governance (h.final account is) hstep
      refine ⟨is ++ [inv], ?_⟩
      rw [Machine.final_append, Machine.final_singleton]
      exact hinv

theorem recoverable_iff {t : Table SignerKey Signer} :
    account.governance.Recoverable t ↔
      ∃ signer, (t signer.key).isSome = true ∧ account.CanSign signer := by
  constructor
  · rintro ⟨signer, htaken, -, hsigns⟩
    exact ⟨signer, htaken, hsigns⟩
  · rintro ⟨signer, htaken, hsigns⟩
    refine ⟨withRole .admin signer, ?_, role_withRole _ _, (canSign_withRole _).mpr hsigns⟩
    change (t (withRole .admin signer).key).isSome = true
    rw [key_withRole]
    exact htaken

/-- From every reachable state exactly these signer tables can be reached: the present one
and, if a stored admin can sign, every finite change with signers under their own keys that
keeps some key under which a signature can verify. -/
theorem reconfiguration_iff {d : Deployment} (h : account.deploy d = .ok (⟨⟩, s))
    (is : List Invocation) (t : Table SignerKey Signer) :
    (∃ js, signers (account.machine.final s (is ++ js)) = t) ↔
      t = signers (account.machine.final s is) ∨
        (∃ key admin, signers (account.machine.final s is) key = some admin ∧
          admin.role = .admin ∧ account.CanSign admin) ∧
        {key | t key ≠ signers (account.machine.final s is) key}.Finite ∧
        (∀ key signer, t key = some signer → signer.key = key) ∧
        ∃ signer, (t signer.key).isSome = true ∧ account.CanSign signer := by
  have hlive := (live_of_deploy h).final account is
  have hspare : ∀ key, ∃ signer, account.governance.keyOf signer = key ∧
      account.governance.keeps signer = false := by
    intro key
    obtain ⟨signer, hkey, hrole⟩ := exists_signer_of_key key .standard
    refine ⟨signer, hkey, ?_⟩
    change decide (signer.role = .admin) = false
    rw [hrole]
    rfl
  have hkeyed : account.governance.WellKeyed (signers (account.machine.final s is)) :=
    fun key signer hsigner => hlive.represented.key_eq hsigner
  simp only [Machine.final_append]
  rw [final_iff_reaches hlive, Governed.reaches_iff hspare hkeyed, recoverable_iff]
  exact Iff.rfl

/-- The sample account can be handed over from its admin to a passkey. -/
theorem sample_reconfiguration_iff :
    ∃ js, signers (Sample.account.machine.final Sample.state ([] ++ js)) =
      Table.empty.set Sample.passkeyAdmin.key (some Sample.passkeyAdmin) := by
  have hstored : ∀ key signer, signers Sample.state key = some signer →
      key = Sample.admin.key := by
    intro key signer hsigner
    obtain ⟨hmem, rfl⟩ := (signers_of_deploy_eq_some_iff Sample.deploy_deployment).mp hsigner
    rw [List.mem_singleton.mp hmem]
  refine (reconfiguration_iff Sample.deploy_deployment [] _).mpr (.inr ⟨?_, ?_, ?_, ?_⟩)
  · exact ⟨_, _, Sample.signers_state, rfl, Sample.payload, .ed25519 Sample.signature, by decide⟩
  · refine (Set.toFinite {Sample.admin.key, Sample.passkeyAdmin.key}).subset fun key hkey => ?_
    by_contra hother
    simp only [Set.mem_insert_iff, Set.mem_singleton_iff, not_or] at hother
    apply hkey
    rw [Table.set_of_ne _ hother.2]
    cases hsigner : signers Sample.state key with
    | none => exact hsigner.symm
    | some signer => exact absurd (hstored key signer hsigner) hother.1
  · intro key signer hsigner
    rcases Table.set_eq_some_iff.mp hsigner with ⟨rfl, ⟨⟩⟩ | ⟨-, ⟨⟩⟩
    rfl
  · refine ⟨Sample.passkeyAdmin, ?_, Sample.payload, Sample.passkeyProof, by decide⟩
    rw [Table.set_self]
    rfl

/-- A reachable state is final for all further runs exactly if no stored admin can sign. -/
theorem lockout_iff {d : Deployment} (h : account.deploy d = .ok (⟨⟩, s)) (is : List Invocation) :
    (∀ js, account.machine.final s (is ++ js) = account.machine.final s is) ↔
      ¬ ∃ key admin, signers (account.machine.final s is) key = some admin ∧
        admin.role = .admin ∧ account.CanSign admin := by
  have hlive := (live_of_deploy h).final account is
  constructor
  · rintro hlocked ⟨key, admin, hadmin, hrole, hsigns⟩
    obtain rfl := hlive.represented.key_eq hadmin
    have henabled : Operation.Enabled (fun _ => false) (account.machine.final s is)
        (.updateSigner (withRole .standard admin)) := by
      change (signers _ (withRole .standard admin).key).isSome = true
      rw [key_withRole, hadmin]
      rfl
    obtain ⟨inv, -, hinv⟩ := exists_step_of_enabled hlive ⟨_, admin, hadmin, hrole, hsigns⟩ henabled
    have hsame := hlocked [inv]
    rw [Machine.final_append, Machine.final_singleton,
      show account.machine.step inv _ = _ from hinv] at hsame
    have hdemoted : signers (account.machine.final s is) admin.key =
        some (withRole .standard admin) := by
      rw [← hsame]
      change signers (updated _ _) _ = _
      rw [signers_updated, key_withRole, Table.set_self]
    rw [hadmin, Option.some.injEq] at hdemoted
    rw [hdemoted, role_withRole] at hrole
    cases hrole
  · intro hnone js
    rw [Machine.final_append]
    refine account.machine.final_invariant (P := fun t => t = account.machine.final s is) ?_ rfl js
    rintro inv t rfl
    by_contra hne
    obtain ⟨op, entry, -, -, -, -, proof, -, admin, hadmin, hrole, hverifies⟩ :=
      adminAuthorized_of_step_ne hlive hne
    exact hnone ⟨proof.1, admin, hadmin, hrole, entry.signaturePayload, proof.2, hverifies⟩

/-- The sample account is not locked. -/
theorem sample_lockout_iff :
    ¬ ∀ js, Sample.account.machine.final Sample.state ([] ++ js) =
      Sample.account.machine.final Sample.state [] :=
  fun hlocked => (lockout_iff Sample.deploy_deployment []).mp hlocked
    ⟨_, _, Sample.signers_state, rfl, Sample.payload, .ed25519 Sample.signature, by decide⟩

end Run
end StellarSmartAccount.SmartAccount
