import StellarSmartAccount.Account.Construction

/-! # No privilege escalation

The `init` flag of a deployed account never goes back to false, so the guard of
the signer operations always demands authorization and the constructor never runs
again. Every change of the instance storage or the code is one operation whose
authorization entry carries a verified proof of a stored admin.
-/

namespace StellarSmartAccount.SmartAccount
open Foundations Soroban

/-- The entry of an authorized operation contains a key whose stored signer is an
admin and whose proof verifies. -/
def CarriesAdminProof (account : Account) (entry : AuthEntry) (s : State) : Prop :=
  ∃ proof ∈ entry.proofs.proofs.toList, ∃ signer, signers s proof.1 = some signer ∧
    signer.role = .admin ∧
      signer.hostVerifies account.crypto entry.signaturePayload proof.2 = true

/-- The invocation is an operation whose entry was accepted in the state before the
call, for the context that names the account, with an admin's proof. -/
def AdminAuthorized (account : Account) (inv : Invocation) (s : State) : Prop :=
  ∃ op entry, inv.call = .operation op ∧ inv.auth = some entry ∧
    op.context account.address ∈ entry.contexts ∧
      account.accepts inv.timestamp entry s = true ∧ CarriesAdminProof account entry s

section Step
variable {account : Account} {inv : Invocation} {op : Operation} {s : State}

theorem isAdminOperation_context (timestamp : UInt64) :
    SignerRole.isAdminOperation (account.checkEnv timestamp) (op.context account.address) = true :=
  decide_eq_true rfl

/-- Acceptance of a context that calls the account takes an admin's proof. -/
theorem adminAuthorized_of_authorizes (hcall : inv.call = .operation op)
    (hauth : account.authorizes inv op s = true) : AdminAuthorized account inv s := by
  obtain ⟨entry, hentry, hcontext, haccepts⟩ := authorizes_iff.mp hauth
  obtain ⟨proof, hproof, signer, hsigner, hrole, hverifies⟩ :=
    (accepts_iff.mp haccepts).admin hcontext (isAdminOperation_context inv.timestamp)
  exact ⟨op, entry, hcall, hentry, hcontext, haccepts, proof, hproof, signer, hsigner, hrole,
    hverifies⟩

theorem adminAuthorized_of_step_ne (h : Live s) (hne : (account.step inv s).2 ≠ s) :
    AdminAuthorized account inv s := by
  have hstep : (account.step inv s).2 = s ∨ AdminAuthorized account inv s := by
    apply step_preserves (P := fun t => t = s ∨ AdminAuthorized account inv s) h (.inl rfl)
    intro op hcall hauth henabled
    exact .inr (adminAuthorized_of_authorizes hcall hauth)
  exact hstep.resolve_left hne

/-- On an initialized account the guard of the signer operations is the account's
own `require_auth`. -/
theorem requireAuthIfInitialized_exec_of_live (h : Live s) (env : Env) :
    (requireAuthIfInitialized env).exec s =
      (requireAuth env env.currentContractAddress).exec s := by
  rw [requireAuthIfInitialized_exec h.represented.flagTyped, requireAuth_exec, permitted,
    h.initialized]
  rfl

end Step

section Run
variable {account : Account} {d : Deployment} {s : State}

/-- In every reachable state the account is initialized, its guard demands
authorization, its constructor aborts, and the next change of the instance storage
or the code takes an admin's verified proof. -/
theorem no_privilege_escalation (h : account.deploy d = .ok (⟨⟩, s)) (is : List Invocation) :
    (account.machine.final s is).flag Initializable.initialized = true ∧
      (∀ env, (requireAuthIfInitialized env).exec (account.machine.final s is) =
        (requireAuth env env.currentContractAddress).exec (account.machine.final s is)) ∧
      (∀ env signers, (constructor env signers).exec (account.machine.final s is) =
        .error (.contractError Error.alreadyInitialized.code)) ∧
      (∀ inv, (account.step inv (account.machine.final s is)).2.instanceMap ≠
          (account.machine.final s is).instanceMap ∨
        (account.step inv (account.machine.final s is)).2.wasm ≠
          (account.machine.final s is).wasm →
        AdminAuthorized account inv (account.machine.final s is)) ∧
      ∀ inv, (∀ entry, inv.auth = some entry →
          ¬ CarriesAdminProof account entry (account.machine.final s is)) →
        (account.step inv (account.machine.final s is)).2 = account.machine.final s is := by
  have hlive := (live_of_deploy h).final account is
  refine ⟨hlive.initialized, requireAuthIfInitialized_exec_of_live hlive, ?_, ?_, ?_⟩
  · intro env signers
    exact constructor_exec_of_initialized hlive.represented.flagTyped hlive.initialized
  · intro inv hchange
    apply adminAuthorized_of_step_ne hlive
    intro heq
    rw [heq] at hchange
    simp at hchange
  · intro inv hnone
    by_contra hne
    obtain ⟨op, entry, -, hentry, -, -, hproof⟩ := adminAuthorized_of_step_ne hlive hne
    exact hnone entry hentry hproof

/-- The upgrade signed by the sample admin. -/
theorem sample_no_privilege_escalation :
    AdminAuthorized Sample.account
      (Sample.invoke (.upgrade (List.Vector.replicate 32 9))) Sample.state := by
  apply (no_privilege_escalation Sample.deploy_deployment []).2.2.2.1
  right
  have hauth := Sample.authorizes_invoke (.upgrade (List.Vector.replicate 32 9))
    Sample.signers_state
  rw [Machine.final_nil, step_of_enabled (live_of_deploy Sample.deploy_deployment) rfl hauth rfl]
  decide

end Run
end StellarSmartAccount.SmartAccount
