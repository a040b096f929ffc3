import StellarSmartAccount.Account.Construction

/-! # The last admin

The constructor demands an admin and a revocation spares admins, but an update
replaces any stored signer. An account keeps an admin along a run exactly when no
step of the run is an authorized update that replaces the only admin by a signer
of another role.
-/

namespace StellarSmartAccount.SmartAccount
open Foundations Soroban

/-- Some stored signer has the admin role. -/
def HasAdmin (s : State) : Prop := (signers s).Has (·.role = .admin)

/-- An authorized update of the only admin entry to another role. -/
def DemotesLastAdmin (account : Account) (inv : Invocation) (s : State) : Prop :=
  ∃ signer, inv.call = .operation (.updateSigner signer) ∧
    account.authorizes inv (.updateSigner signer) s = true ∧ signer.role ≠ .admin ∧
      ∀ key admin, signers s key = some admin → admin.role = .admin → key = signer.key

section Step
variable {account : Account} {inv : Invocation} {s : State}

/-- An operation other than a demotion of the last admin leaves an admin. -/
theorem hasAdmin_next {op : Operation} {wasmExists : BytesN 32 → Bool} (hadmin : HasAdmin s)
    (henabled : op.Enabled wasmExists s)
    (hkeeps : ∀ signer, op = .updateSigner signer → signer.role = .admin ∨
      ∃ key admin, key ≠ signer.key ∧ signers s key = some admin ∧ admin.role = .admin) :
    HasAdmin (op.next s) := by
  obtain ⟨key, admin, hstored, hrole⟩ := hadmin
  unfold HasAdmin
  rw [signers_next]
  cases op with
  | addSigner signer =>
    have habsent : signers s signer.key = none := henabled
    apply (Table.has_set_iff _ _ _ _).mpr
    right
    refine ⟨key, ?_, admin, hstored, hrole⟩
    rintro rfl
    rw [habsent] at hstored
    cases hstored
  | updateSigner signer =>
    apply (Table.has_set_iff _ _ _ _).mpr
    rcases hkeeps signer rfl with hnew | ⟨key', admin', hne, hstored', hrole'⟩
    · exact .inl ⟨signer, rfl, hnew⟩
    · exact .inr ⟨key', hne, admin', hstored', hrole'⟩
  | revokeSigner key' =>
    obtain ⟨signer, hsigner, hnot⟩ := henabled
    apply (Table.has_set_iff _ _ _ _).mpr
    right
    refine ⟨key, ?_, admin, hstored, hrole⟩
    rintro rfl
    rw [hsigner, Option.some.injEq] at hstored
    exact hnot (hstored ▸ hrole)
  | upgrade hash => exact ⟨key, admin, hstored, hrole⟩

theorem not_hasAdmin_step (h : Live s) (hadmin : HasAdmin s)
    (hdemotes : DemotesLastAdmin account inv s) : ¬ HasAdmin (account.step inv s).2 := by
  obtain ⟨signer, hcall, hauth, hrole, honly⟩ := hdemotes
  obtain ⟨key, admin, hstored, hadminRole⟩ := hadmin
  have hpresent : (signers s signer.key).isSome := by
    rw [← honly key admin hstored hadminRole, hstored]
    rfl
  rw [step_of_enabled h hcall hauth hpresent]
  unfold HasAdmin
  rw [signers_next]
  intro hafter
  rcases (Table.has_set_iff _ _ _ _).mp hafter with ⟨x, hx, hxrole⟩ | ⟨key', hne, x, hx, hxrole⟩
  · cases hx
    exact hrole hxrole
  · exact hne (honly key' x hx hxrole)

theorem hasAdmin_step_iff (h : Live s) (hadmin : HasAdmin s) :
    HasAdmin (account.step inv s).2 ↔ ¬ DemotesLastAdmin account inv s := by
  constructor
  · intro hafter hdemotes
    exact not_hasAdmin_step h hadmin hdemotes hafter
  · intro hkeeps
    apply step_preserves h hadmin
    intro op hcall hauth henabled
    apply hasAdmin_next hadmin henabled
    rintro signer rfl
    by_contra hnone
    simp only [not_or, not_exists, not_and] at hnone
    refine hkeeps ⟨signer, hcall, hauth, hnone.1, fun key admin hstored hrole => ?_⟩
    by_contra hne
    exact hnone.2 key admin hne hstored hrole

end Step

section Run
variable {account : Account} {d : Deployment} {s : State}

theorem hasAdmin_of_deploy (h : account.deploy d = .ok (⟨⟩, s)) : HasAdmin s := by
  obtain ⟨admin, hmem, hrole⟩ := (valid_of_deploy h).1
  exact ⟨admin.key, admin, (signers_of_deploy_eq_some_iff h).mpr ⟨hmem, rfl⟩, hrole⟩

/-- Every state of a run has an admin exactly when no step demotes the last one. -/
theorem hasAdmin_throughout_iff (h : account.deploy d = .ok (⟨⟩, s)) (is : List Invocation) :
    (∀ pre, pre <+: is → HasAdmin (account.machine.final s pre)) ↔
      ∀ pre inv, pre ++ [inv] <+: is →
        ¬ DemotesLastAdmin account inv (account.machine.final s pre) :=
  account.machine.throughout_iff (R := fun _ s => HasAdmin s)
    (fun inv _ ht => ht.step account inv)
    (fun _ _ _ hlive hadmin => hasAdmin_step_iff hlive hadmin)
    (live_of_deploy h) (hasAdmin_of_deploy h) is

/-- The sample admin makes the passkey an admin and itself a standard signer; an admin stays. -/
theorem sample_hasAdmin_throughout_iff :
    Sample.account.deploy Sample.deployment = .ok (⟨⟩, Sample.state) ∧
      ∀ pre, pre <+: [Sample.addPasskey .admin,
          Sample.invoke (.updateSigner (.ed25519 ⟨Sample.publicKey⟩ .standard))] →
        HasAdmin (Sample.account.machine.final Sample.state pre) := by
  refine ⟨Sample.deploy_deployment, ?_⟩
  apply (hasAdmin_throughout_iff Sample.deploy_deployment _).mpr
  have hsteps := Sample.account.machine.forall_steps_cons_iff
    fun inv t => ¬ DemotesLastAdmin Sample.account inv t
  refine (hsteps _ _ _).mpr ⟨?_, (hsteps _ _ _).mpr ⟨?_, fun pre inv hpre => ?_⟩⟩
  · rintro ⟨signer, ⟨⟩, -⟩
  · rintro ⟨signer, ⟨⟩, -, -, honly⟩
    have hpasskey : signers (Sample.account.machine.step (Sample.addPasskey .admin)
        Sample.state).2 Sample.passkeyAdmin.key = some Sample.passkeyAdmin := by decide
    cases honly _ _ hpasskey rfl
  · simp at hpre

/-- The sole admin makes itself a standard signer; no admin is left. -/
theorem update_demotes_last_admin :
    Sample.account.deploy Sample.deployment = .ok (⟨⟩, Sample.state) ∧
      ¬ ∀ pre, pre <+: [Sample.invoke (.updateSigner (.ed25519 ⟨Sample.publicKey⟩ .standard))] →
        HasAdmin (Sample.account.machine.final Sample.state pre) := by
  refine ⟨Sample.deploy_deployment, fun hthroughout => ?_⟩
  have hlive := live_of_deploy Sample.deploy_deployment
  have hadmin := hasAdmin_of_deploy Sample.deploy_deployment
  have hdemotes : DemotesLastAdmin Sample.account
      (Sample.invoke (.updateSigner (.ed25519 ⟨Sample.publicKey⟩ .standard))) Sample.state := by
    refine ⟨_, rfl, Sample.authorizes_invoke _ Sample.signers_state, SignerRole.noConfusion, ?_⟩
    intro key admin hstored _
    obtain ⟨hmem, rfl⟩ := (signers_of_deploy_eq_some_iff Sample.deploy_deployment).mp hstored
    rw [List.mem_singleton.mp hmem]
    rfl
  have hfinal := hthroughout _ (List.prefix_refl _)
  rw [Machine.final_singleton] at hfinal
  exact not_hasAdmin_step hlive hadmin hdemotes hfinal

end Run
end StellarSmartAccount.SmartAccount
