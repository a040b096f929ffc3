import StellarSmartAccount.Account.WriteHistory

/-! # Validation of stored policies

Only the constructor validates the policies it stores. Every stored policy of a
run has passed its check, at the ledger time at which its signer was written,
exactly when no authorized addition or update of the run carries a policy that
fails the check at its own ledger time.
-/

namespace StellarSmartAccount.SmartAccount
open Foundations Soroban

/-- The writes of an answered invocation with its ledger time. -/
def timedWrites (answered : Invocation × Response) :
    List (SignerKey × Option (Signer × UInt64)) :=
  (successfulWrites answered).map fun w => (w.1, w.2.map (·, answered.1.timestamp))

/-- The current version of each signer with the ledger time of its write. -/
def versions (d : Deployment) (history : List (Invocation × Response)) :
    Table SignerKey (Signer × UInt64) :=
  Table.lastWrite ((d.signers.map fun signer => (signer.key, some (signer, d.timestamp))) ++
    history.flatMap timedWrites)

/-- All policies of the signer pass their check at a ledger time. -/
def PoliciesPass (account : Account) (signer : Signer) (timestamp : UInt64) : Prop :=
  ∀ policy ∈ signer.role.policies, policy.check (account.checkEnv timestamp) = .ok ()

/-- Every stored policy passed its check when its signer was written; in particular
stored time windows are ordered and stored allow lists do not name the account. -/
structure PoliciesValidated (account : Account) (d : Deployment)
    (history : List (Invocation × Response)) (s : State) : Prop where
  validated : ∀ key signer, signers s key = some signer →
    ∃ timestamp, versions d history key = some (signer, timestamp) ∧
      PoliciesPass account signer timestamp
  timeBased : ∀ key signer, signers s key = some signer →
    ∀ policy, .timeBased policy ∈ signer.role.policies → policy.notBefore ≤ policy.notAfter
  allowList : ∀ key signer, signers s key = some signer →
    ∀ policy, .contractAllowList policy ∈ signer.role.policies →
      account.address ∉ policy.allowedContracts

/-- An authorized addition or update that is about to store a policy which fails its
check at the ledger time of the call. -/
def StoresUncheckedPolicy (account : Account) (inv : Invocation) (s : State) : Prop :=
  ∃ op signer, inv.call = .operation op ∧ (op = .addSigner signer ∨ op = .updateSigner signer) ∧
    account.authorizes inv op s = true ∧ op.Enabled inv.wasmExists s ∧
      ¬ PoliciesPass account signer inv.timestamp

section Step
variable {account : Account} {inv : Invocation} {s : State} {d : Deployment}
  {history : List (Invocation × Response)} {response : Response}

theorem PoliciesValidated.of_validated
    (h : ∀ key signer, signers s key = some signer →
      ∃ timestamp, versions d history key = some (signer, timestamp) ∧
        PoliciesPass account signer timestamp) : PoliciesValidated account d history s := by
  refine ⟨h, ?_, ?_⟩
  · intro key signer hsigner policy hpolicy
    obtain ⟨timestamp, -, hpass⟩ := h key signer hsigner
    exact SignerPolicy.timeBased_check_ok (hpass _ hpolicy)
  · intro key signer hsigner policy hpolicy
    obtain ⟨timestamp, -, hpass⟩ := h key signer hsigner
    exact SignerPolicy.contractAllowList_check_ok (hpass _ hpolicy)

theorem versions_concat (answered : Invocation × Response) :
    versions d (history ++ [answered]) = (versions d history).writeAll (timedWrites answered) := by
  rw [versions, versions, List.flatMap_append, List.flatMap_singleton, ← List.append_assoc,
    Table.lastWrite_append]

theorem timedWrites_eq_nil (h : successfulWrites (inv, response) = []) :
    timedWrites (inv, response) = [] := by
  rw [timedWrites, h, List.map_nil]

theorem versions_performed {op : Operation} (hcall : inv.call = .operation op) :
    versions d (history ++ [(inv, .ok (.ok ⟨⟩))]) =
      (versions d history).writeAll (op.writes.map fun w => (w.1, w.2.map (·, inv.timestamp))) := by
  rw [versions_concat, timedWrites, successfulWrites_performed hcall]

/-- A performed operation keeps the validation when what it writes passes. -/
theorem PoliciesValidated.performed (h : PoliciesValidated account d history s) {op : Operation}
    (hcall : inv.call = .operation op)
    (hpass : ∀ signer, op = .addSigner signer ∨ op = .updateSigner signer →
      PoliciesPass account signer inv.timestamp) :
    PoliciesValidated account d (history ++ [(inv, .ok (.ok ⟨⟩))]) (op.next s) := by
  apply PoliciesValidated.of_validated
  intro key signer hsigner
  rw [versions_performed hcall]
  rcases signers_next_eq_some hsigner with ⟨hop, rfl⟩ | ⟨hold, hkey⟩
  · refine ⟨inv.timestamp, ?_, hpass signer hop⟩
    rcases hop with rfl | rfl <;> exact Table.set_self _ _ _
  · obtain ⟨timestamp, hversion, hchecked⟩ := h.validated key signer hold
    refine ⟨timestamp, ?_, hchecked⟩
    rw [Table.writeAll_of_notMem _ ?_, hversion]
    intro w hw
    obtain ⟨w', hw', rfl⟩ := List.mem_map.mp hw
    exact hkey w' hw'

theorem not_policiesValidated_step (h : Live s) (hstores : StoresUncheckedPolicy account inv s) :
    ¬ PoliciesValidated account d (history ++ [(inv, (account.step inv s).1)])
      (account.step inv s).2 := by
  obtain ⟨op, signer, hcall, hop, hauth, henabled, hfails⟩ := hstores
  rw [step_of_enabled h hcall hauth henabled]
  intro hvalidated
  have hsigner : signers (op.next s) signer.key = some signer := by
    rw [signers_next]
    rcases hop with rfl | rfl <;> exact Table.set_self _ _ _
  obtain ⟨timestamp, hversion, hpass⟩ := hvalidated.validated _ _ hsigner
  have hcurrent : versions d (history ++ [(inv, .ok (.ok ⟨⟩))]) signer.key =
      some (signer, inv.timestamp) := by
    rw [versions_performed hcall]
    rcases hop with rfl | rfl <;> exact Table.set_self _ _ _
  rw [hcurrent] at hversion
  cases hversion
  exact hfails hpass

theorem policiesValidated_step_iff (h : Live s)
    (hvalidated : PoliciesValidated account d history s) :
    PoliciesValidated account d (history ++ [(inv, (account.step inv s).1)])
        (account.step inv s).2 ↔ ¬ StoresUncheckedPolicy account inv s := by
  constructor
  · intro hafter hstores
    exact not_policiesValidated_step h hstores hafter
  · intro hchecks
    have hsame {response : Response} (hnil : successfulWrites (inv, response) = []) :
        PoliciesValidated account d (history ++ [(inv, response)]) s := by
      apply PoliciesValidated.of_validated
      rw [versions_concat, timedWrites_eq_nil hnil]
      exact hvalidated.validated
    have heffect := step_effect h account inv
    generalize account.step inv s = result at heffect
    cases heffect with
    | failed response hfail => exact hsame (successfulWrites_failed hfail)
    | checked hcall response => exact hsame (successfulWrites_checked hcall)
    | performed hcall hauth henabled =>
      apply hvalidated.performed hcall
      intro signer hop
      by_contra hfails
      exact hchecks ⟨_, signer, hcall, hop, hauth, henabled, hfails⟩

end Step

section Run
variable {account : Account} {d : Deployment} {s : State}

theorem versions_nil (key : SignerKey) :
    versions d [] key =
      (Table.lastWrite (d.signers.map fun signer => (signer.key, some signer)) key).map
        (·, d.timestamp) := by
  rw [versions, List.flatMap_nil, List.append_nil, ← Table.lastWrite_map, List.map_map]
  rfl

theorem policiesValidated_of_deploy (h : account.deploy d = .ok (⟨⟩, s)) :
    PoliciesValidated account d [] s := by
  apply PoliciesValidated.of_validated
  intro key signer hsigner
  refine ⟨d.timestamp, ?_, (valid_of_deploy h).2.2 signer ?_⟩
  · rw [versions_nil, ← signers_of_deploy h, hsigner]
    rfl
  · exact ((signers_of_deploy_eq_some_iff h).mp hsigner).1

/-- The stored policies of a run are validated throughout exactly when no step
stores an unchecked policy. -/
theorem policiesValidated_throughout_iff (h : account.deploy d = .ok (⟨⟩, s))
    (is : List Invocation) :
    (∀ pre, pre <+: is → PoliciesValidated account d (account.machine.history s pre)
        (account.machine.final s pre)) ↔
      ∀ pre inv, pre ++ [inv] <+: is →
        ¬ StoresUncheckedPolicy account inv (account.machine.final s pre) :=
  account.machine.throughout_iff (R := PoliciesValidated account d)
    (fun inv _ ht => ht.step account inv)
    (fun _ _ _ hlive hvalidated => policiesValidated_step_iff hlive hvalidated)
    (live_of_deploy h) (policiesValidated_of_deploy h) is

/-- The sample admin adds a passkey whose window is open. -/
theorem sample_policiesValidated_throughout_iff :
    Sample.account.deploy Sample.deployment = .ok (⟨⟩, Sample.state) ∧
      ∀ pre, pre <+: [Sample.addPasskey (.restricted [.timeBased ⟨0, 9⟩])] →
        PoliciesValidated Sample.account Sample.deployment
          (Sample.account.machine.history Sample.state pre)
          (Sample.account.machine.final Sample.state pre) := by
  refine ⟨Sample.deploy_deployment, ?_⟩
  apply (policiesValidated_throughout_iff Sample.deploy_deployment _).mpr
  refine (Sample.account.machine.forall_steps_cons_iff
    (fun inv t => ¬ StoresUncheckedPolicy Sample.account inv t) _ _ _).mpr
      ⟨?_, fun pre inv hpre => ?_⟩
  · rintro ⟨op, signer, ⟨⟩, hop, -, -, hfails⟩
    rcases hop with ⟨⟨⟩⟩ | ⟨⟨⟩⟩
    refine hfails fun policy hpolicy => ?_
    rw [List.mem_singleton.mp hpolicy]
    decide
  · simp at hpre

/-- The sample admin adds a passkey whose window ends before it begins. -/
theorem addSigner_stores_unchecked_policy :
    Sample.account.deploy Sample.deployment = .ok (⟨⟩, Sample.state) ∧
      ¬ ∀ pre, pre <+: [Sample.addPasskey (.restricted [.timeBased ⟨5, 3⟩])] →
        PoliciesValidated Sample.account Sample.deployment
          (Sample.account.machine.history Sample.state pre)
          (Sample.account.machine.final Sample.state pre) := by
  refine ⟨Sample.deploy_deployment, fun hthroughout => ?_⟩
  have hstores : StoresUncheckedPolicy Sample.account
      (Sample.addPasskey (.restricted [.timeBased ⟨5, 3⟩])) Sample.state := by
    refine ⟨_, _, rfl, .inl rfl, Sample.authorizes_invoke _ Sample.signers_state, ?_, ?_⟩
    · change signers Sample.state (.secp256r1 [1]) = none
      decide
    · intro hpass
      have hcheck := hpass (.timeBased ⟨5, 3⟩) (List.mem_singleton_self _)
      revert hcheck
      decide
  have hfinal := hthroughout _ (List.prefix_refl _)
  rw [← List.nil_append [Sample.addPasskey _], Machine.history_append] at hfinal
  exact not_policiesValidated_step (live_of_deploy Sample.deploy_deployment) hstores hfinal

end Run
end StellarSmartAccount.SmartAccount
