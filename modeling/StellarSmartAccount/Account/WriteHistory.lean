import StellarSmartAccount.Account.Decision

/-! # The signer table as the last write of each key

The writes of a run are the entries of the constructor followed by those of the
successful operations. The table holds the last write of each key, so every
authorization decision is made from the last writes and a key without one stays
unknown until it is added again.
-/

namespace StellarSmartAccount.SmartAccount
open Foundations Soroban

/-- The writes of an answered invocation. -/
def successfulWrites (answered : Invocation × Response) : List (SignerKey × Option Signer) :=
  match answered.1.call, answered.2 with
  | .operation op, .ok (.ok _) => op.writes
  | _, _ => []

/-- All writes since deployment, oldest first. -/
def writeHistory (d : Deployment) (history : List (Invocation × Response)) :
    List (SignerKey × Option Signer) :=
  (d.signers.map fun signer => (signer.key, some signer)) ++ history.flatMap successfulWrites

/-- The answered invocation is a successful `add_signer` for the key. -/
def AddsKey (key : SignerKey) (answered : Invocation × Response) : Prop :=
  ∃ signer : Signer, signer.key = key ∧ answered.1.call = .operation (.addSigner signer) ∧
    answered.2 = .ok (.ok ⟨⟩)

section Answered
variable {inv : Invocation} {response : Response}

theorem successfulWrites_performed {op : Operation} (hcall : inv.call = .operation op) :
    successfulWrites (inv, .ok (.ok ⟨⟩)) = op.writes := by
  unfold successfulWrites
  rw [hcall]

theorem successfulWrites_checked {payload : BytesN 32} {proofs : SignatureProofs}
    {contexts : List Context} (hcall : inv.call = .checkAuth payload proofs contexts) :
    successfulWrites (inv, response) = [] := by
  unfold successfulWrites
  rw [hcall]

theorem successfulWrites_failed (hfail : response ≠ .ok (.ok ⟨⟩)) :
    successfulWrites (inv, response) = [] := by
  unfold successfulWrites
  split
  · next hresponse => exact absurd hresponse hfail
  · rfl

end Answered

section Step
variable {account : Account} {inv : Invocation} {s : State}

theorem signers_step (h : Live s) :
    signers (account.step inv s).2 =
      (signers s).writeAll (successfulWrites (inv, (account.step inv s).1)) := by
  have heffect := step_effect h account inv
  generalize account.step inv s = result at heffect
  cases heffect with
  | failed response hfail =>
    rw [successfulWrites_failed hfail, Table.writeAll_nil]
  | checked hcall response =>
    rw [successfulWrites_checked hcall, Table.writeAll_nil]
  | performed hcall hauth henabled =>
    rw [signers_next, successfulWrites_performed hcall]

/-- Only a successful addition makes an unknown key known. -/
theorem signers_step_eq_none (h : Live s) {key : SignerKey} (hnone : signers s key = none)
    (hadds : ¬ AddsKey key (inv, (account.step inv s).1)) :
    signers (account.step inv s).2 key = none := by
  have heffect := step_effect h account inv
  generalize account.step inv s = result at heffect hadds
  cases heffect with
  | failed response hfail => exact hnone
  | checked hcall response => exact hnone
  | @performed op hcall hauth henabled =>
    rw [signers_next]
    cases op with
    | addSigner signer =>
      have hne : key ≠ signer.key := by
        intro heq
        exact hadds ⟨signer, heq.symm, hcall, rfl⟩
      exact (Table.set_of_ne _ hne _).trans hnone
    | updateSigner signer =>
      have hstored : (signers s signer.key).isSome = true := henabled
      have hne : key ≠ signer.key := by
        intro heq
        rw [← heq, hnone] at hstored
        cases hstored
      exact (Table.set_of_ne _ hne _).trans hnone
    | revokeSigner key' =>
      change (signers s).set key' none key = none
      rw [Table.set_apply, hnone]
      split_ifs <;> rfl
    | upgrade hash => exact hnone

theorem signers_final_eq_none (h : Live s) {key : SignerKey} (hnone : signers s key = none)
    (js : List Invocation)
    (hadds : ∀ answered ∈ account.machine.history s js, ¬ AddsKey key answered) :
    signers (account.machine.final s js) key = none := by
  have hrun := account.machine.history_invariant
    (R := fun history t => Live t ∧
      ((∀ answered ∈ history, ¬ AddsKey key answered) → signers t key = none))
    (fun history inv t ht => ⟨ht.1.step account inv, fun hall =>
      signers_step_eq_none ht.1
        (ht.2 fun answered hmem => hall answered (List.mem_append_left _ hmem))
        (hall _ (List.mem_append_right _ (List.mem_singleton_self _)))⟩)
    ⟨h, fun _ => hnone⟩ js
  exact hrun.2 hadds

end Step

section Run
variable {account : Account} {d : Deployment} {s : State}

theorem signers_eq_lastWrite (h : account.deploy d = .ok (⟨⟩, s)) (is : List Invocation) :
    signers (account.machine.final s is) =
      Table.lastWrite (writeHistory d (account.machine.history s is)) := by
  have hacted := account.machine.final_acted (f := signers) Table.writeAll_nil Table.writeAll_append
    (fun inv _ ht => ht.step account inv) (fun _ _ ht => signers_step ht) (live_of_deploy h) is
  rw [hacted, signers_of_deploy h, writeHistory, Table.lastWrite_append]

/-- In every reachable state `__check_auth` decides by the last write of each key; a
key whose last write is missing or a revocation stays unknown to it, whatever other
proofs are present, until the key is added. -/
theorem decisions_follow_last_writes (h : account.deploy d = .ok (⟨⟩, s))
    (is : List Invocation) :
    (∀ key signer, signers (account.machine.final s is) key = some signer ↔
      ∃ before after, writeHistory d (account.machine.history s is) =
        before ++ (key, some signer) :: after ∧ ∀ w ∈ after, w.1 ≠ key) ∧
    (∀ inv payload proofs contexts, inv.call = .checkAuth payload proofs contexts →
      ∀ response, (account.step inv (account.machine.final s is)).1 = response ↔
        Verdict (account.checkEnv inv.timestamp) payload
          (Table.lastWrite (writeHistory d (account.machine.history s is)))
          proofs.proofs.toList contexts response) ∧
    ∀ key, Table.lastWrite (writeHistory d (account.machine.history s is)) key = none →
      ∀ js, (∀ answered ∈ account.machine.history (account.machine.final s is) js,
          ¬ AddsKey key answered) →
        ∀ inv payload proofs contexts, inv.call = .checkAuth payload proofs contexts →
          (∃ entry ∈ proofs.proofs.toList, entry.1 = key) →
            (account.step inv (account.machine.final s (is ++ js))).1 =
              .ok (.error .signerNotFound) := by
  have hlive := (live_of_deploy h).final account is
  have htable := signers_eq_lastWrite h is
  refine ⟨?_, ?_, ?_⟩
  · intro key signer
    rw [htable]
    exact Table.lastWrite_eq_some_iff _ key signer
  · intro inv payload proofs contexts hcall response
    rw [← htable, step_checkAuth hcall]
    exact (verdict_iff hlive.represented).symm
  · rintro key hnone js hadds inv payload proofs contexts hcall ⟨entry, hentry, rfl⟩
    rw [← htable] at hnone
    have hunknown := signers_final_eq_none hlive hnone js hadds
    have hrep := (hlive.final account js).represented
    rw [Machine.final_append, step_checkAuth hcall, refusal_of_unknown hrep hentry hunknown]
    rfl

/-- The sample admin adds a passkey and revokes it again. -/
theorem sample_decisions_follow_last_writes :
    (Sample.account.step ⟨0, fun _ => true, none, .checkAuth Sample.payload Sample.passkeyProofs []⟩
      (Sample.account.machine.final Sample.state
        ([Sample.addPasskey .standard, Sample.invoke (.revokeSigner (.secp256r1 [1]))] ++ []))).1 =
      .ok (.error .signerNotFound) := by
  apply (decisions_follow_last_writes Sample.deploy_deployment _).2.2 (.secp256r1 [1])
  · decide
  · rw [Machine.history_nil]
    exact List.forall_mem_nil _
  · rfl
  · rw [Sample.toList_passkeyProofs]
    exact ⟨_, List.mem_singleton_self _, rfl⟩

end Run
end StellarSmartAccount.SmartAccount
