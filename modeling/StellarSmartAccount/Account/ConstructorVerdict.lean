import Mathlib.Data.Set.Card
import StellarSmartAccount.Account.Construction

/-! # The exact outcome of the constructor

On an empty instance storage the constructor completes exactly for the lists with an
admin, distinct keys and valid policies, and then stores each signer of the list
under its key. Otherwise it aborts for the first of its three reasons; the storage
and the authorization of the inner additions never fail.
-/

namespace StellarSmartAccount.SmartAccount
open Foundations Soroban

/-- Why the constructor refuses a list, in the order of its checks. -/
inductive ConstructorRefusal (env : Env) (signers : List Signer) : Abort → Prop where
  | noAdmin (hnone : ∀ signer ∈ signers, signer.role ≠ .admin) :
      ConstructorRefusal env signers
        (.contractError Error.insufficientPermissionsOnCreation.code)
  | duplicateKeys (hadmin : ∃ signer ∈ signers, signer.role = .admin)
      (hdup : ¬ (signers.map Signer.key).Nodup) :
      ConstructorRefusal env signers (.contractError Error.signerAlreadyExists.code)
  | invalidPolicy (hadmin : ∃ signer ∈ signers, signer.role = .admin)
      (hnodup : (signers.map Signer.key).Nodup) {before after : List SignerPolicy}
      {policy : SignerPolicy} {e : Error}
      (hsplit : signers.flatMap (·.role.policies) = before ++ policy :: after)
      (hbefore : ∀ p ∈ before, p.check env = .ok ()) (hcheck : policy.check env = .error e) :
      ConstructorRefusal env signers (.contractError e.code)

section Refusal
variable {env : Env} {signers : List Signer}

theorem policyAbort_eq_some_iff {policy : SignerPolicy} {r : Abort} :
    policyAbort env policy = some r ↔
      ∃ e, policy.check env = .error e ∧ r = .contractError e.code := by
  rw [policyAbort]
  cases policy.check env <;> simp [eq_comm]

/-- The validation loops visit the policies of the whole list in order. -/
theorem findSome?_signerAbort (signers : List Signer) :
    signers.findSome? (signerAbort env) =
      (signers.flatMap (·.role.policies)).findSome? (policyAbort env) := by
  induction signers with
  | nil => rfl
  | cons signer signers ih =>
    rw [List.findSome?_cons, List.flatMap_cons, List.findSome?_append, ← ih, signerAbort]
    cases signer.role.policies.findSome? (policyAbort env) <;> rfl

theorem refusal_noAdmin_iff (hnone : ∀ signer ∈ signers, signer.role ≠ .admin) {r : Abort} :
    ConstructorRefusal env signers r ↔
      r = .contractError Error.insufficientPermissionsOnCreation.code := by
  constructor
  · intro h
    cases h with
    | noAdmin _ => rfl
    | duplicateKeys hadmin _ =>
      obtain ⟨signer, hmem, hrole⟩ := hadmin
      exact absurd hrole (hnone signer hmem)
    | invalidPolicy hadmin _ _ _ _ =>
      obtain ⟨signer, hmem, hrole⟩ := hadmin
      exact absurd hrole (hnone signer hmem)
  · rintro rfl
    exact .noAdmin hnone

theorem refusal_duplicateKeys_iff (hadmin : ∃ signer ∈ signers, signer.role = .admin)
    (hdup : ¬ (signers.map Signer.key).Nodup) {r : Abort} :
    ConstructorRefusal env signers r ↔ r = .contractError Error.signerAlreadyExists.code := by
  constructor
  · intro h
    cases h with
    | noAdmin hnone =>
      obtain ⟨signer, hmem, hrole⟩ := hadmin
      exact absurd hrole (hnone signer hmem)
    | duplicateKeys _ _ => rfl
    | invalidPolicy _ hnodup _ _ _ => exact absurd hnodup hdup
  · rintro rfl
    exact .duplicateKeys hadmin hdup

theorem refusal_invalidPolicy_iff (hadmin : ∃ signer ∈ signers, signer.role = .admin)
    (hnodup : (signers.map Signer.key).Nodup) {r : Abort} :
    ConstructorRefusal env signers r ↔ signers.findSome? (signerAbort env) = some r := by
  rw [findSome?_signerAbort, List.findSome?_eq_some_iff]
  constructor
  · intro h
    cases h with
    | noAdmin hnone =>
      obtain ⟨signer, hmem, hrole⟩ := hadmin
      exact absurd hrole (hnone signer hmem)
    | duplicateKeys _ hdup => exact absurd hnodup hdup
    | invalidPolicy _ _ hsplit hbefore hcheck =>
      exact ⟨_, _, _, hsplit, policyAbort_eq_some_iff.mpr ⟨_, hcheck, rfl⟩,
        fun p hp => policyAbort_eq_none_iff.mpr (hbefore p hp)⟩
  · rintro ⟨before, policy, after, hsplit, hpolicy, hbefore⟩
    obtain ⟨e, hcheck, rfl⟩ := policyAbort_eq_some_iff.mp hpolicy
    exact .invalidPolicy hadmin hnodup hsplit
      (fun p hp => policyAbort_eq_none_iff.mp (hbefore p hp)) hcheck

theorem constructorAbort_eq_some_iff {r : Abort} :
    constructorAbort env signers = some r ↔ ConstructorRefusal env signers r := by
  by_cases hadmin : ∃ signer ∈ signers, signer.role = .admin
  · have hany : signers.any (·.role = .admin) = true := by simpa using hadmin
    rw [constructorAbort, if_pos hany, Option.none_or]
    by_cases hnodup : (signers.map Signer.key).Nodup
    · rw [if_pos hnodup, Option.none_or, refusal_invalidPolicy_iff hadmin hnodup]
    · rw [if_neg hnodup, Option.some_or, Option.some.injEq,
        refusal_duplicateKeys_iff hadmin hnodup, eq_comm]
  · have hany : ¬ signers.any (·.role = .admin) = true := by simpa using hadmin
    have hnone : ∀ signer ∈ signers, signer.role ≠ .admin :=
      fun signer hmem hrole => hadmin ⟨signer, hmem, hrole⟩
    rw [constructorAbort, if_neg hany, Option.some_or, Option.some.injEq,
      refusal_noAdmin_iff hnone, eq_comm]

theorem ConstructorRefusal.ne {r : Abort} (h : ConstructorRefusal env signers r) :
    r ≠ .contractError Error.storageEntryAlreadyExists.code ∧
      r ≠ .contractError Error.alreadyInitialized.code ∧ r ≠ .auth := by
  cases h with
  | noAdmin hnone => decide
  | duplicateKeys hadmin hdup => decide
  | invalidPolicy hadmin hnodup hsplit hbefore hcheck =>
    rcases SignerPolicy.check_error hcheck with rfl | rfl | rfl <;> decide

end Refusal

section Empty
variable {s : State}

theorem represented_of_empty (h : s.instanceMap = ∅) : Represented s := by
  constructor
  intro k v hv
  rw [h, Finmap.lookup_empty] at hv
  cases hv

theorem signers_of_empty (h : s.instanceMap = ∅) : signers s = Table.empty := by
  funext key
  rw [signers, h, Finmap.lookup_empty]
  rfl

theorem flag_of_empty (h : s.instanceMap = ∅) (name : Symbol) : s.flag name = false := by
  rw [State.flag, h, Finmap.lookup_empty]
  rfl

/-- On an empty storage the constructor fills the table or aborts for its refusal. -/
theorem constructor_exec_of_empty (h : s.instanceMap = ∅) (env : Env) (signers : List Signer) :
    (constructor env signers).exec s =
      Tx.outcome ⟨⟩ (Initializable.marked (signers.foldl added s))
        (constructorAbort env signers) := by
  apply constructor_exec (represented_of_empty h) (flag_of_empty h _)
  intro signer _
  rw [signers_of_empty h]
  rfl

theorem signers_constructed (h : s.instanceMap = ∅) {signers : List Signer}
    (hnodup : (signers.map Signer.key).Nodup) (key : SignerKey) (signer : Signer) :
    SmartAccount.signers (Initializable.marked (signers.foldl added s)) key = some signer ↔
      signer ∈ signers ∧ signer.key = key := by
  rw [signers_marked, signers_foldl_added, signers_of_empty h, ← Table.lastWrite_eq_writeAll]
  exact Table.lastWrite_map_eq_some_iff hnodup key signer

/-- A table filled from a list with distinct keys has as many entries as the list. -/
theorem ncard_isSome {t : Table SignerKey Signer} {signers : List Signer}
    (hnodup : (signers.map Signer.key).Nodup)
    (ht : ∀ key signer, t key = some signer ↔ signer ∈ signers ∧ signer.key = key) :
    Set.ncard {key | (t key).isSome = true} = signers.length := by
  have hkeys : {key | (t key).isSome = true} = ↑(signers.map Signer.key).toFinset := by
    ext key
    simp only [Set.mem_ofPred_eq, Option.isSome_iff_exists, ht, List.coe_toFinset, List.mem_map]
  rw [hkeys, Set.ncard_coe_finset, List.toFinset_card_of_nodup hnodup, List.length_map]

end Empty

section Verdict
variable {s : State}

/-- On an empty instance storage the constructor completes exactly for a list with an
admin, distinct keys and valid policies; the table then maps exactly the keys of the
list to their signers and the account is initialized. Otherwise it aborts for the first
refusal, never for the storage or the flag, and no authorization plays a part. -/
theorem constructor_correct (hempty : s.instanceMap = ∅) (env : Env) (signers : List Signer) :
    ((∃ t, (constructor env signers).exec s = .ok (⟨⟩, t)) ↔
      (∃ signer ∈ signers, signer.role = .admin) ∧ (signers.map Signer.key).Nodup ∧
        ∀ signer ∈ signers, ∀ policies, signer.role = .restricted policies →
          ∀ policy ∈ policies, policy.check env = .ok ()) ∧
    (∀ t, (constructor env signers).exec s = .ok (⟨⟩, t) →
      (∀ key signer, SmartAccount.signers t key = some signer ↔
        signer ∈ signers ∧ signer.key = key) ∧
      Set.ncard {key | (SmartAccount.signers t key).isSome = true} = signers.length ∧
      t.flag Initializable.initialized = true) ∧
    (∀ r, (constructor env signers).exec s = .error r ↔ ConstructorRefusal env signers r) ∧
    (∀ r, (constructor env signers).exec s = .error r →
      r ≠ .contractError Error.storageEntryAlreadyExists.code ∧
        r ≠ .contractError Error.alreadyInitialized.code ∧ r ≠ .auth) ∧
    ∀ authorizes, (constructor { env with authorizes } signers).exec s =
      (constructor env signers).exec s := by
  have hok {t : State} : (constructor env signers).exec s = .ok (⟨⟩, t) ↔
      constructorAbort env signers = none ∧ t = Initializable.marked (signers.foldl added s) := by
    rw [constructor_exec_of_empty hempty, Tx.outcome_eq_ok_iff]
    simp
  have herror {r : Abort} : (constructor env signers).exec s = .error r ↔
      ConstructorRefusal env signers r := by
    rw [constructor_exec_of_empty hempty, Tx.outcome_eq_error_iff, constructorAbort_eq_some_iff]
  refine ⟨?_, ?_, fun r => herror, fun r hr => (herror.mp hr).ne, ?_⟩
  · simp only [hok, exists_eq_right]
    rw [constructorAbort_eq_none_iff]
    simp only [SignerRole.mem_policies_iff, forall_exists_index, and_imp]
    refine and_congr_right fun _ => and_congr_right fun _ => ?_
    constructor
    · intro h signer hsigner policies hrole policy hpolicy
      exact h signer hsigner policy policies hrole hpolicy
    · intro h signer hsigner policy policies hrole hpolicy
      exact h signer hsigner policies hrole policy hpolicy
  · intro t ht
    obtain ⟨hnone, rfl⟩ := hok.mp ht
    have hnodup := (constructorAbort_eq_none_iff.mp hnone).2.1
    exact ⟨signers_constructed hempty hnodup,
      ncard_isSome hnodup (signers_constructed hempty hnodup), flag_initialized_marked⟩
  · intro authorizes
    rw [constructor_exec_of_empty hempty, constructor_exec_of_empty hempty]
    rfl

/-- A list without an admin is refused before its duplicate key is seen. -/
theorem sample_constructor_correct :
    (constructor (Sample.account.checkEnv 0) [.ed25519 ⟨Sample.publicKey⟩ .standard,
        .ed25519 ⟨Sample.publicKey⟩ .standard]).exec (created Sample.deployment.wasm) =
      .error (.contractError Error.insufficientPermissionsOnCreation.code) := by
  apply ((constructor_correct rfl _ _).2.2.1 _).mpr
  apply ConstructorRefusal.noAdmin
  decide

end Verdict
end StellarSmartAccount.SmartAccount
