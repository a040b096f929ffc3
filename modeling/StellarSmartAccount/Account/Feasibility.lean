import StellarSmartAccount.Account.RestrictedRole

/-! # Feasibility of validated policies

Validation looks at each policy alone, so it admits policies that exclude each other and
allow lists without a contract. A restricted signer whose policies are valid can
authorize something exactly when its windows overlap and its allow lists leave a
contract that no deny list takes.
-/

namespace StellarSmartAccount.SignerRole
open Foundations SmartAccount Soroban

attribute [local instance] timestampOrder timestampBounds

/-- Some context other than a call on the account is authorized now or later. -/
def Feasible (policies : List SignerPolicy) (env : Env) : Prop :=
  ∃ t context, env.timestamp ≤ t ∧ ¬ CallsAccount env.currentContractAddress context ∧
    t ∈ authorizedTimes policies env context

/-- The windows overlap, and the allow lists, if there are any, share a contract that is
on no deny list. -/
structure Compatible (policies : List SignerPolicy) : Prop where
  overlap : latestStart policies ≤ earliestEnd policies
  shared : allowLists policies ≠ [] →
    ∃ contract, (∀ contracts ∈ allowLists policies, contract ∈ contracts) ∧
      ∀ contracts ∈ denyLists policies, contract ∉ contracts

section Validated
variable {policies : List SignerPolicy} {env : Env}

theorem Compatible.of_feasible (h : Feasible policies env) : Compatible policies := by
  obtain ⟨t, context, -, -, hauthorized⟩ := h
  have hform : NormalForm policies { env with timestamp := t } context :=
    isAuthorized_iff_normalForm.mp hauthorized
  refine ⟨hform.started.trans hform.notEnded, fun hne => ?_⟩
  obtain ⟨c, hc, hallowed⟩ := hform.allowed hne
  exact ⟨c.contract, hallowed, hform.notDenied c hc⟩

/-- A context that all lists admit: a call on a shared contract, or a creation when
there is no allow list. -/
theorem Compatible.exists_context (h : Compatible policies)
    (hcheck : ∀ policy ∈ policies, policy.check env = .ok ()) :
    ∃ context, ¬ CallsAccount env.currentContractAddress context ∧
      (allowLists policies ≠ [] → ∃ c, context = .contract c ∧
        ∀ contracts ∈ allowLists policies, c.contract ∈ contracts) ∧
      ∀ c, context = .contract c → ∀ contracts ∈ denyLists policies, c.contract ∉ contracts := by
  by_cases hne : allowLists policies = []
  · refine ⟨.createContractHostFn ⟨.wasm (List.Vector.replicate 32 0),
      List.Vector.replicate 32 0⟩, ?_, fun h => absurd hne h, nofun⟩
    rintro ⟨c, hc, -⟩
    cases hc
  · obtain ⟨contract, hallowed, hdenied⟩ := h.shared hne
    refine ⟨.contract ⟨contract, "", []⟩, ?_, fun _ => ⟨_, rfl, hallowed⟩, ?_⟩
    · rintro ⟨c, ⟨⟩, hself⟩
      obtain ⟨contracts, hcontracts⟩ := List.exists_mem_of_ne_nil _ hne
      have hvalid := hcheck _ (mem_allowLists.mp hcontracts)
      exact SignerPolicy.contractAllowList_check_ok hvalid (hself ▸ hallowed contracts hcontracts)
    · rintro c ⟨⟩
      exact hdenied

theorem Compatible.feasible (h : Compatible policies)
    (hcheck : ∀ policy ∈ policies, policy.check env = .ok ()) : Feasible policies env := by
  have hnow : ∀ policy ∈ (windows policies).toFinset, env.timestamp ≤ policy.notAfter := by
    intro policy hpolicy
    have hwindow := mem_windows.mp (List.mem_toFinset.mp hpolicy)
    exact SignerPolicy.timeBased_check_not_ended (hcheck _ hwindow)
  obtain ⟨t, ht, hstart, hend⟩ := (exists_mem_commonWindow_iff hnow).mpr h.overlap
  obtain ⟨context, hself, hallowed, hdenied⟩ := h.exists_context hcheck
  have hform : NormalForm policies { env with timestamp := t } context :=
    ⟨hself, hstart, hend, hallowed, hdenied⟩
  exact ⟨t, context, ht, hself, isAuthorized_iff_normalForm.mpr hform⟩

end Validated

/-- A restricted signer whose policies pass validation can authorize something from then
on exactly when its policies are compatible. -/
theorem feasible_iff (policies : List SignerPolicy) (env : Env)
    (hcheck : ∀ policy ∈ policies, policy.check env = .ok ()) :
    Feasible policies env ↔ Compatible policies := by
  constructor
  · exact Compatible.of_feasible
  · intro h
    exact h.feasible hcheck

/-- A window and an allow list that a deny list leaves a contract of are feasible. -/
theorem sample_feasible :
    Feasible [.timeBased ⟨5, 20⟩,
      .contractAllowList ⟨[.contract (List.Vector.replicate 32 2)]⟩,
      .contractDenyList ⟨[.contract (List.Vector.replicate 32 3)]⟩]
      (Sample.account.checkEnv 10) := by
  apply (feasible_iff _ _ (by decide)).mpr
  refine ⟨by decide, fun _ => ⟨.contract (List.Vector.replicate 32 2), ?_, ?_⟩⟩
  · decide
  · decide

/-- An allow list without contracts passes validation and authorizes nothing. -/
theorem empty_allowList_infeasible :
    (∀ policy ∈ [SignerPolicy.contractAllowList ⟨[]⟩],
      policy.check (Sample.account.checkEnv 10) = .ok ()) ∧
      ¬ Feasible [.contractAllowList ⟨[]⟩] (Sample.account.checkEnv 10) := by
  constructor
  · decide
  · intro h
    obtain ⟨contract, hallowed, -⟩ := (Compatible.of_feasible h).shared (List.cons_ne_nil _ _)
    have hmem := hallowed [] (List.mem_singleton_self _)
    cases hmem

end StellarSmartAccount.SignerRole
