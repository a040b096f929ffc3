import StellarSmartAccount.Factory.Audit

/-! # Deployment authority

Every contract of a run was created by a call whose caller argument held the deployer
role and authorized the call. A deployment with calls runs them only once the new
contract has authorized it, and a call that fails leaves nothing behind.
-/

namespace StellarSmartAccount.ContractFactory
open Foundations Soroban

variable {α κ ω : Type}

/-- The caller argument of a deploying call. -/
def FactoryCall.caller : FactoryCall κ → Option Address
  | .deploy caller _ => some caller
  | .deployAccountAndInvoke caller _ _ => some caller
  | .uploadAndDeploy caller _ _ _ => some caller
  | .getDeployedAddress _ => none
  | .access _ => none

/-- The call names a caller that holds the deployer role and has authorized it. -/
def PermittedDeployer (factory : Factory α κ ω) (inv : Invocation κ ω) (s : State α ω) : Prop :=
  ∃ caller, inv.call.caller = some caller ∧ Permitted (factory.env inv.authorizes) caller s

/-- A deployment with calls: without the deployment or without the authorization of the
deployed contract no call runs, a failing call undoes everything, and a success has run
all calls from the deployed state. -/
structure InvokesGuarded (factory : Factory α κ ω) (inv : Invocation κ ω) (caller : Address)
    (args : ContractDeploymentArgs) (calls : List ContractCall) (s : State α ω) : Prop where
  undeployed : ∀ r, (deploy (factory.env inv.authorizes) caller args).exec s = .error r →
    factory.step inv s = (.error r, s)
  unauthorized : ∀ contractId t,
    (deploy (factory.env inv.authorizes) caller args).exec s = .ok (contractId, t) →
    inv.authorizes contractId t.world = false → factory.step inv s = (.error .auth, s)
  failed : ∀ contractId t before call after results u,
    (deploy (factory.env inv.authorizes) caller args).exec s = .ok (contractId, t) →
    inv.authorizes contractId t.world = true → calls = before ++ call :: after →
    (invokeCalls (factory.env inv.authorizes) before).exec t = .ok (results, u) →
    factory.network.invokeContract call.contractId call.func call.args u.world = none →
      factory.step inv s = (.error .invocation, s)
  succeeded : ∀ v, (factory.step inv s).1 = .ok v → ∃ contractId t results,
    (deploy (factory.env inv.authorizes) caller args).exec s = .ok (contractId, t) ∧
    inv.authorizes contractId t.world = true ∧
    (invokeCalls (factory.env inv.authorizes) calls).exec t =
      .ok (results, (factory.step inv s).2) ∧ v = .vec results

section Step
variable {factory : Factory α κ ω} {inv : Invocation κ ω} {s : State α ω}

theorem permittedDeployer_of_creations (h : (factory.step inv s).2.creations ≠ s.creations) :
    PermittedDeployer factory inv s := by
  have heffect := step_effect factory inv s
  generalize hcall : inv.call = call at heffect
  generalize factory.step inv s = result at heffect h
  cases heffect with
  | failed call r => exact absurd rfl h
  | answered salt => exact absurd rfl h
  | managed call access => exact absurd rfl h
  | deployed hpermitted hcreate => exact ⟨_, congrArg FactoryCall.caller hcall, hpermitted⟩
  | invoked hpermitted hcreate hauth results world =>
    exact ⟨_, congrArg FactoryCall.caller hcall, hpermitted⟩
  | uploaded hpermitted hupload hcreate =>
    exact ⟨_, congrArg FactoryCall.caller hcall, hpermitted⟩

theorem invokeCalls_error {env : Env α κ ω} {before after : List ContractCall} {call : ContractCall}
    {results : List Val} {t u : State α ω}
    (hbefore : (invokeCalls env before).exec t = .ok (results, u))
    (hfails : env.network.invokeContract call.contractId call.func call.args u.world = none) :
    (invokeCalls env (before ++ call :: after)).exec t = .error .invocation := by
  have hcall : (invokeContract env call.contractId call.func call.args).exec u =
      .error .invocation := by
    apply hostCall_eq_error
    rw [hfails]
    rfl
  rw [invokeCalls_eq_mapM] at hbefore ⊢
  rw [List.mapM_append, Tx.exec_bind_ok hbefore]
  refine Tx.exec_bind_error ?_ _
  rw [List.mapM_cons]
  exact Tx.exec_bind_error hcall _

theorem invokesGuarded {caller : Address} {args : ContractDeploymentArgs}
    {calls : List ContractCall} (hcall : inv.call = .deployAccountAndInvoke caller args calls)
    (s : State α ω) : InvokesGuarded factory inv caller args calls s := by
  have hstep : factory.step inv s =
      Tx.commit (deployAccountAndInvoke (factory.env inv.authorizes) caller args calls) s := by
    rw [Factory.step, hcall]
    rfl
  constructor
  case undeployed =>
    intro r hdeploy
    rw [hstep, Tx.commit, deployAccountAndInvoke, Tx.exec_bind_error hdeploy]
  case unauthorized =>
    intro contractId t hdeploy hauth
    have hrequire : (requireAuth (factory.env inv.authorizes) contractId).exec t = .error .auth :=
      requireAuth_eq_error hauth
    rw [hstep, Tx.commit, deployAccountAndInvoke, Tx.exec_bind_ok hdeploy,
      Tx.exec_bind_error hrequire]
  case failed =>
    intro contractId t before call after results u hdeploy hauth hsplit hbefore hfails
    have hrequire : (requireAuth (factory.env inv.authorizes) contractId).exec t = .ok (⟨⟩, t) :=
      requireAuth_eq_ok_iff.mpr ⟨hauth, rfl⟩
    have hcalls : (invokeCalls (factory.env inv.authorizes) calls).exec t = .error .invocation :=
      hsplit ▸ invokeCalls_error hbefore hfails
    rw [hstep, Tx.commit, deployAccountAndInvoke, Tx.exec_bind_ok hdeploy,
      Tx.exec_bind_ok hrequire, Tx.exec_bind_error hcalls]
  case succeeded =>
    intro v hok
    rw [hstep, Tx.commit] at hok ⊢
    cases hrun : (deployAccountAndInvoke (factory.env inv.authorizes) caller args calls).exec s with
    | error r =>
      rw [hrun] at hok
      cases hok
    | ok p =>
      rw [hrun] at hok
      cases hok
      exact deployAccountAndInvoke_eq_ok_iff.mp hrun

end Step

/-- In every run each contract was created by a call with a permitted caller, only such
calls deploy, deployments with calls are guarded by the deployed contract, and a failed
call leaves the state as it was. -/
theorem deployment_authority (factory : Factory α κ ω) (admin : Address) (world : ω)
    (is : List (Invocation κ ω)) :
    (∀ creation ∈ (factory.machine.final (factory.start admin world) is).creations,
      ∃ pre inv, pre ++ [inv] <+: is ∧
        PermittedDeployer factory inv (factory.machine.final (factory.start admin world) pre) ∧
        creation ∉ (factory.machine.final (factory.start admin world) pre).creations ∧
        creation ∈ (factory.step inv
          (factory.machine.final (factory.start admin world) pre)).2.creations) ∧
    (∀ inv, (factory.step inv (factory.machine.final (factory.start admin world) is)).2.creations ≠
        (factory.machine.final (factory.start admin world) is).creations →
      PermittedDeployer factory inv (factory.machine.final (factory.start admin world) is)) ∧
    (∀ inv caller args calls, inv.call = .deployAccountAndInvoke caller args calls →
      InvokesGuarded factory inv caller args calls
        (factory.machine.final (factory.start admin world) is)) ∧
    ∀ inv r, (factory.step inv (factory.machine.final (factory.start admin world) is)).1 =
        .error r →
      (factory.step inv (factory.machine.final (factory.start admin world) is)).2 =
        factory.machine.final (factory.start admin world) is := by
  refine ⟨?_, ?_, ?_, ?_⟩
  · intro creation hcreation
    have hstart : creation ∉ (factory.start admin world).creations := List.not_mem_nil
    obtain ⟨pre, inv, hpre, hbefore, hafter⟩ :=
      factory.machine.exists_step_of_final (P := fun s => creation ∈ s.creations) hstart hcreation
    refine ⟨pre, inv, hpre, permittedDeployer_of_creations fun heq => hbefore ?_, hbefore, hafter⟩
    rwa [← heq]
  · intro inv hcreations
    exact permittedDeployer_of_creations hcreations
  · intro inv caller args calls hcall
    exact invokesGuarded hcall _
  · intro inv r herror
    exact Tx.commit_snd_of_error herror

namespace Sample

/-- A deployment with a call that the network refuses. -/
def deployAndInvoke : Invocation Unit (List (BytesN 32)) where
  authorizes _ _ := true
  call := .deployAccountAndInvoke admin ⟨wasmHash, List.Vector.replicate 32 5, []⟩
    [⟨.contract (List.Vector.replicate 32 5), "first", []⟩]

end Sample

/-- The contract that the sample admin uploads and deploys has a permitted deployer; a second
deployment, whose call fails afterwards, leaves the factory as it was. -/
theorem sample_deployment_authority :
    PermittedDeployer Sample.factory Sample.upload (Sample.factory.start Sample.admin []) ∧
      Sample.factory.step Sample.deployAndInvoke
        (Sample.factory.machine.final (Sample.factory.start Sample.admin []) [Sample.upload]) =
        (.error .invocation,
          Sample.factory.machine.final (Sample.factory.start Sample.admin []) [Sample.upload]) := by
  constructor
  · apply (deployment_authority Sample.factory Sample.admin [] []).2.1 Sample.upload
    decide
  · have hguarded := (deployment_authority Sample.factory Sample.admin [] [Sample.upload]).2.2.1
      Sample.deployAndInvoke _ _ _ rfl
    exact hguarded.failed _ _ [] _ [] [] _ rfl rfl rfl rfl rfl

end StellarSmartAccount.ContractFactory
