import StellarSmartAccount.Factory.Contract
import StellarSmartAccount.Foundations.Machine
import StellarSmartAccount.Foundations.Sequence

/-! # Runs of the factory

Anyone may call any entry point, and roles may be managed in between. A successful
call has one effect, which names the contract it created.
-/

namespace StellarSmartAccount.ContractFactory
open Foundations Soroban

/-- A factory contract on a network. -/
structure Factory (α κ ω : Type) where
  access : AccessControl α κ
  network : Network ω
  address : Address

inductive FactoryCall (κ : Type) where
  | deploy (caller : Address) (deploymentArgs : ContractDeploymentArgs)
  | deployAccountAndInvoke (caller : Address) (deploymentArgs : ContractDeploymentArgs)
      (calls : List ContractCall)
  | uploadAndDeploy (caller : Address) (wasmBytes : Bytes) (salt : BytesN 32)
      (constructorArgs : List Val)
  | getDeployedAddress (salt : BytesN 32)
  | access (call : κ)

structure Invocation (κ ω : Type) where
  authorizes : Address → ω → Bool
  call : FactoryCall κ

variable {α κ ω : Type}

/-- The role management call of the library, with the authorizations of the
invocation. -/
def performAccess (env : Env α κ ω) (call : κ) : Host α ω Unit :=
  hostCall .access fun s => do
    let access ← env.access.perform call (env.authorizes · s.world) s.access
    return (⟨⟩, { s with access })

def FactoryCall.run (env : Env α κ ω) : FactoryCall κ → Host α ω Val
  | .deploy caller deploymentArgs => do
    return intoVal (← ContractFactory.deploy env caller deploymentArgs)
  | .deployAccountAndInvoke caller deploymentArgs calls =>
    ContractFactory.deployAccountAndInvoke env caller deploymentArgs calls
  | .uploadAndDeploy caller wasmBytes salt constructorArgs => do
    return intoVal (← ContractFactory.uploadAndDeploy env caller wasmBytes salt constructorArgs)
  | .getDeployedAddress salt => do return intoVal (← ContractFactory.getDeployedAddress env salt)
  | .access call => do
    performAccess env call
    return .scalar .void

namespace Factory
variable (factory : Factory α κ ω)

def env (authorizes : Address → ω → Bool) : Env α κ ω where
  access := factory.access
  network := factory.network
  currentContractAddress := factory.address
  authorizes := authorizes

/-- One invocation; a failed one is rolled back by the host. -/
def step (inv : Invocation κ ω) (s : State α ω) : Except Abort Val × State α ω :=
  Tx.commit (inv.call.run (factory.env inv.authorizes)) s

def machine : Machine (State α ω) (Invocation κ ω) (Except Abort Val) where
  step := factory.step

/-- The factory right after its construction. -/
def start (admin : Address) (world : ω) : State α ω :=
  (Tx.commit (constructor (factory.env fun _ _ => false) admin)
    ⟨factory.access.initial, [], [], world⟩).2

end Factory

/-- What a call can do to the factory. -/
inductive Effect (env : Env α κ ω) (s : State α ω) :
    FactoryCall κ → Except Abort Val × State α ω → Prop where
  | failed (call : FactoryCall κ) (r : Abort) : Effect env s call (.error r, s)
  | answered (salt : BytesN 32) :
      Effect env s (.getDeployedAddress salt)
        (.ok (intoVal ((withCurrentContract env salt).deployedAddress env)), s)
  | managed (call : κ) (access : α) :
      Effect env s (.access call) (.ok (.scalar .void), { s with access })
  | deployed {caller : Address} {args : ContractDeploymentArgs} {contractId : Address}
      {t : State α ω} (hpermitted : Permitted env caller s)
      (hcreate : (withCurrentContract env args.salt).create env args.wasmHash
        args.constructorArgs s = some (contractId, t)) :
      Effect env s (.deploy caller args) (.ok (intoVal contractId), announced contractId t)
  | invoked {caller : Address} {args : ContractDeploymentArgs} {calls : List ContractCall}
      {contractId : Address} {t : State α ω} (hpermitted : Permitted env caller s)
      (hcreate : (withCurrentContract env args.salt).create env args.wasmHash
        args.constructorArgs s = some (contractId, t))
      (hauth : env.authorizes contractId t.world = true) (results : List Val) (world : ω) :
      Effect env s (.deployAccountAndInvoke caller args calls)
        (.ok (.vec results), { announced contractId t with world })
  | uploaded {caller : Address} {wasmBytes : Bytes} {salt wasmHash : BytesN 32}
      {constructorArgs : List Val} {world : ω} {contractId : Address} {t : State α ω}
      (hpermitted : Permitted env caller s)
      (hupload : env.network.uploadContractWasm wasmBytes s.world = some (wasmHash, world))
      (hcreate : (withAddress env.currentContractAddress salt).create env wasmHash
        constructorArgs { s with world } = some (contractId, t)) :
      Effect env s (.uploadAndDeploy caller wasmBytes salt constructorArgs)
        (.ok (intoVal contractId), t)

section Step
variable {env : Env α κ ω} {s : State α ω}

theorem invokeContract_eq_ok_iff {contract : Address} {func : Symbol} {args : List Val}
    {result : Val} {t : State α ω} :
    (invokeContract env contract func args).exec s = .ok (result, t) ↔
      ∃ world, env.network.invokeContract contract func args s.world = some (result, world) ∧
        t = { s with world } := by
  rw [invokeContract, hostCall_eq_ok_iff]
  constructor
  · intro h
    obtain ⟨⟨result', world⟩, hworld, heq⟩ := Option.bind_eq_some_iff.mp h
    cases heq
    exact ⟨world, hworld, rfl⟩
  · rintro ⟨world, hworld, rfl⟩
    rw [hworld]
    rfl

/-- One call of the list. -/
def ContractCall.invoke (env : Env α κ ω) (call : ContractCall) : Host α ω Val :=
  invokeContract env call.contractId call.func call.args

theorem invokeCalls_eq_mapM (calls : List ContractCall) :
    invokeCalls env calls = calls.mapM (ContractCall.invoke env) := by
  refine (foldlM_concat_eq_mapM (ContractCall.invoke env) calls []).trans ?_
  simp

theorem invokeCalls_eq_ok_iff {calls : List ContractCall} {results : List Val} {t : State α ω} :
    (invokeCalls env calls).exec s = .ok (results, t) ↔
      Tx.Runs (ContractCall.invoke env) calls s results t :=
  Tx.exec_foldlM_concat_eq_ok_iff

theorem invokeCalls_ok {calls : List ContractCall} {results : List Val} {t : State α ω}
    (h : (invokeCalls env calls).exec s = .ok (results, t)) : ∃ world, t = { s with world } := by
  refine (invokeCalls_eq_ok_iff.mp h).invariant (P := fun u => ∃ world, u = { s with world }) ?_
    ⟨s.world, rfl⟩
  rintro call u result v hcall ⟨world, rfl⟩
  obtain ⟨world', -, rfl⟩ := invokeContract_eq_ok_iff.mp hcall
  exact ⟨world', rfl⟩

theorem effect_of_run {call : FactoryCall κ} {v : Val} {t : State α ω}
    (h : (call.run env).exec s = .ok (v, t)) : Effect env s call (.ok v, t) := by
  cases call with
  | deploy caller args =>
    obtain ⟨contractId, t', hdeploy, hpure⟩ := Tx.exec_bind_eq_ok_iff.mp h
    cases hpure
    obtain ⟨hpermitted, u, hcreate, rfl⟩ := deploy_eq_ok_iff.mp hdeploy
    exact .deployed hpermitted hcreate
  | deployAccountAndInvoke caller args calls =>
    obtain ⟨contractId, t', results, hdeploy, hauth, hcalls, rfl⟩ :=
      deployAccountAndInvoke_eq_ok_iff.mp h
    obtain ⟨hpermitted, u, hcreate, rfl⟩ := deploy_eq_ok_iff.mp hdeploy
    obtain ⟨world, rfl⟩ := invokeCalls_ok hcalls
    exact .invoked hpermitted hcreate hauth results world
  | uploadAndDeploy caller wasmBytes salt constructorArgs =>
    obtain ⟨contractId, t', hupload, hpure⟩ := Tx.exec_bind_eq_ok_iff.mp h
    cases hpure
    obtain ⟨hpermitted, wasmHash, world, hworld, hcreate⟩ := uploadAndDeploy_eq_ok_iff.mp hupload
    exact .uploaded hpermitted hworld hcreate
  | getDeployedAddress salt =>
    cases h
    exact .answered salt
  | access call =>
    obtain ⟨a, t', hperform, hpure⟩ := Tx.exec_bind_eq_ok_iff.mp h
    cases hpure
    obtain ⟨access, -, heq⟩ := Option.bind_eq_some_iff.mp (hostCall_eq_ok_iff.mp hperform)
    cases heq
    exact .managed call access

end Step

theorem step_effect (factory : Factory α κ ω) (inv : Invocation κ ω) (s : State α ω) :
    Effect (factory.env inv.authorizes) s inv.call (factory.step inv s) := by
  rw [Factory.step, Tx.commit]
  cases hrun : (inv.call.run (factory.env inv.authorizes)).exec s with
  | ok p => exact effect_of_run hrun
  | error r => exact .failed inv.call r

end StellarSmartAccount.ContractFactory
