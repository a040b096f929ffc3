import StellarSmartAccount.Factory.Addresses
import StellarSmartAccount.Factory.Authority

/-! # What a call of the factory does to the network

The factory reaches the network through uploads, creations and calls only. A deploying call
creates one contract, at the address of its salt, after an upload and before the calls of
its list; any other call of the factory leaves the network alone.
-/

namespace StellarSmartAccount.ContractFactory
open Foundations Soroban

/-- The uploads and the calls of a network respect a relation between its states. -/
structure Network.Respects {ω : Type} (network : Network ω) (R : ω → ω → Prop) : Prop where
  refl : ∀ w, R w w
  trans : ∀ w w' w'', R w w' → R w' w'' → R w w''
  upload : ∀ {wasm w wasmHash w'}, network.uploadContractWasm wasm w = some (wasmHash, w') → R w w'
  invoke : ∀ {contract func args w v w'},
    network.invokeContract contract func args w = some (v, w') → R w w'

/-- What a deploying call creates: its salt, its code and its constructor arguments. -/
def FactoryCall.Creates {κ ω : Type} (network : Network ω) (salt wasmHash : BytesN 32)
    (constructorArgs : List Val) : FactoryCall κ → Prop
  | .deploy _ deploymentArgs => deploymentArgs = ⟨wasmHash, salt, constructorArgs⟩
  | .deployAccountAndInvoke _ deploymentArgs _ =>
    deploymentArgs = ⟨wasmHash, salt, constructorArgs⟩
  | .uploadAndDeploy _ wasmBytes salt' constructorArgs' =>
    (∃ w w', network.uploadContractWasm wasmBytes w = some (wasmHash, w')) ∧ salt' = salt ∧
      constructorArgs' = constructorArgs
  | _ => False

section Respects
variable {α κ ω : Type} {env : Env α κ ω} {R : ω → ω → Prop} {s t : State α ω}

theorem FactoryCall.Creates.salt {network : Network ω} {salt wasmHash : BytesN 32}
    {constructorArgs : List Val} {call : FactoryCall κ}
    (h : call.Creates network salt wasmHash constructorArgs) : call.salt = some salt := by
  cases call with
  | deploy caller args => exact congrArg some (congrArg ContractDeploymentArgs.salt h)
  | deployAccountAndInvoke caller args calls =>
    exact congrArg some (congrArg ContractDeploymentArgs.salt h)
  | uploadAndDeploy caller wasmBytes salt' constructorArgs' => exact congrArg some h.2.1
  | getDeployedAddress salt' => cases h
  | access call => cases h

namespace Network.Respects

theorem runs (hR : env.network.Respects R) {calls : List ContractCall} {results : List Val}
    (h : Tx.Runs (ContractCall.invoke env) calls s results t) : R s.world t.world := by
  refine h.invariant (P := fun u => R s.world u.world) ?_ (hR.refl _)
  intro call u v u' hcall hu
  obtain ⟨world, hworld, rfl⟩ := invokeContract_eq_ok_iff.mp hcall
  exact hR.trans _ _ _ hu (hR.invoke hworld)

/-- A call that returns is a creation for a permitted caller, at the address of its salt,
between two states that the other host functions lead to; or it has no salt and leaves the
network alone. -/
theorem run_parts (hR : env.network.Respects R) {call : FactoryCall κ} {v : Val}
    (h : (call.run env).exec s = .ok (v, t)) :
    (call.salt = none ∧ t.world = s.world) ∨
      ∃ caller salt wasmHash constructorArgs w w', call.caller = some caller ∧
        Permitted env caller s ∧ call.Creates env.network salt wasmHash constructorArgs ∧
        R s.world w ∧
        env.network.createContract (env.network.deployedAddress env.currentContractAddress salt)
          wasmHash constructorArgs w = some w' ∧ R w' t.world := by
  cases call with
  | deploy caller args =>
    obtain ⟨contractId, t', hdeploy, hpure⟩ := Tx.exec_bind_eq_ok_iff.mp h
    cases hpure
    obtain ⟨hpermitted, u, hcreate, rfl⟩ := deploy_eq_ok_iff.mp hdeploy
    obtain ⟨-, -, world, hworld, rfl⟩ := create_eq_some_iff.mp hcreate
    exact .inr ⟨_, _, _, _, _, _, rfl, hpermitted, rfl, hR.refl _, hworld, hR.refl _⟩
  | deployAccountAndInvoke caller args calls =>
    obtain ⟨contractId, u, results, hdeploy, -, hcalls, -⟩ :=
      deployAccountAndInvoke_eq_ok_iff.mp h
    obtain ⟨hpermitted, u', hcreate, rfl⟩ := deploy_eq_ok_iff.mp hdeploy
    obtain ⟨-, -, world, hworld, rfl⟩ := create_eq_some_iff.mp hcreate
    exact .inr ⟨_, _, _, _, _, _, rfl, hpermitted, rfl, hR.refl _, hworld,
      hR.runs (invokeCalls_eq_ok_iff.mp hcalls)⟩
  | uploadAndDeploy caller wasmBytes salt constructorArgs =>
    obtain ⟨contractId, t', hupload, hpure⟩ := Tx.exec_bind_eq_ok_iff.mp h
    cases hpure
    obtain ⟨hpermitted, wasmHash, world, hworld, hcreate⟩ := uploadAndDeploy_eq_ok_iff.mp hupload
    obtain ⟨-, -, world', hworld', rfl⟩ := create_eq_some_iff.mp hcreate
    exact .inr ⟨_, _, _, _, _, _, rfl, hpermitted, ⟨⟨_, _, hworld⟩, rfl, rfl⟩, hR.upload hworld,
      hworld', hR.refl _⟩
  | getDeployedAddress salt =>
    cases h
    exact .inl ⟨rfl, rfl⟩
  | access call =>
    obtain ⟨a, t', hperform, hpure⟩ := Tx.exec_bind_eq_ok_iff.mp h
    cases hpure
    obtain ⟨access, -, heq⟩ := Option.bind_eq_some_iff.mp (hostCall_eq_ok_iff.mp hperform)
    cases heq
    exact .inl ⟨rfl, rfl⟩

theorem run (hR : env.network.Respects R) {call : FactoryCall κ}
    (hcreate : ∀ {salt wasmHash constructorArgs w w'},
      call.Creates env.network salt wasmHash constructorArgs →
      env.network.createContract (env.network.deployedAddress env.currentContractAddress salt)
        wasmHash constructorArgs w = some w' → R w w')
    {v : Val} (h : (call.run env).exec s = .ok (v, t)) : R s.world t.world := by
  rcases hR.run_parts h with
    ⟨-, hsame⟩ | ⟨caller, salt, wasmHash, args, w, w', -, -, hcreates, hw, hworld, ht⟩
  · exact hsame ▸ hR.refl _
  · exact hR.trans _ _ _ hw (hR.trans _ _ _ (hcreate hcreates hworld) ht)

end Network.Respects
end Respects
end StellarSmartAccount.ContractFactory
