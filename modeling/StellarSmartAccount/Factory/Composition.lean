import StellarSmartAccount.Factory.Audit

/-! # The combined entry point and its parts

`deploy_account_and_invoke` is `deploy` followed by the calls of its list, each one on
the contract that it names and in the state that the one before it left. The calls do
not touch the factory's own state, and a list of calls is the sequence of its parts.
-/

namespace StellarSmartAccount.ContractFactory
open Foundations Soroban

section Parts
variable {α κ ω : Type} {env : Env α κ ω} {caller : Address} {args : ContractDeploymentArgs}
  {s : State α ω}

theorem deployAccountAndInvoke_eq_ok_iff_runs {calls : List ContractCall} {v : Val}
    {s' : State α ω} :
    (deployAccountAndInvoke env caller args calls).exec s = .ok (v, s') ↔
      ∃ contractId t results, (deploy env caller args).exec s = .ok (contractId, t) ∧
        env.authorizes contractId t.world = true ∧
        Tx.Runs (ContractCall.invoke env) calls t results s' ∧ v = .vec results := by
  rw [deployAccountAndInvoke_eq_ok_iff]
  simp only [invokeCalls_eq_ok_iff]

/-- Each call of a run is made once, on the contract it names, in the state that the
calls before it left, and its answer is the result at its position. -/
theorem runs_call {calls : List ContractCall} {results : List Val} {s' : State α ω}
    (h : Tx.Runs (ContractCall.invoke env) calls s results s') {i : ℕ} (hi : i < calls.length)
    (hi' : i < results.length) :
    ∃ t world, Tx.Runs (ContractCall.invoke env) (calls.take i) s (results.take i) t ∧
      env.network.invokeContract calls[i].contractId calls[i].func calls[i].args t.world =
        some (results[i], world) ∧
      Tx.Runs (ContractCall.invoke env) (calls.drop (i + 1)) { t with world }
        (results.drop (i + 1)) s' := by
  obtain ⟨t, t', hbefore, hat, hafter⟩ := h.split_at hi hi'
  obtain ⟨world, hworld, rfl⟩ := invokeContract_eq_ok_iff.mp hat
  exact ⟨t, world, hbefore, hworld, hafter⟩

theorem runs_frame {calls : List ContractCall} {results : List Val} {s' : State α ω}
    (h : Tx.Runs (ContractCall.invoke env) calls s results s') :
    s'.access = s.access ∧ s'.events = s.events ∧ s'.creations = s.creations := by
  obtain ⟨world, rfl⟩ := invokeCalls_ok (invokeCalls_eq_ok_iff.mpr h)
  exact ⟨rfl, rfl, rfl⟩

theorem deployAccountAndInvoke_append_iff {calls calls' : List ContractCall} {v : Val}
    {s' : State α ω} :
    (deployAccountAndInvoke env caller args (calls ++ calls')).exec s = .ok (v, s') ↔
      ∃ results t results',
        (deployAccountAndInvoke env caller args calls).exec s = .ok (.vec results, t) ∧
        (invokeCalls env calls').exec t = .ok (results', s') ∧ v = .vec (results ++ results') := by
  simp only [deployAccountAndInvoke_eq_ok_iff_runs, Tx.Runs.append_iff, invokeCalls_eq_ok_iff]
  constructor
  · rintro ⟨contractId, u, _, hdeploy, hauth, ⟨results, results', t, rfl, hfirst, hrest⟩, rfl⟩
    exact ⟨results, t, results', ⟨contractId, u, results, hdeploy, hauth, hfirst, rfl⟩, hrest, rfl⟩
  · rintro ⟨results, t, results', ⟨contractId, u, _, hdeploy, hauth, hfirst, ⟨⟩⟩, hrest, rfl⟩
    exact ⟨contractId, u, _, hdeploy, hauth, ⟨results, results', t, rfl, hfirst, hrest⟩, rfl⟩

/-- A successful `deploy_account_and_invoke` is `deploy` with the same caller and arguments
followed by its calls in list order, with their results in that order; it leaves the events
of the deployment, and the calls of `xs ++ ys` are those of `xs` followed by those of `ys`. -/
theorem deployAccountAndInvoke_eq_parts (env : Env α κ ω) (caller : Address)
    (args : ContractDeploymentArgs) (calls : List ContractCall) (s : State α ω) :
    (∀ v s', (deployAccountAndInvoke env caller args calls).exec s = .ok (v, s') →
      ∃ contractId t results, (deploy env caller args).exec s = .ok (contractId, t) ∧
        Tx.Runs (ContractCall.invoke env) calls t results s' ∧ v = .vec results ∧
        results.length = calls.length ∧
        (s'.access = t.access ∧ s'.events = t.events ∧ s'.creations = t.creations) ∧
        ∀ (i : ℕ) (hi : i < calls.length) (hi' : i < results.length), ∃ u world,
          Tx.Runs (ContractCall.invoke env) (calls.take i) t (results.take i) u ∧
          env.network.invokeContract calls[i].contractId calls[i].func calls[i].args u.world =
            some (results[i], world) ∧
          Tx.Runs (ContractCall.invoke env) (calls.drop (i + 1)) { u with world }
            (results.drop (i + 1)) s') ∧
      ∀ xs ys v s',
        (deployAccountAndInvoke env caller args (xs ++ ys)).exec s = .ok (v, s') ↔
          ∃ results t results',
            (deployAccountAndInvoke env caller args xs).exec s = .ok (.vec results, t) ∧
            (invokeCalls env ys).exec t = .ok (results', s') ∧ v = .vec (results ++ results') := by
  constructor
  · intro v s' h
    obtain ⟨contractId, t, results, hdeploy, -, hruns, rfl⟩ :=
      deployAccountAndInvoke_eq_ok_iff_runs.mp h
    exact ⟨contractId, t, results, hdeploy, hruns, rfl, hruns.length_eq, runs_frame hruns,
      fun i hi hi' => runs_call hruns hi hi'⟩
  · exact fun xs ys v s' => deployAccountAndInvoke_append_iff

end Parts

namespace Sample

/-- The sample factory on a network whose contracts answer every call with their address. -/
def echoFactory : Factory (List (Address × Symbol)) Unit (List (BytesN 32)) :=
  { factory with
    network := { network with
      invokeContract := fun contract _ _ world => some (.address contract, world) } }

def deploymentArgs : ContractDeploymentArgs := ⟨wasmHash, List.Vector.replicate 32 3, []⟩

/-- Two calls on two contracts, neither of them the deployed one. -/
def calls : List ContractCall :=
  [⟨.contract (List.Vector.replicate 32 4), "first", []⟩,
    ⟨.contract (List.Vector.replicate 32 5), "second", []⟩]

end Sample

/-- The sample deployment is followed by its two calls, which answer in list order. -/
theorem sample_deployAccountAndInvoke_eq_parts :
    ∃ contractId t results s',
      (deploy (Sample.echoFactory.env fun _ _ => true) Sample.admin Sample.deploymentArgs).exec
          (Sample.echoFactory.start Sample.admin [Sample.wasmHash]) = .ok (contractId, t) ∧
        Tx.Runs (ContractCall.invoke (Sample.echoFactory.env fun _ _ => true)) Sample.calls t
          results s' ∧
        Val.vec results = .vec (Sample.calls.map fun call => .address call.contractId) ∧
        s'.events = t.events := by
  obtain ⟨contractId, t, results, hdeploy, hruns, hresults, -, ⟨-, hevents, -⟩, -⟩ :=
    (deployAccountAndInvoke_eq_parts (Sample.echoFactory.env fun _ _ => true) Sample.admin
      Sample.deploymentArgs Sample.calls
      (Sample.echoFactory.start Sample.admin [Sample.wasmHash])).1
      (.vec (Sample.calls.map fun call => .address call.contractId)) _ rfl
  exact ⟨contractId, t, results, _, hdeploy, hruns, hresults.symm, hevents⟩

end StellarSmartAccount.ContractFactory
