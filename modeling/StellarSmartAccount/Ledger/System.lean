import StellarSmartAccount.Ledger.Accounts

/-! # The factory and the contracts as one system

A transaction calls the factory, uploads code, creates a contract or calls one. It is a
program that asks the ledger for one request after another, a call of the factory among
them; a failed transaction changes nothing. What holds across every request therefore holds
across every transaction and every run.
-/

namespace StellarSmartAccount.Ledger
open Foundations Soroban SmartAccount ContractFactory

instance : IntoVal ContractDeploymentArgs where
  intoVal args := .map [(.symbol "constructor_args", .vec args.constructorArgs),
    (.symbol "salt", intoVal args.salt), (.symbol "wasm_hash", intoVal args.wasmHash)]

instance : IntoVal ContractCall where
  intoVal call := .map [(.symbol "args", .vec call.args),
    (.symbol "contract_id", intoVal call.contractId), (.symbol "func", intoVal call.func)]

/-- The deployed factory on a ledger. The name and the arguments of a role management call
are those of the access-control library. -/
structure System (α κ ρ : Type) where
  chain : Chain κ ρ
  access : AccessControl α κ
  accessCall : κ → Symbol × List Val

inductive TransactionCall (κ : Type) where
  | factory (call : FactoryCall κ)
  | uploadContractWasm (wasm : Bytes)
  | createContract (deployer : Address) (salt wasmHash : BytesN 32) (constructorArgs : List Val)
  | invokeContract (contract : Address) (func : Symbol) (args : List Val)

structure Transaction (κ ρ : Type) extends Execution ρ where
  call : TransactionCall κ

abbrev SystemState (α ρ : Type) := ContractFactory.State α (World ρ)

namespace System
variable {α κ ρ : Type} (system : System α κ ρ)

/-- The name and the arguments of a call of the factory. -/
def invocation : FactoryCall κ → Symbol × List Val
  | .deploy caller deploymentArgs => ("deploy", [intoVal caller, intoVal deploymentArgs])
  | .deployAccountAndInvoke caller deploymentArgs calls =>
    ("deploy_account_and_invoke", [intoVal caller, intoVal deploymentArgs, intoVal calls])
  | .uploadAndDeploy caller wasmBytes salt constructorArgs =>
    ("upload_and_deploy",
      [intoVal caller, intoVal wasmBytes, intoVal salt, .vec constructorArgs])
  | .getDeployedAddress salt => ("get_deployed_address", [intoVal salt])
  | .access call => system.accessCall call

def context (call : FactoryCall κ) : Context :=
  .contract ⟨system.chain.factory, (system.invocation call).1, (system.invocation call).2⟩

/-- The factory on the network as one transaction sees it. -/
def factory (exec : Execution ρ) : Factory α κ (World ρ) where
  access := system.access
  network := system.chain.network exec
  address := system.chain.factory

/-- The environment of a call of the factory. -/
def env (exec : Execution ρ) (call : FactoryCall κ) : ContractFactory.Env α κ (World ρ) :=
  (system.factory exec).env fun address w => exec.authorizes address (system.context call) w

/-- A request outside of the factory, which may be a call of the factory. -/
def serve (exec : Execution ρ) : Request κ ρ → SystemState α ρ → Option (Val × SystemState α ρ)
  | .factory call, s => ((call.run (system.env exec call)).exec s).toOption
  | request, s => do
    let (v, world) ← system.chain.serve exec request s.world
    return (v, { s with world })

/-- A failed request is undone. -/
def services (exec : Execution ρ) : Machine (SystemState α ρ) (Request κ ρ) (Answer ρ) where
  step request s :=
    match system.serve exec request s with
    | some (v, t) => ((some v, t.world), t)
    | none => ((none, s.world), s)

/-- A transaction as a program. -/
def program (exec : Execution ρ) : TransactionCall κ → World ρ → Program κ ρ
  | .factory call, _ => .ask (.factory call) conclude
  | .uploadContractWasm wasm, _ => .ask (.upload wasm) conclude
  | .createContract deployer salt wasmHash constructorArgs, _ =>
    .ask (.create deployer salt wasmHash constructorArgs) fun
      | (some v, w) =>
        .attempt (system.chain.construction exec (system.chain.deployedAddress deployer salt)
          wasmHash constructorArgs w) fun result => if result.isSome then .stop v else .fail
      | (none, _) => .fail
  | .invokeContract contract func args, w => system.chain.invocation exec contract func args w

/-- A transaction that calls the factory also reports how the factory failed. -/
def run (exec : Execution ρ) : TransactionCall κ → Host α (World ρ) Val
  | .factory call => call.run (system.env exec call)
  | call => hostCall .invocation fun s =>
    (system.program exec call s.world).run (system.services exec) s

/-- One transaction; a failed one is rolled back. -/
def step (tx : Transaction κ ρ) (s : SystemState α ρ) :
    Except ContractFactory.Abort Val × SystemState α ρ :=
  Tx.commit (system.run tx.toExecution tx.call) s

def machine : Machine (SystemState α ρ) (Transaction κ ρ) (Except ContractFactory.Abort Val) where
  step := system.step

/-- The factory right after its construction, on a ledger without other contracts. -/
def start (exec : Execution ρ) (admin : Address) (modules : List (BytesN 32)) (rest : ρ) :
    SystemState α ρ :=
  (system.factory exec).start admin ⟨modules, Table.empty, rest⟩

/-- The requests of a transaction that are not undone, oldest first. -/
def requests (tx : Transaction κ ρ) (s : SystemState α ρ) : List (Request κ ρ) :=
  match (system.step tx s).1 with
  | .ok _ => (system.program tx.toExecution tx.call s.world).requests
      (system.services tx.toExecution) s
  | .error _ => []

variable {system} {exec : Execution ρ} {tx : Transaction κ ρ} {txs : List (Transaction κ ρ)}
  {s t : SystemState α ρ} {v : Val}

theorem serve_factory_eq_some_iff {call : FactoryCall κ} :
    system.serve exec (.factory call) s = some (v, t) ↔
      (call.run (system.env exec call)).exec s = .ok (v, t) := by
  change ((call.run (system.env exec call)).exec s).toOption = _ ↔ _
  cases (call.run (system.env exec call)).exec s with
  | error r => exact ⟨nofun, nofun⟩
  | ok p => exact ⟨fun h => congrArg _ (Option.some.inj h), fun h => congrArg _ (Except.ok.inj h)⟩

theorem serve_of_chain {request : Request κ ρ} (hrequest : ∀ call, request ≠ .factory call)
    (h : system.serve exec request s = some (v, t)) :
    ∃ w, system.chain.serve exec request s.world = some (v, w) ∧ t = { s with world := w } := by
  have hchain : system.serve exec request s =
      (system.chain.serve exec request s.world).bind fun p =>
        some (p.1, { s with world := p.2 }) := by
    cases request with
    | factory call => exact absurd rfl (hrequest call)
    | _ => rfl
  rw [hchain] at h
  obtain ⟨⟨v', w⟩, hserve, heq⟩ := Option.bind_eq_some_iff.mp h
  cases heq
  exact ⟨w, hserve, rfl⟩

theorem services_of_serve {request : Request κ ρ}
    (h : system.serve exec request s = some (v, t)) :
    (system.services exec).step request s = ((some v, t.world), t) := by
  simp only [services, h]

theorem services_of_serve_none {request : Request κ ρ} (h : system.serve exec request s = none) :
    (system.services exec).step request s = ((none, s.world), s) := by
  simp only [services, h]

theorem run_conclude {σ : Type} {M : Machine σ (Request κ ρ) (Answer ρ)} {request : Request κ ρ}
    {u u' : σ} :
    (Interaction.ask request conclude : Program κ ρ).run M u = some (v, u') ↔
      (M.step request u).1.1 = some v ∧ u' = (M.step request u).2 := by
  rw [Interaction.run]
  cases hanswer : (M.step request u).1 with
  | mk result w =>
    cases result with
    | none => simp [conclude, Interaction.run]
    | some v' => simp [conclude, Interaction.run, eq_comm]

/-- A transaction returns where its program does. -/
theorem run_eq_ok_iff {call : TransactionCall κ} :
    (system.run exec call).exec s = .ok (v, t) ↔
      (system.program exec call s.world).run (system.services exec) s = some (v, t) := by
  cases call with
  | factory call =>
    rw [program, run_conclude, run, ← serve_factory_eq_some_iff]
    cases hserve : system.serve exec (.factory call) s with
    | none =>
      rw [services_of_serve_none hserve]
      exact ⟨nofun, nofun⟩
    | some p =>
      rw [services_of_serve hserve]
      simp [Prod.ext_iff, eq_comm]
  | _ => exact hostCall_eq_ok_iff

theorem step_eq_ok_iff :
    system.step tx s = (.ok v, t) ↔ (system.run tx.toExecution tx.call).exec s = .ok (v, t) := by
  rw [step, Tx.commit]
  cases (system.run tx.toExecution tx.call).exec s with
  | error r => simp
  | ok p => simp [Prod.ext_iff]

/-- Where the program of a transaction gives up, the transaction fails. -/
theorem step_of_program_none (hcall : ∀ call, tx.call ≠ .factory call)
    (h : (system.program tx.toExecution tx.call s.world).run (system.services tx.toExecution) s =
      none) : system.step tx s = (.error .invocation, s) := by
  have hrun : (system.run tx.toExecution tx.call).exec s = .error .invocation := by
    generalize tx.call = call at hcall h ⊢
    cases call with
    | factory call => exact absurd rfl (hcall call)
    | _ => exact hostCall_eq_error h
  rw [step, Tx.commit, hrun]

/-- The effect of a transaction is that of its requests. -/
theorem step_snd_eq_final (system : System α κ ρ) (tx : Transaction κ ρ) (s : SystemState α ρ) :
    (system.step tx s).2 =
      (system.services tx.toExecution).final s (system.requests tx s) := by
  cases hanswer : (system.step tx s).1 with
  | error r =>
    rw [requests, hanswer]
    exact Tx.commit_snd_of_error hanswer
  | ok v =>
    rw [requests, hanswer]
    have hstep : system.step tx s = (.ok v, (system.step tx s).2) := Prod.ext hanswer rfl
    exact (Interaction.final_requests (run_eq_ok_iff.mp (step_eq_ok_iff.mp hstep))).symm

section Related
variable {R : World ρ → World ρ → Prop}

/-- A request respects a relation that the requests inside of the factory and the creations
by the factory respect. -/
theorem services_related (hR : system.chain.Respected exec R)
    (hcreate : ∀ {salt wasmHash constructorArgs w w'},
      system.chain.create exec (system.chain.deployedAddress system.chain.factory salt) wasmHash
        constructorArgs w = some w' → R w w') (request : Request κ ρ) (s : SystemState α ρ) :
    R s.world ((system.services exec).step request s).2.world := by
  cases hserve : system.serve exec request s with
  | none =>
    rw [services_of_serve_none hserve]
    exact hR.refl _
  | some p =>
    obtain ⟨v, t⟩ := p
    rw [services_of_serve hserve]
    by_cases hrequest : ∀ call, request ≠ .factory call
    · obtain ⟨w, hw, rfl⟩ := serve_of_chain hrequest hserve
      exact hR.serve hw
    · simp only [not_forall, not_not] at hrequest
      obtain ⟨call, rfl⟩ := hrequest
      exact hR.network.run (fun _ hcontract => hR.createContract hcreate hcontract)
        (serve_factory_eq_some_iff.mp hserve)

end Related

theorem services_within (request : Request κ ρ) (s : SystemState α ρ) :
    system.chain.Within exec s.world ((system.services exec).step request s).2.world :=
  services_related (Chain.within_respected system.chain exec) (fun h => .single (.created h))
    request s

theorem final_within (requests : List (Request κ ρ)) (s : SystemState α ρ) :
    system.chain.Within exec s.world ((system.services exec).final s requests).world :=
  (system.services exec).final_invariant (P := fun t => system.chain.Within exec s.world t.world)
    (fun request t ht => ht.trans (services_within request t)) .refl requests

theorem step_within (system : System α κ ρ) (tx : Transaction κ ρ) (s : SystemState α ρ) :
    system.chain.Within tx.toExecution s.world (system.step tx s).2.world := by
  rw [step_snd_eq_final]
  exact final_within _ s

/-- The transactions of a run and the states in which they begin. -/
def Begins (system : System α κ ρ) (s : SystemState α ρ) (txs : List (Transaction κ ρ))
    (exec : Execution ρ) (w : World ρ) : Prop :=
  ∃ pre tx, pre ++ [tx] <+: txs ∧ exec = tx.toExecution ∧ w = (system.machine.final s pre).world

/-- The account performs an operation in the course of a run. -/
abbrev Performs (system : System α κ ρ) (s : SystemState α ρ) (txs : List (Transaction κ ρ)) :
    Address → Soroban.State → Soroban.State → Prop :=
  system.chain.Performs (system.Begins s txs)

/-- The account is upgraded to other code in the course of a run. -/
abbrev Leaves (system : System α κ ρ) (s : SystemState α ρ) (txs : List (Transaction κ ρ)) :
    Address → Soroban.State → Prop :=
  system.chain.Leaves (system.Begins s txs)

theorem begins_append {txs' : List (Transaction κ ρ)} {w : World ρ}
    (h : system.Begins s txs exec w) : system.Begins s (txs ++ txs') exec w := by
  obtain ⟨pre, tx, hpre, hexec, hw⟩ := h
  exact ⟨pre, tx, hpre.trans (List.prefix_append txs txs'), hexec, hw⟩

/-- Over a run the contracts evolve by what its transactions authorize. -/
theorem final_evolves (system : System α κ ρ) (hs : system.chain.Live s.world)
    (txs : List (Transaction κ ρ)) :
    (system.chain.population (system.Begins s txs)).Evolves s.world.contracts
        (system.machine.final s txs).world.contracts ∧
      system.chain.Live (system.machine.final s txs).world := by
  induction txs using List.reverseRecOn with
  | nil => exact ⟨.refl _ _, hs⟩
  | append_singleton txs tx ih =>
    obtain ⟨hevolves, hlive⟩ := ih
    have hbegins : system.Begins s (txs ++ [tx]) tx.toExecution
        (system.machine.final s txs).world := ⟨txs, tx, List.prefix_refl _, rfl, rfl⟩
    obtain ⟨hstep, hlive'⟩ := Chain.evolves_of_within hbegins .refl hlive
      (system.step_within tx (system.machine.final s txs))
    rw [Machine.final_append]
    exact ⟨(Chain.evolves_mono (fun _ _ => begins_append) hevolves).trans hstep, hlive'⟩

/-- A single transaction begins in the state in which it is submitted. -/
theorem begins_singleton_iff {w : World ρ} :
    system.Begins s [tx] exec w ↔ exec = tx.toExecution ∧ w = s.world := by
  constructor
  · rintro ⟨pre, tx', hpre, rfl, rfl⟩
    have hlength := hpre.length_le
    cases pre with
    | nil =>
      rw [(List.cons_prefix_cons.mp hpre).1]
      exact ⟨rfl, rfl⟩
    | cons first pre => simp at hlength
  · rintro ⟨rfl, rfl⟩
    exact ⟨[], tx, List.prefix_refl _, rfl, rfl⟩

theorem start_contracts (system : System α κ ρ) (exec : Execution ρ) (admin : Address)
    (modules : List (BytesN 32)) (rest : ρ) :
    (system.start exec admin modules rest).world.contracts = Table.empty := rfl

theorem start_live (system : System α κ ρ) (exec : Execution ρ) (admin : Address)
    (modules : List (BytesN 32)) (rest : ρ) :
    system.chain.Live (system.start exec admin modules rest).world := by
  intro address s hs
  rw [start_contracts] at hs
  cases hs

end System

namespace Sample

/-- The other contracts ask the factory for a deployment or pass a call on to the contract that
their first argument names; what they deploy themselves goes to one address. -/
def chain : Chain Unit Unit where
  crypto := SmartAccount.Sample.crypto
  deployedAddress deployer salt :=
    if deployer = ContractFactory.Sample.factory.address then .contract salt
    else .contract (List.Vector.replicate 32 255)
  validWasm _ := true
  accountBuild hash := hash = ContractFactory.Sample.wasmHash
  factory := ContractFactory.Sample.factory.address
  constructProgram _ _ _ _ _ := .stop (.scalar .void)
  callProgram _ contract func args _ :=
    match args with
    | .address target :: args => .ask (.call target func args) conclude
    | args => .ask (.factory (.deploy contract
        ⟨ContractFactory.Sample.wasmHash, List.Vector.replicate 32 1, args⟩)) conclude

def system : System (List (Address × Symbol)) Unit Unit where
  chain := chain
  access := ContractFactory.Sample.factory.access
  accessCall _ := ("grant_role", [])

def salt : BytesN 32 := List.Vector.replicate 32 1

/-- The admin of the factory and nobody else authorizes calls. -/
def adminExecution : Execution Unit where
  timestamp := 0
  entries := []
  authorizes address _ _ := address = ContractFactory.Sample.admin

/-- The admin of the factory deploys the sample account. -/
def deploy : Transaction Unit Unit where
  toExecution := adminExecution
  call := .factory (.deploy ContractFactory.Sample.admin
    ⟨ContractFactory.Sample.wasmHash, salt, [intoVal [SmartAccount.Sample.admin]]⟩)

/-- The ledger with the factory and the uploaded module. -/
def start : SystemState (List (Address × Symbol)) Unit :=
  system.start adminExecution ContractFactory.Sample.admin [ContractFactory.Sample.wasmHash] ⟨⟩

/-- The sample account with the code that the factory deploys. -/
def state : Soroban.State :=
  { SmartAccount.Sample.state with wasm := ContractFactory.Sample.wasmHash }

theorem deployed : (system.machine.final start [deploy]).world.contracts
    SmartAccount.Sample.account.address = some (.account state) := rfl

end Sample
end StellarSmartAccount.Ledger
