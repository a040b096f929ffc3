import StellarSmartAccount.Ledger.Noninterference

/-! # Deployment and set-up of an account in one transaction

The combined entry point of the factory deploys an account and performs calls on it. With a
build of the account and calls that are operations of the new account, it succeeds exactly
if the constructor does, the host lets the factory act for the new account, and each
operation is authorized and enabled where the ones before it have led.
-/

namespace StellarSmartAccount.Ledger
open Foundations Soroban SmartAccount ContractFactory

variable {α κ ρ : Type}

@[simp] theorem World.place_place (w : World ρ) (address : Address) (c c' : Contract) :
    (w.place address c).place address c' = w.place address c' := by
  simp [World.place, Table.set]

theorem World.contracts_place (w : World ρ) (address : Address) (c : Contract) :
    (w.place address c).contracts address = some c := Table.set_self _ _ _

/-- The call of an operation by name. -/
def operationCall (address : Address) (op : Operation) : ContractCall :=
  ⟨address, op.fnName, op.args⟩

/-- Each operation of a list is authorized and enabled where the ones before it have led. -/
def Admits (exec : Execution ρ) (address : Address) (w : World ρ) :
    Soroban.State → List Operation → Prop
  | _, [] => True
  | u, op :: ops =>
    exec.authorizes address (op.context address) (w.place address (.account u)) = true ∧
    op.Enabled w.modules.contains u ∧ Admits exec address w (op.next u) ops

namespace Chain
variable {chain : Chain κ ρ} {exec : Execution ρ} {w w' : World ρ} {address : Address}
  {u : Soroban.State} {v : Val}

theorem Live.place (hw : chain.Live w) (hu : SmartAccount.Live u)
    (hbuild : chain.accountBuild u.wasm = true) (hfactory : address ≠ chain.factory) :
    chain.Live (w.place address (.account u)) := by
  intro address' t ht
  rcases Table.set_eq_some_iff.mp ht with ⟨rfl, heq⟩ | ⟨-, hold⟩
  · cases heq
    exact ⟨hu, hbuild, hfactory⟩
  · exact hw address' t hold

/-- A call of an account through the network is answered by the account. -/
theorem invokeContract_account (hw : chain.Live w) (hu : w.contracts address = some (.account u))
    (func : Symbol) (args : List Val) :
    chain.invokeContract exec address func args w = chain.callAccount exec address func args w := by
  rw [invokeContract, invocation_account hw hu, Interaction.run]
  have hserve : chain.serve exec (.call address func args) w =
      chain.callAccount exec address func args w := rfl
  cases hcall : chain.callAccount exec address func args w with
  | none =>
    rw [hcall] at hserve
    simp only [services, hserve]
    rfl
  | some p =>
    rw [hcall] at hserve
    simp only [services, hserve]
    rfl

/-- One operation of a placed account, called through the network. -/
theorem invokeContract_operation_iff (hlive : chain.Live (w.place address (.account u)))
    (op : Operation) (hbuild : chain.accountBuild (op.next u).wasm = true) :
    chain.invokeContract exec address op.fnName op.args (w.place address (.account u)) =
        some (v, w') ↔
      exec.authorizes address (op.context address) (w.place address (.account u)) = true ∧
        op.Enabled w.modules.contains u ∧ v = .scalar .void ∧
        w' = w.place address (.account (op.next u)) := by
  have hu := w.contracts_place address (.account u)
  rw [invokeContract_account hlive hu, callAccount_eq_some_iff hlive hu]
  constructor
  · rintro ⟨op', hop', hauth, henabled, rfl, rfl⟩
    rw [op.ofCall_fnName_args] at hop'
    cases hop'
    rw [World.place_place, after_account hbuild]
    exact ⟨hauth, henabled, rfl, rfl⟩
  · rintro ⟨hauth, henabled, rfl, rfl⟩
    refine ⟨op, op.ofCall_fnName_args, hauth, henabled, rfl, ?_⟩
    rw [World.place_place, after_account hbuild]

end Chain

/-- The calls of operations on a placed account run exactly if the operations are admitted,
and leave the account in the state after all of them. -/
theorem runs_operations_iff {system : System α κ ρ} {exec : Execution ρ} {call : FactoryCall κ}
    {address : Address} (hfactory : address ≠ system.chain.factory) {w : World ρ}
    {ops : List Operation}
    (hkeeps : ∀ hash, .upgrade hash ∈ ops → system.chain.accountBuild hash = true)
    {u : Soroban.State} (hu : SmartAccount.Live u) (hw : system.chain.Live w)
    (hbuild : system.chain.accountBuild u.wasm = true) {t t' : SystemState α ρ}
    (ht : t.world = w.place address (.account u)) {results : List Val} :
    Tx.Runs (ContractCall.invoke (system.env exec call)) (ops.map (operationCall address)) t
        results t' ↔
      Admits exec address w u ops ∧ results = List.replicate ops.length (.scalar .void) ∧
        t' = { t with world := w.place address (.account (performAll u ops)) } := by
  induction ops generalizing u t results with
  | nil =>
    have hsame : { t with world := w.place address (.account (performAll u [])) } = t := by
      change { t with world := w.place address (.account u) } = t
      rw [← ht]
    rw [hsame]
    constructor
    · intro h
      cases h
      exact ⟨trivial, rfl, rfl⟩
    · rintro ⟨-, rfl, rfl⟩
      exact .nil _
  | cons op ops ih =>
    have hnext : SmartAccount.Live (op.next u) := hu.next op
    have hbuild' : system.chain.accountBuild (op.next u).wasm = true :=
      wasm_next hbuild fun hash hhash => hkeeps hash (hhash ▸ List.mem_cons_self)
    have hrest := fun hash hmem => hkeeps hash (List.mem_cons_of_mem op hmem)
    have hhead : ∀ v w', system.chain.invokeContract exec address op.fnName op.args
        (w.place address (.account u)) = some (v, w') ↔ _ := fun v w' =>
      Chain.invokeContract_operation_iff (hw.place hu hbuild hfactory) op hbuild'
    constructor
    · intro h
      cases h with
      | cons head tail =>
        obtain ⟨world, hworld, rfl⟩ := invokeContract_eq_ok_iff.mp head
        rw [ht] at hworld
        obtain ⟨hauth, henabled, rfl, rfl⟩ := (hhead _ _).mp hworld
        obtain ⟨hadmits, rfl, rfl⟩ := (ih hrest hnext hbuild' rfl).mp tail
        exact ⟨⟨hauth, henabled, hadmits⟩, rfl, rfl⟩
    · rintro ⟨⟨hauth, henabled, hadmits⟩, rfl, rfl⟩
      refine .cons (t := { t with world := w.place address (.account (op.next u)) })
        (invokeContract_eq_ok_iff.mpr ⟨_, ?_, rfl⟩) ?_
      · rw [ht]
        exact (hhead _ _).mpr ⟨hauth, henabled, rfl, rfl⟩
      · exact (ih hrest hnext hbuild' rfl).mpr ⟨hadmits, rfl, rfl⟩

/-- A transaction that deploys an account and performs operations on it. -/
structure AccountSetup where
  caller : Address
  wasmHash : BytesN 32
  salt : BytesN 32
  constructorArgs : List Val
  operations : List Operation

namespace AccountSetup
variable (setup : AccountSetup) (chain : Chain κ ρ)

/-- The address that the factory predicts for the salt. -/
def address : Address := chain.deployedAddress chain.factory setup.salt

def call : FactoryCall κ :=
  .deployAccountAndInvoke setup.caller ⟨setup.wasmHash, setup.salt, setup.constructorArgs⟩
    (setup.operations.map (operationCall (setup.address chain)))

end AccountSetup

namespace System

/-- Creation of an account through the deployer of the factory. -/
theorem create_account_iff {system : System α κ ρ} {exec : Execution ρ} {call : FactoryCall κ}
    {salt wasmHash : BytesN 32} {constructorArgs : List Val} {contractId : Address}
    {s t : SystemState α ρ} (hbuild : system.chain.accountBuild wasmHash = true) :
    (withCurrentContract (system.env exec call) salt).create (system.env exec call) wasmHash
        constructorArgs s = some (contractId, t) ↔
      contractId = system.chain.deployedAddress system.chain.factory salt ∧
      (∀ creation ∈ s.creations, creation.address ≠ contractId) ∧
      system.chain.available s.world contractId wasmHash = true ∧
      ∃ (signers : List Signer) (s₀ : Soroban.State), constructorArgs = [intoVal signers] ∧
        (system.chain.account contractId).deploy ⟨exec.timestamp, wasmHash, signers⟩ =
          .ok (⟨⟩, s₀) ∧
        t = { s with
          creations := s.creations ++ [⟨system.chain.factory, salt, contractId⟩]
          world := s.world.place contractId (.account s₀) } := by
  rw [create_eq_some_iff]
  refine and_congr_right fun hcontract => ?_
  subst hcontract
  refine and_congr_right fun _ => ?_
  constructor
  · rintro ⟨world, hworld, rfl⟩
    obtain ⟨hguard, signers, s₀, hargs, hdeploy, rfl⟩ :=
      (Chain.createContract_eq_some_iff hbuild).mp hworld
    exact ⟨hguard, signers, s₀, hargs, hdeploy, rfl⟩
  · rintro ⟨hguard, signers, s₀, hargs, hdeploy, rfl⟩
    exact ⟨s.world.place _ (.account s₀), (Chain.createContract_eq_some_iff hbuild).mpr
      ⟨hguard, signers, s₀, hargs, hdeploy, rfl⟩, rfl⟩

/-- The combined entry point with a build of the account and with calls that are operations of
the new account succeeds exactly if the caller is permitted, the predicted address is free,
the code is uploaded, the constructor accepts the signers, the host lets the factory act for
the new account, and each operation is authorized and enabled after the ones before it. It
then adds one creation, one DEPLOYED event and the account after all operations, whose table
holds the signers of the constructor with the writes of the operations on top. -/
theorem setup_iff (system : System α κ ρ) (exec : Execution ρ) (setup : AccountSetup)
    (hbuild : system.chain.accountBuild setup.wasmHash = true)
    (hkeeps : ∀ hash, .upgrade hash ∈ setup.operations → system.chain.accountBuild hash = true)
    (s : SystemState α ρ) (hlive : system.chain.Live s.world) (v : Val) (t : SystemState α ρ) :
    system.step ⟨exec, .factory (setup.call system.chain)⟩ s = (.ok v, t) ↔
      Permitted (system.env exec (setup.call system.chain)) setup.caller s ∧
      (∀ creation ∈ s.creations, creation.address ≠ setup.address system.chain) ∧
      system.chain.available s.world (setup.address system.chain) setup.wasmHash = true ∧
      ∃ (signers : List Signer) (s₀ : Soroban.State),
        setup.constructorArgs = [intoVal signers] ∧
        (system.chain.account (setup.address system.chain)).deploy
          ⟨exec.timestamp, setup.wasmHash, signers⟩ = .ok (⟨⟩, s₀) ∧
        exec.authorizes (setup.address system.chain) (system.context (setup.call system.chain))
          (s.world.place (setup.address system.chain) (.account s₀)) = true ∧
        Admits exec (setup.address system.chain) s.world s₀ setup.operations ∧
        v = .vec (List.replicate setup.operations.length (.scalar .void)) ∧
        t = { announced (setup.address system.chain) s with
          creations := s.creations ++
            [⟨system.chain.factory, setup.salt, setup.address system.chain⟩]
          world := s.world.place (setup.address system.chain)
            (.account (performAll s₀ setup.operations)) } ∧
        SmartAccount.signers (performAll s₀ setup.operations) =
          (Table.lastWrite (signers.map fun signer => (signer.key, some signer))).writeAll
            (setup.operations.flatMap Operation.writes) := by
  rw [step_eq_ok_iff]
  change (deployAccountAndInvoke (system.env exec (setup.call system.chain)) setup.caller
    ⟨setup.wasmHash, setup.salt, setup.constructorArgs⟩
    (setup.operations.map (operationCall (setup.address system.chain)))).exec s = .ok (v, t) ↔ _
  rw [deployAccountAndInvoke_eq_ok_iff]
  constructor
  · rintro ⟨contractId, u, results, hdeploy, hauth, hcalls, rfl⟩
    obtain ⟨hpermitted, u', hcreate, rfl⟩ := deploy_eq_ok_iff.mp hdeploy
    obtain ⟨rfl, hfree, havailable, signers, s₀, hargs, hs₀, rfl⟩ :=
      (create_account_iff hbuild).mp hcreate
    have hcode : system.chain.accountBuild s₀.wasm = true := by rwa [wasm_of_deploy hs₀]
    obtain ⟨hadmits, rfl, rfl⟩ := (runs_operations_iff (Chain.free_of_available havailable).2
      hkeeps (live_of_deploy hs₀) hlive hcode rfl).mp (invokeCalls_eq_ok_iff.mp hcalls)
    refine ⟨hpermitted, hfree, havailable, signers, s₀, hargs, hs₀, hauth, hadmits, rfl, rfl, ?_⟩
    rw [signers_performAll, signers_of_deploy hs₀]
  · rintro ⟨hpermitted, hfree, havailable, signers, s₀, hargs, hs₀, hauth, hadmits, rfl, rfl, -⟩
    have hcode : system.chain.accountBuild s₀.wasm = true := by rwa [wasm_of_deploy hs₀]
    refine ⟨setup.address system.chain, announced (setup.address system.chain) { s with
      creations := s.creations ++ [⟨system.chain.factory, setup.salt, setup.address system.chain⟩]
      world := s.world.place (setup.address system.chain) (.account s₀) }, _, ?_, hauth, ?_, rfl⟩
    · exact deploy_eq_ok_iff.mpr ⟨hpermitted, _, (create_account_iff hbuild).mpr
        ⟨rfl, hfree, havailable, signers, s₀, hargs, hs₀, rfl⟩, rfl⟩
    · exact invokeCalls_eq_ok_iff.mpr ((runs_operations_iff
        (Chain.free_of_available havailable).2 hkeeps (live_of_deploy hs₀) hlive hcode rfl).mpr
        ⟨hadmits, rfl, rfl⟩)

end System

namespace Sample

/-- The sample account with a passkey from the start. -/
def setup : AccountSetup where
  caller := ContractFactory.Sample.admin
  wasmHash := ContractFactory.Sample.wasmHash
  salt := salt
  constructorArgs := [intoVal [SmartAccount.Sample.admin]]
  operations := [.addSigner passkey]

/-- The admin of the account signs for the calls of the factory and of the operation; the host
asks the account after its construction. -/
def setupExecution : Execution Unit :=
  chain.authenticatedExecution 0
    [⟨SmartAccount.Sample.payload, SmartAccount.Sample.proofs,
      [system.context (setup.call chain),
        (Operation.addSigner passkey).context (setup.address chain)]⟩]
    (fun address => address = ContractFactory.Sample.admin)
    (start.world.place (setup.address chain) (.account state))

end Sample

/-- The sample account is deployed and has both signers after one transaction. -/
theorem sample_setup_iff :
    ∃ t, Sample.system.step ⟨Sample.setupExecution, .factory (Sample.setup.call Sample.chain)⟩
      Sample.start = (.ok (.vec [.scalar .void]), t) := by
  have hdeploy : (Sample.system.chain.account (Sample.setup.address Sample.chain)).deploy
      ⟨Sample.setupExecution.timestamp, Sample.setup.wasmHash, [SmartAccount.Sample.admin]⟩ =
        .ok (⟨⟩, Sample.state) := rfl
  refine ⟨_, (Sample.system.setup_iff Sample.setupExecution Sample.setup (by decide) ?_
    Sample.start (System.start_live _ _ _ _ _) _ _).mpr ⟨?_, nofun, by decide, _, _, rfl, hdeploy,
      by decide, ?_, rfl, rfl, ?_⟩⟩
  · rintro hash hmem
    cases hmem with
    | tail _ hmem => cases hmem
  · exact ⟨by decide, by decide⟩
  · exact ⟨by decide, rfl, trivial⟩
  · rw [signers_performAll, signers_of_deploy hdeploy]

end StellarSmartAccount.Ledger
