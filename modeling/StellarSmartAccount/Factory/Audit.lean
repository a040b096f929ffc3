import StellarSmartAccount.Factory.Deployments

/-! # The audit log of the factory

The addresses in the DEPLOYED events of a run are the contracts created on behalf of
the factory, in order, exactly when no `upload_and_deploy` of the run deploys.
-/

namespace StellarSmartAccount.ContractFactory
open Foundations Soroban

variable {α κ ω : Type}

/-- The contract that a DEPLOYED event names. -/
def deployedEvent (e : Event) : Option Address :=
  match e.topics, e.data with
  | ["DEPLOYED"], .vec [v] => (tryFromVal v).map ContractDeployedEvent.contractId
  | _, _ => none

/-- The contracts announced by the factory, oldest first. -/
def announcedContracts (s : State α ω) : List Address := s.events.filterMap deployedEvent

/-- The contracts created on behalf of the factory, oldest first. -/
def deployedContracts (factory : Factory α κ ω) (s : State α ω) : List Address :=
  (s.creations.filter (·.deployer = factory.address)).map Creation.address

/-- A permitted `upload_and_deploy` whose upload succeeds and whose uploaded code the
network then creates at the free address of the salt. -/
def UploadDeploys (factory : Factory α κ ω) (inv : Invocation κ ω) (s : State α ω) : Prop :=
  ∃ caller wasmBytes salt constructorArgs wasmHash world,
    inv.call = .uploadAndDeploy caller wasmBytes salt constructorArgs ∧
      Permitted (factory.env inv.authorizes) caller s ∧
      factory.network.uploadContractWasm wasmBytes s.world = some (wasmHash, world) ∧
      (∀ creation ∈ s.creations,
        creation.address ≠ factory.network.deployedAddress factory.address salt) ∧
      (factory.network.createContract (factory.network.deployedAddress factory.address salt)
        wasmHash constructorArgs world).isSome

section Create
variable {env : Env α κ ω} {deployer : Deployer} {wasmHash : BytesN 32}
  {constructorArgs : List Val} {s t : State α ω} {contractId : Address}

theorem create_eq_some_iff :
    deployer.create env wasmHash constructorArgs s = some (contractId, t) ↔
      contractId = deployer.deployedAddress env ∧
      (∀ creation ∈ s.creations, creation.address ≠ deployer.deployedAddress env) ∧
      ∃ world, env.network.createContract (deployer.deployedAddress env) wasmHash constructorArgs
          s.world = some world ∧
        t = { s with
          creations := s.creations ++ [⟨deployer.address, deployer.salt, contractId⟩]
          world } := by
  have hfree : s.creations.any (·.address = deployer.deployedAddress env) = true ↔
      ¬ ∀ creation ∈ s.creations, creation.address ≠ deployer.deployedAddress env := by
    simp
  rw [Deployer.create]
  constructor
  · intro h
    split_ifs at h with htaken
    obtain ⟨world, hworld, heq⟩ := Option.bind_eq_some_iff.mp h
    cases heq
    exact ⟨rfl, not_not.mp (mt hfree.mpr htaken), world, hworld, rfl⟩
  · rintro ⟨rfl, hnone, world, hworld, rfl⟩
    rw [if_neg (mt hfree.mp (not_not.mpr hnone)), hworld]
    rfl

theorem deployedContracts_create {factory : Factory α κ ω}
    (hself : deployer.address = factory.address)
    (h : deployer.create env wasmHash constructorArgs s = some (contractId, t)) :
    deployedContracts factory t = deployedContracts factory s ++ [contractId] ∧
      announcedContracts t = announcedContracts s := by
  obtain ⟨-, -, world, -, rfl⟩ := create_eq_some_iff.mp h
  constructor
  · simp [deployedContracts, List.filter_append, hself]
  · rfl

theorem announcedContracts_announced :
    announcedContracts (announced contractId s) = announcedContracts s ++ [contractId] := by
  rw [announcedContracts, announced, List.filterMap_append]
  rfl

theorem announced_create {factory : Factory α κ ω} (hself : deployer.address = factory.address)
    (h : announcedContracts s = deployedContracts factory s)
    (hcreate : deployer.create env wasmHash constructorArgs s = some (contractId, t)) :
    announcedContracts (announced contractId t) =
      deployedContracts factory (announced contractId t) := by
  obtain ⟨hdeployed, hannounced⟩ := deployedContracts_create hself hcreate
  change announcedContracts (announced _ _) = deployedContracts factory t
  rw [announcedContracts_announced, hannounced, hdeployed, h]

end Create

section Run
variable {factory : Factory α κ ω} {inv : Invocation κ ω} {s : State α ω}

theorem step_of_uploadDeploys (h : UploadDeploys factory inv s) :
    ∃ contractId,
      deployedContracts factory (factory.step inv s).2 =
        deployedContracts factory s ++ [contractId] ∧
      announcedContracts (factory.step inv s).2 = announcedContracts s := by
  obtain ⟨caller, wasmBytes, salt, constructorArgs, wasmHash, world, hcall, hpermitted, hupload,
    hfree, hsome⟩ := h
  obtain ⟨world', hworld⟩ := Option.isSome_iff_exists.mp hsome
  have hcreated : ∃ t, (withAddress factory.address salt).create (factory.env inv.authorizes)
      wasmHash constructorArgs { s with world } =
        some (factory.network.deployedAddress factory.address salt, t) :=
    ⟨_, create_eq_some_iff.mpr ⟨rfl, hfree, world', hworld, rfl⟩⟩
  obtain ⟨t, hcreate⟩ := hcreated
  have hrun := uploadAndDeploy_eq_ok_iff.mpr ⟨hpermitted, wasmHash, world, hupload, hcreate⟩
  have hstep : (factory.step inv s).2 = t := by
    rw [Factory.step, hcall, Tx.commit, FactoryCall.run, Tx.exec_bind_ok hrun]
    rfl
  rw [hstep]
  obtain ⟨hdeployed, hannounced⟩ := deployedContracts_create rfl hcreate
  exact ⟨_, hdeployed, hannounced⟩

theorem audit_step_iff (h : announcedContracts s = deployedContracts factory s) :
    announcedContracts (factory.step inv s).2 = deployedContracts factory (factory.step inv s).2 ↔
      ¬ UploadDeploys factory inv s := by
  constructor
  · intro hafter hupload
    obtain ⟨contractId, hdeployed, hannounced⟩ := step_of_uploadDeploys hupload
    rw [hdeployed, hannounced, h] at hafter
    simp at hafter
  · intro hnone
    have heffect := step_effect factory inv s
    generalize hcall : inv.call = call at heffect
    generalize factory.step inv s = result at heffect
    cases heffect with
    | failed call r => exact h
    | answered salt => exact h
    | managed call access => exact h
    | deployed hpermitted hcreate => exact announced_create rfl h hcreate
    | invoked hpermitted hcreate hauth results world => exact announced_create rfl h hcreate
    | uploaded hpermitted hupload hcreate =>
      obtain ⟨-, hfree, world', hworld, -⟩ := create_eq_some_iff.mp hcreate
      refine absurd ?_ hnone
      exact ⟨_, _, _, _, _, _, hcall, hpermitted, hupload, hfree,
        Option.isSome_iff_exists.mpr ⟨world', hworld⟩⟩

/-- The log of a run is faithful throughout exactly when none of its steps is an
`upload_and_deploy` that deploys. -/
theorem audit_throughout_iff (factory : Factory α κ ω) (admin : Address) (world : ω)
    (is : List (Invocation κ ω)) :
    (∀ pre, pre <+: is →
      announcedContracts (factory.machine.final (factory.start admin world) pre) =
        deployedContracts factory (factory.machine.final (factory.start admin world) pre)) ↔
      ∀ pre inv, pre ++ [inv] <+: is →
        ¬ UploadDeploys factory inv
          (factory.machine.final (factory.start admin world) pre) :=
  factory.machine.throughout_iff (I := fun _ => True)
    (R := fun _ s => announcedContracts s = deployedContracts factory s)
    (fun _ _ _ => trivial) (fun _ _ _ _ h => audit_step_iff h) trivial rfl is

end Run

namespace Sample

def admin : Address := .account (List.Vector.replicate 32 1)

/-- The empty module. -/
def wasm : Bytes := [0, 97, 115, 109, 1, 0, 0, 0]

def wasmHash : BytesN 32 :=
  ⟨[147, 164, 75, 187, 150, 199, 81, 33, 142, 76, 0, 212, 121, 228, 193, 67, 88, 18, 42, 56, 154,
    204, 161, 98, 5, 177, 228, 208, 220, 95, 148, 118], rfl⟩

/-- A network that knows one module and keeps the uploaded hashes. -/
def network : Network (List (BytesN 32)) where
  deployedAddress _ salt := .contract salt
  uploadContractWasm b world := if b = wasm then some (wasmHash, world ++ [wasmHash]) else none
  createContract _ hash _ world := if hash ∈ world then some world else none
  invokeContract _ _ _ _ := none

def factory : Factory (List (Address × Symbol)) Unit (List (BytesN 32)) where
  access :=
    { initial := []
      setAdmin := fun _ roles => roles
      grantRoleNoAuth := fun _ account role roles => roles ++ [(account, role)]
      hasRole := fun account role roles => (account, role) ∈ roles
      perform := fun _ _ _ => none }
  network := network
  address := .contract (List.Vector.replicate 32 2)

/-- The admin uploads the module and deploys it. -/
def upload : Invocation Unit (List (BytesN 32)) where
  authorizes address _ := address = admin
  call := .uploadAndDeploy admin wasm (List.Vector.replicate 32 3) []

end Sample

/-- The admin's `upload_and_deploy` creates a contract that the log does not name. -/
theorem uploadAndDeploy_announces_nothing :
    ¬ ∀ pre, pre <+: [Sample.upload] →
      announcedContracts (Sample.factory.machine.final (Sample.factory.start Sample.admin []) pre) =
        deployedContracts Sample.factory
          (Sample.factory.machine.final (Sample.factory.start Sample.admin []) pre) := by
  intro hthroughout
  have hfinal := hthroughout _ (List.prefix_refl _)
  revert hfinal
  decide

end StellarSmartAccount.ContractFactory
