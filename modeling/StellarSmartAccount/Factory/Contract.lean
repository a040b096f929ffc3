import StellarSmartAccount.Soroban.Host

/-! # The contract factory

Three entry points deploy contracts on behalf of the factory, one of them through
another. The access-control library and the rest of the network are parameters: a
network state that the factory changes only by uploads, creations and calls.
Calls back into the factory are refused by the host, so a called contract changes
nothing but the network.
-/

namespace StellarSmartAccount
open Foundations Soroban

structure ContractCall where
  contractId : Address
  func : Symbol
  args : List Val

structure ContractDeploymentArgs where
  wasmHash : BytesN 32
  salt : BytesN 32
  constructorArgs : List Val

structure ContractDeployedEvent where
  contractId : Address

instance : IntoVal ContractDeployedEvent where
  intoVal e := .map [(.symbol "contract_id", intoVal e.contractId)]

instance : TryFromVal ContractDeployedEvent where
  tryFromVal
    | .map [(.symbol "contract_id", v)] => (tryFromVal v).map .mk
    | _ => none

instance : LawfulVal ContractDeployedEvent := ⟨fun _ => rfl⟩

namespace ContractFactory

def deployedContract : Symbol := "DEPLOYED"

/-- The access-control library over its own state; its entry points are the role
management calls that the factory inherits. -/
structure AccessControl (α κ : Type) where
  initial : α
  setAdmin : Address → α → α
  grantRoleNoAuth : (caller account : Address) → Symbol → α → α
  hasRole : Address → Symbol → α → Bool
  perform : κ → (Address → Bool) → α → Option α

/-- The host functions that reach beyond the factory. -/
structure Network (ω : Type) where
  deployedAddress : (deployer : Address) → (salt : BytesN 32) → Address
  uploadContractWasm : Bytes → ω → Option (BytesN 32 × ω)
  createContract : Address → (wasmHash : BytesN 32) → (constructorArgs : List Val) → ω → Option ω
  invokeContract : Address → Symbol → List Val → ω → Option (Val × ω)

structure Env (α κ ω : Type) where
  access : AccessControl α κ
  network : Network ω
  currentContractAddress : Address
  /-- Whether `require_auth` on an address returns in this invocation. -/
  authorizes : Address → ω → Bool

/-- A contract that was created through the factory's deployer. -/
structure Creation where
  deployer : Address
  salt : BytesN 32
  address : Address
  deriving DecidableEq

structure State (α ω : Type) where
  access : α
  events : List Event
  creations : List Creation
  world : ω

inductive Abort where
  | missingRole
  | auth
  | upload
  | creation
  | invocation
  | access
  deriving DecidableEq

abbrev Host (α ω : Type) := Tx (State α ω) Abort

variable {α κ ω : Type}

/-- A host function that may fail, which aborts the invocation. -/
def hostCall {β : Type} (abort : Abort) (f : State α ω → Option (β × State α ω)) : Host α ω β :=
  fun s =>
    match f s with
    | some p => .ok p
    | none => .error abort

def requireAuth (env : Env α κ ω) (address : Address) : Host α ω Unit :=
  hostCall .auth fun s => if env.authorizes address s.world then some (⟨⟩, s) else none

def publish (topics : List Symbol) (data : Val) : Host α ω Unit :=
  modify fun s => { s with events := s.events ++ [⟨topics, data⟩] }

structure Deployer where
  address : Address
  salt : BytesN 32

def withCurrentContract (env : Env α κ ω) (salt : BytesN 32) : Deployer :=
  ⟨env.currentContractAddress, salt⟩

def withAddress (address : Address) (salt : BytesN 32) : Deployer := ⟨address, salt⟩

namespace Deployer

def deployedAddress (self : Deployer) (env : Env α κ ω) : Address :=
  env.network.deployedAddress self.address self.salt

/-- Creation of a contract at the derived address, unless it is taken or the network
refuses. -/
def create (self : Deployer) (env : Env α κ ω) (wasmHash : BytesN 32) (constructorArgs : List Val)
    (s : State α ω) : Option (Address × State α ω) :=
  if s.creations.any (·.address = self.deployedAddress env) then none
  else do
    let world ← env.network.createContract (self.deployedAddress env) wasmHash constructorArgs
      s.world
    let creation : Creation := ⟨self.address, self.salt, self.deployedAddress env⟩
    return (self.deployedAddress env, { s with creations := s.creations ++ [creation], world })

/-- Deployment on behalf of another address takes its authorization. -/
def deployV2 (self : Deployer) (env : Env α κ ω) (wasmHash : BytesN 32)
    (constructorArgs : List Val) : Host α ω Address := do
  unless self.address = env.currentContractAddress do requireAuth env self.address
  hostCall .creation (self.create env wasmHash constructorArgs)

end Deployer

def uploadContractWasm (env : Env α κ ω) (wasm : Bytes) : Host α ω (BytesN 32) :=
  hostCall .upload fun s => do
    let (wasmHash, world) ← env.network.uploadContractWasm wasm s.world
    return (wasmHash, { s with world })

def invokeContract (env : Env α κ ω) (contract : Address) (func : Symbol) (args : List Val) :
    Host α ω Val :=
  hostCall .invocation fun s => do
    let (result, world) ← env.network.invokeContract contract func args s.world
    return (result, { s with world })

def ensureRole (env : Env α κ ω) (caller : Address) (role : Symbol) : Host α ω Unit :=
  hostCall .missingRole fun s =>
    if env.access.hasRole caller role s.access then some (⟨⟩, s) else none

/-- The macro `only_role`. -/
def onlyRole (env : Env α κ ω) (caller : Address) (role : Symbol) : Host α ω Unit := do
  ensureRole env caller role
  requireAuth env caller

/-- `__constructor`. -/
def constructor (env : Env α κ ω) (admin : Address) : Host α ω Unit := do
  modify fun s => { s with access := env.access.setAdmin admin s.access }
  modify fun s => { s with access := env.access.grantRoleNoAuth admin admin "deployer" s.access }

def deploy (env : Env α κ ω) (caller : Address) (deploymentArgs : ContractDeploymentArgs) :
    Host α ω Address := do
  onlyRole env caller "deployer"
  let contractId ← (withCurrentContract env deploymentArgs.salt).deployV2 env
    deploymentArgs.wasmHash deploymentArgs.constructorArgs
  publish [deployedContract] (.vec [intoVal (⟨contractId⟩ : ContractDeployedEvent)])
  return contractId

/-- The calls of the list in order, with their results. -/
def invokeCalls (env : Env α κ ω) (calls : List ContractCall) : Host α ω (List Val) :=
  calls.foldlM (fun results call => do
    return results ++ [← invokeContract env call.contractId call.func call.args]) []

def deployAccountAndInvoke (env : Env α κ ω) (caller : Address)
    (deploymentArgs : ContractDeploymentArgs) (calls : List ContractCall) : Host α ω Val := do
  let contractId ← deploy env caller deploymentArgs
  requireAuth env contractId
  return .vec (← invokeCalls env calls)

def uploadAndDeploy (env : Env α κ ω) (caller : Address) (wasmBytes : Bytes) (salt : BytesN 32)
    (constructorArgs : List Val) : Host α ω Address := do
  onlyRole env caller "deployer"
  let wasmHash ← uploadContractWasm env wasmBytes
  (withAddress env.currentContractAddress salt).deployV2 env wasmHash constructorArgs

def getDeployedAddress (env : Env α κ ω) (salt : BytesN 32) : Host α ω Address :=
  return (withCurrentContract env salt).deployedAddress env

/-- The caller holds the deployer role and has authorized the invocation. -/
def Permitted (env : Env α κ ω) (caller : Address) (s : State α ω) : Prop :=
  env.access.hasRole caller "deployer" s.access = true ∧ env.authorizes caller s.world = true

/-- The state after the DEPLOYED event of a contract. -/
def announced (contractId : Address) (s : State α ω) : State α ω :=
  let event : Event :=
    ⟨[deployedContract], .vec [intoVal (⟨contractId⟩ : ContractDeployedEvent)]⟩
  { s with events := s.events ++ [event] }

section Exec
variable {env : Env α κ ω} {caller : Address} {s : State α ω}

theorem hostCall_eq_ok_iff {β : Type} {abort : Abort} {f : State α ω → Option (β × State α ω)}
    {p : β × State α ω} : Tx.exec (hostCall abort f) s = .ok p ↔ f s = some p := by
  change (match f s with | some p => Except.ok p | none => Except.error abort) = _ ↔ _
  cases f s <;> simp

theorem hostCall_eq_error {β : Type} {abort : Abort} {f : State α ω → Option (β × State α ω)}
    (h : f s = none) : Tx.exec (hostCall abort f) s = .error abort := by
  change (match f s with | some p => Except.ok p | none => Except.error abort) = _
  rw [h]

theorem requireAuth_eq_ok_iff {address : Address} {p : Unit × State α ω} :
    (requireAuth env address).exec s = .ok p ↔
      env.authorizes address s.world = true ∧ p = (⟨⟩, s) := by
  rw [requireAuth, hostCall_eq_ok_iff]
  cases env.authorizes address s.world <;> simp [eq_comm]

theorem requireAuth_eq_error {address : Address} (h : env.authorizes address s.world = false) :
    (requireAuth env address).exec s = .error .auth :=
  hostCall_eq_error (if_neg (Bool.eq_false_iff.mp h))

theorem onlyRole_eq_ok_iff {p : Unit × State α ω} :
    (onlyRole env caller "deployer").exec s = .ok p ↔ Permitted env caller s ∧ p = (⟨⟩, s) := by
  simp only [onlyRole, Tx.exec_bind_eq_ok_iff, requireAuth_eq_ok_iff, ensureRole,
    hostCall_eq_ok_iff, Permitted]
  constructor
  · rintro ⟨a, t, hrole, hauth, rfl⟩
    split_ifs at hrole with h
    cases hrole
    exact ⟨⟨h, hauth⟩, rfl⟩
  · rintro ⟨⟨hrole, hauth⟩, rfl⟩
    exact ⟨⟨⟩, s, by rw [if_pos hrole], hauth, rfl⟩

/-- The factory needs no authorization for its own deployer. -/
theorem deployV2_eq_ok_iff {deployer : Deployer}
    (hself : deployer.address = env.currentContractAddress) {wasmHash : BytesN 32}
    {constructorArgs : List Val} {p : Address × State α ω} :
    (deployer.deployV2 env wasmHash constructorArgs).exec s = .ok p ↔
      deployer.create env wasmHash constructorArgs s = some p := by
  rw [Deployer.deployV2, if_pos hself]
  exact hostCall_eq_ok_iff

theorem deploy_eq_ok_iff {args : ContractDeploymentArgs} {contractId : Address}
    {s' : State α ω} :
    (deploy env caller args).exec s = .ok (contractId, s') ↔
      Permitted env caller s ∧ ∃ t, (withCurrentContract env args.salt).create env args.wasmHash
        args.constructorArgs s = some (contractId, t) ∧ s' = announced contractId t := by
  simp only [deploy, Tx.exec_bind_eq_ok_iff, onlyRole_eq_ok_iff]
  constructor
  · rintro ⟨a, t, ⟨hpermitted, heq⟩, address, u, hcreate, b, v, hpublish, hpure⟩
    cases heq
    cases hpublish
    cases hpure
    exact ⟨hpermitted, u, (deployV2_eq_ok_iff rfl).mp hcreate, rfl⟩
  · rintro ⟨hpermitted, t, hcreate, rfl⟩
    exact ⟨⟨⟩, s, ⟨hpermitted, rfl⟩, contractId, t, (deployV2_eq_ok_iff rfl).mpr hcreate, ⟨⟩,
      announced contractId t, rfl, rfl⟩

theorem deployAccountAndInvoke_eq_ok_iff {args : ContractDeploymentArgs}
    {calls : List ContractCall} {v : Val} {s' : State α ω} :
    (deployAccountAndInvoke env caller args calls).exec s = .ok (v, s') ↔
      ∃ contractId t results, (deploy env caller args).exec s = .ok (contractId, t) ∧
        env.authorizes contractId t.world = true ∧
        (invokeCalls env calls).exec t = .ok (results, s') ∧ v = .vec results := by
  simp only [deployAccountAndInvoke, Tx.exec_bind_eq_ok_iff, requireAuth_eq_ok_iff]
  constructor
  · rintro ⟨contractId, t, hdeploy, _, t', ⟨hauth, heq⟩, results, u, hcalls, hpure⟩
    cases heq
    cases hpure
    exact ⟨contractId, t, results, hdeploy, hauth, hcalls, rfl⟩
  · rintro ⟨contractId, t, results, hdeploy, hauth, hcalls, rfl⟩
    exact ⟨contractId, t, hdeploy, ⟨⟩, t, ⟨hauth, rfl⟩, results, s', hcalls, rfl⟩

theorem uploadAndDeploy_eq_ok_iff {wasmBytes : Bytes} {salt : BytesN 32}
    {constructorArgs : List Val} {contractId : Address} {s' : State α ω} :
    (uploadAndDeploy env caller wasmBytes salt constructorArgs).exec s = .ok (contractId, s') ↔
      Permitted env caller s ∧ ∃ wasmHash world,
        env.network.uploadContractWasm wasmBytes s.world = some (wasmHash, world) ∧
          (withAddress env.currentContractAddress salt).create env wasmHash constructorArgs
            { s with world } = some (contractId, s') := by
  simp only [uploadAndDeploy, Tx.exec_bind_eq_ok_iff, onlyRole_eq_ok_iff, uploadContractWasm,
    hostCall_eq_ok_iff]
  constructor
  · rintro ⟨a, t, ⟨hpermitted, heq⟩, wasmHash, u, hupload, hcreate⟩
    cases heq
    obtain ⟨⟨wasmHash', world⟩, hworld, heq⟩ := Option.bind_eq_some_iff.mp hupload
    cases heq
    exact ⟨hpermitted, _, world, hworld, (deployV2_eq_ok_iff rfl).mp hcreate⟩
  · rintro ⟨hpermitted, wasmHash, world, hworld, hcreate⟩
    refine ⟨⟨⟩, s, ⟨hpermitted, rfl⟩, wasmHash, { s with world }, ?_,
      (deployV2_eq_ok_iff rfl).mpr hcreate⟩
    rw [hworld]
    rfl

end Exec
end ContractFactory
end StellarSmartAccount
