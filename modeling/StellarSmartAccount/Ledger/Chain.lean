import StellarSmartAccount.Account.Dispatch
import StellarSmartAccount.Factory.Deployments

/-! # A ledger of smart accounts

The network that the factory deploys to. A creation with a build of the account runs its
constructor, and a call of a contract with such code runs one of its entry points. All other
contracts are unknown programs. While they run they may call and create contracts, upload
code, call the factory and write to every contract with other code, also to one that was an
account before; they may even install a build of the account there.
-/

namespace StellarSmartAccount.Ledger
open Foundations Soroban SmartAccount

/-- A contract on the ledger. At the address of an account nothing but builds of the account
has run so far; elsewhere other code may have run, also where a build runs now. -/
inductive Contract where
  | account (s : State)
  | other (s : State)

def Contract.state : Contract → State
  | .account s => s
  | .other s => s

/-- The uploaded code, the contracts by address and the state of everything else. -/
structure World (ρ : Type) where
  modules : List (BytesN 32)
  contracts : Table Address Contract
  rest : ρ

/-- The ledger with a contract at an address. -/
def World.place {ρ : Type} (w : World ρ) (address : Address) (c : Contract) : World ρ :=
  { w with contracts := w.contracts.set address (some c) }

/-- The host's answers in one transaction: the ledger time, the entries that the transaction
carries, and whether `require_auth` on an address returns in the call that a context
describes. -/
structure Execution (ρ : Type) where
  timestamp : UInt64
  entries : List AuthEntry
  authorizes : Address → Context → World ρ → Bool

/-- What other code may ask for. -/
inductive Request (κ ρ : Type) where
  | call (contract : Address) (func : Symbol) (args : List Val)
  | create (deployer : Address) (salt wasmHash : BytesN 32) (constructorArgs : List Val)
  | upload (wasm : Bytes)
  | write (contract : Address) (s : State)
  | store (rest : ρ)
  | factory (call : ContractFactory.FactoryCall κ)

/-- The result of a request, `none` if it fails, with the ledger after it. -/
abbrev Answer (ρ : Type) := Option Val × World ρ

abbrev Program (κ ρ : Type) := Interaction (Request κ ρ) (Answer ρ) Val

/-- The ledger's side of the contracts: the host's functions, the address of the factory and
the code of all other contracts. -/
structure Chain (κ ρ : Type) where
  crypto : Crypto
  deployedAddress : (deployer : Address) → (salt : BytesN 32) → Address
  validWasm : Bytes → Bool
  /-- Whether a hash is that of a build of the account contract. -/
  accountBuild : BytesN 32 → Bool
  factory : Address
  constructProgram : Execution ρ → Address → (wasmHash : BytesN 32) →
    (constructorArgs : List Val) → World ρ → Program κ ρ
  callProgram : Execution ρ → Address → Symbol → List Val → World ρ → Program κ ρ

/-- The end of a program that asks for one thing only. -/
def conclude {κ ρ : Type} : Answer ρ → Program κ ρ
  | (some v, _) => .stop v
  | (none, _) => .fail

namespace Chain
variable {κ ρ : Type} (chain : Chain κ ρ) (exec : Execution ρ)

def account (address : Address) : Account := ⟨chain.crypto, address⟩

/-- The contract at an address, if it runs a build of the account. -/
def running (w : World ρ) (address : Address) : Option Contract :=
  (w.contracts address).filter fun c => chain.accountBuild c.state.wasm

/-- What a contract is after it ran a build of the account and came to a state: an account
that was upgraded to other code is no account any more. -/
def after : Contract → State → Contract
  | .account _, s => if chain.accountBuild s.wasm then .account s else .other s
  | .other _, s => .other s

/-- The environment of a call of a contract that runs a build of the account. -/
def accountEnv (contract : Address) (func : Symbol) (args : List Val) (w : World ρ) : Env where
  crypto := chain.crypto
  currentContractAddress := contract
  timestamp := exec.timestamp
  wasmExists hash := w.modules.contains hash
  authorizes address _ := exec.authorizes address (.contract ⟨contract, func, args⟩) w

def callAccount (contract : Address) (func : Symbol) (args : List Val) (w : World ρ) :
    Option (Val × World ρ) := do
  let c ← chain.running w contract
  let (v, s) ← invoke (chain.accountEnv exec contract func args w) func args c.state
  return (v, w.place contract (chain.after c s))

def uploadContractWasm (wasm : Bytes) (w : World ρ) : Option (BytesN 32 × World ρ) :=
  let hash := chain.crypto.sha256 wasm
  if chain.validWasm wasm then some (hash, { w with modules := w.modules.insert hash }) else none

/-- A creation needs uploaded code and a free address. -/
def available (w : World ρ) (address : Address) (wasmHash : BytesN 32) : Bool :=
  w.modules.contains wasmHash && (w.contracts address).isNone && decide (address ≠ chain.factory)

/-- The creation of an account from decoded signers. -/
def createAccount (address : Address) (wasmHash : BytesN 32) (constructorArgs : List Val)
    (w : World ρ) : Option (World ρ) :=
  match constructorArgs with
  | [signers] => do
    let signers : List Signer ← tryFromVal signers
    match (chain.account address).deploy ⟨exec.timestamp, wasmHash, signers⟩ with
    | .ok (_, s) => return w.place address (.account s)
    | .error _ => none
  | _ => none

/-- Other code starts with empty storage and runs its constructor after the creation. -/
def create (address : Address) (wasmHash : BytesN 32) (constructorArgs : List Val)
    (w : World ρ) : Option (World ρ) := do
  guard (chain.available w address wasmHash)
  if chain.accountBuild wasmHash then
    chain.createAccount exec address wasmHash constructorArgs w
  else
    return w.place address (.other (created wasmHash))

/-- Nobody but the factory creates contracts on behalf of the factory. -/
def mayDeploy (deployer : Address) (salt wasmHash : BytesN 32) (constructorArgs : List Val)
    (w : World ρ) : Bool :=
  decide (deployer ≠ chain.factory) &&
    exec.authorizes deployer
      (.createContractWithCtorHostFn ⟨.wasm wasmHash, salt, constructorArgs⟩) w

/-- Other code gives a contract that runs it any state, with the same or with uploaded code. -/
def mayWrite (c : Contract) (s : State) (w : World ρ) : Bool :=
  match c with
  | .account _ => false
  | .other s' => !chain.accountBuild s'.wasm &&
    (decide (s.wasm = s'.wasm) || w.modules.contains s.wasm)

/-- A request to the ledger; the factory does not call itself back. -/
def serve : Request κ ρ → World ρ → Option (Val × World ρ)
  | .call contract func args, w => chain.callAccount exec contract func args w
  | .create deployer salt wasmHash constructorArgs, w => do
    guard (chain.mayDeploy exec deployer salt wasmHash constructorArgs w)
    let address := chain.deployedAddress deployer salt
    let w' ← chain.create exec address wasmHash constructorArgs w
    return (.address address, w')
  | .upload wasm, w => do
    let (wasmHash, w') ← chain.uploadContractWasm wasm w
    return (intoVal wasmHash, w')
  | .write contract s, w => do
    let c ← w.contracts contract
    guard (chain.mayWrite c s w)
    return (.scalar .void, w.place contract (.other s))
  | .store rest, w => some (.scalar .void, { w with rest })
  | .factory _, _ => none

/-- A failed request is undone. -/
def services : Machine (World ρ) (Request κ ρ) (Answer ρ) where
  step request w :=
    match chain.serve exec request w with
    | some (v, w') => ((some v, w'), w')
    | none => ((none, w), w)

/-- What runs after a creation; the constructor of an account has run by then. -/
def construction (address : Address) (wasmHash : BytesN 32) (constructorArgs : List Val)
    (w : World ρ) : Program κ ρ :=
  if chain.accountBuild wasmHash then .stop (.scalar .void)
  else chain.constructProgram exec address wasmHash constructorArgs w

/-- A call of a contract other than the factory. -/
def invocation (contract : Address) (func : Symbol) (args : List Val) (w : World ρ) :
    Program κ ρ :=
  if contract = chain.factory then .fail
  else if (chain.running w contract).isSome then .ask (.call contract func args) conclude
  else chain.callProgram exec contract func args w

def createContract (address : Address) (wasmHash : BytesN 32) (constructorArgs : List Val)
    (w : World ρ) : Option (World ρ) := do
  let w' ← chain.create exec address wasmHash constructorArgs w
  let (_, w'') ← (chain.construction exec address wasmHash constructorArgs w').run
    (chain.services exec) w'
  return w''

def invokeContract (contract : Address) (func : Symbol) (args : List Val) (w : World ρ) :
    Option (Val × World ρ) :=
  (chain.invocation exec contract func args w).run (chain.services exec) w

/-- The network as a call of the factory sees it. -/
def network : ContractFactory.Network (World ρ) where
  deployedAddress := chain.deployedAddress
  uploadContractWasm := chain.uploadContractWasm
  createContract := chain.createContract exec
  invokeContract := chain.invokeContract exec

end Chain
end StellarSmartAccount.Ledger
