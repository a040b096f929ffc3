import Mathlib.Data.Finmap
import StellarSmartAccount.Foundations.Transaction
import StellarSmartAccount.Soroban.Val

/-! # The contract environment

The state of one contract as its code sees it: two untyped storage maps, the
events it published and its Wasm hash. Host functions are transactions over this
state; the host's answers that are not part of it (addresses, ledger time,
cryptography, authorization) come with the environment of the call.
-/

namespace StellarSmartAccount.Soroban
open Foundations

structure ContractContext where
  contract : Address
  fnName : Symbol
  args : List Val
  deriving DecidableEq

inductive ContractExecutable where
  | wasm (hash : BytesN 32)
  deriving DecidableEq

structure CreateContractHostFnContext where
  executable : ContractExecutable
  salt : BytesN 32
  deriving DecidableEq

structure CreateContractWithConstructorHostFnContext where
  executable : ContractExecutable
  salt : BytesN 32
  constructorArgs : List Val
  deriving DecidableEq

/-- One operation that an authorization entry covers. -/
inductive Context where
  | contract (c : ContractContext)
  | createContractHostFn (c : CreateContractHostFnContext)
  | createContractWithCtorHostFn (c : CreateContractWithConstructorHostFnContext)
  deriving DecidableEq

abbrev StorageMap := Finmap (fun _ : Val => Val)

/-- The storage kinds of a contract that the repository uses. -/
inductive Durability where
  | persistentStorage
  | instanceStorage
  deriving DecidableEq

structure Event where
  topics : List Symbol
  data : Val
  deriving DecidableEq

structure State where
  persistentMap : StorageMap
  instanceMap : StorageMap
  events : List Event
  wasm : BytesN 32
  deriving DecidableEq

/-- Why an invocation is aborted; the host then discards its effects. -/
inductive Abort where
  | contractError (code : UInt32)
  | auth
  | crypto
  | conversion
  | unwrapNone
  | missingWasm
  deriving DecidableEq

/-- The host's hash and its signature predicates. The host function aborts where
the predicate is false. -/
structure Crypto where
  sha256 : Bytes → BytesN 32
  ed25519Verify : BytesN 32 → Bytes → BytesN 64 → Bool
  secp256r1Verify : BytesN 65 → BytesN 32 → BytesN 64 → Bool

structure Env where
  crypto : Crypto
  currentContractAddress : Address
  timestamp : UInt64
  wasmExists : BytesN 32 → Bool
  /-- Whether `require_auth` on an address returns in this invocation. -/
  authorizes : Address → State → Bool

abbrev Host := Tx State Abort

/-- Contract functions that return a result. -/
abbrev Fallible (ε : Type) := Call State Abort ε

namespace State

def storage (s : State) : Durability → StorageMap
  | .persistentStorage => s.persistentMap
  | .instanceStorage => s.instanceMap

def setStorage (s : State) (m : StorageMap) : Durability → State
  | .persistentStorage => { s with persistentMap := m }
  | .instanceStorage => { s with instanceMap := m }

def publish (s : State) (e : Event) : State := { s with events := s.events ++ [e] }

@[simp] theorem storage_setStorage (s : State) (m : StorageMap) (d : Durability) :
    (s.setStorage m d).storage d = m := by
  cases d <;> rfl

theorem storage_setStorage_of_ne (s : State) (m : StorageMap) {d d' : Durability} (h : d' ≠ d) :
    (s.setStorage m d).storage d' = s.storage d' := by
  cases d <;> cases d' <;> first | rfl | exact absurd rfl h

@[simp] theorem storage_publish (s : State) (e : Event) : (s.publish e).storage = s.storage := by
  funext d
  cases d <;> rfl

@[simp] theorem events_setStorage (s : State) (m : StorageMap) (d : Durability) :
    (s.setStorage m d).events = s.events := by
  cases d <;> rfl

@[simp] theorem wasm_setStorage (s : State) (m : StorageMap) (d : Durability) :
    (s.setStorage m d).wasm = s.wasm := by
  cases d <;> rfl

@[simp] theorem instanceMap_publish (s : State) (e : Event) :
    (s.publish e).instanceMap = s.instanceMap := rfl

@[simp] theorem wasm_publish (s : State) (e : Event) : (s.publish e).wasm = s.wasm := rfl

@[simp] theorem events_publish (s : State) (e : Event) :
    (s.publish e).events = s.events ++ [e] := rfl

end State

section Storage
variable {κ ν : Type} [IntoVal κ]

def storageHas (d : Durability) (key : κ) : Host Bool := do
  return decide (intoVal key ∈ (← get).storage d)

/-- Reading a missing key answers `none`; an entry of another type aborts. -/
def storageGet [TryFromVal ν] (d : Durability) (key : κ) : Host (Option ν) := do
  match ((← get).storage d).lookup (intoVal key) with
  | none => return none
  | some v =>
    match tryFromVal v with
    | some x => return some x
    | none => Tx.abort .conversion

def storageSet [IntoVal ν] (d : Durability) (key : κ) (value : ν) : Host Unit :=
  modify fun s => s.setStorage ((s.storage d).insert (intoVal key) (intoVal value)) d

def storageRemove (d : Durability) (key : κ) : Host Unit :=
  modify fun s => s.setStorage ((s.storage d).erase (intoVal key)) d

@[simp] theorem storageHas_exec (d : Durability) (key : κ) (s : State) :
    (storageHas d key).exec s = .ok (decide (intoVal key ∈ s.storage d), s) := rfl

theorem storageGet_exec_none [TryFromVal ν] {d : Durability} {key : κ} {s : State}
    (h : (s.storage d).lookup (intoVal key) = none) :
    (storageGet (ν := ν) d key).exec s = .ok (none, s) := by
  rw [storageGet, Tx.exec_bind_ok (Tx.exec_get s), h]
  rfl

theorem storageGet_exec_some [TryFromVal ν] {d : Durability} {key : κ} {s : State} {v : Val}
    (h : (s.storage d).lookup (intoVal key) = some v) :
    (storageGet (ν := ν) d key).exec s =
      match tryFromVal v with
      | some x => .ok (some x, s)
      | none => .error .conversion := by
  rw [storageGet, Tx.exec_bind_ok (Tx.exec_get s), h]
  cases hv : tryFromVal (α := ν) v <;> simp [hv]

/-- `get::<_, bool>(&key).unwrap_or(false)` on instance storage. -/
def readFlag (key : Symbol) : Host Bool := do
  return (← storageGet .instanceStorage key).getD false

/-- The value of a boolean entry whose absence means false. -/
def State.flag (s : State) (key : Symbol) : Bool :=
  s.instanceMap.lookup (intoVal key) = some (intoVal true)

theorem readFlag_exec {key : Symbol} {s : State}
    (h : ∀ v, s.instanceMap.lookup (intoVal key) = some v → ∃ b : Bool, v = intoVal b) :
    (readFlag key).exec s = .ok (s.flag key, s) := by
  rw [readFlag]
  cases hv : s.instanceMap.lookup (intoVal key) with
  | none =>
    rw [Tx.exec_bind_ok (storageGet_exec_none hv)]
    simp [State.flag, hv]
  | some v =>
    obtain ⟨b, rfl⟩ := h v hv
    have hget : (storageGet (ν := Bool) .instanceStorage key).exec s = .ok (some b, s) := by
      rw [storageGet_exec_some hv, LawfulVal.tryFromVal_intoVal]
    rw [Tx.exec_bind_ok hget, State.flag, hv]
    simp [intoVal_injective.eq_iff]

end Storage

def publish {α : Type} [IntoVal α] (topics : List Symbol) (data : α) : Host Unit :=
  modify fun s => s.publish ⟨topics, intoVal data⟩

def panicWithError {α : Type} (code : UInt32) : Host α := Tx.abort (.contractError code)

/-- `Option::unwrap`. -/
def unwrap {α : Type} : Option α → Host α
  | some a => pure a
  | none => Tx.abort .unwrapNone

def requireAuth (env : Env) (a : Address) : Host Unit := do
  unless env.authorizes a (← get) do Tx.abort .auth

def ed25519Verify (env : Env) (publicKey : BytesN 32) (message : Bytes) (signature : BytesN 64) :
    Host Unit := do
  unless env.crypto.ed25519Verify publicKey message signature do Tx.abort .crypto

def secp256r1Verify (env : Env) (publicKey : BytesN 65) (digest : BytesN 32)
    (signature : BytesN 64) : Host Unit := do
  unless env.crypto.secp256r1Verify publicKey digest signature do Tx.abort .crypto

def updateCurrentContractWasm (env : Env) (newWasmHash : BytesN 32) : Host Unit := do
  unless env.wasmExists newWasmHash do Tx.abort .missingWasm
  modify fun s => { s with wasm := newWasmHash }

/-- `unwrap_or_else(|e| panic_with_error!(env, e))`. -/
def unwrapOrPanic {ε α : Type} (code : ε → UInt32) : Except ε α → Host α
  | .ok a => pure a
  | .error e => panicWithError (code e)

@[simp] theorem publish_exec {α : Type} [IntoVal α] (topics : List Symbol) (data : α) (s : State) :
    (publish topics data).exec s = .ok (⟨⟩, s.publish ⟨topics, intoVal data⟩) := rfl

@[simp] theorem unwrap_exec_some {α : Type} (a : α) (s : State) :
    (unwrap (some a)).exec s = .ok (a, s) := rfl

theorem requireAuth_exec (env : Env) (a : Address) (s : State) :
    (requireAuth env a).exec s =
      if env.authorizes a s then .ok (⟨⟩, s) else .error .auth := by
  rw [requireAuth, Tx.exec_bind_ok (Tx.exec_get s)]
  cases env.authorizes a s <;> rfl

theorem ed25519Verify_exec (env : Env) (pk : BytesN 32) (m : Bytes) (sig : BytesN 64) (s : State) :
    (ed25519Verify env pk m sig).exec s =
      if env.crypto.ed25519Verify pk m sig then .ok (⟨⟩, s) else .error .crypto := by
  rw [ed25519Verify]
  cases env.crypto.ed25519Verify pk m sig <;> rfl

theorem secp256r1Verify_exec (env : Env) (pk : BytesN 65) (digest : BytesN 32) (sig : BytesN 64)
    (s : State) :
    (secp256r1Verify env pk digest sig).exec s =
      if env.crypto.secp256r1Verify pk digest sig then .ok (⟨⟩, s) else .error .crypto := by
  rw [secp256r1Verify]
  cases env.crypto.secp256r1Verify pk digest sig <;> rfl

theorem updateCurrentContractWasm_exec (env : Env) (hash : BytesN 32) (s : State) :
    (updateCurrentContractWasm env hash).exec s =
      if env.wasmExists hash then .ok (⟨⟩, { s with wasm := hash }) else .error .missingWasm := by
  rw [updateCurrentContractWasm]
  cases env.wasmExists hash <;> rfl

end StellarSmartAccount.Soroban
