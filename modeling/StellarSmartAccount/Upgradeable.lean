import StellarSmartAccount.Soroban.Host

/-! # Upgrades and the migration licence

An upgrade authorizes, sets the boolean instance entry `MIGRATING` and replaces
the Wasm of the contract. A migration runs only while the entry is true.
-/

namespace StellarSmartAccount
open Foundations Soroban

namespace Upgradeable

def migrating : Symbol := "MIGRATING"

/-- `Error::MigrationNotAllowed`. -/
def migrationNotAllowed : UInt32 := 1100

def canCompleteMigration : Host Bool := readFlag migrating

def ensureCanCompleteMigration : Host Unit := do
  if !(← canCompleteMigration) then
    panicWithError migrationNotAllowed

def completeMigration : Host Unit := storageSet .instanceStorage migrating false

def enableMigration : Host Unit := storageSet .instanceStorage migrating true

/-- The upgrade entry point, over the implementer's `_require_auth_upgrade`. -/
def upgrade (requireAuthUpgrade : Host Unit) (env : Env) (newWasmHash : BytesN 32) :
    Host Unit := do
  requireAuthUpgrade
  enableMigration
  updateCurrentContractWasm env newWasmHash

/-- The migration entry point, over the implementer's `_migrate`. -/
def migrate {μ : Type} (requireAuthUpgrade : Host Unit) (migrateData : μ → Host Unit)
    (migrationData : μ) : Host Unit := do
  requireAuthUpgrade
  ensureCanCompleteMigration
  migrateData migrationData
  completeMigration

/-- The state after a successful upgrade. -/
def upgraded (s : State) (newWasmHash : BytesN 32) : State :=
  { s with
    instanceMap := s.instanceMap.insert (intoVal migrating) (intoVal true)
    wasm := newWasmHash }

theorem upgrade_exec {requireAuthUpgrade : Host Unit} {s t : State}
    (h : requireAuthUpgrade.exec s = .ok (⟨⟩, t)) (env : Env) (newWasmHash : BytesN 32) :
    (upgrade requireAuthUpgrade env newWasmHash).exec s =
      if env.wasmExists newWasmHash then .ok (⟨⟩, upgraded t newWasmHash)
      else .error .missingWasm := by
  have henable : enableMigration.exec t =
      .ok (⟨⟩, { t with instanceMap := t.instanceMap.insert (intoVal migrating) (intoVal true) }) :=
    rfl
  rw [upgrade, Tx.exec_bind_ok h, Tx.exec_bind_ok henable, updateCurrentContractWasm_exec]
  rfl

end Upgradeable
end StellarSmartAccount
