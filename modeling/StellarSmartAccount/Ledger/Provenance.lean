import StellarSmartAccount.Ledger.System

/-! # Where the accounts of a ledger come from

Whatever is interleaved on the ledger, a contract that has run nothing but builds of the
account is its construction followed by its own authorized operations. A transaction in
which the host authorizes no operation of an account leaves it alone; with an authorized
upgrade to other code the account ends, and the new code owns the address.
-/

namespace StellarSmartAccount.Ledger
open Foundations Soroban SmartAccount

namespace System
variable {α κ ρ : Type}

/-- A transaction in which the host authorizes no operation of an account leaves it alone. -/
theorem contracts_of_unauthorized {system : System α κ ρ} {s : SystemState α ρ}
    (hs : system.chain.Live s.world) {tx : Transaction κ ρ} {address : Address}
    (htx : ∀ w op, tx.authorizes address (Operation.context op address) w = false)
    {u : Soroban.State} (hu : s.world.contracts address = some (.account u)) :
    (system.step tx s).2.world.contracts address = some (.account u) := by
  refine (system.final_evolves hs [tx]).1.unmoved hu fun c hmoves => ?_
  obtain ⟨exec, start, w, op, hbegins, -, -, hauth⟩ := hmoves.authorized
  rw [(begins_singleton_iff.mp hbegins).1, htx w op] at hauth
  cases hauth

end System

end StellarSmartAccount.Ledger
