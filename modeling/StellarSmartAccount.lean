import StellarSmartAccount.Account.AdminInvariant
import StellarSmartAccount.Account.AuditTrail
import StellarSmartAccount.Account.Identity
import StellarSmartAccount.Account.PayloadBinding
import StellarSmartAccount.Account.PolicyValidation
import StellarSmartAccount.Account.Privilege
import StellarSmartAccount.Account.StoreInvariant
import StellarSmartAccount.Account.WriteHistory
import StellarSmartAccount.Factory.Audit
import StellarSmartAccount.Account.SignerRegistry
import StellarSmartAccount.Account.ConstructorVerdict
import StellarSmartAccount.Account.Monotonicity
import StellarSmartAccount.Account.Reporting
import StellarSmartAccount.Account.Noninterference
import StellarSmartAccount.Account.Decomposition
import StellarSmartAccount.Account.RestrictedRole
import StellarSmartAccount.Account.Feasibility
import StellarSmartAccount.Factory.Authority
import StellarSmartAccount.Factory.Addresses
import StellarSmartAccount.Account.Commutation
import StellarSmartAccount.Factory.Composition
import StellarSmartAccount.Foundations.Licence
import StellarSmartAccount.Migration
import StellarSmartAccount.StorageMaps
import StellarSmartAccount.Account.Auth.Canonical
import StellarSmartAccount.Account.Dispatch
import StellarSmartAccount.Foundations.Population
import StellarSmartAccount.Ledger.Chain
import StellarSmartAccount.Factory.Network
import StellarSmartAccount.Ledger.Accounts
import StellarSmartAccount.Ledger.System
import StellarSmartAccount.Ledger.Provenance
import StellarSmartAccount.Ledger.Noninterference
import StellarSmartAccount.Ledger.Refinement
import StellarSmartAccount.Ledger.Setup
import StellarSmartAccount.Ledger.Reservation
import StellarSmartAccount.Foundations.Governance
import StellarSmartAccount.Account.Reconfiguration
import StellarSmartAccount.Account.Equivalence
import StellarSmartAccount.Account.Specification
import StellarSmartAccount.Initialization
import StellarSmartAccount.Ledger.DirectCalls
import StellarSmartAccount.Account.Replay
import StellarSmartAccount.Account.Batch
import StellarSmartAccount.Account.Auth.Proof
import StellarSmartAccount.Foundations.Resorting
import StellarSmartAccount.Client.Signing
