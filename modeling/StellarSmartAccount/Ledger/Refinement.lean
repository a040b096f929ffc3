import StellarSmartAccount.Account.Privilege
import StellarSmartAccount.Ledger.Provenance

/-! # What the host's checks mean for the accounts of a ledger

The host asks an account about the entries of a transaction in the state in which the
transaction finds the account, and lets the calls through that an accepted entry covers.
Whatever the factory, other accounts and other code do in between, a transaction then does
to an account only what this account's own check accepted, and no account changes without
the signature of an admin that it had before.
-/

namespace StellarSmartAccount.Ledger
open Foundations Soroban SmartAccount

namespace Execution
variable {κ ρ : Type}

/-- The transaction carries an entry for the operation that the account accepts in a state. -/
def Signs (exec : Execution ρ) (account : Account) (op : Operation) (s : State) : Prop :=
  ∃ entry ∈ exec.entries, op.context account.address ∈ entry.contexts ∧
    account.accepts exec.timestamp entry s = true

/-- The host lets an operation of an account through only if the account has accepted an entry
for it in the state in which the transaction found the account. -/
def AsksOnce (exec : Execution ρ) (chain : Chain κ ρ) (start : World ρ) : Prop :=
  ∀ address op w s s', start.contracts address = some (.account s) →
    chain.Within exec start w → w.contracts address = some (.account s') →
    exec.authorizes address (Operation.context op address) w = true →
    exec.Signs (chain.account address) op s

/-- As long as a transaction has not changed an account, the host lets an operation of it
through only if the account has accepted an entry for it. It may ask for every call or once. -/
def Vouched (exec : Execution ρ) (chain : Chain κ ρ) (start : World ρ) : Prop :=
  ∀ address op w s, start.contracts address = some (.account s) →
    chain.Within exec start w → w.contracts address = some (.account s) →
    exec.authorizes address (Operation.context op address) w = true →
    exec.Signs (chain.account address) op s

theorem AsksOnce.vouched {exec : Execution ρ} {chain : Chain κ ρ} {start : World ρ}
    (h : exec.AsksOnce chain start) : exec.Vouched chain start :=
  fun address op w s hstart hwithin hs hauth => h address op w s s hstart hwithin hs hauth

end Execution

/-- The host that asks each account about the entries of the transaction in one state of the
ledger; other addresses answer for themselves. -/
def Chain.authenticatedExecution {κ ρ : Type} (chain : Chain κ ρ) (timestamp : UInt64)
    (entries : List AuthEntry) (others : Address → Bool) (asked : World ρ) : Execution ρ where
  timestamp := timestamp
  entries := entries
  authorizes address context _ :=
    match asked.contracts address with
    | some (.account s) => entries.any fun entry =>
      decide (context ∈ entry.contexts) && (chain.account address).accepts timestamp entry s
    | _ => others address

theorem Chain.authenticatedExecution_asksOnce {κ ρ : Type} (chain : Chain κ ρ)
    (timestamp : UInt64) (entries : List AuthEntry) (others : Address → Bool) (start : World ρ) :
    (chain.authenticatedExecution timestamp entries others start).AsksOnce chain start := by
  intro address op w s s' hstart _ _ hauth
  simp only [authenticatedExecution, hstart, List.any_eq_true, Bool.and_eq_true,
    decide_eq_true_eq] at hauth
  obtain ⟨entry, hentry, hcovers, haccepts⟩ := hauth
  exact ⟨entry, hentry, hcovers, haccepts⟩

namespace System
variable {α κ ρ : Type}

/-- If an account has changed over a further run in which the host lets its operations through
only with an entry that the account's own check accepts, for every call or once in a transaction,
then some transaction of the run found the account as it was and carried an entry for an
operation of this account with a valid signature of an admin that the account already had before
the run. -/
theorem account_change_signed (system : System α κ ρ) (exec : Execution ρ) (admin : Address)
    (modules : List (BytesN 32)) (rest : ρ) (txs later : List (Transaction κ ρ))
    (hvouched : ∀ pre tx, pre ++ [tx] <+: later → tx.Vouched system.chain
      (system.machine.final (system.start exec admin modules rest) (txs ++ pre)).world)
    {address : Address} {t : Soroban.State}
    (h : (system.machine.final (system.start exec admin modules rest) txs).world.contracts address =
      some (.account t))
    (hchanged : (system.machine.final (system.start exec admin modules rest)
      (txs ++ later)).world.contracts address ≠ some (.account t)) :
    ∃ pre tx, pre ++ [tx] <+: later ∧
      (system.machine.final (system.start exec admin modules rest)
        (txs ++ pre)).world.contracts address = some (.account t) ∧
      ∃ entry ∈ tx.entries, ∃ op : Operation, op.context address ∈ entry.contexts ∧
      (system.chain.account address).accepts tx.timestamp entry t = true ∧
      ∃ proof ∈ entry.proofs.proofs.toList, ∃ signer, signers t proof.1 = some signer ∧
        signer.role = .admin ∧
        signer.hostVerifies system.chain.crypto entry.signaturePayload proof.2 = true := by
  simp only [Machine.final_append] at hvouched hchanged ⊢
  have hlive := (system.final_evolves (start_live system exec admin modules rest) txs).2
  -- the first transaction that changes the account finds it as it was before the run
  obtain ⟨pre, tx, hpre, hsame, hdiffers⟩ := system.machine.exists_step_of_final
    (P := fun s => s.world.contracts address ≠ some (.account t)) (not_not.mpr h) hchanged
  rw [not_not] at hsame
  have hlive' := (system.final_evolves hlive pre).2
  obtain ⟨c, hc, hmoved⟩ := (system.final_evolves hlive' [tx]).1.component hsame
  have hsigned : ∃ op, tx.Signs (system.chain.account address) op t := by
    rcases Relation.ReflTransGen.cases_head hmoved with rfl | ⟨c', hmoves, -⟩
    · exact absurd hc hdiffers
    · obtain ⟨exec', start, w, op, hbegins, hwithin, ht, hauth⟩ := hmoves.authorized
      obtain ⟨rfl, rfl⟩ := begins_singleton_iff.mp hbegins
      exact ⟨op, hvouched pre tx hpre address op w t hsame hwithin ht hauth⟩
  obtain ⟨op, entry, hentry, hcovers, haccepts⟩ := hsigned
  obtain ⟨proof, hproof, signer, hsigner, hrole, hverifies⟩ :=
    (accepts_iff.mp haccepts).admin hcovers (isAdminOperation_context tx.timestamp)
  exact ⟨pre, tx, hpre, hsame, entry, hentry, op, hcovers, haccepts, proof, hproof, signer,
    hsigner, hrole, hverifies⟩

end System

namespace Sample

/-- The passkey that the sample account adds. -/
def passkey : Signer := .secp256r1 ⟨[1], SmartAccount.Sample.passkey⟩ .standard

/-- The ledger with the sample account. -/
def deployedState : SystemState (List (Address × Symbol)) Unit :=
  system.machine.final start [deploy]

theorem deployedState_live : system.chain.Live deployedState.world :=
  (system.final_evolves (System.start_live _ _ _ _ _) [deploy]).2

/-- A call of the sample account by another contract, with the entry of its admin. -/
def addPasskey : Transaction Unit Unit where
  toExecution := chain.authenticatedExecution 0
    [⟨SmartAccount.Sample.payload, SmartAccount.Sample.proofs,
      [(Operation.addSigner passkey).context SmartAccount.Sample.account.address]⟩]
    (fun _ => false) deployedState.world
  call := .invokeContract ContractFactory.Sample.admin "add_signer"
    [.address SmartAccount.Sample.account.address, intoVal passkey]

theorem addPasskey_asksOnce : addPasskey.AsksOnce chain deployedState.world :=
  Chain.authenticatedExecution_asksOnce _ _ _ _ _

end Sample

/-- The passkey of the sample account was signed for by its admin. -/
theorem sample_account_change_signed :
    ∃ pre tx, pre ++ [tx] <+: [Sample.addPasskey] ∧
      (Sample.system.machine.final Sample.start ([Sample.deploy] ++ pre)).world.contracts
        SmartAccount.Sample.account.address = some (.account Sample.state) ∧
      ∃ entry ∈ tx.entries, ∃ op : Operation,
      op.context SmartAccount.Sample.account.address ∈ entry.contexts ∧
      SmartAccount.Sample.account.accepts tx.timestamp entry Sample.state = true ∧
      ∃ proof ∈ entry.proofs.proofs.toList, ∃ signer,
        signers Sample.state proof.1 = some signer ∧ signer.role = .admin ∧
        signer.hostVerifies SmartAccount.Sample.crypto entry.signaturePayload proof.2 = true := by
  refine Sample.system.account_change_signed Sample.adminExecution ContractFactory.Sample.admin
    [ContractFactory.Sample.wasmHash] ⟨⟩ [Sample.deploy] [Sample.addPasskey] ?_
    Sample.deployed ?_
  · intro pre tx hpre
    cases pre with
    | nil =>
      rw [(List.cons_prefix_cons.mp hpre).1]
      exact Sample.addPasskey_asksOnce.vouched
    | cons first pre =>
      have hlength := hpre.length_le
      simp at hlength
  · intro hsame
    have hevents := congrArg (Option.map fun c : Contract => c.state.events.length) hsame
    revert hevents
    decide

end StellarSmartAccount.Ledger
