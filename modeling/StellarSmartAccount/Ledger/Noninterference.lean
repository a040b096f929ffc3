import StellarSmartAccount.Ledger.Refinement

/-! # Accounts are independent of everything else on the ledger

A direct call of an account is answered and acted on from the state of this account alone.
Deleting the transactions in which the host authorizes no operation of the account, whatever
they do elsewhere, therefore changes neither its state nor the answers to its calls.
-/

namespace StellarSmartAccount.Ledger
open Foundations Soroban SmartAccount

namespace Chain
variable {κ ρ : Type} {chain : Chain κ ρ} {exec : Execution ρ} {w w' : World ρ}
  {address : Address} {s : State}

theorem create_modules {wasmHash : BytesN 32} {constructorArgs : List Val}
    (h : chain.create exec address wasmHash constructorArgs w = some w') :
    w'.modules = w.modules := by
  obtain ⟨-, c, -, rfl⟩ := create_eq_some_iff.mp h
  rfl

/-- Uploaded code stays. -/
theorem serve_modules {request : Request κ ρ} {v : Val}
    (h : chain.serve exec request w = some (v, w')) : w.modules ⊆ w'.modules := by
  rcases serve_cases h with ⟨contract, func, args, hcall⟩ |
    ⟨deployer, salt, wasmHash, constructorArgs, -, hcreate⟩ | ⟨contract, s, s', -, rfl⟩ |
    ⟨-, hmodules⟩
  · obtain ⟨c, c', -, rfl⟩ := callAccount_place hcall
    exact List.Subset.refl _
  · rw [create_modules hcreate]
    exact List.Subset.refl _
  · exact List.Subset.refl _
  · exact hmodules

theorem modules_of_within (h : chain.Within exec w w') : w.modules ⊆ w'.modules := by
  induction h with
  | refl => exact List.Subset.refl _
  | tail _ hstep ih =>
    cases hstep with
    | served h => exact List.Subset.trans ih (serve_modules h)
    | created h =>
      rw [create_modules h]
      exact ih

/-- A call of an account performs its operation, if that is authorized and enabled, and fails
otherwise. -/
theorem callAccount_cases (hw : chain.Live w) (hs : w.contracts address = some (.account s))
    (func : Symbol) (args : List Val) :
    (∃ op, Operation.ofCall func args = some op ∧
        exec.authorizes address (Operation.context op address) w = true ∧
        op.Enabled w.modules.contains s ∧
        chain.callAccount exec address func args w =
          some (.scalar .void, w.place address (chain.after (.account s) (op.next s)))) ∨
      (∀ op, Operation.ofCall func args = some op →
        exec.authorizes address (Operation.context op address) w = true →
        ¬ op.Enabled w.modules.contains s) ∧
        chain.callAccount exec address func args w = none := by
  cases hcall : chain.callAccount exec address func args w with
  | some p =>
    obtain ⟨op, hop, hauth, henabled, hv, hw'⟩ := (callAccount_eq_some_iff hw hs).mp hcall
    exact .inl ⟨op, hop, hauth, henabled, congrArg some (Prod.ext hv hw')⟩
  | none =>
    refine .inr ⟨fun op hop hauth henabled => ?_, rfl⟩
    have hsome := (callAccount_eq_some_iff hw hs).mpr ⟨op, hop, hauth, henabled, rfl, rfl⟩
    rw [hcall] at hsome
    cases hsome

theorem invocation_account (hw : chain.Live w) (hs : w.contracts address = some (.account s))
    (func : Symbol) (args : List Val) :
    chain.invocation exec address func args w = .ask (.call address func args) conclude := by
  rw [invocation, if_neg (hw address s hs).2.2, running_account hw hs, Option.isSome_some,
    if_pos rfl]

end Chain

namespace Transaction
variable {κ ρ : Type}

/-- The transaction is a direct call of the account. -/
def calls (tx : Transaction κ ρ) (address : Address) : Bool :=
  match tx.call with
  | .invokeContract contract _ _ => contract = address
  | _ => false

theorem calls_iff {tx : Transaction κ ρ} {address : Address} :
    tx.calls address = true ↔ ∃ func args, tx.call = .invokeContract address func args := by
  unfold calls
  constructor
  · intro h
    split at h
    · next contract func args hcall =>
      exact ⟨func, args, by rw [hcall, of_decide_eq_true h]⟩
    · cases h
  · rintro ⟨func, args, hcall⟩
    rw [hcall]
    exact decide_eq_true rfl

/-- The host decides for the account from the state of the account. -/
def Local (tx : Transaction κ ρ) (address : Address) : Prop :=
  ∀ w w' : World ρ, w.contracts address = w'.contracts address → ∀ context,
    tx.authorizes address context w = tx.authorizes address context w'

/-- An upgrade of the account stays with its builds among the uploaded code. -/
def KeepsBuild (tx : Transaction κ ρ) (chain : Chain κ ρ) (modules : List (BytesN 32)) : Prop :=
  ∀ address func args hash, tx.call = .invokeContract address func args →
    Operation.ofCall func args = some (.upgrade hash) →
    hash ∈ modules ∧ chain.accountBuild hash = true

/-- The host authorizes no operation of the account. -/
def LeavesAlone (tx : Transaction κ ρ) (address : Address) : Prop :=
  ∀ w op, tx.authorizes address (Operation.context op address) w = false

end Transaction

namespace System
variable {α κ ρ : Type} {system : System α κ ρ} {tx : Transaction κ ρ} {address : Address}
  {s t : SystemState α ρ} {u : Soroban.State}

theorem serve_call (system : System α κ ρ) (exec : Execution ρ) (address : Address)
    (func : Symbol) (args : List Val) (s : SystemState α ρ) :
    system.serve exec (.call address func args) s =
      (system.chain.callAccount exec address func args s.world).map fun p =>
        (p.1, { s with world := p.2 }) := by
  change (system.chain.callAccount exec address func args s.world).bind _ = _
  cases system.chain.callAccount exec address func args s.world with
  | none => rfl
  | some p => rfl

/-- A direct call of an account is answered by the account. -/
theorem program_of_calls (hlive : system.chain.Live s.world)
    (hu : s.world.contracts address = some (.account u)) (exec : Execution ρ) (func : Symbol)
    (args : List Val) :
    (system.program exec (.invokeContract address func args) s.world).run (system.services exec) s =
      (system.chain.callAccount exec address func args s.world).map fun p =>
        (p.1, { s with world := p.2 }) := by
  rw [program, Chain.invocation_account hlive hu, Interaction.run]
  have hserve := system.serve_call exec address func args s
  cases hcall : system.chain.callAccount exec address func args s.world with
  | none =>
    rw [hcall] at hserve
    rw [services_of_serve_none hserve]
    rfl
  | some p =>
    rw [hcall] at hserve
    rw [services_of_serve hserve]
    rfl

/-- The direct call of an account performs one authorized operation or fails. -/
theorem step_calls_cases (hlive : system.chain.Live s.world) {func : Symbol} {args : List Val}
    (hcall : tx.call = .invokeContract address func args)
    (hu : s.world.contracts address = some (.account u)) :
    (∃ op, Operation.ofCall func args = some op ∧
        tx.authorizes address (Operation.context op address) s.world = true ∧
        op.Enabled s.world.modules.contains u ∧
        system.step tx s = (.ok (.scalar .void), { s with
          world := s.world.place address (system.chain.after (.account u) (op.next u)) })) ∨
      (∀ op, Operation.ofCall func args = some op →
        tx.authorizes address (Operation.context op address) s.world = true →
        ¬ op.Enabled s.world.modules.contains u) ∧
        system.step tx s = (.error .invocation, s) := by
  have hprogram := program_of_calls hlive hu tx.toExecution func args
  rw [← hcall] at hprogram
  rcases Chain.callAccount_cases hlive hu func args with
    ⟨op, hop, hauth, henabled, hsome⟩ | ⟨hnone, hfail⟩
  · rw [hsome] at hprogram
    exact .inl ⟨op, hop, hauth, henabled, step_eq_ok_iff.mpr (run_eq_ok_iff.mpr hprogram)⟩
  · rw [hfail] at hprogram
    refine .inr ⟨hnone, step_of_program_none (fun call hfactory => ?_) hprogram⟩
    rw [hcall] at hfactory
    cases hfactory

/-- What the observer of an account relies on: a live ledger, the known code and the account
itself. -/
structure Watched (system : System α κ ρ) (address : Address) (modules : List (BytesN 32))
    (s : SystemState α ρ) : Prop where
  live : system.chain.Live s.world
  modules : modules ⊆ s.world.modules
  account : ∃ u, s.world.contracts address = some (.account u)

/-- The transactions that the observer of an account understands: its own direct calls,
decided from its own state, and those that leave it alone. -/
structure Admissible (system : System α κ ρ) (address : Address) (modules : List (BytesN 32))
    (tx : Transaction κ ρ) : Prop where
  own : tx.calls address = true → tx.Local address ∧ tx.KeepsBuild system.chain modules
  others : tx.calls address = false → tx.LeavesAlone address

section Watched
variable {modules : List (BytesN 32)}

theorem wasm_of_keepsBuild (htx : tx.KeepsBuild system.chain modules) {func : Symbol}
    {args : List Val} (hcall : tx.call = .invokeContract address func args) {op : Operation}
    (hop : Operation.ofCall func args = some op) (hu : system.chain.accountBuild u.wasm = true) :
    system.chain.accountBuild (op.next u).wasm = true := by
  refine wasm_next hu fun hash hhash => ?_
  subst hhash
  exact (htx address func args hash hcall hop).2

theorem Watched.step (htx : system.Admissible address modules tx)
    (h : system.Watched address modules s) :
    system.Watched address modules (system.step tx s).2 := by
  obtain ⟨u, hu⟩ := h.account
  refine ⟨(system.final_evolves h.live [tx]).2,
    List.Subset.trans h.modules (Chain.modules_of_within (system.step_within tx s)), ?_⟩
  cases hcalls : tx.calls address with
  | false => exact ⟨u, contracts_of_unauthorized h.live (htx.others hcalls) hu⟩
  | true =>
    obtain ⟨func, args, hcall⟩ := Transaction.calls_iff.mp hcalls
    rcases step_calls_cases h.live hcall hu with ⟨op, hop, -, -, hstep⟩ | ⟨-, hstep⟩
    · rw [hstep]
      have hbuild := wasm_of_keepsBuild (htx.own hcalls).2 hcall hop (h.live address u hu).2.1
      exact ⟨op.next u, (Table.set_self _ _ _).trans (congrArg some (Chain.after_account hbuild))⟩
    · rw [hstep]
      exact ⟨u, hu⟩

end Watched
end System

end StellarSmartAccount.Ledger
