import StellarSmartAccount.Account.Equivalence
import StellarSmartAccount.Ledger.Noninterference
import StellarSmartAccount.Ledger.Setup

/-! # Every run of an account takes place on the ledger

The operations of an account can be called directly, each with the entry that authorizes it.
On any ledger such calls succeed and fail as on the account alone, take the account through
the states of its own machine, and change nothing else.
-/

namespace StellarSmartAccount.Ledger
open Foundations Soroban SmartAccount

/-- The host in the transaction of an invocation: it asks an account about the entry of the
invocation in the state of the only call. -/
def Chain.directExecution {κ ρ : Type} (chain : Chain κ ρ) (inv : Invocation) : Execution ρ where
  timestamp := inv.timestamp
  entries := inv.auth.toList
  authorizes address context w :=
    match w.contracts address with
    | some (.account s) => inv.auth.any fun entry =>
      decide (context ∈ entry.contexts) && (chain.account address).accepts inv.timestamp entry s
    | _ => false

/-- The transaction of an invocation: a direct call with the entry of the invocation. The
host asks for a check by itself, no transaction does. -/
def directCall {κ ρ : Type} (chain : Chain κ ρ) (address : Address) (inv : Invocation) :
    Option (Transaction κ ρ) :=
  match inv.call with
  | .operation op => some
    { chain.directExecution inv with call := .invokeContract address op.fnName op.args }
  | .checkAuth _ _ _ => none

/-- The invocation knows the uploaded code, and an upgrade stays with the builds of the
account. -/
structure Presentable {κ ρ : Type} (chain : Chain κ ρ) (modules : List (BytesN 32))
    (inv : Invocation) : Prop where
  wasmExists : inv.wasmExists = modules.contains
  keepsBuild : ∀ hash, inv.call = .operation (.upgrade hash) → chain.accountBuild hash = true

/-- What a transaction answers for the account. -/
def answer : Response → Except ContractFactory.Abort Val
  | .ok (.ok _) => .ok (.scalar .void)
  | _ => .error .invocation

theorem answer_refused (u : Soroban.State) (op : Operation) :
    answer (op.refused u) = .error .invocation := by
  cases op <;> rfl

section Step
variable {α κ ρ : Type} {system : System α κ ρ} {address : Address} {s : SystemState α ρ}
  {u : Soroban.State} {inv : Invocation} {op : Operation}

/-- The host asks the account about the entry of the invocation. -/
theorem Chain.directExecution_authorizes (chain : Chain κ ρ) {w : World ρ}
    (hu : w.contracts address = some (.account u)) (inv : Invocation) (op : Operation) :
    (chain.directExecution inv).authorizes address (op.context address) w =
      (chain.account address).authorizes inv op u := by
  simp only [directExecution, hu, Account.authorizes]
  rfl

/-- An account that runs a build keeps running builds under invocations that stay with them. -/
theorem accountBuild_step {chain : Chain κ ρ} (hu : SmartAccount.Live u)
    (hbuild : chain.accountBuild u.wasm = true) {modules : List (BytesN 32)}
    (hinv : Presentable chain modules inv) (account : Account) :
    chain.accountBuild (account.step inv u).2.wasm = true := by
  refine step_preserves (P := fun t => chain.accountBuild t.wasm = true) hu hbuild ?_
  intro op hcall _ _
  exact wasm_next hbuild fun hash hhash => hinv.keepsBuild hash (hhash ▸ hcall)

theorem accountBuild_final {chain : Chain κ ρ} (hu : SmartAccount.Live u)
    (hbuild : chain.accountBuild u.wasm = true) {modules : List (BytesN 32)} (account : Account)
    {is : List Invocation} (his : ∀ inv ∈ is, Presentable chain modules inv) :
    chain.accountBuild (account.machine.final u is).wasm = true := by
  induction is generalizing u with
  | nil => exact hbuild
  | cons inv is ih =>
    have hinv := his inv List.mem_cons_self
    exact ih (hu.step account inv) (accountBuild_step hu hbuild hinv account)
      fun inv' hinv' => his inv' (List.mem_cons_of_mem inv hinv')

/-- A direct call does on the ledger what the invocation does to the account. -/
theorem System.step_directCall (hlive : system.chain.Live s.world)
    (hfactory : address ≠ system.chain.factory) (hu : SmartAccount.Live u)
    (hbuild : system.chain.accountBuild u.wasm = true)
    (hinv : Presentable system.chain s.world.modules inv) {tx : Transaction κ ρ}
    (htx : directCall system.chain address inv = some tx) :
    system.step tx { s with world := s.world.place address (.account u) } =
      (answer ((system.chain.account address).step inv u).1,
        { s with
          world := s.world.place address
            (.account ((system.chain.account address).step inv u).2) }) := by
  have hplaced : system.chain.Live (s.world.place address (.account u)) :=
    hlive.place hu hbuild hfactory
  have hthere := s.world.contracts_place address (.account u)
  match hcall : inv.call with
  | .checkAuth payload proofs contexts =>
    rw [directCall, hcall] at htx
    cases htx
  | .operation op =>
    simp only [directCall, hcall, Option.some.injEq] at htx
    subst htx
    have hauthorizes := system.chain.directExecution_authorizes hthere inv op
    have hdirect : (⟨system.chain.directExecution inv,
        .invokeContract address op.fnName op.args⟩ : Transaction κ ρ).call =
          .invokeContract address op.fnName op.args := rfl
    have hcode := accountBuild_step hu hbuild hinv (system.chain.account address)
    rcases step_calls_cases (s := { s with world := s.world.place address (.account u) })
      hplaced hdirect hthere with ⟨op', hop, hauth, henabled, hstep⟩ | ⟨hnone, hstep⟩
    · rw [op.ofCall_fnName_args] at hop
      cases hop
      have hown : (system.chain.account address).step inv u = (.ok (.ok ⟨⟩), op.next u) := by
        refine step_of_enabled hu hcall (hauthorizes.symm.trans hauth) ?_
        rw [hinv.wasmExists]
        exact henabled
      rw [hown] at hcode
      rw [hstep, hown, World.place_place, Chain.after_account hcode]
      rfl
    · rw [hstep]
      by_cases hauth : (system.chain.account address).authorizes inv op u = true
      · have henabled := hnone op op.ofCall_fnName_args (hauthorizes.trans hauth)
        rw [step_of_refused hu hcall hauth (by rwa [hinv.wasmExists]), answer_refused]
      · rw [step_of_not_authorizes hu hcall hauth]
        rfl

theorem World.place_self {w : World ρ} {c : Contract} (hc : w.contracts address = some c) :
    w.place address c = w := by
  have hsame : w.contracts.set address (some c) = w.contracts := by
    rw [← hc]
    exact Function.update_eq_self address w.contracts
  rw [World.place, hsame]

end Step

/-- The direct calls of any run of an account, made on the ledger with the account in its
first state, succeed and fail as in this run and leave the ledger with the account in the last
state of the run and everything else as it was. -/
theorem System.direct_calls_perform_run {α κ ρ : Type} (system : System α κ ρ)
    (s : SystemState α ρ) {address : Address} (hworld : system.chain.Live s.world)
    {u : Soroban.State} (hu : s.world.contracts address = some (.account u))
    (is : List Invocation) (his : ∀ inv ∈ is, Presentable system.chain s.world.modules inv) :
    system.machine.final s (is.filterMap (directCall system.chain address)) =
        { s with
          world := s.world.place address
            (.account ((system.chain.account address).machine.final u is)) } ∧
      system.machine.history s (is.filterMap (directCall system.chain address)) =
        ((system.chain.account address).machine.history u is).filterMap fun answered =>
          (directCall system.chain address answered.1).map (·, answer answered.2) := by
  obtain ⟨hlive, hbuild, hfactory⟩ := hworld address u hu
  have hplaced : { s with world := s.world.place address (.account u) } = s := by
    rw [World.place_self hu]
  have hsteps : ∀ pre inv, pre ++ [inv] <+: is →
      system.chain.accountBuild ((system.chain.account address).machine.final u pre).wasm = true ∧
        Presentable system.chain s.world.modules inv := by
    intro pre inv hpre
    have hmem := fun inv' (hinv' : inv' ∈ pre ++ [inv]) => his inv' (hpre.subset hinv')
    exact ⟨accountBuild_final hlive hbuild _ fun inv' hinv' => hmem inv' (by simp [hinv']),
      hmem inv (by simp)⟩
  have hrefines := (system.chain.account address).machine.refines system.machine
    (f := fun t => { s with world := s.world.place address (.account t) })
    (g := directCall system.chain address) (r := answer) (I := fun t => SmartAccount.Live t)
    (C := fun inv t => system.chain.accountBuild t.wasm = true ∧
      Presentable system.chain s.world.modules inv)
    (fun inv t ht => ht.step _ inv) ?_ ?_ hlive hsteps
  · rw [hplaced] at hrefines
    exact hrefines
  · rintro inv t tx ht ⟨hcode, hinv⟩ htx
    exact System.step_directCall hworld hfactory ht hcode hinv htx
  · rintro inv t ht ⟨-, -⟩ htx
    match hcall : inv.call with
    | .checkAuth payload proofs contexts =>
      have hsame : ((system.chain.account address).step inv t).2 = t := by
        rw [step_checkAuth hcall]
      exact congrArg (fun t => { s with world := s.world.place address (.account t) }) hsame
    | .operation op =>
      simp only [directCall, hcall] at htx
      cases htx

/-- The addition of the passkey as an invocation of the sample account. -/
def Sample.passkeyInvocation : Invocation :=
  ⟨0, Sample.deployedState.world.modules.contains,
    some ⟨SmartAccount.Sample.payload, SmartAccount.Sample.proofs,
      [(Operation.addSigner Sample.passkey).context SmartAccount.Sample.account.address]⟩,
    .operation (.addSigner Sample.passkey)⟩

/-- The sample account adds its passkey on the ledger as it does alone. -/
theorem sample_direct_calls_perform_run :
    (Sample.system.machine.final Sample.deployedState
      ([Sample.passkeyInvocation].filterMap
        (directCall Sample.chain SmartAccount.Sample.account.address))).world.contracts
        SmartAccount.Sample.account.address =
      some (.account
        (SmartAccount.Sample.account.machine.final Sample.state [Sample.passkeyInvocation])) := by
  have hrun := (Sample.system.direct_calls_perform_run Sample.deployedState
    Sample.deployedState_live Sample.deployed [Sample.passkeyInvocation] ?_).1
  · change (Sample.system.machine.final Sample.deployedState (List.filterMap
      (directCall Sample.system.chain SmartAccount.Sample.account.address) _)).world.contracts _ = _
    rw [hrun]
    exact World.contracts_place _ _ _
  · intro inv hinv
    rw [List.mem_singleton.mp hinv]
    exact ⟨rfl, fun hash hcall => by cases hcall⟩

end StellarSmartAccount.Ledger
