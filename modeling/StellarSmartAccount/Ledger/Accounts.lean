import StellarSmartAccount.Foundations.Population
import StellarSmartAccount.Factory.Network
import StellarSmartAccount.Ledger.Chain

/-! # The contracts of a ledger as a population

Within one transaction an account is born by its constructor and moves by operations that
the host authorized for the very call, until an upgrade to other code ends it. The contracts
evolve in this way under every request of every program.
-/

namespace StellarSmartAccount.Ledger
open Foundations Soroban SmartAccount

/-- An operation keeps the code, unless it is an upgrade. -/
theorem wasm_next {build : BytesN 32 → Bool} {s : State} (hs : build s.wasm = true)
    {op : Operation} (h : ∀ hash, op = .upgrade hash → build hash = true) :
    build (op.next s).wasm = true := by
  cases op with
  | addSigner signer => exact hs
  | updateSigner signer => exact hs
  | revokeSigner signerKey =>
    rw [Operation.next]
    split
    · exact hs
    · exact hs
  | upgrade hash => exact h hash rfl

theorem wasm_foldl_added (signers : List Signer) (s : State) :
    (signers.foldl added s).wasm = s.wasm := by
  induction signers generalizing s with
  | nil => rfl
  | cons signer signers ih => exact ih (added s signer)

/-- A deployed account runs the code that it was deployed with. -/
theorem wasm_of_deploy {account : Account} {d : Deployment} {s : State}
    (h : account.deploy d = .ok (⟨⟩, s)) : s.wasm = d.wasm := by
  obtain ⟨-, rfl⟩ := Account.deploy_ok_iff.mp h
  exact wasm_foldl_added d.signers (created d.wasm)

namespace Chain
variable {κ ρ : Type} {chain : Chain κ ρ} {exec : Execution ρ}
  {begun begun' : Execution ρ → World ρ → Prop} {start w w' : World ρ} {address : Address}
  {s s' : State}

/-- Every account of the ledger is in a live state, runs a build of the account and has an
address of its own. -/
def Live (chain : Chain κ ρ) (w : World ρ) : Prop :=
  ∀ address s, w.contracts address = some (.account s) →
    SmartAccount.Live s ∧ chain.accountBuild s.wasm = true ∧ address ≠ chain.factory

/-- What a creation leaves at an address. -/
inductive Constructs (chain : Chain κ ρ) (timestamp : UInt64) (address : Address)
    (wasmHash : BytesN 32) (constructorArgs : List Val) : Contract → Prop where
  | account {signers : List Signer} {s : State} (hbuild : chain.accountBuild wasmHash = true)
      (hargs : constructorArgs = [intoVal signers])
      (hdeploy : (chain.account address).deploy ⟨timestamp, wasmHash, signers⟩ = .ok (⟨⟩, s)) :
      Constructs chain timestamp address wasmHash constructorArgs (.account s)
  | other (hbuild : chain.accountBuild wasmHash = false) :
      Constructs chain timestamp address wasmHash constructorArgs (.other (created wasmHash))

/-- One thing that happens to the ledger: a request, or a creation by the factory. -/
inductive Step (chain : Chain κ ρ) (exec : Execution ρ) : World ρ → World ρ → Prop where
  | served {request : Request κ ρ} {v : Val} {w w' : World ρ}
      (h : chain.serve exec request w = some (v, w')) : Step chain exec w w'
  | created {salt wasmHash : BytesN 32} {constructorArgs : List Val} {w w' : World ρ}
      (h : chain.create exec (chain.deployedAddress chain.factory salt) wasmHash constructorArgs w =
        some w') : Step chain exec w w'

/-- A transaction may go from one state to the other. -/
def Within (chain : Chain κ ρ) (exec : Execution ρ) : World ρ → World ρ → Prop :=
  Relation.ReflTransGen (chain.Step exec)

/-- The account performs an operation in the course of a transaction that has begun in some
state. The host has authorized the very call, and the account runs a build after it. -/
def Performs (chain : Chain κ ρ) (begun : Execution ρ → World ρ → Prop) (address : Address)
    (s s' : State) : Prop :=
  ∃ exec start w op, begun exec start ∧ chain.Within exec start w ∧
    w.contracts address = some (.account s) ∧
    exec.authorizes address (Operation.context op address) w = true ∧
    op.Enabled w.modules.contains s ∧ s' = op.next s ∧ chain.accountBuild s'.wasm = true

/-- The account is upgraded to uploaded code that is no build of the account, which the host
has authorized for this call. -/
def Leaves (chain : Chain κ ρ) (begun : Execution ρ → World ρ → Prop) (address : Address)
    (s : State) : Prop :=
  ∃ exec start w hash, begun exec start ∧ chain.Within exec start w ∧
    w.contracts address = some (.account s) ∧
    exec.authorizes address ((Operation.upgrade hash).context address) w = true ∧
    w.modules.contains hash = true ∧ chain.accountBuild hash = false

/-- An account changes by its own operations; what is no account any more changes freely. -/
inductive Moves (chain : Chain κ ρ) (begun : Execution ρ → World ρ → Prop) (address : Address) :
    Contract → Contract → Prop where
  | performed {s s' : State} (h : chain.Performs begun address s s') :
      Moves chain begun address (.account s) (.account s')
  | left {s : State} (h : chain.Leaves begun address s) (s' : State) :
      Moves chain begun address (.account s) (.other s')
  | other (s s' : State) : Moves chain begun address (.other s) (.other s')

/-- Whatever moves an account, the host has authorized an operation of it for this call. -/
theorem Moves.authorized {c : Contract} (h : chain.Moves begun address (.account s) c) :
    ∃ exec start w op, begun exec start ∧ chain.Within exec start w ∧
      w.contracts address = some (.account s) ∧
      exec.authorizes address (Operation.context op address) w = true := by
  cases h with
  | performed h =>
    obtain ⟨exec, start, w, op, hbegun, hwithin, hs, hauth, -⟩ := h
    exact ⟨exec, start, w, op, hbegun, hwithin, hs, hauth⟩
  | left h s' =>
    obtain ⟨exec, start, w, hash, hbegun, hwithin, hs, hauth, -⟩ := h
    exact ⟨exec, start, w, .upgrade hash, hbegun, hwithin, hs, hauth⟩

/-- How the contracts may change in transactions that have begun in some states. -/
def population (chain : Chain κ ρ) (begun : Execution ρ → World ρ → Prop) :
    Population Address Contract where
  born address c := ∃ exec start w wasmHash constructorArgs, begun exec start ∧
    chain.Within exec start w ∧ chain.available w address wasmHash = true ∧
    chain.Constructs exec.timestamp address wasmHash constructorArgs c
  moves := chain.Moves begun

theorem Moves.mono (hbegun : ∀ exec start, begun exec start → begun' exec start) {c c' : Contract}
    (h : chain.Moves begun address c c') : chain.Moves begun' address c c' := by
  cases h with
  | performed h =>
    obtain ⟨exec, start, w, op, hexec, h⟩ := h
    exact .performed ⟨exec, start, w, op, hbegun exec start hexec, h⟩
  | left h s' =>
    obtain ⟨exec, start, w, hash, hexec, h⟩ := h
    exact .left ⟨exec, start, w, hash, hbegun exec start hexec, h⟩ s'
  | other s s' => exact .other s s'

theorem evolves_mono (hbegun : ∀ exec start, begun exec start → begun' exec start)
    {t t' : Table Address Contract} (h : (chain.population begun).Evolves t t') :
    (chain.population begun').Evolves t t' := by
  refine h.mono ?_ fun address c c' => Moves.mono hbegun
  rintro address c ⟨exec, start, w, wasmHash, constructorArgs, hexec, hborn⟩
  exact ⟨exec, start, w, wasmHash, constructorArgs, hbegun exec start hexec, hborn⟩

theorem Constructs.live {timestamp : UInt64} {wasmHash : BytesN 32} {constructorArgs : List Val}
    (h : chain.Constructs timestamp address wasmHash constructorArgs (.account s)) :
    SmartAccount.Live s ∧ chain.accountBuild s.wasm = true := by
  cases h with
  | account hbuild hargs hdeploy =>
    refine ⟨live_of_deploy hdeploy, ?_⟩
    rw [wasm_of_deploy hdeploy]
    exact hbuild

theorem free_of_available {wasmHash : BytesN 32}
    (h : chain.available w address wasmHash = true) :
    w.contracts address = none ∧ address ≠ chain.factory := by
  rw [available, Bool.and_eq_true, Bool.and_eq_true, Option.isNone_iff_eq_none,
    decide_eq_true_eq] at h
  exact ⟨h.1.2, h.2⟩

/-- Births and moves lead to live states. -/
theorem live_of_evolves (hw : chain.Live w)
    (h : (chain.population begun).Evolves w.contracts w'.contracts) : chain.Live w' := by
  have hall := h.invariant (I := fun address c => ∀ s, c = .account s →
    SmartAccount.Live s ∧ chain.accountBuild s.wasm = true ∧ address ≠ chain.factory) ?_ ?_ ?_
  · exact fun address s hs => hall address _ hs s rfl
  · rintro address c ⟨exec, start, u, wasmHash, constructorArgs, -, -, hfree, hborn⟩ s rfl
    exact ⟨hborn.live.1, hborn.live.2, (free_of_available hfree).2⟩
  · rintro address c c' hmoves hc s rfl
    cases hmoves with
    | performed h =>
      obtain ⟨exec, start, u, op, -, -, -, -, -, rfl, hbuild⟩ := h
      exact ⟨(hc _ rfl).1.next op, hbuild, (hc _ rfl).2.2⟩
  · rintro address c hc s rfl
    exact hw address s hc

theorem running_eq_some_iff {c : Contract} :
    chain.running w address = some c ↔
      w.contracts address = some c ∧ chain.accountBuild c.state.wasm = true := by
  rw [running, Option.filter_eq_some_iff]

theorem running_account (hw : chain.Live w) (h : w.contracts address = some (.account s)) :
    chain.running w address = some (.account s) :=
  running_eq_some_iff.mpr ⟨h, (hw address s h).2.1⟩

theorem after_account (h : chain.accountBuild s'.wasm = true) :
    chain.after (.account s) s' = .account s' := if_pos h

theorem after_other (c : Contract) (h : chain.accountBuild s.wasm = false) :
    chain.after c s = .other s := by
  cases c with
  | account s' => exact if_neg (Bool.eq_false_iff.mp h)
  | other s' => rfl

/-- A call of an account performs one authorized operation. -/
theorem callAccount_eq_some_iff (hw : chain.Live w) {func : Symbol} {args : List Val} {v : Val}
    (hs : w.contracts address = some (.account s)) :
    chain.callAccount exec address func args w = some (v, w') ↔
      ∃ op, Operation.ofCall func args = some op ∧
        exec.authorizes address (Operation.context op address) w = true ∧
        op.Enabled w.modules.contains s ∧ v = .scalar .void ∧
        w' = w.place address (chain.after (.account s) (op.next s)) := by
  have hlive : SmartAccount.Live s := (hw address s hs).1
  rw [callAccount, running_account hw hs, Option.bind_eq_bind, Option.bind_some,
    Option.bind_eq_bind, Option.bind_eq_some_iff]
  constructor
  · rintro ⟨⟨v', s'⟩, hinvoke, heq⟩
    obtain ⟨op, hcall, hauth, henabled, rfl, rfl⟩ := (invoke_eq_some_iff hlive).mp hinvoke
    cases heq
    have hcontext : op.context address = _ := Operation.context_eq_iff.mpr ⟨rfl, hcall⟩
    exact ⟨op, hcall, hcontext ▸ hauth, henabled, rfl, rfl⟩
  · rintro ⟨op, hcall, hauth, henabled, rfl, rfl⟩
    have hcontext : op.context address = _ := Operation.context_eq_iff.mpr ⟨rfl, hcall⟩
    rw [hcontext] at hauth
    exact ⟨(.scalar .void, op.next s),
      (invoke_eq_some_iff hlive).mpr ⟨op, hcall, hauth, henabled, rfl, rfl⟩, rfl⟩

/-- An enabled operation of an account that leaves the builds is an upgrade to other code. -/
theorem wasm_next_eq_false {op : Operation} (hs : chain.accountBuild s.wasm = true)
    (h : chain.accountBuild (op.next s).wasm = false) :
    ∃ hash, op = .upgrade hash ∧ chain.accountBuild hash = false := by
  by_contra hnone
  have hbuild : chain.accountBuild (op.next s).wasm = true := by
    refine wasm_next hs fun hash hop => ?_
    by_contra hhash
    exact hnone ⟨hash, hop, Bool.eq_false_iff.mpr hhash⟩
  rw [hbuild] at h
  cases h

theorem callAccount_place {func : Symbol} {args : List Val} {v : Val}
    (h : chain.callAccount exec address func args w = some (v, w')) :
    ∃ c c', w.contracts address = some c ∧ w' = w.place address c' := by
  obtain ⟨c, hrunning, h⟩ := Option.bind_eq_some_iff.mp h
  obtain ⟨⟨v', s'⟩, -, heq⟩ := Option.bind_eq_some_iff.mp h
  cases heq
  exact ⟨c, _, (running_eq_some_iff.mp hrunning).1, rfl⟩

theorem callAccount_step (hbegun : begun exec start) (hwithin : chain.Within exec start w)
    (hw : chain.Live w) {func : Symbol} {args : List Val} {v : Val}
    (h : chain.callAccount exec address func args w = some (v, w')) :
    (chain.population begun).Step w.contracts w'.contracts := by
  obtain ⟨c, hrunning, hinvoke⟩ := Option.bind_eq_some_iff.mp h
  obtain ⟨hc, hcode⟩ := running_eq_some_iff.mp hrunning
  cases c with
  | account s =>
    obtain ⟨op, -, hauth, henabled, -, rfl⟩ := (callAccount_eq_some_iff hw hc).mp h
    refine .moved hc ?_
    cases hbuild : chain.accountBuild (op.next s).wasm with
    | true =>
      rw [after_account hbuild]
      exact .performed ⟨exec, start, w, op, hbegun, hwithin, hc, hauth, henabled, rfl, hbuild⟩
    | false =>
      obtain ⟨hash, rfl, hother⟩ := wasm_next_eq_false hcode hbuild
      rw [after_other _ hbuild]
      exact .left ⟨exec, start, w, hash, hbegun, hwithin, hc, hauth, henabled, hother⟩ _
  | other s =>
    obtain ⟨⟨v', s'⟩, -, heq⟩ := Option.bind_eq_some_iff.mp hinvoke
    cases heq
    exact .moved hc (.other s s')

/-- A creation of an account runs the constructor on the signers that its argument encodes. -/
theorem createAccount_eq_some_iff {wasmHash : BytesN 32} {constructorArgs : List Val} :
    chain.createAccount exec address wasmHash constructorArgs w = some w' ↔
      ∃ (signers : List Signer) (s : State), constructorArgs = [intoVal signers] ∧
        (chain.account address).deploy ⟨exec.timestamp, wasmHash, signers⟩ = .ok (⟨⟩, s) ∧
        w' = w.place address (.account s) := by
  constructor
  · intro h
    unfold createAccount at h
    split at h
    · obtain ⟨signers, hsigners, hmatch⟩ := Option.bind_eq_some_iff.mp h
      rw [tryFromVal_eq_some_iff] at hsigners
      subst hsigners
      split at hmatch
      · next s hdeploy =>
        cases hmatch
        exact ⟨signers, s, rfl, hdeploy, rfl⟩
      · cases hmatch
    · cases h
  · rintro ⟨signers, s, rfl, hdeploy, rfl⟩
    refine Option.bind_eq_some_iff.mpr ⟨signers, LawfulVal.tryFromVal_intoVal signers, ?_⟩
    rw [hdeploy]
    rfl

theorem create_eq_some_iff {wasmHash : BytesN 32} {constructorArgs : List Val} :
    chain.create exec address wasmHash constructorArgs w = some w' ↔
      chain.available w address wasmHash = true ∧
      ∃ c, chain.Constructs exec.timestamp address wasmHash constructorArgs c ∧
        w' = w.place address c := by
  rw [create, Option.bind_eq_bind, Option.bind_eq_some_iff]
  constructor
  · rintro ⟨_, hguard, h⟩
    rw [Option.guard_eq_some'] at hguard
    refine ⟨hguard, ?_⟩
    split_ifs at h with hbuild
    · obtain ⟨signers, s, hargs, hdeploy, rfl⟩ := createAccount_eq_some_iff.mp h
      exact ⟨_, .account hbuild hargs hdeploy, rfl⟩
    · cases h
      exact ⟨_, .other (Bool.eq_false_iff.mpr hbuild), rfl⟩
  · rintro ⟨hguard, c, hconstructs, rfl⟩
    refine ⟨⟨⟩, by rw [Option.guard_eq_some']; exact hguard, ?_⟩
    cases hconstructs with
    | account hbuild hargs hdeploy =>
      rw [if_pos hbuild]
      exact createAccount_eq_some_iff.mpr ⟨_, _, hargs, hdeploy, rfl⟩
    | other hbuild => exact if_neg (Bool.eq_false_iff.mp hbuild)

theorem create_step (hbegun : begun exec start) (hwithin : chain.Within exec start w)
    {wasmHash : BytesN 32} {constructorArgs : List Val}
    (h : chain.create exec address wasmHash constructorArgs w = some w') :
    (chain.population begun).Step w.contracts w'.contracts := by
  obtain ⟨hfree, c, hconstructs, rfl⟩ := create_eq_some_iff.mp h
  exact .born (free_of_available hfree).1
    ⟨exec, start, w, wasmHash, constructorArgs, hbegun, hwithin, hfree, hconstructs⟩

theorem uploadContractWasm_eq_some_iff {wasm : Bytes} {wasmHash : BytesN 32} :
    chain.uploadContractWasm wasm w = some (wasmHash, w') ↔
      chain.validWasm wasm = true ∧ wasmHash = chain.crypto.sha256 wasm ∧
        w' = { w with modules := w.modules.insert wasmHash } := by
  rw [uploadContractWasm]
  split_ifs with hvalid
  · simp only [Option.some.injEq, Prod.mk.injEq]
    constructor
    · rintro ⟨rfl, rfl⟩
      exact ⟨hvalid, rfl, rfl⟩
    · rintro ⟨-, rfl, rfl⟩
      exact ⟨rfl, rfl⟩
  · simp [hvalid]

/-- What a request does: an account is called, a contract is created, a contract with other code
is written to, or the contracts stay as they are. -/
theorem serve_cases {request : Request κ ρ} {v : Val}
    (h : chain.serve exec request w = some (v, w')) :
    (∃ contract func args, chain.callAccount exec contract func args w = some (v, w')) ∨
    (∃ deployer salt wasmHash constructorArgs, deployer ≠ chain.factory ∧
      chain.create exec (chain.deployedAddress deployer salt) wasmHash constructorArgs w =
        some w') ∨
    (∃ contract s s', w.contracts contract = some (.other s) ∧
      w' = w.place contract (.other s')) ∨
    w'.contracts = w.contracts ∧ w.modules ⊆ w'.modules := by
  cases request with
  | call contract func args => exact .inl ⟨contract, func, args, h⟩
  | create deployer salt wasmHash constructorArgs =>
    obtain ⟨_, hguard, h⟩ := Option.bind_eq_some_iff.mp h
    obtain ⟨u, hcreate, heq⟩ := Option.bind_eq_some_iff.mp h
    cases heq
    rw [Option.guard_eq_some', mayDeploy, Bool.and_eq_true, decide_eq_true_eq] at hguard
    exact .inr (.inl ⟨deployer, salt, wasmHash, constructorArgs, hguard.1, hcreate⟩)
  | upload wasm =>
    obtain ⟨⟨wasmHash, u⟩, hupload, heq⟩ := Option.bind_eq_some_iff.mp h
    cases heq
    obtain ⟨-, -, rfl⟩ := uploadContractWasm_eq_some_iff.mp hupload
    exact .inr (.inr (.inr ⟨rfl, fun hash hmem => List.mem_insert_of_mem hmem⟩))
  | write contract s' =>
    obtain ⟨c, hc, h⟩ := Option.bind_eq_some_iff.mp h
    obtain ⟨_, hguard, heq⟩ := Option.bind_eq_some_iff.mp h
    cases heq
    rw [Option.guard_eq_some'] at hguard
    cases c with
    | account s => cases hguard
    | other s => exact .inr (.inr (.inl ⟨contract, s, s', hc, rfl⟩))
  | store rest =>
    cases h
    exact .inr (.inr (.inr ⟨rfl, List.Subset.refl _⟩))
  | factory call => cases h

/-- What happens to the ledger changes the contracts by one birth or move, or not at all. -/
theorem step_evolves (hbegun : begun exec start) (hwithin : chain.Within exec start w)
    (hw : chain.Live w) (h : chain.Step exec w w') :
    (chain.population begun).Evolves w.contracts w'.contracts := by
  cases h with
  | created hcreate => exact .of_step (create_step hbegun hwithin hcreate)
  | served h =>
    rcases serve_cases h with ⟨contract, func, args, hcall⟩ |
      ⟨deployer, salt, wasmHash, constructorArgs, -, hcreate⟩ | ⟨contract, s, s', hs, rfl⟩ |
      ⟨hsame, -⟩
    · exact .of_step (callAccount_step hbegun hwithin hw hcall)
    · exact .of_step (create_step hbegun hwithin hcreate)
    · exact .of_step (.moved hs (.other s s'))
    · rw [hsame]
      exact .refl _ _

/-- In the course of a transaction the contracts evolve. -/
theorem evolves_of_within (hbegun : begun exec start) (hwithin : chain.Within exec start w)
    (hw : chain.Live w) (h : chain.Within exec w w') :
    (chain.population begun).Evolves w.contracts w'.contracts ∧ chain.Live w' := by
  induction h with
  | refl => exact ⟨.refl _ _, hw⟩
  | tail hpart hstep ih =>
    obtain ⟨hevolves, hlive⟩ := ih
    have hnext := step_evolves hbegun (hwithin.trans hpart) hlive hstep
    exact ⟨hevolves.trans hnext, live_of_evolves hlive hnext⟩

/-- A relation between states of the ledger that every request respects. -/
structure Respected (chain : Chain κ ρ) (exec : Execution ρ) (R : World ρ → World ρ → Prop) :
    Prop where
  refl : ∀ w, R w w
  trans : ∀ w w' w'', R w w' → R w' w'' → R w w''
  serve : ∀ {request v w w'}, chain.serve exec request w = some (v, w') → R w w'

theorem within_respected (chain : Chain κ ρ) (exec : Execution ρ) :
    chain.Respected exec (chain.Within exec) :=
  ⟨fun _ => .refl, fun _ _ _ => .trans, fun h => .single (.served h)⟩

namespace Respected
variable {R : World ρ → World ρ → Prop} (hR : chain.Respected exec R)
include hR

theorem services (request : Request κ ρ) (w : World ρ) :
    R w ((chain.services exec).step request w).2 := by
  cases hserve : chain.serve exec request w with
  | none =>
    simp only [Chain.services, hserve]
    exact hR.refl w
  | some p =>
    simp only [Chain.services, hserve]
    exact hR.serve hserve

theorem program {p : Program κ ρ} {v : Val}
    (h : p.run (chain.services exec) w = some (v, w')) : R w w' :=
  Interaction.related_of_run hR.refl hR.trans hR.services h

theorem createContract {wasmHash : BytesN 32} {constructorArgs : List Val}
    (hcreate : ∀ {u}, chain.create exec address wasmHash constructorArgs w = some u → R w u)
    (h : chain.createContract exec address wasmHash constructorArgs w = some w') : R w w' := by
  obtain ⟨u, hu, h⟩ := Option.bind_eq_some_iff.mp h
  obtain ⟨⟨v, u'⟩, hprogram, heq⟩ := Option.bind_eq_some_iff.mp h
  cases heq
  exact hR.trans _ _ _ (hcreate hu) (hR.program hprogram)

theorem network : (chain.network exec).Respects R where
  refl := hR.refl
  trans := hR.trans
  upload {wasm w wasmHash w'} h := by
    have hserve : chain.serve exec (.upload wasm) w = some (intoVal wasmHash, w') :=
      Option.bind_eq_some_iff.mpr ⟨(wasmHash, w'), h, rfl⟩
    exact hR.serve hserve
  invoke h := hR.program h

end Respected

/-- A build of the account has nothing left to do after its creation. -/
theorem createContract_eq_some_iff {wasmHash : BytesN 32} {constructorArgs : List Val}
    (hbuild : chain.accountBuild wasmHash = true) :
    chain.createContract exec address wasmHash constructorArgs w = some w' ↔
      chain.available w address wasmHash = true ∧
      ∃ (signers : List Signer) (s : State), constructorArgs = [intoVal signers] ∧
        (chain.account address).deploy ⟨exec.timestamp, wasmHash, signers⟩ = .ok (⟨⟩, s) ∧
        w' = w.place address (.account s) := by
  have hconstruction : ∀ u, chain.construction exec address wasmHash constructorArgs u =
      .stop (.scalar .void) := fun u => if_pos hbuild
  have hcreate : chain.createContract exec address wasmHash constructorArgs w = some w' ↔
      chain.create exec address wasmHash constructorArgs w = some w' := by
    rw [createContract, Option.bind_eq_bind, Option.bind_eq_some_iff]
    simp only [hconstruction]
    constructor
    · rintro ⟨u, hu, heq⟩
      cases heq
      exact hu
    · exact fun h => ⟨w', h, rfl⟩
  rw [hcreate, create_eq_some_iff]
  refine and_congr_right fun _ => ?_
  constructor
  · rintro ⟨c, hconstructs, rfl⟩
    cases hconstructs with
    | account _ hargs hdeploy => exact ⟨_, _, hargs, hdeploy, rfl⟩
    | other hother =>
      rw [hbuild] at hother
      cases hother
  · rintro ⟨signers, s, hargs, hdeploy, rfl⟩
    exact ⟨_, .account hbuild hargs hdeploy, rfl⟩

end Chain
end StellarSmartAccount.Ledger
