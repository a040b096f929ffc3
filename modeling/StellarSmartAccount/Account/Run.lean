import StellarSmartAccount.Foundations.Machine
import StellarSmartAccount.Account.Operations

/-! # Invocations of a deployed account and their effects

Anyone may invoke any entry point at any ledger time. The host lets an
administrative call through only when the account itself accepts, in the state
before the call, an authorization entry that covers the call. A step of a live
account therefore either leaves the state alone or performs one authorized
operation. An upgrade is taken to install code of the same behaviour; the
ledger modules say what becomes of an account that other code takes over.
-/

namespace StellarSmartAccount.SmartAccount
open Foundations Soroban

/-- An account contract: its own address on a host with the given cryptography. -/
structure Account where
  crypto : Crypto
  address : Address

/-- An authorization entry: the hash that was signed, the proofs and the
invocations it covers. -/
structure AuthEntry where
  signaturePayload : BytesN 32
  proofs : SignatureProofs
  contexts : List Context

/-- The entry points that demand the account's own authorization. -/
inductive Operation where
  | addSigner (signer : Signer)
  | updateSigner (signer : Signer)
  | revokeSigner (signerKey : SignerKey)
  | upgrade (newWasmHash : BytesN 32)

namespace Operation

def fnName : Operation → Symbol
  | .addSigner _ => "add_signer"
  | .updateSigner _ => "update_signer"
  | .revokeSigner _ => "revoke_signer"
  | .upgrade _ => "upgrade"

def args : Operation → List Val
  | .addSigner signer => [intoVal signer]
  | .updateSigner signer => [intoVal signer]
  | .revokeSigner signerKey => [intoVal signerKey]
  | .upgrade newWasmHash => [intoVal newWasmHash]

/-- The context the host presents to the account for the call. -/
def context (op : Operation) (address : Address) : Context :=
  .contract ⟨address, op.fnName, op.args⟩

def run (env : Env) : Operation → Fallible Error Unit
  | .addSigner signer => SmartAccount.addSigner env signer
  | .updateSigner signer => SmartAccount.updateSigner env signer
  | .revokeSigner signerKey => SmartAccount.revokeSigner env signerKey
  | .upgrade newWasmHash => liftM (SmartAccount.upgrade env newWasmHash)

/-- The writes of a successful operation to the signer table. -/
def writes : Operation → List (SignerKey × Option Signer)
  | .addSigner signer => [(signer.key, some signer)]
  | .updateSigner signer => [(signer.key, some signer)]
  | .revokeSigner signerKey => [(signerKey, none)]
  | .upgrade _ => []

/-- When the operation succeeds, once it is authorized. -/
def Enabled (wasmExists : BytesN 32 → Bool) (s : State) : Operation → Prop
  | .addSigner signer => signers s signer.key = none
  | .updateSigner signer => (signers s signer.key).isSome
  | .revokeSigner signerKey => ∃ signer, signers s signerKey = some signer ∧ signer.role ≠ .admin
  | .upgrade newWasmHash => wasmExists newWasmHash = true

/-- The state after the operation succeeds. -/
def next (s : State) : Operation → State
  | .addSigner signer => added s signer
  | .updateSigner signer => updated s signer
  | .revokeSigner signerKey =>
    match signers s signerKey with
    | some signer => revoked s signerKey signer
    | none => s
  | .upgrade newWasmHash => Upgradeable.upgraded s newWasmHash

end Operation

inductive AccountCall where
  | operation (op : Operation)
  | checkAuth (signaturePayload : BytesN 32) (authPayloads : SignatureProofs)
      (authContexts : List Context)

structure Invocation where
  timestamp : UInt64
  wasmExists : BytesN 32 → Bool
  auth : Option AuthEntry
  call : AccountCall

abbrev Response := Except Abort (Except Error Unit)

namespace Account
variable (account : Account)

/-- The environment of `__check_auth`, which demands no authorization itself. -/
def checkEnv (timestamp : UInt64) : Env where
  crypto := account.crypto
  currentContractAddress := account.address
  timestamp := timestamp
  wasmExists _ := false
  authorizes _ _ := false

/-- Whether `__check_auth` returns Ok on an entry. -/
def accepts (timestamp : UInt64) (entry : AuthEntry) (s : State) : Bool :=
  match (checkAuth (account.checkEnv timestamp) entry.signaturePayload entry.proofs
    entry.contexts).exec s with
  | .ok (.ok _, _) => true
  | _ => false

/-- The invocation carries an accepted entry that covers the operation. -/
def authorizes (inv : Invocation) (op : Operation) (s : State) : Bool :=
  inv.auth.any fun entry =>
    decide (op.context account.address ∈ entry.contexts) && account.accepts inv.timestamp entry s

/-- The environment in which an invocation performs an operation. -/
def env (inv : Invocation) (op : Operation) : Env :=
  { account.checkEnv inv.timestamp with
    wasmExists := inv.wasmExists
    authorizes := fun address s => decide (address = account.address) &&
      account.authorizes inv op s }

/-- One invocation; an abort is rolled back by the host. -/
def step (inv : Invocation) (s : State) : Response × State :=
  match inv.call with
  | .operation op => Call.commit (op.run (account.env inv op)) s
  | .checkAuth signaturePayload authPayloads authContexts =>
    Call.commit (checkAuth (account.checkEnv inv.timestamp) signaturePayload authPayloads
      authContexts) s

def machine : Machine State Invocation Response where
  step := account.step

end Account

/-- The states of a deployed account. -/
structure Live (s : State) : Prop where
  represented : Represented s
  initialized : s.flag Initializable.initialized = true

theorem Live.next {s : State} (h : Live s) (op : Operation) : Live (op.next s) := by
  cases op with
  | addSigner signer =>
    exact ⟨h.represented.of_added signer, (flag_added _).trans h.initialized⟩
  | updateSigner signer =>
    exact ⟨h.represented.of_updated signer, (flag_updated _).trans h.initialized⟩
  | revokeSigner key =>
    rw [Operation.next]
    split
    · exact ⟨h.represented.of_revoked key _, (flag_revoked _).trans h.initialized⟩
    · exact h
  | upgrade hash =>
    exact ⟨h.represented.of_upgraded hash, (flag_initialized_upgraded hash).trans h.initialized⟩

theorem signers_next (s : State) (op : Operation) :
    signers (op.next s) = (signers s).writeAll op.writes := by
  cases op with
  | addSigner signer => exact signers_added
  | updateSigner signer => exact signers_updated
  | revokeSigner key =>
    rw [Operation.next]
    split
    · exact signers_revoked
    · next hnone =>
      funext k
      change _ = (signers s).set key none k
      rw [Table.set_apply]
      split_ifs with hk
      · rw [hk, hnone]
      · rfl
  | upgrade hash => exact signers_upgraded hash

/-- An entry after an operation is the signer that it added or updated, or an entry
from before under a key that it does not write. -/
theorem signers_next_eq_some {s : State} {op : Operation} {key : SignerKey} {signer : Signer}
    (h : signers (op.next s) key = some signer) :
    ((op = .addSigner signer ∨ op = .updateSigner signer) ∧ signer.key = key) ∨
      (signers s key = some signer ∧ ∀ w ∈ op.writes, w.1 ≠ key) := by
  rw [signers_next] at h
  cases op with
  | addSigner added =>
    rcases Table.set_eq_some_iff.mp h with ⟨rfl, ⟨⟩⟩ | ⟨hkey, hold⟩
    · exact .inl ⟨.inl rfl, rfl⟩
    · exact .inr ⟨hold, by simpa [Operation.writes] using hkey.symm⟩
  | updateSigner updated =>
    rcases Table.set_eq_some_iff.mp h with ⟨rfl, ⟨⟩⟩ | ⟨hkey, hold⟩
    · exact .inl ⟨.inr rfl, rfl⟩
    · exact .inr ⟨hold, by simpa [Operation.writes] using hkey.symm⟩
  | revokeSigner key' =>
    rcases Table.set_eq_some_iff.mp h with ⟨-, ⟨⟩⟩ | ⟨hkey, hold⟩
    exact .inr ⟨hold, by simpa [Operation.writes] using hkey.symm⟩
  | upgrade hash => exact .inr ⟨h, nofun⟩

section Step
variable {account : Account} {inv : Invocation} {op : Operation} {s : State}

theorem accepts_iff {timestamp : UInt64} {entry : AuthEntry} :
    account.accepts timestamp entry s = true ↔
      Accepts (account.checkEnv timestamp) entry.signaturePayload (signers s)
        entry.proofs.proofs.toList entry.contexts := by
  rw [Account.accepts, ← refusal_eq_none_iff, checkAuth_exec]
  rcases refusal (account.checkEnv timestamp) entry.signaturePayload (entries s)
    entry.proofs.proofs.toList entry.contexts with _ | ⟨e | r⟩ <;> simp [Call.outcome]

theorem authorizes_iff :
    account.authorizes inv op s = true ↔
      ∃ entry, inv.auth = some entry ∧ op.context account.address ∈ entry.contexts ∧
        account.accepts inv.timestamp entry s = true := by
  rw [Account.authorizes, Option.any_eq_true]
  simp only [Bool.and_eq_true, decide_eq_true_eq]

theorem env_authorizes :
    (account.env inv op).authorizes (account.env inv op).currentContractAddress s =
      account.authorizes inv op s := by
  change (decide (account.address = account.address) && _) = _
  rw [decide_eq_true rfl, Bool.true_and]

theorem permitted_env (h : Live s) :
    permitted (account.env inv op) s = account.authorizes inv op s := by
  rw [permitted, h.initialized, env_authorizes]
  rfl

theorem run_upgrade_exec (hash : BytesN 32) :
    ((Operation.upgrade hash).run (account.env inv (.upgrade hash))).exec s =
      if account.authorizes inv (.upgrade hash) s then
        if inv.wasmExists hash then .ok (.ok ⟨⟩, Upgradeable.upgraded s hash)
        else .error .missingWasm
      else .error .auth := by
  change (liftM (upgrade (account.env inv (.upgrade hash)) hash) : Fallible Error Unit).exec s = _
  rw [Call.exec_lift]
  by_cases h : account.authorizes inv (.upgrade hash) s = true
  · rw [if_pos h]
    rw [← env_authorizes] at h
    rw [upgrade_exec_of_authorizes h]
    cases hwasm : inv.wasmExists hash <;> simp [Account.env, hwasm, Except.map]
  · rw [if_neg h]
    rw [← env_authorizes] at h
    rw [upgrade_exec_of_not_authorizes h]
    rfl

theorem run_exec_of_not_authorizes (h : Live s) (hauth : ¬ account.authorizes inv op s = true) :
    (op.run (account.env inv op)).exec s = .error .auth := by
  have hp : ¬ permitted (account.env inv op) s = true := by rwa [permitted_env h]
  cases op with
  | addSigner signer => exact (addSigner_exec h.represented _ signer).trans (if_neg hp)
  | updateSigner signer => exact (updateSigner_exec h.represented _ signer).trans (if_neg hp)
  | revokeSigner key => exact (revokeSigner_exec h.represented _ key).trans (if_neg hp)
  | upgrade hash => exact (run_upgrade_exec hash).trans (if_neg hauth)

theorem run_exec_of_enabled (h : Live s) (hauth : account.authorizes inv op s = true)
    (henabled : op.Enabled inv.wasmExists s) :
    (op.run (account.env inv op)).exec s = .ok (.ok ⟨⟩, op.next s) := by
  have hp : permitted (account.env inv op) s = true := by rwa [permitted_env h]
  cases op with
  | addSigner signer =>
    refine (addSigner_exec h.represented _ signer).trans ?_
    have habsent : ¬ (signers s signer.key).isSome = true := by
      rw [show signers s signer.key = none from henabled]
      simp
    rw [if_pos hp, if_neg habsent]
    rfl
  | updateSigner signer =>
    refine (updateSigner_exec h.represented _ signer).trans ?_
    have hstored : (signers s signer.key).isSome = true := henabled
    rw [if_pos hp, if_pos hstored]
    rfl
  | revokeSigner key =>
    refine (revokeSigner_exec h.represented _ key).trans ?_
    obtain ⟨signer, hsigner, hrole⟩ := henabled
    simp only [if_pos hp, hsigner, if_neg hrole, Operation.next]
  | upgrade hash =>
    rw [run_upgrade_exec, if_pos hauth]
    exact if_pos henabled

/-- An authorized signer operation that is not enabled returns an error and changes
nothing. -/
theorem run_exec_of_refused (h : Live s) (hauth : account.authorizes inv op s = true)
    (hsigner : ∀ hash, op ≠ .upgrade hash) (henabled : ¬ op.Enabled inv.wasmExists s) :
    ∃ e, (op.run (account.env inv op)).exec s = .ok (.error e, s) := by
  have hp : permitted (account.env inv op) s = true := by rwa [permitted_env h]
  cases op with
  | addSigner signer =>
    refine ⟨.storageEntryAlreadyExists, (addSigner_exec h.represented _ signer).trans ?_⟩
    rw [if_pos hp, if_pos (Option.isSome_iff_ne_none.mpr henabled)]
  | updateSigner signer =>
    refine ⟨.storageEntryNotFound, (updateSigner_exec h.represented _ signer).trans ?_⟩
    have habsent : ¬ (signers s signer.key).isSome = true := henabled
    rw [if_pos hp, if_neg habsent]
  | revokeSigner key =>
    have hexec := revokeSigner_exec h.represented (account.env inv (.revokeSigner key)) key
    rw [if_pos hp] at hexec
    cases hs : signers s key with
    | none =>
      rw [hs] at hexec
      exact ⟨_, hexec⟩
    | some signer =>
      rw [hs] at hexec
      have hadmin : signer.role = .admin := by
        by_contra hrole
        exact henabled ⟨signer, hs, hrole⟩
      exact ⟨_, hexec.trans (if_pos hadmin)⟩
  | upgrade hash => exact absurd rfl (hsigner hash)

theorem run_exec_of_not_enabled (h : Live s) (hauth : account.authorizes inv op s = true)
    (henabled : ¬ op.Enabled inv.wasmExists s) :
    (∃ e, (op.run (account.env inv op)).exec s = .ok (.error e, s)) ∨
      ∃ r, (op.run (account.env inv op)).exec s = .error r := by
  by_cases hsigner : ∀ hash, op ≠ .upgrade hash
  · exact .inl (run_exec_of_refused h hauth hsigner henabled)
  · simp only [not_forall, not_not] at hsigner
    obtain ⟨hash, rfl⟩ := hsigner
    rw [run_upgrade_exec, if_pos hauth]
    exact .inr ⟨.missingWasm, if_neg henabled⟩

theorem step_operation (hcall : inv.call = .operation op) (s : State) :
    account.step inv s = Call.commit (op.run (account.env inv op)) s := by
  rw [Account.step, hcall]

theorem step_checkAuth {payload : BytesN 32} {proofs : SignatureProofs} {contexts : List Context}
    (hcall : inv.call = .checkAuth payload proofs contexts) (s : State) :
    account.step inv s =
      (Call.response ⟨⟩ (refusal (account.checkEnv inv.timestamp) payload (entries s)
        proofs.proofs.toList contexts), s) := by
  rw [Account.step, hcall]
  exact Call.commit_of_outcome (checkAuth_exec (account.checkEnv inv.timestamp) payload s proofs
    contexts)

/-- What one invocation can do to a live account. -/
inductive Effect (account : Account) (inv : Invocation) (s : State) : Response × State → Prop where
  | failed (response : Response) (hfail : response ≠ .ok (.ok ⟨⟩)) :
      Effect account inv s (response, s)
  | checked {payload : BytesN 32} {proofs : SignatureProofs} {contexts : List Context}
      (hcall : inv.call = .checkAuth payload proofs contexts) (response : Response) :
      Effect account inv s (response, s)
  | performed {op : Operation} (hcall : inv.call = .operation op)
      (hauth : account.authorizes inv op s = true) (henabled : op.Enabled inv.wasmExists s) :
      Effect account inv s (.ok (.ok ⟨⟩), op.next s)

/-- Every step of a live account fails without effect, decides an authorization or
performs one authorized operation. -/
theorem step_effect (h : Live s) (account : Account) (inv : Invocation) :
    Effect account inv s (account.step inv s) := by
  match hcall : inv.call with
  | .checkAuth payload proofs contexts =>
    rw [step_checkAuth hcall]
    exact .checked hcall _
  | .operation op =>
    rw [step_operation hcall]
    by_cases hauth : account.authorizes inv op s = true
    · by_cases henabled : op.Enabled inv.wasmExists s
      · rw [Call.commit_of_ok (run_exec_of_enabled h hauth henabled)]
        exact .performed hcall hauth henabled
      · rcases run_exec_of_not_enabled h hauth henabled with ⟨e, he⟩ | ⟨r, hr⟩
        · rw [Call.commit_of_ok he]
          exact .failed _ (by simp)
        · rw [Call.commit_of_error hr]
          exact .failed _ (by simp)
    · rw [Call.commit_of_error (run_exec_of_not_authorizes h hauth)]
      exact .failed _ (by simp)

theorem step_of_enabled (h : Live s) (hcall : inv.call = .operation op)
    (hauth : account.authorizes inv op s = true) (henabled : op.Enabled inv.wasmExists s) :
    account.step inv s = (.ok (.ok ⟨⟩), op.next s) := by
  rw [step_operation hcall]
  exact Call.commit_of_ok (run_exec_of_enabled h hauth henabled)

theorem performed_of_ok (h : Live s) (hcall : inv.call = .operation op)
    (hok : (account.step inv s).1 = .ok (.ok ⟨⟩)) :
    account.authorizes inv op s = true ∧ op.Enabled inv.wasmExists s ∧
      (account.step inv s).2 = op.next s := by
  have heffect := step_effect h account inv
  generalize account.step inv s = result at heffect hok
  cases heffect with
  | failed response hfail => exact absurd hok hfail
  | checked hcall' response => simp [hcall] at hcall'
  | performed hcall' hauth henabled =>
    rw [hcall] at hcall'
    cases hcall'
    exact ⟨hauth, henabled, rfl⟩

theorem step_preserves {P : State → Prop} (h : Live s) (hs : P s)
    (hnext : ∀ op, inv.call = .operation op → account.authorizes inv op s = true →
      op.Enabled inv.wasmExists s → P (op.next s)) : P (account.step inv s).2 := by
  have heffect := step_effect h account inv
  generalize account.step inv s = result at heffect
  cases heffect with
  | failed response hfail => exact hs
  | checked hcall response => exact hs
  | performed hcall hauth henabled => exact hnext _ hcall hauth henabled

theorem Live.step (h : Live s) (account : Account) (inv : Invocation) :
    Live (account.step inv s).2 :=
  step_preserves h h fun op _ _ _ => h.next op

theorem Live.final (h : Live s) (account : Account) (is : List Invocation) :
    Live (account.machine.final s is) :=
  account.machine.final_invariant (fun inv _ ht => ht.step account inv) h is

end Step
end StellarSmartAccount.SmartAccount
