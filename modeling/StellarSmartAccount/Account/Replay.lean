import StellarSmartAccount.Account.Dispatch
import StellarSmartAccount.Account.PayloadBinding
import StellarSmartAccount.Foundations.Ticket

/-! # Replay of authorization entries

The host admits an entry before its expiration ledger and with a nonce that it does not keep,
asks the account once about the hash of both and of the invocations, and keeps the nonce if
the transaction succeeds. An Ed25519 signature is therefore used in one transaction at most.
A passkey proof is not bound to the hash, and once it was accepted it stays good under every
other nonce for as long as its public key is stored.
-/

namespace StellarSmartAccount.SmartAccount
open Foundations Soroban

/-- An authorization entry of the account as a transaction carries it. -/
structure SignedEntry where
  nonce : Int64
  signatureExpirationLedger : UInt32
  contexts : List Context
  proofs : SignatureProofs

/-- The nonce with the ledger until which the host keeps it. -/
def SignedEntry.ticket (entry : SignedEntry) : Ticket Int64 :=
  ⟨entry.nonce, entry.signatureExpirationLedger.toNat⟩

/-- An account on a host that hashes what has to be signed, and that takes an entry only if it
expires within so many ledgers. -/
structure HostedAccount extends Account where
  signaturePayload : Int64 → UInt32 → List Context → BytesN 32
  expirationLimit : ℕ

structure HostedState where
  account : State
  nonces : Register Int64
  ledgerSequence : ℕ

/-- A transaction with an entry of the account: the ledgers that have passed since the last
one and the calls of the account in it. Other contracts may use the entry without a call of
the account. -/
structure Submission where
  elapsed : ℕ
  timestamp : UInt64
  wasmExists : BytesN 32 → Bool
  entry : SignedEntry
  calls : List (Symbol × List Val)

namespace HostedAccount
variable (host : HostedAccount)

/-- The hash that the signers of an entry have to sign. -/
def payload (entry : SignedEntry) : BytesN 32 :=
  host.signaturePayload entry.nonce entry.signatureExpirationLedger entry.contexts

/-- What the account is asked about. -/
def authEntry (entry : SignedEntry) : AuthEntry :=
  ⟨host.payload entry, entry.proofs, entry.contexts⟩

/-- The environment of a call; an authenticated entry covers its own invocations. -/
def callEnv (sub : Submission) (func : Symbol) (args : List Val) : Env :=
  { host.toAccount.checkEnv sub.timestamp with
    wasmExists := sub.wasmExists
    authorizes := fun address _ => decide (address = host.address) &&
      decide (Context.contract ⟨address, func, args⟩ ∈ sub.entry.contexts) }

/-- The calls of a transaction in order, up to the first one that fails. -/
def perform (sub : Submission) (s : State) : Option State :=
  sub.calls.foldlM (fun s call =>
    (invoke (host.callEnv sub call.1 call.2) call.1 call.2 s).map Prod.snd) s

/-- Whether the entry is admitted and accepted. -/
def authenticates (sub : Submission) (h : HostedState) : Bool :=
  h.nonces.admits host.expirationLimit sub.entry.ticket (h.ledgerSequence + sub.elapsed) &&
    host.accepts sub.timestamp (host.authEntry sub.entry) h.account

/-- One transaction; a failed one leaves only the time behind. -/
def step (sub : Submission) (h : HostedState) : Bool × HostedState :=
  let ledgerSequence := h.ledgerSequence + sub.elapsed
  if host.authenticates sub h then
    match host.perform sub h.account with
    | some account => (true, ⟨account, h.nonces.use sub.entry.ticket, ledgerSequence⟩)
    | none => (false, { h with ledgerSequence })
  else (false, { h with ledgerSequence })

def machine : Machine HostedState Submission Bool where
  step := host.step

end HostedAccount

/-- The ticket that a transaction used up. -/
def usedTicket (answered : Submission × Bool) : Option (Ticket Int64) :=
  if answered.2 then some answered.1.entry.ticket else none

/-- The transaction succeeded with this Ed25519 signature in its entry. -/
def usesSignature (publicKey : BytesN 32) (signature : BytesN 64)
    (answered : Submission × Bool) : Bool :=
  answered.2 && decide ((SignerKey.ed25519 publicKey, SignerProof.ed25519 signature) ∈
    answered.1.entry.proofs.proofs.toList)

/-- The name and the arguments that a call of the operation carries. -/
def Operation.call (op : Operation) : Symbol × List Val := (op.fnName, op.args)

/-- Each operation of a list is enabled where the ones before it have led. -/
def AllEnabled (wasmExists : BytesN 32 → Bool) : State → List Operation → Prop
  | _, [] => True
  | s, op :: ops => op.Enabled wasmExists s ∧ AllEnabled wasmExists (op.next s) ops

theorem Live.performAll {s : State} (hs : Live s) (ops : List Operation) :
    Live (performAll s ops) := by
  induction ops generalizing s with
  | nil => exact hs
  | cons op ops ih => exact ih (hs.next op)

section Step
variable {host : HostedAccount} {sub : Submission} {h : HostedState}

theorem callEnv_authorizes {op : Operation} {s : State} :
    (host.callEnv sub op.fnName op.args).authorizes
        (host.callEnv sub op.fnName op.args).currentContractAddress s = true ↔
      op.context host.address ∈ sub.entry.contexts := by
  change (decide (host.address = host.address) && decide (op.context host.address ∈ _)) = true ↔ _
  simp only [decide_true, Bool.true_and]
  exact decide_eq_true_iff

theorem step_of_performed (hauth : host.authenticates sub h = true) {account : State}
    (hperform : host.perform sub h.account = some account) :
    host.step sub h = (true,
      ⟨account, h.nonces.use sub.entry.ticket, h.ledgerSequence + sub.elapsed⟩) := by
  simp only [HostedAccount.step, if_pos hauth, hperform]

theorem step_cases (host : HostedAccount) (sub : Submission) (h : HostedState) :
    host.step sub h = (false, { h with ledgerSequence := h.ledgerSequence + sub.elapsed }) ∨
      host.authenticates sub h = true ∧ ∃ account, host.perform sub h.account = some account ∧
        host.step sub h = (true,
          ⟨account, h.nonces.use sub.entry.ticket, h.ledgerSequence + sub.elapsed⟩) := by
  by_cases hauth : host.authenticates sub h = true
  · cases hperform : host.perform sub h.account with
    | none =>
      left
      simp only [HostedAccount.step, if_pos hauth, hperform]
    | some account => exact .inr ⟨hauth, account, rfl, step_of_performed hauth hperform⟩
  · exact .inl (if_neg hauth)

theorem step_eq_true_iff :
    (host.step sub h).1 = true ↔
      host.authenticates sub h = true ∧ (host.perform sub h.account).isSome = true := by
  constructor
  · intro hok
    rcases step_cases host sub h with hfailed | ⟨hauth, account, hperform, -⟩
    · rw [hfailed] at hok
      cases hok
    · exact ⟨hauth, by rw [hperform]; rfl⟩
  · rintro ⟨hauth, hsome⟩
    obtain ⟨account, hperform⟩ := Option.isSome_iff_exists.mp hsome
    rw [step_of_performed hauth hperform]

theorem perform_eq_some_iff {s s' : State} (hs : Live s) :
    host.perform sub s = some s' ↔ ∃ ops : List Operation, sub.calls = ops.map Operation.call ∧
      (∀ op ∈ ops, op.context host.address ∈ sub.entry.contexts) ∧
      AllEnabled sub.wasmExists s ops ∧ s' = performAll s ops := by
  rw [HostedAccount.perform]
  generalize sub.calls = calls
  induction calls generalizing s with
  | nil =>
    constructor
    · rintro ⟨⟩
      exact ⟨[], rfl, nofun, trivial, rfl⟩
    · rintro ⟨ops, hops, -, -, rfl⟩
      cases ops with
      | nil => rfl
      | cons op ops => cases hops
  | cons call calls ih =>
    obtain ⟨func, args⟩ := call
    rw [List.foldlM_cons, Option.bind_eq_bind, Option.bind_eq_some_iff]
    constructor
    · rintro ⟨u, hcall, hrest⟩
      obtain ⟨⟨v, u'⟩, hinvoke, rfl⟩ := Option.map_eq_some_iff.mp hcall
      obtain ⟨op, hop, hauth, henabled, -, rfl⟩ := (invoke_eq_some_iff hs).mp hinvoke
      obtain ⟨rfl, rfl⟩ := Operation.ofCall_eq_some_iff.mp hop
      obtain ⟨ops, rfl, hcovers, hall, rfl⟩ := (ih (hs.next op)).mp hrest
      refine ⟨op :: ops, rfl, List.forall_mem_cons.mpr ⟨?_, hcovers⟩, ⟨henabled, hall⟩, rfl⟩
      exact callEnv_authorizes.mp hauth
    · rintro ⟨ops, hops, hcovers, hall, rfl⟩
      cases ops with
      | nil => cases hops
      | cons op ops =>
        cases hops
        obtain ⟨hcovered, hcovers⟩ := List.forall_mem_cons.mp hcovers
        refine ⟨op.next s, ?_, (ih (hs.next op)).mpr ⟨ops, rfl, hcovers, hall.2, rfl⟩⟩
        refine Option.map_eq_some_iff.mpr ⟨(.scalar .void, op.next s), ?_, rfl⟩
        exact (invoke_eq_some_iff hs).mpr ⟨op, op.ofCall_fnName_args,
          callEnv_authorizes.mpr hcovered, hall.1, rfl, rfl⟩

theorem live_of_perform {s s' : State} (hs : Live s) (hperform : host.perform sub s = some s') :
    Live s' := by
  obtain ⟨ops, -, -, -, rfl⟩ := (perform_eq_some_iff hs).mp hperform
  exact hs.performAll ops

theorem live_step (hlive : Live h.account) (host : HostedAccount) (sub : Submission) :
    Live (host.step sub h).2.account := by
  rcases step_cases host sub h with hfailed | ⟨-, account, hperform, hok⟩
  · rw [hfailed]
    exact hlive
  · rw [hok]
    exact live_of_perform hlive hperform

theorem takesTickets (host : HostedAccount) :
    TakesTickets host.machine HostedState.ledgerSequence HostedState.nonces host.expirationLimit
      usedTicket where
  clock_le sub h := by
    change _ ≤ (host.step sub h).2.ledgerSequence
    rcases step_cases host sub h with hfailed | ⟨-, account, -, hok⟩
    · rw [hfailed]
      exact Nat.le_add_right _ _
    · rw [hok]
      exact Nat.le_add_right _ _
  unused sub h := by
    change usedTicket (sub, (host.step sub h).1) = none → (host.step sub h).2.nonces = h.nonces
    rcases step_cases host sub h with hfailed | ⟨-, account, -, hok⟩
    · rw [hfailed]
      exact fun _ => rfl
    · rw [hok]
      exact nofun
  taken sub h t := by
    change usedTicket (sub, (host.step sub h).1) = some t →
      h.nonces.admits host.expirationLimit t (host.step sub h).2.ledgerSequence = true ∧
        (host.step sub h).2.nonces = h.nonces.use t
    rcases step_cases host sub h with hfailed | ⟨hauth, account, -, hok⟩
    · rw [hfailed]
      exact nofun
    · rw [hok]
      rintro ⟨⟩
      rw [HostedAccount.authenticates, Bool.and_eq_true] at hauth
      exact ⟨hauth.1, rfl⟩

end Step

section Run
variable {host : HostedAccount} {h : HostedState} {subs : List Submission}

theorem live_final (hlive : Live h.account) (subs : List Submission) :
    Live (host.machine.final h subs).account :=
  host.machine.final_invariant (P := fun h => Live h.account)
    (fun sub _ ht => live_step ht host sub) hlive subs

theorem authenticated_of_mem_history (hlive : Live h.account) {answered : Submission × Bool}
    (hanswered : answered ∈ host.machine.history h subs) (hok : answered.2 = true) :
    ∃ t : HostedState, Live t.account ∧ host.authenticates answered.1 t = true := by
  have hrun := host.machine.history_invariant
    (R := fun history t => Live t.account ∧ ∀ answered ∈ history, answered.2 = true →
      ∃ u : HostedState, Live u.account ∧ host.authenticates answered.1 u = true)
    ?_ ⟨hlive, nofun⟩ subs
  · exact hrun.2 answered hanswered hok
  · rintro history sub t ⟨ht, hold⟩
    refine ⟨live_step ht host sub, fun answered hanswered hok => ?_⟩
    rcases List.mem_append.mp hanswered with hanswered | hanswered
    · exact hold answered hanswered hok
    · rw [List.mem_singleton] at hanswered
      subst hanswered
      exact ⟨t, ht, (step_eq_true_iff.mp hok).1⟩

/-- An accepted Ed25519 proof verifies the hash of its entry under the key it stands under,
whatever the account's table is. -/
theorem verifies_of_authenticates {sub : Submission} (hlive : Live h.account)
    (hauth : host.authenticates sub h = true) {publicKey : BytesN 32} {signature : BytesN 64}
    (hproof : (SignerKey.ed25519 publicKey, SignerProof.ed25519 signature) ∈
      sub.entry.proofs.proofs.toList) :
    host.crypto.ed25519Verify publicKey (host.payload sub.entry).toList signature = true := by
  rw [HostedAccount.authenticates, Bool.and_eq_true] at hauth
  obtain ⟨signer, hsigner, hverifies⟩ := (accepts_iff.mp hauth.2).verified _ hproof
  have hkey : signer.key = .ed25519 publicKey := hlive.represented.key_eq hsigner
  cases signer with
  | ed25519 signer role =>
    cases hkey
    exact hverifies
  | secp256r1 signer role => cases hkey

/-- What it takes to use a proof map again: the host admits the new nonce, all proofs are
passkey proofs that verify under the public keys stored now, their roles authorize the new
invocations and the calls succeed. -/
structure Replays (host : HostedAccount) (sub : Submission) (t : HostedState) : Prop where
  admitted : t.nonces.admits host.expirationLimit sub.entry.ticket
    (t.ledgerSequence + sub.elapsed) = true
  passkeyOnly : PasskeyOnly host.toAccount t.account sub.entry.proofs
  authorized : ∀ context ∈ sub.entry.contexts, ∃ entry ∈ sub.entry.proofs.proofs.toList,
    ∃ signer, signers t.account entry.1 = some signer ∧
      signer.role.isAuthorized (host.checkEnv sub.timestamp) context = true
  performed : (host.perform sub t.account).isSome = true

section Unique
variable (hed : ∀ publicKey signature m m',
  host.crypto.ed25519Verify publicKey m signature = true →
    host.crypto.ed25519Verify publicKey m' signature = true → m = m')
include hed

theorem ticket_eq_of_authenticates {sub sub' : Submission} {t t' : HostedState}
    (hlive : Live t.account) (hauth : host.authenticates sub t = true)
    (hlive' : Live t'.account) (hauth' : host.authenticates sub' t' = true)
    (hpayload : host.payload sub.entry = host.payload sub'.entry →
      sub.entry.ticket = sub'.entry.ticket)
    {publicKey : BytesN 32} {signature : BytesN 64}
    (hproof : (SignerKey.ed25519 publicKey, SignerProof.ed25519 signature) ∈
      sub.entry.proofs.proofs.toList)
    (hproof' : (SignerKey.ed25519 publicKey, SignerProof.ed25519 signature) ∈
      sub'.entry.proofs.proofs.toList) :
    sub.entry.ticket = sub'.entry.ticket := by
  have hverifies := verifies_of_authenticates hlive hauth hproof
  have hverifies' := verifies_of_authenticates hlive' hauth' hproof'
  exact hpayload (Subtype.ext (hed _ _ _ _ hverifies hverifies'))

/-- If no two entries of a run collide in their hashes, then an Ed25519 signature is used in
one transaction of the run at most, however the signers change in between. -/
theorem signature_used_once {d : Deployment} {s : State} (h : host.deploy d = .ok (⟨⟩, s))
    (nonces : Register Int64) (ledgerSequence : ℕ)
    (hpayload : ∀ sub ∈ subs, ∀ sub' ∈ subs,
      host.payload sub.entry = host.payload sub'.entry → sub.entry.ticket = sub'.entry.ticket)
    (publicKey : BytesN 32) (signature : BytesN 64) :
    (host.machine.history ⟨s, nonces, ledgerSequence⟩ subs).countP
      (usesSignature publicKey signature) ≤ 1 := by
  have hlive : Live s := live_of_deploy h
  apply countP_le_one_of_nodup ((takesTickets host).used_once _ subs).1
  intro answered hanswered answered' hanswered' huses huses'
  rw [usesSignature, Bool.and_eq_true, decide_eq_true_eq] at huses huses'
  obtain ⟨t, ht, hauth⟩ := authenticated_of_mem_history hlive hanswered huses.1
  obtain ⟨t', ht', hauth'⟩ := authenticated_of_mem_history hlive hanswered' huses'.1
  have hticket : answered.1.entry.ticket = answered'.1.entry.ticket :=
    ticket_eq_of_authenticates hed ht hauth ht' hauth'
      (hpayload _ (Machine.mem_of_mem_history _ hanswered) _
        (Machine.mem_of_mem_history _ hanswered')) huses.2 huses'.2
  refine ⟨answered.1.entry.ticket, if_pos huses.1, ?_⟩
  rw [hticket]
  exact if_pos huses'.1

/-- With a spent ticket and the same proofs only passkeys are accepted once more. -/
theorem passkeyOnly_of_spent {before sub : Submission} {t₀ t : HostedState}
    (hlive₀ : Live t₀.account) (hauth₀ : host.authenticates before t₀ = true)
    (hproofs : before.entry.proofs = sub.entry.proofs)
    (hspent : t.nonces.Spent before.entry.ticket t.ledgerSequence)
    (hpayload : host.payload before.entry = host.payload sub.entry →
      before.entry.ticket = sub.entry.ticket)
    (hlive : Live t.account) (hauth : host.authenticates sub t = true) :
    PasskeyOnly host.toAccount t.account sub.entry.proofs := by
  have hparts := hauth
  rw [HostedAccount.authenticates, Bool.and_eq_true] at hparts
  rintro ⟨key, proof⟩ hentry
  obtain ⟨signer, hsigner, hverifies⟩ := (accepts_iff.mp hparts.2).verified _ hentry
  have hkey : signer.key = key := hlive.represented.key_eq hsigner
  cases signer with
  | ed25519 signer role =>
    cases proof with
    | ed25519 signature =>
      -- this signature was accepted with the spent ticket
      subst hkey
      have hticket : before.entry.ticket = sub.entry.ticket :=
        ticket_eq_of_authenticates hed hlive₀ hauth₀ hlive hauth hpayload
          (hproofs ▸ hentry) hentry
      have hadmits := hparts.1
      rw [← hticket] at hadmits
      exact absurd hadmits (hspent.later (Nat.le_add_right _ _)).not_admits
    | secp256r1 signature => cases hverifies
  | secp256r1 signer role =>
    cases proof with
    | ed25519 signature => cases hverifies
    | secp256r1 signature => exact ⟨signer, role, signature, hsigner, rfl, hverifies⟩

/-- A proof map that was accepted before in the run is accepted in a later transaction exactly
under the conditions of a replay; the hash of the new entry is not among them. -/
theorem replay_iff {d : Deployment} {s : State} (h : host.deploy d = .ok (⟨⟩, s))
    (nonces : Register Int64) (ledgerSequence : ℕ) {sub : Submission}
    (hpayload : ∀ before ∈ subs, host.payload before.entry = host.payload sub.entry →
      before.entry.ticket = sub.entry.ticket)
    (hbefore : ∃ before ∈ host.machine.history ⟨s, nonces, ledgerSequence⟩ subs,
      before.2 = true ∧ before.1.entry.proofs = sub.entry.proofs) :
    (host.machine.step sub (host.machine.final ⟨s, nonces, ledgerSequence⟩ subs)).1 = true ↔
      Replays host sub (host.machine.final ⟨s, nonces, ledgerSequence⟩ subs) := by
  have hlive : Live s := live_of_deploy h
  obtain ⟨before, hmem, hok, hproofs⟩ := hbefore
  obtain ⟨t₀, hlive₀, hauth₀⟩ := authenticated_of_mem_history hlive hmem hok
  have hspent := ((takesTickets host).used_once ⟨s, nonces, ledgerSequence⟩ subs).2
    before.1.entry.ticket (List.mem_filterMap.mpr ⟨before, hmem, if_pos hok⟩)
  have hlive' : Live (host.machine.final ⟨s, nonces, ledgerSequence⟩ subs).account :=
    live_final (h := ⟨s, nonces, ledgerSequence⟩) hlive subs
  refine (step_eq_true_iff).trans ?_
  constructor
  · rintro ⟨hauth, hperform⟩
    have hpasskey := passkeyOnly_of_spent hed hlive₀ hauth₀ hproofs hspent
      (hpayload _ (Machine.mem_of_mem_history _ hmem)) hlive' hauth
    rw [HostedAccount.authenticates, Bool.and_eq_true] at hauth
    exact ⟨hauth.1, hpasskey, (accepts_iff.mp hauth.2).authorized, hperform⟩
  · rintro ⟨hadmits, hpasskey, hauthorized, hperform⟩
    refine ⟨?_, hperform⟩
    rw [HostedAccount.authenticates, Bool.and_eq_true] at hauth₀ ⊢
    refine ⟨hadmits, accepts_iff.mpr ⟨?_, fun entry hentry => ?_, hauthorized⟩⟩
    · have hnonempty := (accepts_iff.mp hauth₀.2).nonempty
      change before.1.entry.proofs.proofs.toList ≠ [] at hnonempty
      rwa [hproofs] at hnonempty
    · obtain ⟨signer, role, signature, hsigner, hproof, hverifies⟩ := hpasskey entry hentry
      refine ⟨_, hsigner, ?_⟩
      rw [hproof]
      exact hverifies

end Unique
end Run

namespace Sample

/-- The sample account on a host with another hash for every nonce but the first. -/
def hosted : HostedAccount where
  toAccount := account
  signaturePayload nonce _ _ := if nonce = 0 then payload else List.Vector.replicate 32 0
  expirationLimit := 100

theorem hosted_ed25519Verify_unique (publicKey : BytesN 32) (signature : BytesN 64) (m m' : Bytes)
    (h : hosted.crypto.ed25519Verify publicKey m signature = true)
    (h' : hosted.crypto.ed25519Verify publicKey m' signature = true) : m = m' :=
  sample_ed25519Verify_unique publicKey signature m m' h h'

/-- A transaction of another contract that uses the entry. -/
def used (proofs : SignatureProofs) : Submission :=
  ⟨0, 0, fun _ => true, ⟨0, 100, [], proofs⟩, []⟩

/-- The passkey proof under another nonce, for the addition of an admin. -/
def replayed : Submission :=
  ⟨0, 0, fun _ => true, ⟨1, 100, [(Operation.addSigner admin).context account.address],
    passkeyProofs⟩, [("add_signer", (Operation.addSigner admin).args)]⟩

theorem passkeyOnly_passkeyState : PasskeyOnly account passkeyState passkeyProofs := by
  intro entry hentry
  rw [toList_passkeyProofs, List.mem_singleton] at hentry
  rw [hentry]
  exact ⟨_, _, _, signers_passkeyState, rfl, by decide⟩

theorem step_used : hosted.step (used passkeyProofs) ⟨passkeyState, Table.empty, 0⟩ =
    (true, ⟨passkeyState, Register.use Table.empty (used passkeyProofs).entry.ticket, 0⟩) := by
  refine step_of_performed ?_ rfl
  have haccepts : account.accepts 0 ⟨payload, passkeyProofs, []⟩ passkeyState = true :=
    accepts_of_passkeyOnly (by decide) passkeyOnly_passkeyState 0 payload
  rw [HostedAccount.authenticates, Bool.and_eq_true]
  exact ⟨rfl, haccepts⟩

theorem perform_replayed :
    hosted.perform replayed passkeyState = some (added passkeyState admin) := by
  refine (perform_eq_some_iff (live_of_deploy deploy_passkeyDeployment)).mpr
    ⟨[.addSigner admin], rfl, ?_, ⟨?_, trivial⟩, rfl⟩
  · intro op hop
    rw [List.mem_singleton.mp hop]
    exact List.mem_singleton_self _
  · change signers passkeyState admin.key = none
    decide

end Sample

/-- The signature of the sample admin is good for one of two transactions. -/
theorem sample_signature_used_once :
    (Sample.hosted.machine.history ⟨Sample.state, Table.empty, 0⟩
      [Sample.used Sample.proofs, Sample.used Sample.proofs]).countP
        (usesSignature Sample.publicKey Sample.signature) ≤ 1 := by
  have hdeploy : Sample.hosted.deploy Sample.deployment = .ok (⟨⟩, Sample.state) :=
    Sample.deploy_deployment
  apply signature_used_once Sample.hosted_ed25519Verify_unique hdeploy
  intro sub hsub sub' hsub' _
  simp only [List.mem_cons, List.not_mem_nil, or_false, or_self] at hsub hsub'
  rw [hsub, hsub']

/-- A passkey proof that was used in another transaction adds an admin. -/
theorem sample_replay_iff :
    (Sample.hosted.machine.step Sample.replayed
      (Sample.hosted.machine.final ⟨Sample.passkeyState, Table.empty, 0⟩
        [Sample.used Sample.passkeyProofs])).1 = true := by
  have hfirst : Sample.hosted.machine.step (Sample.used Sample.passkeyProofs)
      ⟨Sample.passkeyState, Table.empty, 0⟩ = _ := Sample.step_used
  have hdeploy : Sample.hosted.deploy Sample.passkeyDeployment =
      .ok (⟨⟩, Sample.passkeyState) := Sample.deploy_passkeyDeployment
  refine (replay_iff Sample.hosted_ed25519Verify_unique hdeploy Table.empty 0 ?_ ?_).mpr ?_
  · intro before hbefore hpayload
    rw [List.mem_singleton.mp hbefore] at hpayload
    exact absurd hpayload (by decide)
  · rw [Machine.history_singleton, hfirst]
    exact ⟨_, List.mem_singleton_self _, rfl, rfl⟩
  · rw [Machine.final_singleton, hfirst]
    refine ⟨by decide, Sample.passkeyOnly_passkeyState, ?_, ?_⟩
    · intro context _
      rw [show Sample.replayed.entry.proofs = Sample.passkeyProofs from rfl,
        Sample.toList_passkeyProofs]
      exact ⟨_, List.mem_singleton_self _, _, Sample.signers_passkeyState, rfl⟩
    · rw [Sample.perform_replayed]
      rfl

end StellarSmartAccount.SmartAccount
