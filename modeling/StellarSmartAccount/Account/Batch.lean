import StellarSmartAccount.Account.Reconfiguration
import StellarSmartAccount.Account.Replay

/-! # What transactions with several calls can do to the signer table

The host asks the account about an entry once and lets all calls through that it covers. An
admin can therefore demote and remove itself in one transaction, and transactions reach every
finite change of the table, even the table without signers.
-/

namespace StellarSmartAccount.SmartAccount
open Foundations Soroban

theorem allEnabled_append {wasmExists : BytesN 32 → Bool} {s : State} {ops ops' : List Operation} :
    AllEnabled wasmExists s (ops ++ ops') ↔
      AllEnabled wasmExists s ops ∧ AllEnabled wasmExists (performAll s ops) ops' := by
  induction ops generalizing s with
  | nil => exact (and_iff_right trivial).symm
  | cons op ops ih =>
    change _ ∧ AllEnabled wasmExists (op.next s) (ops ++ ops') ↔ (_ ∧ _) ∧ _
    rw [ih, and_assoc]
    rfl

/-- Some operations write any value that belongs there to a key; an admin is demoted before
it is removed. -/
theorem exists_operations_set (wasmExists : BytesN 32 → Bool) (s : State) {key : SignerKey}
    {value : Option Signer} (hvalue : ∀ signer, value = some signer → signer.key = key) :
    ∃ ops, AllEnabled wasmExists s ops ∧
      signers (performAll s ops) = (signers s).set key value := by
  cases value with
  | some signer =>
    obtain rfl := hvalue signer rfl
    cases hstored : signers s signer.key with
    | none => exact ⟨[.addSigner signer], ⟨hstored, trivial⟩, signers_performAll s _⟩
    | some old =>
      refine ⟨[.updateSigner signer], ⟨?_, trivial⟩, signers_performAll s _⟩
      change (signers s signer.key).isSome = true
      rw [hstored]
      rfl
  | none =>
    cases hstored : signers s key with
    | none =>
      refine ⟨[], trivial, ?_⟩
      change signers s = _
      rw [← hstored]
      exact (Function.update_eq_self key (signers s)).symm
    | some old =>
      obtain ⟨spare, rfl, hrole⟩ := exists_signer_of_key key .standard
      have hdemoted : signers ((Operation.updateSigner spare).next s) spare.key = some spare := by
        rw [signers_next]
        exact Table.set_self _ _ _
      refine ⟨[.updateSigner spare, .revokeSigner spare.key],
        ⟨?_, ⟨spare, hdemoted, ?_⟩, trivial⟩, (signers_performAll s _).trans ?_⟩
      · change (signers s spare.key).isSome = true
        rw [hstored]
        rfl
      · rw [hrole]
        exact nofun
      · exact Function.update_idem _ _ _

theorem exists_operations_writeAll {table : Table SignerKey Signer}
    (htable : ∀ key signer, table key = some signer → signer.key = key)
    (wasmExists : BytesN 32 → Bool) (s : State) (keys : List SignerKey) :
    ∃ ops, AllEnabled wasmExists s ops ∧
      signers (performAll s ops) = (signers s).writeAll (keys.map fun key => (key, table key)) := by
  induction keys generalizing s with
  | nil => exact ⟨[], trivial, rfl⟩
  | cons key keys ih =>
    obtain ⟨ops, henabled, hops⟩ := exists_operations_set wasmExists s (htable key)
    obtain ⟨ops', henabled', hops'⟩ := ih (performAll s ops)
    refine ⟨ops ++ ops', allEnabled_append.mpr ⟨henabled, henabled'⟩, ?_⟩
    rw [performAll_append, hops', hops]
    rfl

theorem exists_operations_of_finite {table : Table SignerKey Signer}
    (htable : ∀ key signer, table key = some signer → signer.key = key)
    (wasmExists : BytesN 32 → Bool) {s : State}
    (hfinite : {key | table key ≠ signers s key}.Finite) :
    ∃ ops, AllEnabled wasmExists s ops ∧ signers (performAll s ops) = table := by
  obtain ⟨ops, henabled, hops⟩ :=
    exists_operations_writeAll htable wasmExists s hfinite.toFinset.toList
  exact ⟨ops, henabled, hops.trans (Table.writeAll_of_finite hfinite)⟩

theorem finite_ne_performAll (s : State) (ops : List Operation) :
    {key | signers (performAll s ops) key ≠ signers s key}.Finite := by
  rw [signers_performAll]
  exact Table.finite_ne_writeAll _ _

/-- The host can still admit an entry. -/
def HostedAccount.Open (host : HostedAccount) (h : HostedState) : Prop :=
  ∃ (elapsed : ℕ) (nonce : Int64) (expiration : UInt32), h.nonces.admits host.expirationLimit
    ⟨nonce, expiration.toNat⟩ (h.ledgerSequence + elapsed) = true

section Batch
variable {host : HostedAccount} {h : HostedState}

/-- A signer that can sign signs every hash; a passkey is not asked about the hash. -/
theorem Account.CanSign.every {account : Account} {signer : Signer}
    (hsigns : ∀ publicKey m m' signature,
      account.crypto.ed25519Verify publicKey m signature = true →
        ∃ signature', account.crypto.ed25519Verify publicKey m' signature' = true)
    (hsigner : account.CanSign signer) (payload : BytesN 32) :
    ∃ proof, signer.hostVerifies account.crypto payload proof = true := by
  obtain ⟨payload', proof, hverifies⟩ := hsigner
  cases signer with
  | ed25519 signer role =>
    cases proof with
    | ed25519 signature =>
      obtain ⟨signature', hverifies'⟩ := hsigns _ _ payload.toList _ hverifies
      exact ⟨.ed25519 signature', hverifies'⟩
    | secp256r1 signature => cases hverifies
  | secp256r1 signer role =>
    cases proof with
    | ed25519 signature => cases hverifies
    | secp256r1 signature => exact ⟨.secp256r1 signature, hverifies⟩

theorem performAll_eq_or_approved {sub : Submission} {ops : List Operation}
    (hauth : host.authenticates sub h = true)
    (hcovers : ∀ op ∈ ops, op.context host.address ∈ sub.entry.contexts) :
    ops = [] ∨ (signers h.account).Has host.governance.approves := by
  cases ops with
  | nil => exact .inl rfl
  | cons op ops =>
    right
    rw [HostedAccount.authenticates, Bool.and_eq_true] at hauth
    obtain ⟨proof, -, admin, hadmin, hrole, hverifies⟩ := (accepts_iff.mp hauth.2).admin
      (hcovers op List.mem_cons_self) (isAdminOperation_context sub.timestamp)
    exact ⟨proof.1, admin, hadmin, hrole, _, proof.2, hverifies⟩

theorem signers_final_eq_or (hlive : Live h.account) (later : List Submission) :
    signers (host.machine.final h later).account = signers h.account ∨
      host.Open h ∧ (signers h.account).Has host.governance.approves ∧
        {key | signers (host.machine.final h later).account key ≠
          signers h.account key}.Finite := by
  induction later generalizing h with
  | nil => exact .inl rfl
  | cons sub later ih =>
    have hrest := ih (live_step hlive host sub)
    change signers (host.machine.final (host.step sub h).2 later).account = _ ∨ _ ∧ _ ∧
      {key | signers (host.machine.final (host.step sub h).2 later).account key ≠ _}.Finite
    rcases step_cases host sub h with hfailed | ⟨hauth, account, hperform, hok⟩
    · rw [hfailed] at hrest ⊢
      rcases hrest with hsame | ⟨⟨elapsed, nonce, expiration, hadmits⟩, hchange⟩
      · exact .inl hsame
      · refine .inr ⟨⟨sub.elapsed + elapsed, nonce, expiration, ?_⟩, hchange⟩
        rw [← Nat.add_assoc]
        exact hadmits
    · obtain ⟨ops, -, hcovers, -, rfl⟩ := (perform_eq_some_iff hlive).mp hperform
      have hopen : host.Open h := by
        have hparts := hauth
        rw [HostedAccount.authenticates, Bool.and_eq_true] at hparts
        exact ⟨_, _, _, hparts.1⟩
      have hfinite := finite_ne_performAll h.account ops
      rw [hok] at hrest ⊢
      rcases performAll_eq_or_approved hauth hcovers with rfl | hhas
      · exact hrest.imp_right fun hchange => ⟨hopen, hchange.2⟩
      · refine .inr ⟨hopen, hhas, ?_⟩
        rcases hrest with hsame | ⟨-, -, hchange⟩
        · rw [hsame]
          exact hfinite
        · exact Table.finite_ne_trans hfinite hchange

/-- One transaction that an admin signs makes every finite change of the table. -/
theorem exists_submission_of_finite
    (hsigns : ∀ publicKey m m' signature, host.crypto.ed25519Verify publicKey m signature = true →
      ∃ signature', host.crypto.ed25519Verify publicKey m' signature' = true)
    (hlive : Live h.account) (hopen : host.Open h)
    (hhas : (signers h.account).Has host.governance.approves) {table : Table SignerKey Signer}
    (htable : ∀ key signer, table key = some signer → signer.key = key)
    (hfinite : {key | table key ≠ signers h.account key}.Finite) :
    ∃ sub, signers (host.step sub h).2.account = table := by
  obtain ⟨elapsed, nonce, expiration, hadmits⟩ := hopen
  obtain ⟨key, admin, hadmin, hrole, hsigner⟩ := hhas
  obtain rfl := hlive.represented.key_eq hadmin
  obtain ⟨ops, henabled, rfl⟩ := exists_operations_of_finite htable (fun _ => false) hfinite
  let contexts := ops.map (Operation.context · host.address)
  obtain ⟨proof, hverifies⟩ :=
    hsigner.every hsigns (host.signaturePayload nonce expiration contexts)
  let sub : Submission := ⟨elapsed, 0, fun _ => false,
    ⟨nonce, expiration, contexts, singleProof admin proof⟩, ops.map Operation.call⟩
  have hauth : host.authenticates sub h = true := by
    rw [HostedAccount.authenticates, Bool.and_eq_true]
    exact ⟨hadmits, accepts_singleProof hadmin hrole hverifies 0 contexts⟩
  have hperform : host.perform sub h.account = some (performAll h.account ops) :=
    (perform_eq_some_iff hlive).mpr
      ⟨ops, rfl, fun op hop => List.mem_map_of_mem hop, henabled, rfl⟩
  refine ⟨sub, ?_⟩
  rw [step_of_performed hauth hperform]

/-- From every reachable state transactions reach exactly these signer tables: the present one
and, if a stored admin can sign and the host still admits entries, every finite change with
signers under their own keys. The table may be left without an admin that could be restored. -/
theorem batch_reconfiguration_iff
    (hsigns : ∀ publicKey m m' signature, host.crypto.ed25519Verify publicKey m signature = true →
      ∃ signature', host.crypto.ed25519Verify publicKey m' signature' = true)
    {d : Deployment} {s : State} (h : host.deploy d = .ok (⟨⟩, s)) (nonces : Register Int64)
    (ledgerSequence : ℕ) (subs : List Submission) (table : Table SignerKey Signer) :
    (∃ later, signers (host.machine.final ⟨s, nonces, ledgerSequence⟩ (subs ++ later)).account =
        table) ↔
      table = signers (host.machine.final ⟨s, nonces, ledgerSequence⟩ subs).account ∨
        host.Open (host.machine.final ⟨s, nonces, ledgerSequence⟩ subs) ∧
        (∃ key admin, signers (host.machine.final ⟨s, nonces, ledgerSequence⟩ subs).account key =
          some admin ∧ admin.role = .admin ∧ host.CanSign admin) ∧
        {key | table key ≠
          signers (host.machine.final ⟨s, nonces, ledgerSequence⟩ subs).account key}.Finite ∧
        ∀ key signer, table key = some signer → signer.key = key := by
  have hdeployed : Live (HostedState.account ⟨s, nonces, ledgerSequence⟩) := live_of_deploy h
  have hlive : Live (host.machine.final ⟨s, nonces, ledgerSequence⟩ subs).account :=
    live_final hdeployed subs
  simp only [Machine.final_append]
  constructor
  · rintro ⟨later, rfl⟩
    rcases signers_final_eq_or hlive later with hsame | ⟨hopen, hhas, hfinite⟩
    · exact .inl hsame
    · exact .inr ⟨hopen, hhas, hfinite,
        fun key signer hsigner => (live_final hlive later).represented.key_eq hsigner⟩
  · rintro (rfl | ⟨hopen, hhas, hfinite, htable⟩)
    · exact ⟨[], rfl⟩
    · obtain ⟨sub, hsub⟩ := exists_submission_of_finite hsigns hlive hopen hhas htable hfinite
      refine ⟨[sub], ?_⟩
      rw [Machine.final_singleton]
      exact hsub

end Batch

namespace Sample

/-- A host on which every message has a signature, the payload the real one. -/
def signing : HostedAccount where
  toAccount := { account with
    crypto := { crypto with
      ed25519Verify := fun _ message signature => decide (signature =
        if message = payload.toList then Sample.signature else List.Vector.replicate 64 0) } }
  signaturePayload nonce _ _ := if nonce = 0 then payload else List.Vector.replicate 32 0
  expirationLimit := 100

theorem deploy_signing : signing.deploy deployment = .ok (⟨⟩, state) := deploy_deployment

end Sample

/-- Transactions bring the sample account to the table without signers. -/
theorem sample_batch_reconfiguration_iff :
    ∃ later, signers (Sample.signing.machine.final ⟨Sample.state, Table.empty, 0⟩
      ([] ++ later)).account = Table.empty := by
  refine (batch_reconfiguration_iff ?_ Sample.deploy_signing Table.empty 0 [] Table.empty).mpr
    (.inr ⟨⟨0, 0, 100, by decide⟩, ⟨_, _, Sample.signers_state, rfl, Sample.payload,
      .ed25519 Sample.signature, by decide⟩, ?_, nofun⟩)
  · intro publicKey m m' signature _
    exact ⟨_, decide_eq_true rfl⟩
  · refine (Set.finite_singleton Sample.admin.key).subset fun key hkey => ?_
    obtain ⟨signer, hsigner⟩ := Option.ne_none_iff_exists'.mp (Ne.symm hkey)
    obtain ⟨hmem, rfl⟩ := (signers_of_deploy_eq_some_iff Sample.deploy_deployment).mp hsigner
    rw [List.mem_singleton.mp hmem]
    rfl

end StellarSmartAccount.SmartAccount
