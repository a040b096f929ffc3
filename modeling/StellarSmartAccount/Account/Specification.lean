import StellarSmartAccount.Account.Equivalence

/-! # The specification of an account over its signer table

An account is a signer table with eleven rules: one for checks, one for calls without
authorization, and the successes and refusals of the four operations. The runs of these
rules are exactly the runs of the account, with all answers.
-/

namespace StellarSmartAccount.SmartAccount
open Foundations Soroban

/-- The invocation carries an entry that covers the operation and is accepted. -/
def Authorized (account : Account) (t : Table SignerKey Signer) (inv : Invocation)
    (op : Operation) : Prop :=
  ∃ entry : AuthEntry, inv.auth = some entry ∧ op.context account.address ∈ entry.contexts ∧
    Verdict (account.checkEnv inv.timestamp) entry.signaturePayload t entry.proofs.proofs.toList
      entry.contexts (.ok (.ok ⟨⟩))

/-- One invocation, its answer and the table after it. -/
inductive Specified (account : Account) (t : Table SignerKey Signer) (inv : Invocation) :
    Response → Table SignerKey Signer → Prop where
  | checked {payload : BytesN 32} {proofs : SignatureProofs} {contexts : List Context}
      {response : Response} (hcall : inv.call = .checkAuth payload proofs contexts)
      (hverdict : Verdict (account.checkEnv inv.timestamp) payload t proofs.proofs.toList contexts
        response) : Specified account t inv response t
  | unauthorized {op : Operation} (hcall : inv.call = .operation op)
      (hauth : ¬ Authorized account t inv op) : Specified account t inv (.error .auth) t
  | added {signer : Signer} (hcall : inv.call = .operation (.addSigner signer))
      (hauth : Authorized account t inv (.addSigner signer)) (habsent : t signer.key = none) :
      Specified account t inv (.ok (.ok ⟨⟩)) (t.set signer.key (some signer))
  | addRefused {signer stored : Signer} (hcall : inv.call = .operation (.addSigner signer))
      (hauth : Authorized account t inv (.addSigner signer))
      (hstored : t signer.key = some stored) :
      Specified account t inv (.ok (.error .storageEntryAlreadyExists)) t
  | updated {signer stored : Signer} (hcall : inv.call = .operation (.updateSigner signer))
      (hauth : Authorized account t inv (.updateSigner signer))
      (hstored : t signer.key = some stored) :
      Specified account t inv (.ok (.ok ⟨⟩)) (t.set signer.key (some signer))
  | updateRefused {signer : Signer} (hcall : inv.call = .operation (.updateSigner signer))
      (hauth : Authorized account t inv (.updateSigner signer)) (habsent : t signer.key = none) :
      Specified account t inv (.ok (.error .storageEntryNotFound)) t
  | revoked {signerKey : SignerKey} {stored : Signer}
      (hcall : inv.call = .operation (.revokeSigner signerKey))
      (hauth : Authorized account t inv (.revokeSigner signerKey))
      (hstored : t signerKey = some stored) (hrole : stored.role ≠ .admin) :
      Specified account t inv (.ok (.ok ⟨⟩)) (t.set signerKey none)
  | revokeRefused {signerKey : SignerKey} {stored : Signer}
      (hcall : inv.call = .operation (.revokeSigner signerKey))
      (hauth : Authorized account t inv (.revokeSigner signerKey))
      (hstored : t signerKey = some stored) (hrole : stored.role = .admin) :
      Specified account t inv (.ok (.error .cannotRevokeAdminSigner)) t
  | revokeUnknown {signerKey : SignerKey}
      (hcall : inv.call = .operation (.revokeSigner signerKey))
      (hauth : Authorized account t inv (.revokeSigner signerKey))
      (habsent : t signerKey = none) :
      Specified account t inv (.ok (.error .signerNotFound)) t
  | upgraded {newWasmHash : BytesN 32} (hcall : inv.call = .operation (.upgrade newWasmHash))
      (hauth : Authorized account t inv (.upgrade newWasmHash))
      (hwasm : inv.wasmExists newWasmHash = true) : Specified account t inv (.ok (.ok ⟨⟩)) t
  | upgradeRefused {newWasmHash : BytesN 32} (hcall : inv.call = .operation (.upgrade newWasmHash))
      (hauth : Authorized account t inv (.upgrade newWasmHash))
      (hwasm : inv.wasmExists newWasmHash = false) : Specified account t inv (.error .missingWasm) t

section Step
variable {account : Account} {inv : Invocation} {s : State}

theorem authorized_iff (h : Live s) {op : Operation} :
    Authorized account (signers s) inv op ↔ account.authorizes inv op s = true := by
  rw [authorizes_iff]
  refine exists_congr fun entry => and_congr_right fun _ => and_congr_right fun _ => ?_
  rw [verdict_iff h.represented, accepts_iff, ← refusal_eq_none_iff]
  constructor
  · exact fun heq => response_injective heq
  · intro hnone
    rw [hnone]
    rfl

theorem exists_specified (h : Live s) (account : Account) (inv : Invocation) :
    ∃ response t, Specified account (signers s) inv response t := by
  match hcall : inv.call with
  | .checkAuth payload proofs contexts =>
    obtain ⟨response, hverdict⟩ : ∃ response, Verdict (account.checkEnv inv.timestamp) payload
        (signers s) proofs.proofs.toList contexts response := exists_verdict h.represented
    exact ⟨response, _, .checked hcall hverdict⟩
  | .operation op =>
    by_cases hauth : Authorized account (signers s) inv op
    · cases op with
      | addSigner signer =>
        cases hstored : signers s signer.key with
        | none => exact ⟨_, _, .added hcall hauth hstored⟩
        | some stored => exact ⟨_, _, .addRefused hcall hauth hstored⟩
      | updateSigner signer =>
        cases hstored : signers s signer.key with
        | none => exact ⟨_, _, .updateRefused hcall hauth hstored⟩
        | some stored => exact ⟨_, _, .updated hcall hauth hstored⟩
      | revokeSigner signerKey =>
        cases hstored : signers s signerKey with
        | none => exact ⟨_, _, .revokeUnknown hcall hauth hstored⟩
        | some stored =>
          by_cases hrole : stored.role = .admin
          · exact ⟨_, _, .revokeRefused hcall hauth hstored hrole⟩
          · exact ⟨_, _, .revoked hcall hauth hstored hrole⟩
      | upgrade newWasmHash =>
        cases hwasm : inv.wasmExists newWasmHash with
        | true => exact ⟨_, _, .upgraded hcall hauth hwasm⟩
        | false => exact ⟨_, _, .upgradeRefused hcall hauth hwasm⟩
    · exact ⟨_, _, .unauthorized hcall hauth⟩

/-- The rules describe what the account does. -/
theorem step_of_specified (h : Live s) {response : Response} {t : Table SignerKey Signer}
    (hspec : Specified account (signers s) inv response t) :
    (account.step inv s).1 = response ∧ signers (account.step inv s).2 = t := by
  have hserved : ∀ op, inv.call = .operation op → Authorized account (signers s) inv op →
      op.Enabled inv.wasmExists s → (account.step inv s).1 = .ok (.ok ⟨⟩) ∧
        signers (account.step inv s).2 = (signers s).writeAll op.writes := by
    intro op hcall hauth henabled
    rw [step_of_enabled h hcall ((authorized_iff h).mp hauth) henabled]
    exact ⟨rfl, signers_next s op⟩
  have hrefused : ∀ op, inv.call = .operation op → Authorized account (signers s) inv op →
      ¬ op.Enabled inv.wasmExists s → (account.step inv s).1 = op.refused s ∧
        signers (account.step inv s).2 = signers s := by
    intro op hcall hauth henabled
    rw [step_of_refused h hcall ((authorized_iff h).mp hauth) henabled]
    exact ⟨rfl, rfl⟩
  cases hspec with
  | checked hcall hverdict =>
    rw [step_checkAuth hcall]
    exact ⟨(verdict_iff h.represented).mp hverdict, rfl⟩
  | unauthorized hcall hauth =>
    rw [step_of_not_authorizes h hcall (mt (authorized_iff h).mpr hauth)]
    exact ⟨rfl, rfl⟩
  | added hcall hauth habsent => exact hserved _ hcall hauth habsent
  | addRefused hcall hauth hstored =>
    refine hrefused _ hcall hauth fun habsent => ?_
    rw [show signers s _ = none from habsent] at hstored
    cases hstored
  | updated hcall hauth hstored =>
    exact hserved _ hcall hauth (Option.isSome_iff_exists.mpr ⟨_, hstored⟩)
  | updateRefused hcall hauth habsent =>
    refine hrefused _ hcall hauth fun hstored => ?_
    rw [Operation.Enabled, habsent] at hstored
    cases hstored
  | revoked hcall hauth hstored hrole => exact hserved _ hcall hauth ⟨_, hstored, hrole⟩
  | revokeRefused hcall hauth hstored hrole =>
    have hanswer := hrefused _ hcall hauth (by
      rintro ⟨signer, hsigner, hnot⟩
      rw [hstored, Option.some.injEq] at hsigner
      exact hnot (hsigner ▸ hrole))
    rw [Operation.refused, hstored] at hanswer
    exact hanswer
  | revokeUnknown hcall hauth habsent =>
    have hanswer := hrefused _ hcall hauth (by
      rintro ⟨signer, hsigner, -⟩
      rw [habsent] at hsigner
      cases hsigner)
    rw [Operation.refused, habsent] at hanswer
    exact hanswer
  | upgraded hcall hauth hwasm => exact hserved _ hcall hauth hwasm
  | upgradeRefused hcall hauth hwasm =>
    refine hrefused _ hcall hauth fun htrue => ?_
    rw [Operation.Enabled, hwasm] at htrue
    cases htrue

theorem specified_iff (h : Live s) {response : Response} {t : Table SignerKey Signer} :
    Specified account (signers s) inv response t ↔
      (account.step inv s).1 = response ∧ signers (account.step inv s).2 = t := by
  constructor
  · exact step_of_specified h
  · rintro ⟨rfl, rfl⟩
    obtain ⟨response, t, hspec⟩ := exists_specified h account inv
    obtain ⟨rfl, rfl⟩ := step_of_specified h hspec
    exact hspec

end Step

/-- From a deployment with the given signers, the runs of the rules are exactly the runs of
the account: the same invocations with the same answers, to the same table. -/
theorem specification_exact {account : Account} {d : Deployment} {s : State}
    (h : account.deploy d = .ok (⟨⟩, s)) (history : List (Invocation × Response))
    (t : Table SignerKey Signer) :
    Machine.Runs (Specified account)
        (Table.lastWrite (d.signers.map fun signer => (signer.key, some signer))) history t ↔
      ∃ is, history = account.machine.history s is ∧ t = signers (account.machine.final s is) := by
  rw [← signers_of_deploy h]
  exact Machine.runs_iff (I := Live) (fun inv _ ht => ht.step account inv)
    (fun _ _ _ _ hlive => specified_iff hlive) (live_of_deploy h) history t

/-- The addition of a passkey by the sample admin is a run of the rules. -/
theorem sample_specification_exact :
    ∃ t, Machine.Runs (Specified Sample.account)
      (Table.lastWrite (Sample.deployment.signers.map fun signer => (signer.key, some signer)))
      [(Sample.addPasskey .standard, .ok (.ok ⟨⟩))] t := by
  refine ⟨_, (specification_exact Sample.deploy_deployment _ _).mpr
    ⟨[Sample.addPasskey .standard], ?_, rfl⟩⟩
  have hstep : Sample.account.step (Sample.addPasskey .standard) Sample.state = _ :=
    step_of_enabled (live_of_deploy Sample.deploy_deployment) rfl
      (Sample.authorizes_invoke _ Sample.signers_state)
      (show signers Sample.state _ = none by decide)
  rw [Machine.history_singleton]
  change _ = [(_, (Sample.account.step _ _).1)]
  rw [hstep]

end StellarSmartAccount.SmartAccount
