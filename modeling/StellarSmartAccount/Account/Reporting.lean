import StellarSmartAccount.Account.Decision

/-! # Reported and trapped failures

The host aborts on a signature that it refuses, so `__check_auth` reports every
failure but that one. It returns exactly when no refused signature is the first
proof that fails among stored keys.
-/

namespace StellarSmartAccount.SmartAccount
open Foundations Soroban

/-- `__check_auth` returns Ok or an error, and names a bad signature among stored keys
and proofs of the right scheme. -/
structure Reports (env : Env) (payload : BytesN 32) (proofs : SignatureProofs)
    (contexts : List Context) (s : State) : Prop where
  returns : ∃ result, (checkAuth env payload proofs contexts).exec s = .ok (result, s)
  badSignature :
    (∀ entry ∈ proofs.proofs.toList, ∃ signer, signers s entry.1 = some signer ∧
      signer.sameScheme entry.2 = true) →
    (∃ entry ∈ proofs.proofs.toList, ∃ signer, signers s entry.1 = some signer ∧
      signer.hostVerifies env.crypto payload entry.2 = false) →
    (checkAuth env payload proofs contexts).exec s =
      .ok (.error .signatureVerificationFailed, s)

/-- All keys are stored and the first proof that does not verify, in map order, is a
refused signature of its signer's own scheme. -/
structure RefusedSignatureFirst (env : Env) (payload : BytesN 32) (t : Table SignerKey Signer)
    (proofMap : List (SignerKey × SignerProof)) : Prop where
  known : ∀ e ∈ proofMap, (t e.1).isSome
  first : ∃ before entry after signer, proofMap = before ++ entry :: after ∧
    (∀ e ∈ before, Verified env payload t e) ∧ t entry.1 = some signer ∧
      signer.sameScheme entry.2 = true ∧ signer.hostVerifies env.crypto payload entry.2 = false

section Trap
variable {env : Env} {payload : BytesN 32} {proofs : SignatureProofs} {contexts : List Context}
  {s : State}

/-- Among stored keys the verdict is an abort exactly for a refused signature. -/
theorem verdict_abort_iff {t : Table SignerKey Signer}
    {proofMap : List (SignerKey × SignerProof)} {r : Abort} :
    Verdict env payload t proofMap contexts (.error r) ↔
      r = .crypto ∧ RefusedSignatureFirst env payload t proofMap := by
  constructor
  · intro h
    cases h with
    | badSignature hknown hsplit hbefore hsigner hscheme hverifies =>
      exact ⟨rfl, hknown, _, _, _, _, hsplit, hbefore, hsigner, hscheme, hverifies⟩
  · rintro ⟨rfl, hknown, before, entry, after, signer, hsplit, hbefore, hsigner, hscheme,
      hverifies⟩
    exact .badSignature hknown hsplit hbefore hsigner hscheme hverifies

theorem checkAuth_abort_iff (h : Represented s) {r : Abort} :
    (checkAuth env payload proofs contexts).exec s = .error r ↔
      r = .crypto ∧ RefusedSignatureFirst env payload (signers s) proofs.proofs.toList := by
  rw [← verdict_abort_iff, verdict_iff h, checkAuth_exec]
  rcases refusal env payload (entries s) proofs.proofs.toList contexts with _ | ⟨e | r'⟩ <;>
    simp [Call.outcome, Call.response]

theorem checkAuth_returns
    (hreturns : ∀ r, (checkAuth env payload proofs contexts).exec s ≠ .error r) :
    ∃ result, (checkAuth env payload proofs contexts).exec s = .ok (result, s) := by
  rw [checkAuth_exec] at hreturns ⊢
  generalize refusal env payload (entries s) proofs.proofs.toList contexts = r at hreturns ⊢
  rcases r with _ | ⟨e | r⟩
  · exact ⟨_, rfl⟩
  · exact ⟨_, rfl⟩
  · exact absurd rfl (hreturns r)

theorem not_reports_of_refusedSignature (h : Represented s)
    (hrefused : RefusedSignatureFirst env payload (signers s) proofs.proofs.toList) :
    ¬ Reports env payload proofs contexts s := by
  intro hreports
  obtain ⟨result, hresult⟩ := hreports.returns
  rw [checkAuth_abort_iff h |>.mpr ⟨rfl, hrefused⟩] at hresult
  cases hresult

theorem refusedSignatureFirst_of_badSignature (h : Represented s)
    (hscheme : ∀ entry ∈ proofs.proofs.toList, ∃ signer, signers s entry.1 = some signer ∧
      signer.sameScheme entry.2 = true)
    (hbad : ∃ entry ∈ proofs.proofs.toList, ∃ signer, signers s entry.1 = some signer ∧
      signer.hostVerifies env.crypto payload entry.2 = false) :
    RefusedSignatureFirst env payload (signers s) proofs.proofs.toList := by
  obtain ⟨bad, hmem, signer, hsigner, hrefused⟩ := hbad
  have hnotVerified : ¬ ∀ e ∈ proofs.proofs.toList, Verified env payload (signers s) e := by
    intro hverified
    obtain ⟨signer', hsigner', hverifies⟩ := hverified bad hmem
    obtain rfl : signer' = signer := Option.some.inj (hsigner'.symm.trans hsigner)
    rw [hverifies] at hrefused
    cases hrefused
  have hverdict : ∃ response, Verdict env payload (signers s) proofs.proofs.toList [] response :=
    exists_verdict h
  obtain ⟨response, hverdict⟩ := hverdict
  cases hverdict with
  | noProofs hempty =>
    rw [hempty] at hmem
    cases hmem
  | unknownKey hentry hunknown =>
    obtain ⟨signer', hsigner', -⟩ := hscheme _ hentry
    rw [hunknown] at hsigner'
    cases hsigner'
  | @wrongProofType before after entry signer' hknown hsplit hbefore hsigner' hwrong =>
    obtain ⟨signer'', hsigner'', hsame⟩ := hscheme entry (by simp [hsplit])
    obtain rfl : signer'' = signer' := Option.some.inj (hsigner''.symm.trans hsigner')
    rw [hwrong] at hsame
    cases hsame
  | badSignature hknown hsplit hbefore hsigner' hsame hverifies =>
    exact ⟨hknown, _, _, _, _, hsplit, hbefore, hsigner', hsame, hverifies⟩
  | insufficient hnonempty hverified hcontext hnone => exact absurd hverified hnotVerified
  | accepted hnonempty hverified hpermitted => exact absurd hverified hnotVerified

theorem reports_of_not_refusedSignature (h : Represented s)
    (hnone : ¬ RefusedSignatureFirst env payload (signers s) proofs.proofs.toList) :
    Reports env payload proofs contexts s := by
  constructor
  · apply checkAuth_returns
    intro r habort
    exact hnone ((checkAuth_abort_iff h).mp habort).2
  · intro hscheme hbad
    exact absurd (refusedSignatureFirst_of_badSignature h hscheme hbad) hnone

end Trap

section Run
variable {account : Account} {d : Deployment} {s : State}

/-- In every reachable state `__check_auth` reports exactly when no refused signature is
the first proof that fails among stored keys. -/
theorem reports_iff (h : account.deploy d = .ok (⟨⟩, s)) (is : List Invocation)
    (timestamp : UInt64) (payload : BytesN 32) (proofs : SignatureProofs)
    (contexts : List Context) :
    Reports (account.checkEnv timestamp) payload proofs contexts (account.machine.final s is) ↔
      ¬ RefusedSignatureFirst (account.checkEnv timestamp) payload
        (signers (account.machine.final s is)) proofs.proofs.toList := by
  have hrep := ((live_of_deploy h).final account is).represented
  constructor
  · intro hreports hrefused
    exact not_reports_of_refusedSignature hrep hrefused hreports
  · exact reports_of_not_refusedSignature hrep

/-- The sample admin's own signature leads to a report, here on the addition of a signer. -/
theorem sample_reports : Reports (Sample.account.checkEnv 0) Sample.payload Sample.proofs
    [(Operation.addSigner Sample.passkeyAdmin).context Sample.account.address] Sample.state := by
  apply (reports_iff Sample.deploy_deployment [] 0 _ _ _).mpr
  rintro ⟨-, before, entry, after, signer, hsplit, -, hsigner, -, hrefused⟩
  have hmem : entry ∈ Sample.proofs.proofs.toList := by simp [hsplit]
  rw [Sample.toList_proofs, List.mem_singleton] at hmem
  rw [hmem, Machine.final_nil, Sample.signers_state, Option.some.injEq] at hsigner
  rw [hmem, ← hsigner] at hrefused
  revert hrefused
  decide

/-- An all-zero signature of the sample admin, which the host refuses. -/
def Sample.refusedProofs : SignatureProofs :=
  ⟨.ofList [(Sample.admin.key, SignerProof.ed25519 (List.Vector.replicate 64 0))]⟩

/-- A signature that the host refuses under the stored admin's key is not reported. -/
theorem refused_signature_not_reported :
    Sample.account.deploy Sample.deployment = .ok (⟨⟩, Sample.state) ∧
      ¬ Reports (Sample.account.checkEnv 0) Sample.payload Sample.refusedProofs []
        Sample.state := by
  refine ⟨Sample.deploy_deployment, ?_⟩
  apply not_reports_of_refusedSignature (live_of_deploy Sample.deploy_deployment).represented
  constructor
  · intro e he
    have hmem : e ∈ [(Sample.admin.key, SignerProof.ed25519 (List.Vector.replicate 64 0))] := he
    rw [List.mem_singleton.mp hmem, Sample.signers_state]
    rfl
  · exact ⟨[], _, [], Sample.admin, rfl, nofun, Sample.signers_state, rfl, by decide⟩

end Run
end StellarSmartAccount.SmartAccount
