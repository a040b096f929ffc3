import StellarSmartAccount.Account.Construction

/-! # The exact authorization decision

The verdict of the account on a payload, a proof map and a list of contexts, by
quantifiers over the signer table instead of passes. The entry point gives exactly
this verdict in every reachable state.
-/

namespace StellarSmartAccount.SmartAccount
open Foundations Soroban

/-- The context is a call on the account itself. -/
def CallsAccount (address : Address) (context : Context) : Prop :=
  ∃ c, context = .contract c ∧ c.contract = address

/-- An admin may authorize everything, a standard signer everything but calls on the
account, a restricted signer what additionally all its policies allow. -/
def Permits (env : Env) (context : Context) : SignerRole → Prop
  | .admin => True
  | .standard => ¬ CallsAccount env.currentContractAddress context
  | .restricted policies => ¬ CallsAccount env.currentContractAddress context ∧
      ∀ policy ∈ policies, policy.isAuthorized env context = true

theorem isAdminOperation_iff {env : Env} {context : Context} :
    SignerRole.isAdminOperation env context = true ↔
      CallsAccount env.currentContractAddress context := by
  cases context with
  | contract c => simp [SignerRole.isAdminOperation, CallsAccount]
  | createContractHostFn c => simp [SignerRole.isAdminOperation, CallsAccount]
  | createContractWithCtorHostFn c => simp [SignerRole.isAdminOperation, CallsAccount]

theorem isAuthorized_iff_permits {env : Env} {context : Context} {role : SignerRole} :
    role.isAuthorized env context = true ↔ Permits env context role := by
  cases role with
  | admin => simp [SignerRole.isAuthorized, Permits]
  | standard => simp [SignerRole.isAuthorized, Permits, ← isAdminOperation_iff]
  | restricted policies =>
    simp only [SignerRole.isAuthorized, Permits, ← isAdminOperation_iff]
    by_cases hop : SignerRole.isAdminOperation env context = true <;> simp [hop]

section Verdict
variable (env : Env) (payload : BytesN 32) (t : Table SignerKey Signer)

/-- The proof verifies under the public key of the signer stored under its key. -/
def Verified (entry : SignerKey × SignerProof) : Prop :=
  ∃ signer, t entry.1 = some signer ∧
    signer.hostVerifies env.crypto payload entry.2 = true

/-- Some key of the proof map has a role that permits the context. -/
def PermittedBy (proofMap : List (SignerKey × SignerProof)) (context : Context) : Prop :=
  ∃ entry ∈ proofMap, ∃ signer, t entry.1 = some signer ∧ Permits env context signer.role

/-- The verdict on a proof map in map order and a list of contexts. -/
inductive Verdict (proofMap : List (SignerKey × SignerProof)) (contexts : List Context) :
    Response → Prop where
  | noProofs (hempty : proofMap = []) :
      Verdict proofMap contexts (.ok (.error .noProofsInAuthEntry))
  | unknownKey {entry : SignerKey × SignerProof} (hentry : entry ∈ proofMap)
      (hunknown : t entry.1 = none) : Verdict proofMap contexts (.ok (.error .signerNotFound))
  | wrongProofType {before after : List (SignerKey × SignerProof)}
      {entry : SignerKey × SignerProof} {signer : Signer}
      (hknown : ∀ e ∈ proofMap, (t e.1).isSome) (hsplit : proofMap = before ++ entry :: after)
      (hbefore : ∀ e ∈ before, Verified env payload t e) (hsigner : t entry.1 = some signer)
      (hscheme : signer.sameScheme entry.2 = false) :
      Verdict proofMap contexts (.ok (.error .invalidProofType))
  | badSignature {before after : List (SignerKey × SignerProof)}
      {entry : SignerKey × SignerProof} {signer : Signer}
      (hknown : ∀ e ∈ proofMap, (t e.1).isSome) (hsplit : proofMap = before ++ entry :: after)
      (hbefore : ∀ e ∈ before, Verified env payload t e) (hsigner : t entry.1 = some signer)
      (hscheme : signer.sameScheme entry.2 = true)
      (hverifies : signer.hostVerifies env.crypto payload entry.2 = false) :
      Verdict proofMap contexts (.error .crypto)
  | insufficient (hnonempty : proofMap ≠ []) (hverified : ∀ e ∈ proofMap, Verified env payload t e)
      {context : Context} (hcontext : context ∈ contexts)
      (hnone : ¬ PermittedBy env t proofMap context) :
      Verdict proofMap contexts (.ok (.error .insufficientPermissions))
  | accepted (hnonempty : proofMap ≠ []) (hverified : ∀ e ∈ proofMap, Verified env payload t e)
      (hpermitted : ∀ context ∈ contexts, PermittedBy env t proofMap context) :
      Verdict proofMap contexts (.ok (.ok ⟨⟩))

end Verdict

section Exactness
variable {env : Env} {payload : BytesN 32} {s : State}
  {proofMap : List (SignerKey × SignerProof)} {contexts : List Context}

theorem keyRefusal_eq (h : Represented s) (entry : SignerKey × SignerProof) :
    keyRefusal (entries s) entry =
      if (signers s entry.1).isSome then none else some (.error .signerNotFound) := by
  rw [keyRefusal, h.entries_eq, Option.isSome_map]

theorem proofRefusal_eq (h : Represented s) {entry : SignerKey × SignerProof} {signer : Signer}
    (hsigner : signers s entry.1 = some signer) :
    proofRefusal env payload (entries s) entry =
      signer.refusal env.crypto payload entry.2 := by
  rw [proofRefusal, h.entries_eq, hsigner]
  rfl

theorem verified_iff (entry : SignerKey × SignerProof) :
    Verified env payload (signers s) entry ↔
      proofRefusal env payload (entries s) entry = none := by
  rw [proofRefusal_eq_none_iff]
  simp only [Verified, signers_eq_some_iff]

theorem permittedBy_iff (context : Context) :
    PermittedBy env (signers s) proofMap context ↔
      authorizedBy env (entries s) proofMap context = true := by
  rw [authorizedBy_iff]
  simp only [PermittedBy, isAuthorized_iff_permits]

theorem findSome?_keyRefusal (h : Represented s)
    (hknown : ∀ e ∈ proofMap, (signers s e.1).isSome) :
    proofMap.findSome? (keyRefusal (entries s)) = none := by
  apply List.findSome?_eq_none_iff.mpr
  intro entry hentry
  rw [keyRefusal_eq h, if_pos (hknown entry hentry)]

/-- The first proof that does not verify decides the second pass. -/
theorem findSome?_proofRefusal (h : Represented s)
    {before after : List (SignerKey × SignerProof)} {entry : SignerKey × SignerProof}
    {signer : Signer} {r : Call.Refusal Abort Error}
    (hbefore : ∀ e ∈ before, Verified env payload (signers s) e)
    (hsigner : signers s entry.1 = some signer)
    (hr : signer.refusal env.crypto payload entry.2 = some r) :
    (before ++ entry :: after).findSome? (proofRefusal env payload (entries s)) = some r := by
  have hnone : before.findSome? (proofRefusal env payload (entries s)) = none := by
    apply List.findSome?_eq_none_iff.mpr
    intro e he
    exact (verified_iff e).mp (hbefore e he)
  rw [List.findSome?_append, hnone, Option.none_or, List.findSome?_cons,
    proofRefusal_eq h hsigner, hr]

theorem known_of_verified (hverified : ∀ e ∈ proofMap, Verified env payload (signers s) e) :
    ∀ e ∈ proofMap, (signers s e.1).isSome := by
  intro e he
  obtain ⟨signer, hsigner, -⟩ := hverified e he
  rw [hsigner]
  rfl

theorem refusal_of_known (h : Represented s) (hnonempty : proofMap ≠ [])
    (hknown : ∀ e ∈ proofMap, (signers s e.1).isSome) :
    refusal env payload (entries s) proofMap contexts =
      (proofMap.findSome? (proofRefusal env payload (entries s))).or
        (contexts.findSome? (contextRefusal env (entries s) proofMap)) := by
  have hempty : ¬ proofMap.isEmpty = true := mt List.isEmpty_iff.mp hnonempty
  rw [refusal, if_neg hempty, Option.none_or, findSome?_keyRefusal h hknown, Option.none_or]

theorem refusal_of_verified (h : Represented s) (hnonempty : proofMap ≠ [])
    (hverified : ∀ e ∈ proofMap, Verified env payload (signers s) e) :
    refusal env payload (entries s) proofMap contexts =
      contexts.findSome? (contextRefusal env (entries s) proofMap) := by
  have hproofs : proofMap.findSome? (proofRefusal env payload (entries s)) = none := by
    apply List.findSome?_eq_none_iff.mpr
    intro e he
    exact (verified_iff e).mp (hverified e he)
  rw [refusal_of_known h hnonempty (known_of_verified hverified), hproofs, Option.none_or]

theorem refusal_of_unknown (h : Represented s) {entry : SignerKey × SignerProof}
    (hentry : entry ∈ proofMap) (hunknown : signers s entry.1 = none) :
    refusal env payload (entries s) proofMap contexts = some (.error .signerNotFound) := by
  have hempty : ¬ proofMap.isEmpty = true := by
    rw [List.isEmpty_iff]
    exact List.ne_nil_of_mem hentry
  rw [refusal, if_neg hempty, Option.none_or]
  cases hkeys : proofMap.findSome? (keyRefusal (entries s)) with
  | none =>
    have hkey := List.findSome?_eq_none_iff.mp hkeys entry hentry
    rw [keyRefusal_eq h, hunknown] at hkey
    cases hkey
  | some r =>
    obtain ⟨e, -, he⟩ := List.exists_of_findSome?_eq_some hkeys
    rw [keyRefusal] at he
    split_ifs at he
    cases he
    rfl

theorem findSome?_contextRefusal {context : Context} (hcontext : context ∈ contexts)
    (hnone : ¬ PermittedBy env (signers s) proofMap context) :
    contexts.findSome? (contextRefusal env (entries s) proofMap) =
      some (.error .insufficientPermissions) := by
  cases hall : contexts.findSome? (contextRefusal env (entries s) proofMap) with
  | none =>
    have hc := List.findSome?_eq_none_iff.mp hall context hcontext
    rw [contextRefusal, if_neg (mt (permittedBy_iff context).mpr hnone)] at hc
    cases hc
  | some r =>
    obtain ⟨c, -, hc⟩ := List.exists_of_findSome?_eq_some hall
    rw [contextRefusal] at hc
    split_ifs at hc
    cases hc
    rfl

theorem response_refusal_of_verdict (h : Represented s) {response : Response}
    (hverdict : Verdict env payload (signers s) proofMap contexts response) :
    Call.response ⟨⟩ (refusal env payload (entries s) proofMap contexts) = response := by
  cases hverdict with
  | noProofs hempty =>
    rw [hempty]
    rfl
  | unknownKey hentry hunknown =>
    rw [refusal_of_unknown h hentry hunknown]
    rfl
  | @wrongProofType before after entry signer hknown hsplit hbefore hsigner hscheme =>
    have hr : signer.refusal env.crypto payload entry.2 = some (.error .invalidProofType) := by
      rw [Signer.refusal, hscheme]
      rfl
    rw [refusal_of_known h (by simp [hsplit]) hknown, hsplit,
      findSome?_proofRefusal h hbefore hsigner hr]
    rfl
  | @badSignature before after entry signer hknown hsplit hbefore hsigner hscheme hverifies =>
    have hr : signer.refusal env.crypto payload entry.2 = some (.abort .crypto) := by
      rw [Signer.refusal, hscheme, hverifies]
      rfl
    rw [refusal_of_known h (by simp [hsplit]) hknown, hsplit,
      findSome?_proofRefusal h hbefore hsigner hr]
    rfl
  | insufficient hnonempty hverified hcontext hnone =>
    rw [refusal_of_verified h hnonempty hverified, findSome?_contextRefusal hcontext hnone]
    rfl
  | accepted hnonempty hverified hpermitted =>
    have hcontexts : contexts.findSome? (contextRefusal env (entries s) proofMap) = none := by
      apply List.findSome?_eq_none_iff.mpr
      intro context hcontext
      rw [contextRefusal, if_pos ((permittedBy_iff context).mp (hpermitted context hcontext))]
    rw [refusal_of_verified h hnonempty hverified, hcontexts]
    rfl

theorem exists_verdict (h : Represented s) :
    ∃ response, Verdict env payload (signers s) proofMap contexts response := by
  by_cases hempty : proofMap = []
  · exact ⟨_, .noProofs hempty⟩
  by_cases hknown : ∀ e ∈ proofMap, (signers s e.1).isSome
  · cases hproofs : proofMap.findSome? (proofRefusal env payload (entries s)) with
    | some r =>
      obtain ⟨before, entry, after, hsplit, hentry, hbefore⟩ :=
        List.findSome?_eq_some_iff.mp hproofs
      have hverified : ∀ e ∈ before, Verified env payload (signers s) e :=
        fun e he => (verified_iff e).mpr (hbefore e he)
      have hstored : (signers s entry.1).isSome := hknown entry (by simp [hsplit])
      obtain ⟨signer, hsigner⟩ := Option.isSome_iff_exists.mp hstored
      rw [proofRefusal_eq h hsigner, Signer.refusal] at hentry
      by_cases hscheme : signer.sameScheme entry.2 = true
      · rw [if_pos hscheme] at hentry
        split_ifs at hentry with hverifies
        exact ⟨_, .badSignature hknown hsplit hverified hsigner hscheme
          (Bool.eq_false_of_not_eq_true hverifies)⟩
      · exact ⟨_, .wrongProofType hknown hsplit hverified hsigner
          (Bool.eq_false_of_not_eq_true hscheme)⟩
    | none =>
      have hverified : ∀ e ∈ proofMap, Verified env payload (signers s) e :=
        fun e he => (verified_iff e).mpr (List.findSome?_eq_none_iff.mp hproofs e he)
      by_cases hpermitted : ∀ context ∈ contexts, PermittedBy env (signers s) proofMap context
      · exact ⟨_, .accepted hempty hverified hpermitted⟩
      · simp only [not_forall] at hpermitted
        obtain ⟨context, hcontext, hnone⟩ := hpermitted
        exact ⟨_, .insufficient hempty hverified hcontext hnone⟩
  · simp only [not_forall] at hknown
    obtain ⟨entry, hentry, hunknown⟩ := hknown
    exact ⟨_, .unknownKey hentry (by simpa using hunknown)⟩

theorem verdict_iff (h : Represented s) {response : Response} :
    Verdict env payload (signers s) proofMap contexts response ↔
      Call.response ⟨⟩ (refusal env payload (entries s) proofMap contexts) = response := by
  constructor
  · exact response_refusal_of_verdict h
  · intro heq
    have hexists : ∃ r, Verdict env payload (signers s) proofMap contexts r := exists_verdict h
    obtain ⟨r, hverdict⟩ := hexists
    rwa [← heq, response_refusal_of_verdict h hverdict]

end Exactness

section Run
variable {account : Account} {inv : Invocation} {s : State} {d : Deployment}
  {payload : BytesN 32} {proofs : SignatureProofs} {contexts : List Context}

/-- In every reachable state `__check_auth` changes nothing and answers exactly the
verdict; Ok in particular takes a non-empty map of known keys whose proofs all
verify and, for every context, one key whose role permits it. -/
theorem checkAuth_decision (h : account.deploy d = .ok (⟨⟩, s)) (is : List Invocation)
    (hcall : inv.call = .checkAuth payload proofs contexts) :
    (account.step inv (account.machine.final s is)).2 = account.machine.final s is ∧
      (∀ response, (account.step inv (account.machine.final s is)).1 = response ↔
        Verdict (account.checkEnv inv.timestamp) payload (signers (account.machine.final s is))
          proofs.proofs.toList contexts response) ∧
      ((account.step inv (account.machine.final s is)).1 = .ok (.ok ⟨⟩) ↔
        proofs.proofs.toList ≠ [] ∧
        (∀ entry ∈ proofs.proofs.toList, ∃ signer,
          signers (account.machine.final s is) entry.1 = some signer ∧
          signer.sameScheme entry.2 = true ∧
          signer.hostVerifies account.crypto payload entry.2 = true) ∧
        ∀ context ∈ contexts, ∃ entry ∈ proofs.proofs.toList, ∃ signer,
          signers (account.machine.final s is) entry.1 = some signer ∧
          Permits (account.checkEnv inv.timestamp) context signer.role) := by
  have hrep := ((live_of_deploy h).final account is).represented
  rw [step_checkAuth hcall]
  refine ⟨rfl, fun response => (verdict_iff hrep).symm, ?_⟩
  rw [← verdict_iff hrep]
  constructor
  · rintro ⟨⟩
    next hnonempty hverified hpermitted =>
      refine ⟨hnonempty, fun entry hentry => ?_, hpermitted⟩
      obtain ⟨signer, hsigner, hverifies⟩ := hverified entry hentry
      exact ⟨signer, hsigner, Signer.sameScheme_of_hostVerifies hverifies, hverifies⟩
  · rintro ⟨hnonempty, hverified, hpermitted⟩
    refine .accepted hnonempty (fun entry hentry => ?_) hpermitted
    obtain ⟨signer, hsigner, -, hverifies⟩ := hverified entry hentry
    exact ⟨signer, hsigner, hverifies⟩

/-- The sample admin's proof authorizes the addition of a signer, until the admin has made itself
a standard signer. -/
theorem sample_checkAuth_decision :
    (Sample.account.step (Sample.check [(Operation.addSigner Sample.passkeyAdmin).context
        Sample.account.address]) Sample.state).1 = .ok (.ok ⟨⟩) ∧
      (Sample.account.step (Sample.check [(Operation.addSigner Sample.passkeyAdmin).context
        Sample.account.address]) (Sample.account.machine.final Sample.state
          [Sample.invoke (.updateSigner (.ed25519 ⟨Sample.publicKey⟩ .standard))])).1 =
        .ok (.error .insufficientPermissions) := by
  constructor
  · apply (checkAuth_decision Sample.deploy_deployment [] rfl).2.2.mpr
    rw [Sample.toList_proofs, Machine.final_nil]
    refine ⟨List.cons_ne_nil _ _, ?_, ?_⟩
    · intro entry hentry
      rw [List.mem_singleton.mp hentry]
      exact ⟨Sample.admin, Sample.signers_state, by decide, by decide⟩
    · intro context _
      exact ⟨_, List.mem_singleton_self _, Sample.admin, Sample.signers_state, trivial⟩
  · have hstored : signers (Sample.account.machine.final Sample.state
        [Sample.invoke (.updateSigner (.ed25519 ⟨Sample.publicKey⟩ .standard))]) Sample.admin.key =
          some (.ed25519 ⟨Sample.publicKey⟩ .standard) := by decide
    apply ((checkAuth_decision Sample.deploy_deployment _ rfl).2.1 _).mpr
    rw [Sample.toList_proofs]
    refine .insufficient (List.cons_ne_nil _ _) ?_ (List.mem_singleton_self _) ?_
    · intro entry hentry
      rw [List.mem_singleton.mp hentry]
      exact ⟨_, hstored, by decide⟩
    · rintro ⟨entry, hentry, signer, hsigner, hpermits⟩
      rw [List.mem_singleton.mp hentry, hstored] at hsigner
      cases hsigner
      exact hpermits ⟨_, rfl, rfl⟩

end Run
end StellarSmartAccount.SmartAccount
