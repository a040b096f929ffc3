import StellarSmartAccount.Account.Decision
import StellarSmartAccount.Account.Reconfiguration
import StellarSmartAccount.Foundations.Bisimulation

/-! # What runs reveal of an account

Two reachable states are indistinguishable exactly if their tables have the same keys, with
signers that no proof tells apart and, where a proof can verify, roles that no context tells
apart; and if, while an admin can sign, they have the same admins. How the tables came about,
the published events and the build that the account runs leave no trace in the answers. An
account answers as described here until it is upgraded to code that is no build of it.
-/

namespace StellarSmartAccount.SmartAccount
open Foundations Soroban

/-- No authorization check tells the signers apart. -/
structure Account.Agree (account : Account) (x y : Signer) : Prop where
  refusal : ∀ payload proof,
    x.refusal account.crypto payload proof = y.refusal account.crypto payload proof
  role : account.CanSign x → ∀ timestamp context,
    x.role.isAuthorized (account.checkEnv timestamp) context =
      y.role.isAuthorized (account.checkEnv timestamp) context

/-- Both signers are admins or neither is. -/
def BothAdmins (x y : Signer) : Prop := x.role = .admin ↔ y.role = .admin

/-- No run tells states with these tables apart. -/
structure Account.Alike (account : Account) (t t' : Table SignerKey Signer) : Prop where
  agree : Table.Related account.Agree t t'
  admins : t.Has account.governance.approves → Table.Related BothAdmins t t'

section Check
variable {account : Account} {s t : State} {payload : BytesN 32}

theorem refusal_eq_of_agree (hs : Represented s) (ht : Represented t)
    (h : Table.Related account.Agree (signers s) (signers t)) (timestamp : UInt64)
    (payload : BytesN 32) (proofMap : List (SignerKey × SignerProof)) (contexts : List Context) :
    refusal (account.checkEnv timestamp) payload (entries s) proofMap contexts =
      refusal (account.checkEnv timestamp) payload (entries t) proofMap contexts := by
  have hkeys : ∀ entry ∈ proofMap, keyRefusal (entries s) entry = keyRefusal (entries t) entry := by
    intro entry _
    rw [keyRefusal_eq hs, keyRefusal_eq ht, h.isSome_eq]
  have hproofs : ∀ entry ∈ proofMap, proofRefusal (account.checkEnv timestamp) payload (entries s)
      entry = proofRefusal (account.checkEnv timestamp) payload (entries t) entry := by
    intro entry _
    cases hx : signers s entry.1 with
    | none =>
      have hy : signers t entry.1 = none := (h.eq_none_iff entry.1).mp hx
      rw [proofRefusal, proofRefusal, hs.entries_eq, ht.entries_eq, hx, hy]
    | some x =>
      obtain ⟨y, hy, hagree⟩ := h.exists_right hx
      rw [proofRefusal_eq hs hx, proofRefusal_eq ht hy]
      exact hagree.refusal payload entry.2
  by_cases hverified : ∀ entry ∈ proofMap,
      proofRefusal (account.checkEnv timestamp) payload (entries s) entry = none
  · refine refusal_eq_of_passes hkeys hproofs fun context _ => ?_
    have hby : authorizedBy (account.checkEnv timestamp) (entries s) proofMap context =
        authorizedBy (account.checkEnv timestamp) (entries t) proofMap context := by
      rw [authorizedBy, authorizedBy, Bool.eq_iff_iff, List.any_eq_true, List.any_eq_true]
      refine exists_congr fun entry => and_congr_right fun hentry => ?_
      obtain ⟨x, hx, hverifies⟩ := proofRefusal_eq_none_iff.mp (hverified entry hentry)
      rw [← signers_eq_some_iff] at hx
      obtain ⟨y, hy, hagree⟩ := h.exists_right hx
      rw [← signers_eq_join, ← signers_eq_join, hx, hy, Option.any_some, Option.any_some,
        hagree.role ⟨payload, entry.2, hverifies⟩]
    rw [contextRefusal, contextRefusal, hby]
  · -- a proof is refused on both sides before a role is asked
    rw [← List.findSome?_eq_none_iff, findSome?_congr hproofs] at hverified
    obtain ⟨r, hr⟩ := Option.ne_none_iff_exists'.mp hverified
    rw [refusal, refusal, findSome?_congr hkeys, findSome?_congr hproofs, hr, Option.some_or,
      Option.some_or]

theorem authorizes_eq_of_agree (hs : Represented s) (ht : Represented t)
    (h : Table.Related account.Agree (signers s) (signers t)) (inv : Invocation) (op : Operation) :
    account.authorizes inv op s = account.authorizes inv op t := by
  have haccepts : ∀ entry : AuthEntry, account.accepts inv.timestamp entry s =
      account.accepts inv.timestamp entry t := by
    intro entry
    rw [Bool.eq_iff_iff, accepts_iff, accepts_iff, ← refusal_eq_none_iff, ← refusal_eq_none_iff,
      refusal_eq_of_agree hs ht h]
  simp only [Account.authorizes, haccepts]

theorem toList_singleProof (signer : Signer) (proof : SignerProof) :
    (singleProof signer proof).proofs.toList = [(signer.key, proof)] := by
  have hlength : (singleProof signer proof).proofs.toList.length = 1 := by
    rw [Std.ExtTreeMap.length_toList, singleProof, Std.ExtTreeMap.size_insert]
    simp
  obtain ⟨entry, hentry⟩ := List.length_eq_one_iff.mp hlength
  have hmem : entry ∈ (singleProof signer proof).proofs.toList := by
    rw [hentry]
    exact List.mem_singleton_self entry
  rw [hentry, mem_toList_singleProof.mp hmem]

theorem refusal_single (h : Represented s) {env : Env} {x : Signer} {key : SignerKey}
    (hx : signers s key = some x) (proof : SignerProof) (contexts : List Context) :
    refusal env payload (entries s) [(key, proof)] contexts =
      (x.refusal env.crypto payload proof).or (contexts.findSome? fun context =>
        if x.role.isAuthorized env context then none
        else some (.error .insufficientPermissions)) := by
  have hcontext : contextRefusal env (entries s) [(key, proof)] = fun context =>
      if x.role.isAuthorized env context then none
      else some (.error .insufficientPermissions) := by
    funext context
    rw [contextRefusal, authorizedBy, List.any_cons, List.any_nil, Bool.or_false,
      ← signers_eq_join, hx, Option.any_some]
  rw [refusal, hcontext, List.findSome?_singleton, List.findSome?_singleton, keyRefusal_eq h,
    proofRefusal_eq h hx, hx]
  rfl

theorem refusal_single_unknown (h : Represented s) {env : Env} {key : SignerKey}
    (hx : signers s key = none) (proof : SignerProof) (contexts : List Context) :
    refusal env payload (entries s) [(key, proof)] contexts = some (.error .signerNotFound) := by
  rw [refusal, List.findSome?_singleton, keyRefusal_eq h, hx]
  rfl

end Check

/-- The answer to an authorized operation that is not enabled. -/
def Operation.refused (s : State) : Operation → Response
  | .addSigner _ => .ok (.error .storageEntryAlreadyExists)
  | .updateSigner _ => .ok (.error .storageEntryNotFound)
  | .revokeSigner signerKey =>
    .ok (.error (if (signers s signerKey).isSome then .cannotRevokeAdminSigner
      else .signerNotFound))
  | .upgrade _ => .error .missingWasm

section Step
variable {account : Account} {inv : Invocation} {op : Operation} {s t : State}

theorem step_of_refused (h : Live s) (hcall : inv.call = .operation op)
    (hauth : account.authorizes inv op s = true) (henabled : ¬ op.Enabled inv.wasmExists s) :
    account.step inv s = (op.refused s, s) := by
  have hp : permitted (account.env inv op) s = true := by rwa [permitted_env h]
  rw [step_operation hcall]
  cases op with
  | addSigner signer =>
    refine Call.commit_of_ok ((addSigner_exec h.represented _ signer).trans ?_)
    rw [if_pos hp, if_pos (Option.isSome_iff_ne_none.mpr henabled)]
  | updateSigner signer =>
    refine Call.commit_of_ok ((updateSigner_exec h.represented _ signer).trans ?_)
    rw [if_pos hp]
    exact if_neg henabled
  | revokeSigner key =>
    refine Call.commit_of_ok ((revokeSigner_exec h.represented _ key).trans ?_)
    rw [if_pos hp]
    cases hx : signers s key with
    | none => rfl
    | some signer =>
      have hadmin : signer.role = .admin := by
        by_contra hrole
        exact henabled ⟨signer, hx, hrole⟩
      exact if_pos hadmin
  | upgrade hash =>
    refine Call.commit_of_error ((run_upgrade_exec hash).trans ?_)
    rw [if_pos hauth]
    exact if_neg henabled

theorem step_of_not_authorizes (h : Live s) (hcall : inv.call = .operation op)
    (hauth : ¬ account.authorizes inv op s = true) : account.step inv s = (.error .auth, s) := by
  rw [step_operation hcall]
  exact Call.commit_of_error (run_exec_of_not_authorizes h hauth)

theorem enabled_iff_of_admins
    (h : Table.Related BothAdmins (signers s) (signers t)) (wasmExists : BytesN 32 → Bool)
    (op : Operation) :
    (op.Enabled wasmExists s ↔ op.Enabled wasmExists t) ∧ op.refused s = op.refused t := by
  cases op with
  | addSigner signer =>
    exact ⟨h.eq_none_iff signer.key, rfl⟩
  | updateSigner signer =>
    refine ⟨?_, rfl⟩
    change (signers s signer.key).isSome = true ↔ (signers t signer.key).isSome = true
    rw [h.isSome_eq]
  | revokeSigner key =>
    constructor
    · have hkey := h key
      change (∃ x, signers s key = some x ∧ x.role ≠ .admin) ↔
        ∃ y, signers t key = some y ∧ y.role ≠ .admin
      generalize signers s key = v, signers t key = w at hkey
      cases hkey with
      | none => simp
      | some hrole => simp [show _ ↔ _ from hrole]
    · rw [Operation.refused, Operation.refused, h.isSome_eq]
  | upgrade hash => exact ⟨Iff.rfl, rfl⟩

theorem agree_refl (account : Account) (x : Signer) : account.Agree x x :=
  ⟨fun _ _ => rfl, fun _ _ _ => rfl⟩

theorem bothAdmins_refl (x : Signer) : BothAdmins x x := Iff.rfl

/-- The live states with alike tables. -/
def Similar (account : Account) (s t : State) : Prop :=
  Live s ∧ Live t ∧ account.Alike (signers s) (signers t)

theorem bisimulation_similar (account : Account) :
    account.machine.Bisimulation (Similar account) := by
  have hstep : ∀ inv s t, Similar account s t →
      (account.step inv s).1 = (account.step inv t).1 ∧
        account.Alike (signers (account.step inv s).2) (signers (account.step inv t).2) := by
    rintro inv s t ⟨hs, ht, halike⟩
    match hcall : inv.call with
    | .checkAuth payload proofs contexts =>
      rw [step_checkAuth hcall, step_checkAuth hcall,
        refusal_eq_of_agree hs.represented ht.represented halike.agree]
      exact ⟨rfl, halike⟩
    | .operation op =>
      have hsame := authorizes_eq_of_agree hs.represented ht.represented halike.agree inv op
      by_cases hauth : account.authorizes inv op s = true
      · obtain ⟨-, entry, -, -, -, -, proof, -, admin, hadmin, hrole, hverifies⟩ :=
          adminAuthorized_of_authorizes hcall hauth
        have hadmins := halike.admins
          ⟨proof.1, admin, hadmin, hrole, entry.signaturePayload, proof.2, hverifies⟩
        obtain ⟨henabled, hrefused⟩ := enabled_iff_of_admins hadmins inv.wasmExists op
        by_cases hen : op.Enabled inv.wasmExists s
        · rw [step_of_enabled hs hcall hauth hen,
            step_of_enabled ht hcall (hsame ▸ hauth) (henabled.mp hen), signers_next, signers_next]
          exact ⟨rfl, halike.agree.writeAll (agree_refl account) _,
            fun _ => hadmins.writeAll bothAdmins_refl _⟩
        · rw [step_of_refused hs hcall hauth hen,
            step_of_refused ht hcall (hsame ▸ hauth) (mt henabled.mpr hen)]
          exact ⟨hrefused, halike⟩
      · rw [step_of_not_authorizes hs hcall hauth, step_of_not_authorizes ht hcall (hsame ▸ hauth)]
        exact ⟨rfl, halike⟩
  exact ⟨fun inv s t h => (hstep inv s t h).1,
    fun inv s t h => ⟨h.1.step account inv, h.2.1.step account inv, (hstep inv s t h).2⟩⟩

end Step

/-- An upgrade that succeeded has installed a build of the account. -/
def KeepsBuild (build : BytesN 32 → Bool) (answered : Invocation × Response) : Prop :=
  ∀ hash, answered.1.call = .operation (.upgrade hash) → answered.2 = .ok (.ok ⟨⟩) →
    build hash = true

/-- A state that the account reaches from a deployment while it runs its builds. -/
def Account.ReachedByBuilds (account : Account) (build : BytesN 32 → Bool) (s : State) : Prop :=
  ∃ d s₀ is, account.deploy d = .ok (⟨⟩, s₀) ∧ build d.wasm = true ∧
    (∀ answered ∈ account.machine.history s₀ is, KeepsBuild build answered) ∧
    s = account.machine.final s₀ is

section Distinguish
variable {account : Account} {build : BytesN 32 → Bool} {s t : State}

theorem Account.ReachedByBuilds.live (h : account.ReachedByBuilds build s) : Live s := by
  obtain ⟨d, s₀, is, hdeploy, -, -, rfl⟩ := h
  exact (live_of_deploy hdeploy).final account is

/-- A direct check with the proof of one signer. -/
def checkSingle (timestamp : UInt64) (payload : BytesN 32) (signer : Signer) (proof : SignerProof)
    (contexts : List Context) : Invocation :=
  ⟨timestamp, fun _ => false, none, .checkAuth payload (singleProof signer proof) contexts⟩

theorem response_injective {r r' : Option (Call.Refusal Abort Error)}
    (h : Call.response (α := Unit) ⟨⟩ r = Call.response ⟨⟩ r') : r = r' := by
  rcases r with _ | ⟨e | a⟩ <;> rcases r' with _ | ⟨e' | a'⟩ <;> cases h <;> rfl

theorem refusal_eq_of_indistinguishable
    (h : account.machine.Indistinguishable (KeepsBuild build) s t)
    (timestamp : UInt64) (payload : BytesN 32) (signer : Signer) (proof : SignerProof)
    (contexts : List Context) :
    refusal (account.checkEnv timestamp) payload (entries s) [(signer.key, proof)] contexts =
      refusal (account.checkEnv timestamp) payload (entries t) [(signer.key, proof)] contexts := by
  have hanswer := h.answer (checkSingle timestamp payload signer proof contexts)
  change (account.step _ s).1 = (account.step _ t).1 at hanswer
  rw [step_checkAuth rfl, step_checkAuth rfl, toList_singleProof] at hanswer
  exact response_injective hanswer

theorem refusal_ne_signerNotFound (x : Signer) (crypto : Crypto) (payload : BytesN 32)
    (proof : SignerProof) : x.refusal crypto payload proof ≠ some (.error .signerNotFound) := by
  rw [Signer.refusal]
  split_ifs <;> simp

theorem isSome_of_indistinguishable (hs : Represented s) (ht : Represented t)
    (h : account.machine.Indistinguishable (KeepsBuild build) s t) {key : SignerKey} {x : Signer}
    (hx : signers s key = some x) : (signers t key).isSome = true := by
  obtain rfl := hs.key_eq hx
  by_contra hnone
  rw [Bool.not_eq_true, Option.isSome_eq_false_iff, Option.isNone_iff_eq_none] at hnone
  have heq := refusal_eq_of_indistinguishable h 0 (List.Vector.replicate 32 0) x
    (.ed25519 (List.Vector.replicate 64 0)) []
  rw [refusal_single hs hx, refusal_single_unknown ht hnone, List.findSome?_nil,
    Option.or_none] at heq
  exact refusal_ne_signerNotFound _ _ _ _ heq

theorem signer_refusal_of_indistinguishable (hs : Represented s) (ht : Represented t)
    (h : account.machine.Indistinguishable (KeepsBuild build) s t) {x y : Signer}
    (hx : signers s x.key = some x) (hy : signers t x.key = some y) (payload : BytesN 32)
    (proof : SignerProof) :
    x.refusal account.crypto payload proof = y.refusal account.crypto payload proof := by
  have heq := refusal_eq_of_indistinguishable h 0 payload x proof []
  rw [refusal_single hs hx, refusal_single ht hy] at heq
  simp only [List.findSome?_nil, Option.or_none] at heq
  exact heq

theorem agree_of_indistinguishable (hs : Represented s) (ht : Represented t)
    (h : account.machine.Indistinguishable (KeepsBuild build) s t) :
    Table.Related account.Agree (signers s) (signers t) := by
  intro key
  cases hx : signers s key with
  | none =>
    cases hy : signers t key with
    | none => exact .none
    | some y =>
      have htaken := isSome_of_indistinguishable ht hs h.symm hy
      rw [hx] at htaken
      cases htaken
  | some x =>
    obtain ⟨y, hy⟩ := Option.isSome_iff_exists.mp (isSome_of_indistinguishable hs ht h hx)
    obtain rfl := hs.key_eq hx
    rw [hy]
    have hrefusal := signer_refusal_of_indistinguishable hs ht h hx hy
    refine .some ⟨hrefusal, ?_⟩
    rintro ⟨payload, proof, hverifies⟩ timestamp context
    have hx' : x.refusal (account.checkEnv timestamp).crypto payload proof = none :=
      Signer.refusal_eq_none_iff.mpr hverifies
    have hy' : y.refusal (account.checkEnv timestamp).crypto payload proof = none :=
      (hrefusal payload proof).symm.trans hx'
    have heq := refusal_eq_of_indistinguishable h timestamp payload x proof [context]
    rw [refusal_single hs hx, refusal_single ht hy, hx', hy'] at heq
    cases hrole : x.role.isAuthorized (account.checkEnv timestamp) context <;>
      cases hrole' : y.role.isAuthorized (account.checkEnv timestamp) context <;>
      simp [hrole, hrole'] at heq ⊢

/-- An admin that can sign agrees with admins only, since no other role authorizes a call of
the account. -/
theorem has_approves_of_agree {u u' : Table SignerKey Signer} (h : Table.Related account.Agree u u')
    (hhas : u.Has account.governance.approves) : u'.Has account.governance.approves := by
  obtain ⟨key, x, hx, hrole, hsigns⟩ := hhas
  obtain ⟨y, hy, hagree⟩ := h.exists_right hx
  have hauthorized := hagree.role hsigns 0 (Operation.context (.revokeSigner key) account.address)
  rw [hrole] at hauthorized
  refine ⟨key, y, hy, ?_, ?_⟩
  · exact SignerRole.eq_admin_of_isAuthorized (isAdminOperation_context 0) hauthorized.symm
  · obtain ⟨payload, proof, hverifies⟩ := hsigns
    refine ⟨payload, proof, ?_⟩
    rw [← Signer.refusal_eq_none_iff, ← hagree.refusal, Signer.refusal_eq_none_iff]
    exact hverifies

/-- A revocation by an admin that can sign shows whether the key holds an admin. -/
theorem admin_of_indistinguishable (hs : Live s) (ht : Live t)
    (h : account.machine.Indistinguishable (KeepsBuild build) s t)
    (hhas : (signers s).Has account.governance.approves)
    {key : SignerKey} {x y : Signer} (hx : signers s key = some x) (hy : signers t key = some y)
    (hrole : x.role ≠ .admin) : y.role ≠ .admin := by
  have henabled : Operation.Enabled (fun _ => false) s (.revokeSigner key) := ⟨x, hx, hrole⟩
  obtain ⟨inv, hcall, hstep⟩ := exists_step_of_enabled hs hhas henabled
  have hanswer : (account.step inv s).1 = (account.step inv t).1 := h.answer inv
  rw [hstep] at hanswer
  obtain ⟨-, ⟨y', hy', hrole'⟩, -⟩ := performed_of_ok ht hcall hanswer.symm
  rw [hy] at hy'
  cases hy'
  exact hrole'

end Distinguish

/-- Two reachable states of an account answer all further runs alike, while both run builds of
the account, exactly if their signer tables are alike. -/
theorem indistinguishable_iff {account : Account} {build : BytesN 32 → Bool} {s t : State}
    (hs : account.ReachedByBuilds build s) (ht : account.ReachedByBuilds build t) :
    account.machine.Indistinguishable (KeepsBuild build) s t ↔
      account.Alike (signers s) (signers t) := by
  have hs := hs.live
  have ht := ht.live
  constructor
  · intro h
    have hagree := agree_of_indistinguishable hs.represented ht.represented h
    refine ⟨hagree, fun hhas => ?_⟩
    have hhas' := has_approves_of_agree hagree hhas
    intro key
    cases hx : signers s key with
    | none =>
      rw [(hagree.eq_none_iff key).mp hx]
      exact .none
    | some x =>
      obtain ⟨y, hy, -⟩ := hagree.exists_right hx
      rw [hy]
      refine .some ⟨?_, ?_⟩
      · intro hrole
        by_contra hrole'
        exact admin_of_indistinguishable ht hs h.symm hhas' hy hx hrole' hrole
      · intro hrole
        by_contra hrole'
        exact admin_of_indistinguishable hs ht h hhas hx hy hrole' hrole
  · intro halike
    exact (bisimulation_similar account).indistinguishable ⟨hs, ht, halike⟩ _

namespace Sample

/-- The next build of the sample account. -/
def nextBuild : BytesN 32 := List.Vector.replicate 32 9

def build (hash : BytesN 32) : Bool := hash = deployment.wasm || hash = nextBuild

theorem step_upgrade : account.step (invoke (.upgrade nextBuild)) state =
    (.ok (.ok ⟨⟩), Operation.next state (.upgrade nextBuild)) :=
  step_of_enabled (live_of_deploy deploy_deployment) rfl
    (authorizes_invoke (.upgrade nextBuild) signers_state) rfl

end Sample

/-- The answers of the sample account do not show which of its builds it runs. -/
theorem sample_indistinguishable_iff :
    Sample.account.machine.Indistinguishable (KeepsBuild Sample.build) Sample.state
      (Operation.next Sample.state (.upgrade Sample.nextBuild)) := by
  have hdeployed := Sample.deploy_deployment
  have hupgrade : Sample.account.machine.step (Sample.invoke (.upgrade Sample.nextBuild))
      Sample.state = _ := Sample.step_upgrade
  refine (indistinguishable_iff ⟨_, _, [], hdeployed, by decide, nofun, rfl⟩
    ⟨_, _, [Sample.invoke (.upgrade Sample.nextBuild)], hdeployed, by decide, ?_, ?_⟩).mpr ?_
  · rw [Machine.history_singleton, hupgrade]
    intro answered hanswered hash hcall _
    rw [List.mem_singleton.mp hanswered] at hcall
    cases hcall
    decide
  · rw [Machine.final_singleton, hupgrade]
  · rw [signers_next]
    exact ⟨.refl (agree_refl _) _, fun _ => .refl bothAdmins_refl _⟩

end StellarSmartAccount.SmartAccount
