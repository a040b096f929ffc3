import StellarSmartAccount.Account.Representation

/-! # The decision of the authorization entry point

`__check_auth` never writes, so each of its passes is determined by a refusal: an
unknown key, the first proof that does not verify, the first context that no
signer authorizes. The exact outcome holds in every state, decodable or not; its
acceptance is restated over the signer table.
-/

namespace StellarSmartAccount.SmartAccount
open Foundations Soroban

/-- What a typed read finds under each key: nothing, an undecodable value or a
signer. -/
def entries (s : State) : Table SignerKey (Option Signer) :=
  fun key => (s.instanceMap.lookup (intoVal key)).map tryFromVal

theorem signers_eq_join (s : State) (key : SignerKey) : signers s key = (entries s key).join := by
  unfold signers entries
  cases s.instanceMap.lookup (intoVal key) <;> rfl

theorem Represented.entries_eq {s : State} (h : Represented s) (key : SignerKey) :
    entries s key = (signers s key).map some := by
  rw [entries, h.lookup, Option.map_map]
  congr 1
  funext signer
  exact LawfulVal.tryFromVal_intoVal signer

section Refusals
variable (env : Env) (payload : BytesN 32) (t : Table SignerKey (Option Signer))

def keyRefusal (entry : SignerKey × SignerProof) : Option (Call.Refusal Abort Error) :=
  if (t entry.1).isSome then none else some (.error .signerNotFound)

def proofRefusal (entry : SignerKey × SignerProof) : Option (Call.Refusal Abort Error) :=
  match t entry.1 with
  | none => some (.abort .unwrapNone)
  | some none => some (.abort .conversion)
  | some (some signer) => signer.refusal env.crypto payload entry.2

/-- One of the keys has a signer whose role authorizes the context. -/
def authorizedBy (proofMap : List (SignerKey × SignerProof)) (context : Context) : Bool :=
  proofMap.any fun entry => (t entry.1).join.any (·.role.isAuthorized env context)

def contextRefusal (proofMap : List (SignerKey × SignerProof)) (context : Context) :
    Option (Call.Refusal Abort Error) :=
  if authorizedBy env t proofMap context then none else some (.error .insufficientPermissions)

/-- Why `__check_auth` does not accept, in the order of its passes. -/
def refusal (proofMap : List (SignerKey × SignerProof)) (contexts : List Context) :
    Option (Call.Refusal Abort Error) :=
  (if proofMap.isEmpty then some (.error .noProofsInAuthEntry) else none).or <|
    (proofMap.findSome? (keyRefusal t)).or <|
      (proofMap.findSome? (proofRefusal env payload t)).or <|
        contexts.findSome? (contextRefusal env t proofMap)

end Refusals

theorem findSome?_congr {α β : Type*} {f g : α → Option β} {l : List α}
    (h : ∀ a ∈ l, f a = g a) : l.findSome? f = l.findSome? g := by
  rw [← List.head?_filterMap, List.filterMap_congr h, List.head?_filterMap]

theorem refusal_eq_of_passes {env env' : Env} {payload : BytesN 32}
    {t t' : Table SignerKey (Option Signer)} {proofMap : List (SignerKey × SignerProof)}
    {contexts : List Context}
    (hkeys : ∀ entry ∈ proofMap, keyRefusal t entry = keyRefusal t' entry)
    (hproofs : ∀ entry ∈ proofMap,
      proofRefusal env payload t entry = proofRefusal env' payload t' entry)
    (hcontexts : ∀ context ∈ contexts,
      contextRefusal env t proofMap context = contextRefusal env' t' proofMap context) :
    refusal env payload t proofMap contexts = refusal env' payload t' proofMap contexts := by
  rw [refusal, refusal, findSome?_congr hkeys, findSome?_congr hproofs,
    findSome?_congr hcontexts]

theorem refusal_eq_of_entries {env : Env} {payload : BytesN 32}
    {t t' : Table SignerKey (Option Signer)} {proofMap : List (SignerKey × SignerProof)}
    {contexts : List Context} (h : ∀ entry ∈ proofMap, t entry.1 = t' entry.1) :
    refusal env payload t proofMap contexts = refusal env payload t' proofMap contexts := by
  refine refusal_eq_of_passes (fun entry hentry => ?_) (fun entry hentry => ?_) fun context _ => ?_
  · rw [keyRefusal, keyRefusal, h entry hentry]
  · rw [proofRefusal, proofRefusal, h entry hentry]
  · have hby : authorizedBy env t proofMap context = authorizedBy env t' proofMap context := by
      rw [authorizedBy, authorizedBy, Bool.eq_iff_iff, List.any_eq_true, List.any_eq_true]
      refine exists_congr fun entry => and_congr_right fun hentry => ?_
      rw [h entry hentry]
    rw [contextRefusal, contextRefusal, hby]

theorem proofRefusal_eq_none_iff {env : Env} {payload : BytesN 32}
    {t : Table SignerKey (Option Signer)} {entry : SignerKey × SignerProof} :
    proofRefusal env payload t entry = none ↔
      ∃ signer, t entry.1 = some (some signer) ∧
        signer.hostVerifies env.crypto payload entry.2 = true := by
  rw [proofRefusal]
  match t entry.1 with
  | none => simp
  | some none => simp
  | some (some signer) => simp [Signer.refusal_eq_none_iff]

section Passes
variable (env : Env) (payload : BytesN 32) (s : State)
  (proofMap : List (SignerKey × SignerProof))

theorem has_exec_entries (key : SignerKey) :
    ((default : Storage).has key).exec s = .ok ((entries s key).isSome, s) := by
  rw [Storage.has_exec, entries, Option.isSome_map]
  congr 2
  rw [Bool.eq_iff_iff, Finmap.lookup_isSome, decide_eq_true_iff]
  rfl

theorem requireStored_exec :
    (requireStored default proofMap).exec s =
      Call.outcome ⟨⟩ s (proofMap.findSome? (keyRefusal (entries s))) := by
  refine Call.exec_forM_outcome proofMap fun entry _ => ?_
  rw [Call.exec_bind_ok (Call.exec_lift_ok (has_exec_entries s entry.1)), keyRefusal]
  cases (entries s entry.1).isSome <;> rfl

/-- The cache after the signers of some more entries. -/
def cache (t : Table SignerKey (Option Signer)) (verifiedSigners : VerifiedSigners)
    (entry : SignerKey × SignerProof) : VerifiedSigners :=
  match t entry.1 with
  | some (some signer) => verifiedSigners.insert entry.1 signer
  | _ => verifiedSigners

theorem get_exec_entries (key : SignerKey) :
    ((do unwrap (← (default : Storage).get key) : Host Signer)).exec s =
      match entries s key with
      | none => .error .unwrapNone
      | some none => .error .conversion
      | some (some signer) => .ok (signer, s) := by
  rw [entries]
  cases hv : s.instanceMap.lookup (intoVal key) with
  | none =>
    rw [Tx.exec_bind_ok (Storage.get_exec_none hv)]
    rfl
  | some v =>
    have hlookup : (s.storage (default : Storage).durability).lookup (intoVal key) = some v := hv
    have hget := Storage.get_exec_some (ν := Signer) hlookup
    cases hsigner : tryFromVal (α := Signer) v with
    | none =>
      rw [hsigner] at hget
      rw [Tx.exec_bind_error hget, Option.map_some, hsigner]
    | some signer =>
      rw [hsigner] at hget
      rw [Tx.exec_bind_ok hget, Option.map_some, hsigner]
      rfl

theorem verifyProofs_exec :
    (verifyProofs default env payload proofMap).exec s =
      Call.outcome (proofMap.foldl (cache (entries s)) ∅) s
        (proofMap.findSome? (proofRefusal env payload (entries s))) := by
  refine Call.exec_foldlM_outcome proofMap ∅ fun entry _ verifiedSigners => ?_
  have hget := get_exec_entries s entry.1
  rw [proofRefusal, cache]
  match hentry : entries s entry.1 with
  | none =>
    rw [hentry] at hget
    exact Call.exec_bind_abort (Call.exec_lift_error hget) _
  | some none =>
    rw [hentry] at hget
    exact Call.exec_bind_abort (Call.exec_lift_error hget) _
  | some (some signer) =>
    rw [hentry] at hget
    refine (Call.exec_bind_ok (Call.exec_lift_ok hget) _).trans ?_
    exact Call.exec_bind_outcome_ok (signer.verify_exec env payload entry.2 s) rfl

/-- Once every entry verifies, the cache holds the stored signer of each of its
keys. -/
theorem getElem?_foldl_cache {t : Table SignerKey (Option Signer)}
    (h : ∀ entry ∈ proofMap, ∃ signer, t entry.1 = some (some signer))
    (verifiedSigners : VerifiedSigners)
    (hcached : ∀ key signer, verifiedSigners[key]? = some signer → t key = some (some signer))
    {key : SignerKey} (hkey : verifiedSigners[key]?.isSome ∨ ∃ entry ∈ proofMap, entry.1 = key) :
    (proofMap.foldl (cache t) verifiedSigners)[key]? = (t key).join := by
  induction proofMap generalizing verifiedSigners with
  | nil =>
    rcases hkey with hkey | ⟨entry, hentry, -⟩
    · obtain ⟨signer, hsigner⟩ := Option.isSome_iff_exists.mp hkey
      rw [List.foldl_nil, hsigner, hcached key signer hsigner]
      rfl
    · cases hentry
  | cons entry proofMap ih =>
    obtain ⟨signer, hsigner⟩ := h entry List.mem_cons_self
    have hcache : cache t verifiedSigners entry = verifiedSigners.insert entry.1 signer := by
      rw [cache, hsigner]
    rw [List.foldl_cons, hcache]
    refine ih (fun e he => h e (List.mem_cons_of_mem entry he)) _ ?_ ?_
    · intro k x hx
      rw [Std.ExtTreeMap.getElem?_insert] at hx
      split_ifs at hx with heq
      · cases hx
        rw [← Std.LawfulEqOrd.eq_of_compare heq, hsigner]
      · exact hcached k x hx
    · rw [Std.ExtTreeMap.getElem?_insert]
      split_ifs with heq
      · exact .inl rfl
      · rcases hkey with hkey | ⟨e, he, rfl⟩
        · exact .inl hkey
        · rcases List.mem_cons.mp he with rfl | he
          · exact absurd Std.ReflOrd.compare_self heq
          · exact .inr ⟨e, he, rfl⟩

theorem contextAuthorized_exec {verifiedSigners : VerifiedSigners}
    {t : Table SignerKey (Option Signer)}
    (h : ∀ entry ∈ proofMap, ∃ signer, t entry.1 = some (some signer))
    (hcached : ∀ entry ∈ proofMap, verifiedSigners[entry.1]? = (t entry.1).join)
    (context : Context) :
    (contextAuthorized env verifiedSigners context proofMap).exec s =
      .ok (authorizedBy env t proofMap context, s) := by
  refine Tx.exec_anyM proofMap fun entry hentry => ?_
  obtain ⟨signer, hsigner⟩ := h entry hentry
  have hunwrap : (unwrap verifiedSigners[entry.1]?).exec s = .ok (signer, s) := by
    rw [hcached entry hentry, hsigner]
    rfl
  refine (Tx.exec_bind_ok hunwrap _).trans ?_
  rw [hsigner]
  rfl

theorem authorizeContexts_exec {verifiedSigners : VerifiedSigners}
    {t : Table SignerKey (Option Signer)}
    (h : ∀ entry ∈ proofMap, ∃ signer, t entry.1 = some (some signer))
    (hcached : ∀ entry ∈ proofMap, verifiedSigners[entry.1]? = (t entry.1).join)
    (contexts : List Context) :
    (authorizeContexts env verifiedSigners proofMap contexts).exec s =
      Call.outcome ⟨⟩ s (contexts.findSome? (contextRefusal env t proofMap)) := by
  refine Call.exec_forM_outcome contexts fun context _ => ?_
  rw [Call.exec_bind_ok (Call.exec_lift_ok
    (contextAuthorized_exec env s proofMap h hcached context)), contextRefusal]
  cases authorizedBy env t proofMap context <;> rfl

/-- Exact outcome of `__check_auth` in any state, which it leaves unchanged. -/
theorem checkAuth_exec (proofs : SignatureProofs) (contexts : List Context) :
    (checkAuth env payload proofs contexts).exec s =
      Call.outcome ⟨⟩ s (refusal env payload (entries s) proofs.proofs.toList contexts) := by
  rw [checkAuth, refusal]
  rw [Std.ExtTreeMap.isEmpty_toList]
  by_cases hempty : proofs.proofs.isEmpty = true
  · rw [if_pos hempty, if_pos hempty]
    rfl
  rw [if_neg hempty, if_neg hempty, Option.none_or]
  refine Call.exec_bind_outcome (requireStored_exec s _) fun _ => ?_
  refine Call.exec_bind_outcome (verifyProofs_exec env payload s _) fun hnone => ?_
  have hstored : ∀ entry ∈ proofs.proofs.toList, ∃ signer,
      entries s entry.1 = some (some signer) := by
    intro entry hentry
    obtain ⟨signer, hsigner, -⟩ :=
      proofRefusal_eq_none_iff.mp (List.findSome?_eq_none_iff.mp hnone entry hentry)
    exact ⟨signer, hsigner⟩
  refine authorizeContexts_exec env s _ hstored (fun entry hentry => ?_) contexts
  refine getElem?_foldl_cache _ hstored ∅ (fun key signer h => ?_) (.inr ⟨entry, hentry, rfl⟩)
  rw [Std.ExtTreeMap.getElem?_empty] at h
  cases h

end Passes

section Acceptance
variable {env : Env} {payload : BytesN 32} {s : State}

/-- What acceptance asks of the stored signers. -/
structure Accepts (env : Env) (payload : BytesN 32) (t : Table SignerKey Signer)
    (proofMap : List (SignerKey × SignerProof)) (contexts : List Context) : Prop where
  nonempty : proofMap ≠ []
  verified : ∀ entry ∈ proofMap, ∃ signer, t entry.1 = some signer ∧
    signer.hostVerifies env.crypto payload entry.2 = true
  authorized : ∀ context ∈ contexts, ∃ entry ∈ proofMap, ∃ signer, t entry.1 = some signer ∧
    signer.role.isAuthorized env context = true

theorem signers_eq_some_iff {key : SignerKey} {signer : Signer} :
    signers s key = some signer ↔ entries s key = some (some signer) := by
  rw [signers_eq_join, Option.join_eq_some_iff]

theorem authorizedBy_iff {proofMap : List (SignerKey × SignerProof)} {context : Context} :
    authorizedBy env (entries s) proofMap context = true ↔
      ∃ entry ∈ proofMap, ∃ signer, signers s entry.1 = some signer ∧
        signer.role.isAuthorized env context = true := by
  simp only [authorizedBy, List.any_eq_true, Option.any_eq_true, signers_eq_join]

theorem refusal_eq_none_iff {proofMap : List (SignerKey × SignerProof)}
    {contexts : List Context} :
    refusal env payload (entries s) proofMap contexts = none ↔
      Accepts env payload (signers s) proofMap contexts := by
  simp only [refusal, Option.or_eq_none_iff, List.findSome?_eq_none_iff]
  constructor
  · rintro ⟨hempty, -, hproofs, hcontexts⟩
    refine ⟨?_, fun entry hentry => ?_, fun context hcontext => ?_⟩
    · rintro rfl
      cases hempty
    · obtain ⟨signer, hsigner, hverifies⟩ := proofRefusal_eq_none_iff.mp (hproofs entry hentry)
      exact ⟨signer, signers_eq_some_iff.mpr hsigner, hverifies⟩
    · have hc := hcontexts context hcontext
      rw [contextRefusal] at hc
      split_ifs at hc with hauthorized
      exact authorizedBy_iff.mp hauthorized
  · intro h
    refine ⟨?_, fun entry hentry => ?_, fun entry hentry => ?_, fun context hcontext => ?_⟩
    · rw [if_neg]
      simpa using h.nonempty
    · obtain ⟨signer, hsigner, -⟩ := h.verified entry hentry
      rw [keyRefusal, signers_eq_some_iff.mp hsigner]
      rfl
    · obtain ⟨signer, hsigner, hverifies⟩ := h.verified entry hentry
      exact proofRefusal_eq_none_iff.mpr ⟨signer, signers_eq_some_iff.mp hsigner, hverifies⟩
    · rw [contextRefusal, if_pos (authorizedBy_iff.mpr (h.authorized context hcontext))]

theorem checkAuth_ok_iff {proofs : SignatureProofs} {contexts : List Context} :
    (checkAuth env payload proofs contexts).exec s = .ok (.ok ⟨⟩, s) ↔
      Accepts env payload (signers s) proofs.proofs.toList contexts := by
  rw [checkAuth_exec, Call.outcome_eq_ok_iff, refusal_eq_none_iff]

theorem Accepts.authorizer {t : Table SignerKey Signer}
    {proofMap : List (SignerKey × SignerProof)} {contexts : List Context}
    (h : Accepts env payload t proofMap contexts) {context : Context}
    (hcontext : context ∈ contexts) :
    ∃ entry ∈ proofMap, ∃ signer, t entry.1 = some signer ∧
      signer.hostVerifies env.crypto payload entry.2 = true ∧
      signer.role.isAuthorized env context = true := by
  obtain ⟨entry, hentry, signer, hsigner, hauthorized⟩ := h.authorized context hcontext
  obtain ⟨signer', hsigner', hverifies⟩ := h.verified entry hentry
  obtain rfl : signer' = signer := Option.some.inj (hsigner'.symm.trans hsigner)
  exact ⟨entry, hentry, signer', hsigner, hverifies, hauthorized⟩

/-- An accepted call on the account itself carries a verified proof of a stored
admin. -/
theorem Accepts.admin {t : Table SignerKey Signer} {proofMap : List (SignerKey × SignerProof)}
    {contexts : List Context} (h : Accepts env payload t proofMap contexts)
    {context : Context} (hcontext : context ∈ contexts)
    (hop : SignerRole.isAdminOperation env context = true) :
    ∃ entry ∈ proofMap, ∃ signer, t entry.1 = some signer ∧ signer.role = .admin ∧
      signer.hostVerifies env.crypto payload entry.2 = true := by
  obtain ⟨entry, hentry, signer, hsigner, hverifies, hauthorized⟩ := h.authorizer hcontext
  exact ⟨entry, hentry, signer, hsigner, SignerRole.eq_admin_of_isAuthorized hop hauthorized,
    hverifies⟩

end Acceptance
end StellarSmartAccount.SmartAccount
