import StellarSmartAccount.Account.Construction

/-! # Decomposition of batched authorization

A proof map authorizes a batch of contexts exactly when each of its proofs verifies on
its own and each context is authorized by one of its proofs alone. Signers, proofs and
contexts of a batch do not influence each other.
-/

namespace StellarSmartAccount

/-- The proof map with one entry. -/
def SignatureProofs.only (key : SignerKey) (proof : SignerProof) : SignatureProofs :=
  ⟨(∅ : Std.ExtTreeMap SignerKey SignerProof compare).insert key proof⟩

/-- The proof map with one more entry. -/
def SignatureProofs.insert (self : SignatureProofs) (key : SignerKey) (proof : SignerProof) :
    SignatureProofs :=
  ⟨self.proofs.insert key proof⟩

section Proofs
variable {proofs : SignatureProofs} {key : SignerKey} {proof : SignerProof}

theorem SignatureProofs.toList_only :
    (SignatureProofs.only key proof).proofs.toList = [(key, proof)] := rfl

theorem SignatureProofs.mem_toList {entry : SignerKey × SignerProof} :
    entry ∈ proofs.proofs.toList ↔ proofs.proofs[entry.1]? = some entry.2 :=
  Std.ExtTreeMap.mem_toList_iff_getElem?_eq_some

theorem SignatureProofs.mem_toList_insert {entry : SignerKey × SignerProof} :
    entry ∈ (proofs.insert key proof).proofs.toList ↔
      entry = (key, proof) ∨ entry.1 ≠ key ∧ entry ∈ proofs.proofs.toList := by
  rw [mem_toList, mem_toList, SignatureProofs.insert, Std.ExtTreeMap.getElem?_insert]
  split_ifs with hkey
  · obtain rfl := Std.LawfulEqOrd.eq_of_compare hkey
    constructor
    · intro h
      exact .inl (Prod.ext rfl (Option.some.inj h).symm)
    · rintro (h | ⟨hne, -⟩)
      · rw [h]
      · exact absurd rfl hne
  · have hne : entry.1 ≠ key := by
      rintro rfl
      exact hkey Std.ReflOrd.compare_self
    constructor
    · intro h
      exact .inr ⟨hne, h⟩
    · rintro (h | ⟨-, h⟩)
      · exact absurd (congrArg Prod.fst h) hne
      · exact h

end Proofs

namespace SmartAccount
open Foundations Soroban

variable {env : Env} {payload : BytesN 32} {t : Table SignerKey Signer}
  {proofMap : List (SignerKey × SignerProof)} {contexts contexts' : List Context}

namespace Accepts

theorem single_iff {entry : SignerKey × SignerProof} :
    Accepts env payload t [entry] contexts ↔
      ∃ signer, t entry.1 = some signer ∧
        signer.hostVerifies env.crypto payload entry.2 = true ∧
        ∀ context ∈ contexts, signer.role.isAuthorized env context = true := by
  constructor
  · intro h
    obtain ⟨signer, hsigner, hverifies⟩ := h.verified entry (List.mem_singleton_self entry)
    refine ⟨signer, hsigner, hverifies, fun context hcontext => ?_⟩
    obtain ⟨e, he, signer', hsigner', hauthorized⟩ := h.authorized context hcontext
    rw [List.mem_singleton.mp he, hsigner, Option.some.injEq] at hsigner'
    rwa [hsigner']
  · rintro ⟨signer, hsigner, hverifies, hauthorized⟩
    refine ⟨List.cons_ne_nil _ _, fun e he => ?_, fun context hcontext => ?_⟩
    · rw [List.mem_singleton.mp he]
      exact ⟨signer, hsigner, hverifies⟩
    · exact ⟨entry, List.mem_singleton_self entry, signer, hsigner, hauthorized context hcontext⟩

theorem iff_single :
    Accepts env payload t proofMap contexts ↔
      proofMap ≠ [] ∧ (∀ entry ∈ proofMap, Accepts env payload t [entry] []) ∧
        ∀ context ∈ contexts, ∃ entry ∈ proofMap, Accepts env payload t [entry] [context] := by
  constructor
  · intro h
    refine ⟨h.nonempty, fun entry hentry => ?_, fun context hcontext => ?_⟩
    · obtain ⟨signer, hsigner, hverifies⟩ := h.verified entry hentry
      exact single_iff.mpr ⟨signer, hsigner, hverifies, nofun⟩
    · obtain ⟨entry, hentry, signer, hsigner, hverifies, hauthorized⟩ := h.authorizer hcontext
      refine ⟨entry, hentry, single_iff.mpr ⟨signer, hsigner, hverifies, fun c hc => ?_⟩⟩
      rwa [List.mem_singleton.mp hc]
  · rintro ⟨hnonempty, hproofs, hcontexts⟩
    refine ⟨hnonempty, fun entry hentry => ?_, fun context hcontext => ?_⟩
    · exact (hproofs entry hentry).verified entry (List.mem_singleton_self entry)
    · obtain ⟨entry, hentry, haccepts⟩ := hcontexts context hcontext
      obtain ⟨signer, hsigner, -, hauthorized⟩ := single_iff.mp haccepts
      exact ⟨entry, hentry, signer, hsigner, hauthorized context (List.mem_singleton_self _)⟩

theorem contexts_mono (h : Accepts env payload t proofMap contexts) (hsub : contexts' ⊆ contexts) :
    Accepts env payload t proofMap contexts' :=
  ⟨h.nonempty, h.verified, fun context hcontext => h.authorized context (hsub hcontext)⟩

theorem append_iff :
    Accepts env payload t proofMap (contexts ++ contexts') ↔
      Accepts env payload t proofMap contexts ∧ Accepts env payload t proofMap contexts' := by
  constructor
  · intro h
    exact ⟨h.contexts_mono (List.subset_append_left _ _),
      h.contexts_mono (List.subset_append_right _ _)⟩
  · rintro ⟨h, h'⟩
    refine ⟨h.nonempty, h.verified, fun context hcontext => ?_⟩
    rcases List.mem_append.mp hcontext with hcontext | hcontext
    · exact h.authorized context hcontext
    · exact h'.authorized context hcontext

/-- A co-signer whose proof verifies joins an accepted batch. -/
theorem insert_cosigner {proofs : SignatureProofs} {key : SignerKey} {proof : SignerProof}
    (h : Accepts env payload t proofs.proofs.toList contexts)
    (hproof : Accepts env payload t [(key, proof)] []) :
    Accepts env payload t (proofs.insert key proof).proofs.toList contexts := by
  have hmem : (key, proof) ∈ (proofs.insert key proof).proofs.toList :=
    SignatureProofs.mem_toList_insert.mpr (.inl rfl)
  refine ⟨List.ne_nil_of_mem hmem, fun entry hentry => ?_, fun context hcontext => ?_⟩
  · rcases SignatureProofs.mem_toList_insert.mp hentry with rfl | ⟨-, hold⟩
    · exact hproof.verified _ (List.mem_singleton_self _)
    · exact h.verified entry hold
  · obtain ⟨entry, hentry, hauthorized⟩ := h.authorized context hcontext
    by_cases hkey : entry.1 = key
    · exact ⟨(key, proof), hmem, hkey ▸ hauthorized⟩
    · exact ⟨entry, SignatureProofs.mem_toList_insert.mpr (.inr ⟨hkey, hentry⟩), hauthorized⟩

end Accepts

section Batch
variable (env : Env) (payload : BytesN 32) (s : State)

/-- `__check_auth` returns Ok. -/
def Passes (proofs : SignatureProofs) (contexts : List Context) : Prop :=
  (checkAuth env payload proofs contexts).exec s = .ok (.ok ⟨⟩, s)

theorem passes_iff {proofs : SignatureProofs} {contexts : List Context} :
    Passes env payload s proofs contexts ↔
      Accepts env payload (signers s) proofs.proofs.toList contexts :=
  checkAuth_ok_iff

/-- In every state a non-empty proof map passes with a list of contexts exactly when each
of its entries passes alone and each context passes with one of its entries alone. -/
theorem checkAuth_decomposition (proofs : SignatureProofs) (hnonempty : proofs.proofs ≠ ∅) :
    (∀ contexts, Passes env payload s proofs contexts ↔
      (∀ key proof, proofs.proofs[key]? = some proof →
        Passes env payload s (.only key proof) []) ∧
      ∀ context ∈ contexts, ∃ key proof, proofs.proofs[key]? = some proof ∧
        Passes env payload s (.only key proof) [context]) ∧
    (∀ contexts contexts', (∀ context, context ∈ contexts ↔ context ∈ contexts') →
      (Passes env payload s proofs contexts ↔ Passes env payload s proofs contexts')) ∧
    (∀ contexts contexts', Passes env payload s proofs (contexts ++ contexts') ↔
      Passes env payload s proofs contexts ∧ Passes env payload s proofs contexts') ∧
    (∀ key proof contexts, Passes env payload s (.only key proof) [] →
      Passes env payload s proofs contexts →
        Passes env payload s (proofs.insert key proof) contexts) ∧
    ∀ context, Passes env payload s proofs [context] →
      ∃ key proof, proofs.proofs[key]? = some proof ∧
        Passes env payload s (.only key proof) [context] := by
  have hlist : proofs.proofs.toList ≠ [] := by
    intro hnil
    exact hnonempty (Std.ExtTreeMap.isEmpty_iff.mp
      (by rw [← Std.ExtTreeMap.isEmpty_toList, hnil]; rfl))
  have hdecompose : ∀ contexts, Passes env payload s proofs contexts ↔
      (∀ key proof, proofs.proofs[key]? = some proof →
        Passes env payload s (.only key proof) []) ∧
      ∀ context ∈ contexts, ∃ key proof, proofs.proofs[key]? = some proof ∧
        Passes env payload s (.only key proof) [context] := by
    intro contexts
    simp only [passes_iff, SignatureProofs.toList_only]
    rw [Accepts.iff_single, and_iff_right hlist]
    simp only [Prod.forall, Prod.exists, SignatureProofs.mem_toList]
  refine ⟨hdecompose, ?_, ?_, ?_, ?_⟩
  · intro contexts contexts' hsame
    rw [passes_iff, passes_iff]
    exact ⟨fun h => h.contexts_mono fun c hc => (hsame c).mpr hc,
      fun h => h.contexts_mono fun c hc => (hsame c).mp hc⟩
  · intro contexts contexts'
    rw [passes_iff, passes_iff, passes_iff, Accepts.append_iff]
  · intro key proof contexts hproof hok
    rw [passes_iff] at hproof hok ⊢
    exact hok.insert_cosigner hproof
  · intro context hok
    exact ((hdecompose [context]).mp hok).2 context (List.mem_singleton_self context)

end Batch

/-- The sample admin's proof passes with a call on the account on its own, so the batch
that repeats this call passes. -/
theorem sample_checkAuth_decomposition :
    Passes (Sample.account.checkEnv 0) Sample.payload Sample.state Sample.proofs
      (List.replicate 3 ((Operation.addSigner Sample.passkeyAdmin).context
        Sample.account.address)) := by
  have hentry : ∀ key proof, Sample.proofs.proofs[key]? = some proof ↔
      (key, proof) = (Sample.admin.key, SignerProof.ed25519 Sample.signature) := by
    intro key proof
    have hmem : (key, proof) ∈ Sample.proofs.proofs.toList ↔ _ := SignatureProofs.mem_toList
    rw [Sample.toList_proofs, List.mem_singleton] at hmem
    exact hmem.symm
  have hnonempty : Sample.proofs.proofs ≠ ∅ := by
    intro hempty
    have hlist := Sample.toList_proofs
    rw [hempty] at hlist
    cases hlist
  have hsingle : ∀ contexts, Passes (Sample.account.checkEnv 0) Sample.payload Sample.state
      (.only Sample.admin.key (.ed25519 Sample.signature)) contexts := by
    intro contexts
    rw [passes_iff, SignatureProofs.toList_only, Accepts.single_iff]
    exact ⟨Sample.admin, Sample.signers_state, by decide, fun _ _ => rfl⟩
  apply ((checkAuth_decomposition _ Sample.payload Sample.state Sample.proofs hnonempty).1 _).mpr
  constructor
  · intro key proof h
    obtain ⟨rfl, rfl⟩ := Prod.mk.inj ((hentry key proof).mp h)
    exact hsingle []
  · intro context _
    exact ⟨_, _, (hentry _ _).mpr rfl, hsingle [context]⟩

end SmartAccount
end StellarSmartAccount
