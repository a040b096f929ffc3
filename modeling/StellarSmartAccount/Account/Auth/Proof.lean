import StellarSmartAccount.Account.Auth.Canonical
import StellarSmartAccount.Foundations.Sequence

/-! # Encoding of proofs

The signature of an authorization entry is a vector with one map from signer keys to proofs.
The host takes a map only with strictly increasing keys, so that a proof map has one encoding
and an encoding in another order is refused.
-/

namespace StellarSmartAccount
open Foundations Soroban

instance : IntoVal Secp256r1Signature where
  intoVal s := .map [(.symbol "authenticator_data", intoVal s.authenticatorData),
    (.symbol "client_data_json", intoVal s.clientDataJson),
    (.symbol "signature", intoVal s.signature)]

instance : TryFromVal Secp256r1Signature where
  tryFromVal
    | .map [(.symbol "authenticator_data", a), (.symbol "client_data_json", c),
        (.symbol "signature", s)] => do
      return ⟨← tryFromVal a, ← tryFromVal c, ← tryFromVal s⟩
    | _ => none

instance : LawfulVal Secp256r1Signature where
  tryFromVal_intoVal s := by
    change (do return ⟨← tryFromVal (intoVal s.authenticatorData),
      ← tryFromVal (intoVal s.clientDataJson), ← tryFromVal (intoVal s.signature)⟩ :
        Option Secp256r1Signature) = some s
    simp

instance : CanonicalVal Secp256r1Signature where
  intoVal_of_tryFromVal {v s} h := by
    rw [tryFromVal, instTryFromValSecp256r1Signature] at h
    dsimp only at h
    split at h
    · obtain ⟨a, ha, hrest⟩ := Option.bind_eq_some_iff.mp h
      obtain ⟨c, hc, hrest⟩ := Option.bind_eq_some_iff.mp hrest
      obtain ⟨signature, hs, heq⟩ := Option.bind_eq_some_iff.mp hrest
      cases heq
      rw [← CanonicalVal.intoVal_of_tryFromVal ha, ← CanonicalVal.intoVal_of_tryFromVal hc,
        ← CanonicalVal.intoVal_of_tryFromVal hs]
      rfl
    · cases h

instance : IntoVal SignerProof where
  intoVal
    | .ed25519 signature => .variant "Ed25519" [intoVal signature]
    | .secp256r1 signature => .variant "Secp256r1" [intoVal signature]

instance : TryFromVal SignerProof where
  tryFromVal
    | .variant "Ed25519" [v] => (tryFromVal v).map .ed25519
    | .variant "Secp256r1" [v] => (tryFromVal v).map .secp256r1
    | _ => none

instance : LawfulVal SignerProof where
  tryFromVal_intoVal
    | .ed25519 signature =>
      congrArg (Option.map SignerProof.ed25519) (LawfulVal.tryFromVal_intoVal signature)
    | .secp256r1 signature =>
      congrArg (Option.map SignerProof.secp256r1) (LawfulVal.tryFromVal_intoVal signature)

instance : CanonicalVal SignerProof where
  intoVal_of_tryFromVal {v proof} h := by
    rw [tryFromVal, instTryFromValSignerProof] at h
    dsimp only at h
    split at h
    · obtain ⟨signature, rfl, hv⟩ := variant_of_map_tryFromVal h
      exact hv
    · obtain ⟨signature, rfl, hv⟩ := variant_of_map_tryFromVal h
      exact hv
    · cases h

/-- The host compares the keys of map entries. -/
def KeyBefore (a b : SignerKey × SignerProof) : Prop := compare a.1 b.1 = .lt

instance : DecidableRel KeyBefore := fun a b => inferInstanceAs (Decidable (compare a.1 b.1 = .lt))

def proofEntry (entry : SignerKey × SignerProof) : Val × Val := (intoVal entry.1, intoVal entry.2)

def tryFromProofEntry (entry : Val × Val) : Option (SignerKey × SignerProof) := do
  return (← tryFromVal entry.1, ← tryFromVal entry.2)

/-- A vector with the map of these entries, in this order. -/
def proofsVal (entries : List (SignerKey × SignerProof)) : Val :=
  .vec [.map (entries.map proofEntry)]

instance : IntoVal SignatureProofs := ⟨fun proofs => proofsVal proofs.proofs.toList⟩

instance : TryFromVal SignatureProofs where
  tryFromVal
    | .vec [.map entries] => do
      let entries ← entries.mapM tryFromProofEntry
      if entries.Pairwise KeyBefore then some ⟨.ofList entries compare⟩ else none
    | _ => none

theorem tryFromProofEntry_eq_some_iff (v : Val × Val) (entry : SignerKey × SignerProof) :
    tryFromProofEntry v = some entry ↔ v = proofEntry entry := by
  obtain ⟨key, proof⟩ := v
  constructor
  · intro h
    obtain ⟨k, hk, hrest⟩ := Option.bind_eq_some_iff.mp h
    obtain ⟨p, hp, heq⟩ := Option.bind_eq_some_iff.mp hrest
    cases heq
    rw [proofEntry, CanonicalVal.intoVal_of_tryFromVal hk, CanonicalVal.intoVal_of_tryFromVal hp]
  · intro h
    cases h
    simp [tryFromProofEntry]

theorem not_keyBefore_self (entry : SignerKey × SignerProof) : ¬ KeyBefore entry entry := by
  have hself : compare entry.1 entry.1 = .eq := Std.ReflCmp.compare_self
  rw [KeyBefore, hself]
  exact nofun

theorem nodup_of_keyBefore {entries : List (SignerKey × SignerProof)}
    (h : entries.Pairwise KeyBefore) : entries.Nodup := by
  apply h.imp
  rintro a b hlt rfl
  exact not_keyBefore_self a hlt

theorem toList_ofList {entries : List (SignerKey × SignerProof)} (h : entries.Pairwise KeyBefore) :
    (Std.ExtTreeMap.ofList entries compare).toList = entries := by
  have hordered : (Std.ExtTreeMap.ofList entries compare).toList.Pairwise KeyBefore :=
    Std.ExtTreeMap.ordered_keys_toList
  have hdistinct : entries.Pairwise fun a b => ¬ compare a.1 b.1 = .eq :=
    h.imp fun hlt heq => by cases hlt.symm.trans heq
  have hfound : ∀ {key proof}, (key, proof) ∈ entries →
      (Std.ExtTreeMap.ofList entries compare)[key]? = some proof :=
    fun hmem => Std.ExtTreeMap.getElem?_ofList_of_mem Std.ReflCmp.compare_self hdistinct hmem
  have hperm : (Std.ExtTreeMap.ofList entries compare).toList.Perm entries := by
    refine (List.perm_ext_iff_of_nodup (nodup_of_keyBefore hordered)
      (nodup_of_keyBefore h)).mpr ?_
    rintro ⟨key, proof⟩
    rw [Std.ExtTreeMap.mem_toList_iff_getElem?_eq_some]
    constructor
    · intro hsome
      have hmem : key ∈ Std.ExtTreeMap.ofList entries compare :=
        Std.ExtTreeMap.mem_iff_isSome_getElem?.mpr (by rw [hsome]; rfl)
      rw [Std.ExtTreeMap.mem_ofList, List.contains_iff_mem, List.mem_map] at hmem
      obtain ⟨⟨key, proof'⟩, hentry, rfl⟩ := hmem
      rw [hfound hentry] at hsome
      rwa [← Option.some.inj hsome]
    · exact hfound
  refine hperm.eq_of_pairwise (fun a b _ _ hab hba => ?_) hordered h
  exact absurd (Std.TransCmp.lt_trans hab hba) (not_keyBefore_self a)

/-- The host reads a proof map exactly from the encoding of its entries in increasing order. -/
theorem tryFromVal_signatureProofs_iff {v : Val} {proofs : SignatureProofs} :
    tryFromVal v = some proofs ↔ ∃ entries : List (SignerKey × SignerProof),
      v = proofsVal entries ∧ entries.Pairwise KeyBefore ∧
        proofs = ⟨.ofList entries compare⟩ := by
  rw [tryFromVal, instTryFromValSignatureProofs]
  dsimp only
  constructor
  · intro h
    split at h
    · obtain ⟨entries, hentries, hrest⟩ := Option.bind_eq_some_iff.mp h
      split_ifs at hrest with hordered
      cases hrest
      rw [mapM_eq_some_iff tryFromProofEntry_eq_some_iff] at hentries
      exact ⟨entries, congrArg (Val.vec [.map ·]) hentries, hordered, rfl⟩
    · cases h
  · rintro ⟨entries, rfl, hordered, rfl⟩
    refine Option.bind_eq_some_iff.mpr ⟨entries, ?_, if_pos hordered⟩
    exact (mapM_eq_some_iff tryFromProofEntry_eq_some_iff).mpr rfl

theorem proofsVal_injective : Function.Injective proofsVal := by
  intro entries entries' h
  have hmap : entries.map proofEntry = entries'.map proofEntry :=
    Val.map.inj (List.head_eq_of_cons_eq (Val.vec.inj h))
  have hdecoded := (mapM_eq_some_iff tryFromProofEntry_eq_some_iff).mpr hmap
  rw [(mapM_eq_some_iff tryFromProofEntry_eq_some_iff).mpr rfl] at hdecoded
  exact Option.some.inj hdecoded

theorem tryFromVal_proofsVal_iff {entries : List (SignerKey × SignerProof)}
    {proofs : SignatureProofs} :
    tryFromVal (proofsVal entries) = some proofs ↔
      entries.Pairwise KeyBefore ∧ proofs = ⟨.ofList entries compare⟩ := by
  rw [tryFromVal_signatureProofs_iff]
  constructor
  · rintro ⟨entries', heq, hordered, rfl⟩
    obtain rfl := proofsVal_injective heq
    exact ⟨hordered, rfl⟩
  · rintro ⟨hordered, rfl⟩
    exact ⟨entries, rfl, hordered, rfl⟩

instance : LawfulVal SignatureProofs where
  tryFromVal_intoVal proofs := by
    have hordered : proofs.proofs.toList.Pairwise KeyBefore := Std.ExtTreeMap.ordered_keys_toList
    refine tryFromVal_signatureProofs_iff.mpr ⟨_, rfl, hordered, ?_⟩
    obtain ⟨proofs⟩ := proofs
    exact congrArg SignatureProofs.mk (Std.ExtTreeMap.toList_inj.mp (toList_ofList hordered)).symm

instance : CanonicalVal SignatureProofs where
  intoVal_of_tryFromVal {v proofs} h := by
    obtain ⟨entries, rfl, hordered, rfl⟩ := tryFromVal_signatureProofs_iff.mp h
    exact congrArg proofsVal (toList_ofList hordered)

end StellarSmartAccount
