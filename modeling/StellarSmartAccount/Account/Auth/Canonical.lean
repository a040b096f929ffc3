import StellarSmartAccount.Account.Auth.Codec

/-! # Canonical encodings

Decoding accepts nothing but encodings: a host value decodes to at most one value of a
type, and that value encodes back to it. Together with the round trip, a value and its
encoding determine each other.
-/

namespace StellarSmartAccount
open Soroban

/-- A value that decodes is the encoding of what it decodes to. -/
class CanonicalVal (α : Type) [IntoVal α] [TryFromVal α] : Prop where
  intoVal_of_tryFromVal : ∀ {v : Val} {a : α}, tryFromVal v = some a → intoVal a = v

theorem tryFromVal_eq_some_iff {α : Type} [IntoVal α] [TryFromVal α] [LawfulVal α]
    [CanonicalVal α] {v : Val} {a : α} : tryFromVal v = some a ↔ v = intoVal a := by
  constructor
  · intro h
    exact (CanonicalVal.intoVal_of_tryFromVal h).symm
  · rintro rfl
    exact LawfulVal.tryFromVal_intoVal a

instance : CanonicalVal UInt64 where
  intoVal_of_tryFromVal {v n} h := by
    rw [tryFromVal, instTryFromValUInt64] at h
    dsimp only at h
    split at h
    · cases h
      rfl
    · cases h

instance : CanonicalVal Bytes where
  intoVal_of_tryFromVal {v b} h := by
    rw [tryFromVal, instTryFromValBytes] at h
    dsimp only at h
    split at h
    · cases h
      rfl
    · cases h

instance {n : ℕ} : CanonicalVal (BytesN n) where
  intoVal_of_tryFromVal {v b} h := by
    rw [tryFromVal, instTryFromValBytesN] at h
    dsimp only at h
    split at h
    · split_ifs at h
      cases h
      rfl
    · cases h

instance : CanonicalVal Address where
  intoVal_of_tryFromVal {v a} h := by
    rw [tryFromVal, instTryFromValAddress] at h
    dsimp only at h
    split at h
    · cases h
      rfl
    · cases h

section Vec
variable {α : Type} [IntoVal α] [TryFromVal α] [CanonicalVal α]

/-- A vector that decodes element by element consists of the encodings of its elements. -/
theorem map_intoVal_of_mapM {vs : List Val} {xs : List α}
    (h : vs.mapM (tryFromVal (α := α)) = some xs) : xs.map intoVal = vs := by
  induction vs generalizing xs with
  | nil =>
    cases h
    rfl
  | cons v vs ih =>
    rw [List.mapM_cons] at h
    obtain ⟨x, hx, hrest⟩ := Option.bind_eq_some_iff.mp h
    obtain ⟨xs, hxs, heq⟩ := Option.bind_eq_some_iff.mp hrest
    cases heq
    rw [List.map_cons, CanonicalVal.intoVal_of_tryFromVal hx, ih hxs]

instance : CanonicalVal (List α) where
  intoVal_of_tryFromVal {v xs} h := by
    rw [tryFromVal, instTryFromValList] at h
    dsimp only at h
    split at h
    · exact congrArg Val.vec (map_intoVal_of_mapM h)
    · cases h

end Vec

instance : CanonicalVal TimeBasedPolicy where
  intoVal_of_tryFromVal {v p} h := by
    rw [tryFromVal, instTryFromValTimeBasedPolicy] at h
    dsimp only at h
    split at h
    · next a b =>
      obtain ⟨notBefore, hbefore, hrest⟩ := Option.bind_eq_some_iff.mp h
      obtain ⟨notAfter, hafter, heq⟩ := Option.bind_eq_some_iff.mp hrest
      cases heq
      rw [← CanonicalVal.intoVal_of_tryFromVal hbefore,
        ← CanonicalVal.intoVal_of_tryFromVal hafter]
      rfl
    · cases h

instance : CanonicalVal ContractDenyListPolicy where
  intoVal_of_tryFromVal {v p} h := by
    rw [tryFromVal, instTryFromValContractDenyListPolicy] at h
    dsimp only at h
    split at h
    · next v =>
      obtain ⟨addresses, haddresses, rfl⟩ := Option.map_eq_some_iff.mp h
      rw [← CanonicalVal.intoVal_of_tryFromVal haddresses]
      rfl
    · cases h

instance : CanonicalVal ContractAllowListPolicy where
  intoVal_of_tryFromVal {v p} h := by
    rw [tryFromVal, instTryFromValContractAllowListPolicy] at h
    dsimp only at h
    split at h
    · next v =>
      obtain ⟨addresses, haddresses, rfl⟩ := Option.map_eq_some_iff.mp h
      rw [← CanonicalVal.intoVal_of_tryFromVal haddresses]
      rfl
    · cases h

theorem variant_of_map_tryFromVal {α β : Type} [IntoVal α] [TryFromVal α] [CanonicalVal α]
    {name : Symbol} {v : Val} {f : α → β} {b : β} (h : (tryFromVal v).map f = some b) :
    ∃ a, f a = b ∧ Val.variant name [intoVal a] = .variant name [v] := by
  obtain ⟨a, ha, rfl⟩ := Option.map_eq_some_iff.mp h
  exact ⟨a, rfl, by rw [CanonicalVal.intoVal_of_tryFromVal ha]⟩

instance : CanonicalVal SignerPolicy where
  intoVal_of_tryFromVal {v p} h := by
    rw [tryFromVal, instTryFromValSignerPolicy] at h
    dsimp only at h
    split at h
    · obtain ⟨policy, rfl, hv⟩ := variant_of_map_tryFromVal h
      exact hv
    · obtain ⟨policy, rfl, hv⟩ := variant_of_map_tryFromVal h
      exact hv
    · obtain ⟨policy, rfl, hv⟩ := variant_of_map_tryFromVal h
      exact hv
    · cases h

instance : CanonicalVal SignerRole where
  intoVal_of_tryFromVal {v role} h := by
    rw [tryFromVal, instTryFromValSignerRole] at h
    dsimp only at h
    split at h
    · cases h
      rfl
    · cases h
      rfl
    · obtain ⟨policies, rfl, hv⟩ := variant_of_map_tryFromVal h
      exact hv
    · cases h

instance : CanonicalVal SignerKey where
  intoVal_of_tryFromVal {v key} h := by
    rw [tryFromVal, instTryFromValSignerKey] at h
    dsimp only at h
    split at h
    · obtain ⟨publicKey, rfl, hv⟩ := variant_of_map_tryFromVal h
      exact hv
    · obtain ⟨keyId, rfl, hv⟩ := variant_of_map_tryFromVal h
      exact hv
    · cases h

instance : CanonicalVal Ed25519Signer where
  intoVal_of_tryFromVal {v signer} h := by
    rw [tryFromVal, instTryFromValEd25519Signer] at h
    dsimp only at h
    split at h
    · next v =>
      obtain ⟨publicKey, hkey, rfl⟩ := Option.map_eq_some_iff.mp h
      rw [← CanonicalVal.intoVal_of_tryFromVal hkey]
      rfl
    · cases h

instance : CanonicalVal Secp256r1Signer where
  intoVal_of_tryFromVal {v signer} h := by
    rw [tryFromVal, instTryFromValSecp256r1Signer] at h
    dsimp only at h
    split at h
    · next i p =>
      obtain ⟨keyId, hid, hrest⟩ := Option.bind_eq_some_iff.mp h
      obtain ⟨publicKey, hkey, heq⟩ := Option.bind_eq_some_iff.mp hrest
      cases heq
      rw [← CanonicalVal.intoVal_of_tryFromVal hid, ← CanonicalVal.intoVal_of_tryFromVal hkey]
      rfl
    · cases h

instance : CanonicalVal Signer where
  intoVal_of_tryFromVal {v signer} h := by
    rw [tryFromVal, instTryFromValSigner] at h
    dsimp only at h
    split at h
    · next s r =>
      obtain ⟨scheme, hscheme, hrest⟩ := Option.bind_eq_some_iff.mp h
      obtain ⟨role, hrole, heq⟩ := Option.bind_eq_some_iff.mp hrest
      cases heq
      rw [← CanonicalVal.intoVal_of_tryFromVal hscheme, ← CanonicalVal.intoVal_of_tryFromVal hrole]
      rfl
    · next s r =>
      obtain ⟨scheme, hscheme, hrest⟩ := Option.bind_eq_some_iff.mp h
      obtain ⟨role, hrole, heq⟩ := Option.bind_eq_some_iff.mp hrest
      cases heq
      rw [← CanonicalVal.intoVal_of_tryFromVal hscheme, ← CanonicalVal.intoVal_of_tryFromVal hrole]
      rfl
    · cases h

end StellarSmartAccount
