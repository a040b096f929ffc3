import StellarSmartAccount.Foundations.Table
import StellarSmartAccount.Account.Contract

/-! # The signer table inside the instance storage

The abstract signer table reads the untyped instance storage at encoded keys. The
representation invariant says what that storage may hold; each state that a
successful operation leaves keeps it and changes the table at one key only.
-/

namespace StellarSmartAccount.SmartAccount
open Foundations Soroban

/-- The signer table of a state. -/
def signers (s : State) : Table SignerKey Signer :=
  fun key => (s.instanceMap.lookup (intoVal key)).bind tryFromVal

/-- Under a signer key the storage holds a signer with that key; the only other
entries are the two flags. -/
structure Represented (s : State) : Prop where
  entry : ∀ k v, s.instanceMap.lookup k = some v →
    (∃ signer : Signer, k = intoVal signer.key ∧ v = intoVal signer) ∨
      ((k = intoVal Initializable.initialized ∨ k = intoVal Upgradeable.migrating) ∧
        ∃ b : Bool, v = intoVal b)

namespace Represented
variable {s : State}

theorem flag (h : Represented s) {key : Symbol} {v : Val}
    (hv : s.instanceMap.lookup (intoVal key) = some v) : ∃ b : Bool, v = intoVal b := by
  rcases h.entry _ v hv with ⟨signer, hk, -⟩ | ⟨-, hb⟩
  · exact absurd hk.symm (intoVal_signerKey_ne_symbol signer.key key)
  · exact hb

theorem flagTyped (h : Represented s) : Initializable.FlagTyped s := fun _ => h.flag

/-- Under a signer key the storage holds exactly the encoding of the table's entry. -/
theorem lookup (h : Represented s) (key : SignerKey) :
    s.instanceMap.lookup (intoVal key) = (signers s key).map intoVal := by
  cases hv : s.instanceMap.lookup (intoVal key) with
  | none => simp [signers, hv]
  | some v =>
    rcases h.entry _ v hv with ⟨signer, -, rfl⟩ | ⟨hk, -⟩
    · simp [signers, hv]
    · rcases hk with hk | hk <;> exact absurd hk (intoVal_signerKey_ne_symbol key _)

theorem mem_iff (h : Represented s) (key : SignerKey) :
    intoVal key ∈ s.instanceMap ↔ (signers s key).isSome := by
  rw [← Finmap.lookup_isSome, h.lookup, Option.isSome_map]

theorem key_eq (h : Represented s) {key : SignerKey} {signer : Signer}
    (hs : signers s key = some signer) : signer.key = key := by
  have hv := h.lookup key
  rw [hs, Option.map_some] at hv
  rcases h.entry _ _ hv with ⟨signer', hk, hv'⟩ | ⟨hk, -⟩
  · rw [intoVal_injective hv']
    exact (intoVal_injective hk).symm
  · rcases hk with hk | hk <;> exact absurd hk (intoVal_signerKey_ne_symbol key _)

end Represented

def added (s : State) (signer : Signer) : State :=
  ((default : Storage).written s .store signer.key signer).publish
    ⟨["signer", "added"], intoVal (⟨signer.key, signer⟩ : SignerAddedEvent)⟩

def updated (s : State) (signer : Signer) : State :=
  ((default : Storage).written s .update signer.key signer).publish
    ⟨["signer", "updated"], intoVal (⟨signer.key, signer⟩ : SignerUpdatedEvent)⟩

def revoked (s : State) (key : SignerKey) (signer : Signer) : State :=
  ((default : Storage).removed s key).publish
    ⟨["signer", "revoked"], intoVal (⟨key, signer⟩ : SignerRevokedEvent)⟩

variable (s : State) (signer : Signer) (key : SignerKey)

@[simp] theorem instanceMap_added :
    (added s signer).instanceMap = s.instanceMap.insert (intoVal signer.key) (intoVal signer) := rfl

@[simp] theorem instanceMap_updated :
    (updated s signer).instanceMap =
      s.instanceMap.insert (intoVal signer.key) (intoVal signer) := rfl

@[simp] theorem instanceMap_revoked :
    (revoked s key signer).instanceMap = s.instanceMap.erase (intoVal key) := rfl

@[simp] theorem instanceMap_upgraded (hash : BytesN 32) :
    (Upgradeable.upgraded s hash).instanceMap =
      s.instanceMap.insert (intoVal Upgradeable.migrating) (intoVal true) := rfl

@[simp] theorem instanceMap_marked :
    (Initializable.marked s).instanceMap =
      s.instanceMap.insert (intoVal Initializable.initialized) (intoVal true) := rfl

variable {s signer key}

theorem signers_of_insert_signer {s' : State}
    (h : s'.instanceMap = s.instanceMap.insert (intoVal signer.key) (intoVal signer)) :
    signers s' = (signers s).set signer.key (some signer) := by
  funext k
  rw [Table.set_apply, signers, h]
  by_cases hk : k = signer.key
  · rw [hk, Finmap.lookup_insert, if_pos rfl]
    exact LawfulVal.tryFromVal_intoVal signer
  · rw [Finmap.lookup_insert_of_ne _ (fun he => hk (intoVal_injective he)), if_neg hk]
    rfl

theorem signers_of_insert_flag {s' : State} {name : Symbol} {v : Val}
    (h : s'.instanceMap = s.instanceMap.insert (intoVal name) v) : signers s' = signers s := by
  funext k
  rw [signers, h, Finmap.lookup_insert_of_ne _ (intoVal_signerKey_ne_symbol k name)]
  rfl

@[simp] theorem signers_added : signers (added s signer) =
    (signers s).set signer.key (some signer) := signers_of_insert_signer rfl

@[simp] theorem signers_updated : signers (updated s signer) =
    (signers s).set signer.key (some signer) := signers_of_insert_signer rfl

@[simp] theorem signers_revoked : signers (revoked s key signer) = (signers s).set key none := by
  funext k
  rw [Table.set_apply, signers, instanceMap_revoked]
  by_cases hk : k = key
  · rw [hk, Finmap.lookup_erase, if_pos rfl]
    rfl
  · rw [Finmap.lookup_erase_ne (fun he => hk (intoVal_injective he)), if_neg hk]
    rfl

@[simp] theorem signers_upgraded (hash : BytesN 32) :
    signers (Upgradeable.upgraded s hash) = signers s := signers_of_insert_flag rfl

@[simp] theorem signers_marked : signers (Initializable.marked s) = signers s :=
  signers_of_insert_flag rfl

theorem flag_of_insert_signer {s' : State} {v : Val} {name : Symbol}
    (h : s'.instanceMap = s.instanceMap.insert (intoVal key) v) : s'.flag name = s.flag name := by
  rw [State.flag, State.flag, h,
    Finmap.lookup_insert_of_ne _ (intoVal_signerKey_ne_symbol key name).symm]

@[simp] theorem flag_added (name : Symbol) : (added s signer).flag name = s.flag name :=
  flag_of_insert_signer rfl

@[simp] theorem flag_updated (name : Symbol) : (updated s signer).flag name = s.flag name :=
  flag_of_insert_signer rfl

@[simp] theorem flag_revoked (name : Symbol) : (revoked s key signer).flag name = s.flag name := by
  rw [State.flag, State.flag, instanceMap_revoked,
    Finmap.lookup_erase_ne (intoVal_signerKey_ne_symbol key name).symm]

@[simp] theorem flag_initialized_upgraded (hash : BytesN 32) :
    (Upgradeable.upgraded s hash).flag Initializable.initialized =
      s.flag Initializable.initialized := by
  have hne : intoVal Initializable.initialized ≠ intoVal Upgradeable.migrating := by decide
  rw [State.flag, State.flag, instanceMap_upgraded, Finmap.lookup_insert_of_ne _ hne]

@[simp] theorem flag_initialized_marked :
    (Initializable.marked s).flag Initializable.initialized = true := by
  rw [State.flag, instanceMap_marked, Finmap.lookup_insert]
  exact decide_eq_true rfl

namespace Represented

theorem of_insert (h : Represented s) {s' : State} {k₀ v₀ : Val}
    (hs' : s'.instanceMap = s.instanceMap.insert k₀ v₀)
    (h₀ : (∃ signer : Signer, k₀ = intoVal signer.key ∧ v₀ = intoVal signer) ∨
      ((k₀ = intoVal Initializable.initialized ∨ k₀ = intoVal Upgradeable.migrating) ∧
        ∃ b : Bool, v₀ = intoVal b)) : Represented s' := by
  refine ⟨fun k v hv => ?_⟩
  rw [hs'] at hv
  by_cases hk : k = k₀
  · subst hk
    rw [Finmap.lookup_insert, Option.some.injEq] at hv
    exact hv ▸ h₀
  · rw [Finmap.lookup_insert_of_ne _ hk] at hv
    exact h.entry k v hv

theorem of_added (h : Represented s) (signer : Signer) : Represented (added s signer) :=
  h.of_insert rfl (.inl ⟨signer, rfl, rfl⟩)

theorem of_updated (h : Represented s) (signer : Signer) : Represented (updated s signer) :=
  h.of_insert rfl (.inl ⟨signer, rfl, rfl⟩)

theorem of_revoked (h : Represented s) (key : SignerKey) (signer : Signer) :
    Represented (revoked s key signer) := by
  refine ⟨fun k v hv => ?_⟩
  rw [instanceMap_revoked] at hv
  by_cases hk : k = intoVal key
  · rw [hk, Finmap.lookup_erase] at hv
    cases hv
  · rw [Finmap.lookup_erase_ne hk] at hv
    exact h.entry k v hv

theorem of_upgraded (h : Represented s) (hash : BytesN 32) :
    Represented (Upgradeable.upgraded s hash) :=
  h.of_insert rfl (.inr ⟨.inr rfl, true, rfl⟩)

theorem of_marked (h : Represented s) : Represented (Initializable.marked s) :=
  h.of_insert rfl (.inr ⟨.inl rfl, true, rfl⟩)

end Represented
end StellarSmartAccount.SmartAccount
