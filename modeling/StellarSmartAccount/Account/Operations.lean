import StellarSmartAccount.Account.CheckAuth

/-! # Exact behaviour of the signer operations

On a represented state every operation is determined by three questions: is the
call permitted, is the key stored, and is the stored role an admin. A returned
error leaves the state as it was.
-/

namespace StellarSmartAccount.SmartAccount
open Foundations Soroban

/-- The guard of the signer operations lets the call through. -/
def permitted (env : Env) (s : State) : Bool :=
  !s.flag Initializable.initialized || env.authorizes env.currentContractAddress s

variable {s : State}

theorem requireAuthIfInitialized_exec (h : Initializable.FlagTyped s) (env : Env) :
    (requireAuthIfInitialized env).exec s =
      if permitted env s then .ok (⟨⟩, s) else .error .auth := by
  rw [requireAuthIfInitialized, Tx.exec_bind_ok (Initializable.isInitialized_exec h)]
  cases hflag : s.flag Initializable.initialized with
  | true =>
    rw [if_pos rfl, requireAuth_exec, permitted, hflag]
    rfl
  | false =>
    rw [permitted, hflag]
    rfl

/-- A guarded operation aborts or runs its body on the same state. -/
theorem exec_requireAuthIfInitialized_bind (h : Represented s) (env : Env)
    (body : Unit → Fallible Error Unit) :
    Call.exec (do body (← requireAuthIfInitialized env) : Fallible Error Unit) s =
      if permitted env s then (body ⟨⟩).exec s else .error .auth := by
  have hauth := requireAuthIfInitialized_exec h.flagTyped env
  by_cases hp : permitted env s = true
  · rw [if_pos hp] at hauth ⊢
    exact Call.exec_bind_ok (Call.exec_lift_ok hauth) _
  · rw [if_neg hp] at hauth ⊢
    exact Call.exec_bind_abort (Call.exec_lift_error hauth) _

theorem addSigner_exec (h : Represented s) (env : Env) (signer : Signer) :
    (addSigner env signer).exec s =
      if permitted env s then
        if (signers s signer.key).isSome then .ok (.error .storageEntryAlreadyExists, s)
        else .ok (.ok ⟨⟩, added s signer)
      else .error .auth := by
  have hstore := Storage.store_exec (default : Storage) signer.key signer s
  have hmem : intoVal signer.key ∈ s.storage (default : Storage).durability ↔ _ :=
    h.mem_iff signer.key
  refine (exec_requireAuthIfInitialized_bind h env _).trans ?_
  congr 1
  rw [Call.exec_bind, Call.exec_adapt, hstore]
  by_cases hs : (signers s signer.key).isSome = true
  · rw [if_pos hs, if_pos (hmem.mpr hs)]
    rfl
  · rw [if_neg hs, if_neg (mt hmem.mp hs)]
    rfl

theorem updateSigner_exec (h : Represented s) (env : Env) (signer : Signer) :
    (updateSigner env signer).exec s =
      if permitted env s then
        if (signers s signer.key).isSome then .ok (.ok ⟨⟩, updated s signer)
        else .ok (.error .storageEntryNotFound, s)
      else .error .auth := by
  have hupdate := Storage.update_exec (default : Storage) signer.key signer s
  have hmem : intoVal signer.key ∈ s.storage (default : Storage).durability ↔ _ :=
    h.mem_iff signer.key
  refine (exec_requireAuthIfInitialized_bind h env _).trans ?_
  congr 1
  rw [Call.exec_bind, Call.exec_adapt, hupdate]
  by_cases hs : (signers s signer.key).isSome = true
  · rw [if_pos hs, if_pos (hmem.mpr hs)]
    rfl
  · rw [if_neg hs, if_neg (mt hmem.mp hs)]
    rfl

theorem get_exec_signers (h : Represented s) (key : SignerKey) :
    ((default : Storage).get (ν := Signer) key).exec s = .ok (signers s key, s) := by
  have hv := h.lookup key
  cases hs : signers s key with
  | none =>
    rw [hs] at hv
    exact Storage.get_exec_none hv
  | some signer =>
    rw [hs] at hv
    refine (Storage.get_exec_some hv).trans ?_
    rw [LawfulVal.tryFromVal_intoVal]

theorem revokeSigner_exec (h : Represented s) (env : Env) (key : SignerKey) :
    (revokeSigner env key).exec s =
      if permitted env s then
        match signers s key with
        | none => .ok (.error .signerNotFound, s)
        | some signer =>
          if signer.role = .admin then .ok (.error .cannotRevokeAdminSigner, s)
          else .ok (.ok ⟨⟩, revoked s key signer)
      else .error .auth := by
  have hget := get_exec_signers h key
  have hdelete := Storage.delete_exec (default : Storage) key s
  have hmem : intoVal key ∈ s.storage (default : Storage).durability ↔ _ := h.mem_iff key
  refine (exec_requireAuthIfInitialized_bind h env _).trans ?_
  congr 1
  rw [Call.exec_bind_ok (Call.exec_lift_ok hget)]
  cases hs : signers s key with
  | none => rfl
  | some signer =>
    rw [hs, Option.isSome_some] at hmem
    rw [if_pos (hmem.mpr rfl)] at hdelete
    by_cases hadmin : signer.role = .admin
    · simp only [hadmin, if_true]
      rfl
    · simp only [hadmin, if_false]
      rw [Call.exec_bind, Call.exec_adapt, hdelete]
      rfl

theorem upgrade_exec_of_authorizes {env : Env}
    (h : env.authorizes env.currentContractAddress s = true) (hash : BytesN 32) :
    (upgrade env hash).exec s =
      if env.wasmExists hash then .ok (⟨⟩, Upgradeable.upgraded s hash)
      else .error .missingWasm := by
  refine Upgradeable.upgrade_exec ?_ env hash
  rw [requireAuthUpgrade, requireAuth_exec, if_pos h]

theorem upgrade_exec_of_not_authorizes {env : Env}
    (h : ¬ env.authorizes env.currentContractAddress s = true) (hash : BytesN 32) :
    (upgrade env hash).exec s = .error .auth := by
  refine Tx.exec_bind_error ?_ _
  rw [requireAuthUpgrade, requireAuth_exec, if_neg h]

end StellarSmartAccount.SmartAccount
