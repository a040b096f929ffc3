import StellarSmartAccount.Foundations.Registry
import StellarSmartAccount.Account.Construction

/-! # Signer management as a registry

The three signer operations are the requests of an abstract registry that keeps
admins. An authorized operation succeeds exactly when the registry serves its
request; it then changes one storage entry, and otherwise it returns an error from
an unchanged state.
-/

namespace StellarSmartAccount.SmartAccount
open Foundations Soroban

/-- The registry of signers, which never removes an admin. -/
def signerRegistry : Registry SignerKey Signer where
  keeps signer := signer.role = .admin

/-- The request of a signer operation; an upgrade makes none. -/
def Operation.request : Operation → Option (Request SignerKey Signer)
  | .addSigner signer => some (.insert signer.key signer)
  | .updateSigner signer => some (.replace signer.key signer)
  | .revokeSigner signerKey => some (.remove signerKey)
  | .upgrade _ => none

/-- The storage key that an operation reads and writes. -/
def Operation.storageKey : Operation → Val
  | .addSigner signer => intoVal signer.key
  | .updateSigner signer => intoVal signer.key
  | .revokeSigner signerKey => intoVal signerKey
  | .upgrade _ => intoVal Upgradeable.migrating

def Invocation.request (inv : Invocation) : Option (Request SignerKey Signer) :=
  match inv.call with
  | .operation op => op.request
  | .checkAuth _ _ _ => none

def succeeded : Response → Bool
  | .ok (.ok _) => true
  | _ => false

/-- If the invocation is a signer operation, it is authorized. -/
def SignerCallAuthorized (account : Account) (inv : Invocation) (s : State) : Prop :=
  ∀ op, inv.call = .operation op → op.request.isSome = true → account.authorizes inv op s = true

section Operation
variable {op : Operation} {request : Request SignerKey Signer} {s : State}

theorem ne_upgrade_of_request (hop : op.request = some request) (hash : BytesN 32) :
    op ≠ .upgrade hash := by
  rintro rfl
  cases hop

theorem enabled_iff_serves (hop : op.request = some request) (wasmExists : BytesN 32 → Bool) :
    op.Enabled wasmExists s ↔ signerRegistry.serves (signers s) request = true := by
  cases op with
  | addSigner signer =>
    cases hop
    exact Option.isNone_iff_eq_none.symm
  | updateSigner signer =>
    cases hop
    exact Iff.rfl
  | revokeSigner key =>
    cases hop
    simp [Operation.Enabled, Registry.serves, signerRegistry, Option.any_eq_true]
  | upgrade hash => cases hop

theorem signers_next_request (hop : op.request = some request) :
    signers (op.next s) = (signers s).set request.key request.value := by
  rw [signers_next]
  cases op <;> cases hop <;> rfl

theorem lookup_next_of_ne_storageKey {k : Val} (hk : k ≠ op.storageKey) :
    (op.next s).instanceMap.lookup k = s.instanceMap.lookup k := by
  cases op with
  | addSigner signer => exact Finmap.lookup_insert_of_ne _ hk
  | updateSigner signer => exact Finmap.lookup_insert_of_ne _ hk
  | revokeSigner key =>
    rw [Operation.next]
    split
    · exact Finmap.lookup_erase_ne hk
    · rfl
  | upgrade hash => exact Finmap.lookup_insert_of_ne _ hk

theorem storageKey_of_request (hop : op.request = some request) :
    op.storageKey = intoVal request.key := by
  cases op <;> cases hop <;> rfl

theorem lookup_next_of_ne (hop : op.request = some request) {k : Val}
    (hk : k ≠ intoVal request.key) :
    (op.next s).instanceMap.lookup k = s.instanceMap.lookup k :=
  lookup_next_of_ne_storageKey (by rwa [storageKey_of_request hop])

end Operation

section Step
variable {account : Account} {inv : Invocation} {op : Operation}
  {request : Request SignerKey Signer} {s : State}

theorem exists_operation_of_request (h : inv.request = some request) :
    ∃ op, inv.call = .operation op ∧ op.request = some request := by
  unfold Invocation.request at h
  match hcall : inv.call with
  | .operation op =>
    rw [hcall] at h
    exact ⟨op, rfl, h⟩
  | .checkAuth payload proofs contexts =>
    rw [hcall] at h
    cases h

/-- An authorized signer operation answers as the registry does, before any rollback. -/
theorem run_exec_request (h : Live s) (hauth : account.authorizes inv op s = true)
    (hop : op.request = some request) :
    ∃ result t, (op.run (account.env inv op)).exec s = .ok (result, t) ∧
      (result = .ok ⟨⟩ ↔ signerRegistry.serves (signers s) request = true) ∧
      (result = .ok ⟨⟩ → t = op.next s) ∧ ∀ e, result = .error e → t = s := by
  by_cases hserves : signerRegistry.serves (signers s) request = true
  · have henabled := (enabled_iff_serves hop inv.wasmExists).mpr hserves
    exact ⟨_, _, run_exec_of_enabled h hauth henabled, by simp [hserves], fun _ => rfl, nofun⟩
  · have henabled := mt (enabled_iff_serves hop inv.wasmExists).mp hserves
    obtain ⟨e, he⟩ := run_exec_of_refused h hauth (ne_upgrade_of_request hop) henabled
    exact ⟨_, _, he, by simp [hserves], nofun, fun _ _ => rfl⟩

theorem registry_step (h : Live s) (hauth : SignerCallAuthorized account inv s)
    (hrequest : inv.request = some request) :
    signerRegistry.machine.step request (signers s) =
      (succeeded (account.step inv s).1, signers (account.step inv s).2) := by
  obtain ⟨op, hcall, hop⟩ := exists_operation_of_request hrequest
  have hauthorized := hauth op hcall (by rw [hop]; rfl)
  by_cases hserves : signerRegistry.serves (signers s) request = true
  · have henabled := (enabled_iff_serves hop inv.wasmExists).mpr hserves
    rw [step_of_enabled h hcall hauthorized henabled, Registry.step_of_serves hserves,
      signers_next_request hop]
    rfl
  · have henabled := mt (enabled_iff_serves hop inv.wasmExists).mp hserves
    obtain ⟨e, he⟩ := run_exec_of_refused h hauthorized (ne_upgrade_of_request hop) henabled
    have hstep : account.step inv s = (.ok (.error e), s) := by
      rw [step_operation hcall]
      exact Call.commit_of_ok he
    rw [hstep, Registry.step_of_not_serves hserves]
    rfl

theorem signers_step_of_no_request (h : Live s) (hrequest : inv.request = none) :
    signers (account.step inv s).2 = signers s := by
  apply step_preserves (P := fun t => signers t = signers s) h rfl
  intro op hcall _ _
  unfold Invocation.request at hrequest
  rw [hcall] at hrequest
  cases op with
  | upgrade hash => exact signers_upgraded hash
  | _ => cases hrequest

end Step

section Run
variable {account : Account} {d : Deployment} {s : State}

/-- In every reachable state an authorized signer operation returns; it succeeds exactly
when the registry serves its request, then performs it on its own storage entry alone,
and otherwise leaves the state as it was without any rollback. Over every sequence of
such calls the successes and the final table are those of the registry. -/
theorem signerManagement_refines_registry (h : account.deploy d = .ok (⟨⟩, s))
    (is : List Invocation) :
    (∀ inv op request, op.request = some request →
      account.authorizes inv op (account.machine.final s is) = true →
      ∃ result t,
        (op.run (account.env inv op)).exec (account.machine.final s is) = .ok (result, t) ∧
        (result = .ok ⟨⟩ ↔
          signerRegistry.serves (signers (account.machine.final s is)) request = true) ∧
        (result = .ok ⟨⟩ → signers t =
          (signers (account.machine.final s is)).set request.key request.value) ∧
        (∀ k, k ≠ intoVal request.key →
          t.instanceMap.lookup k = (account.machine.final s is).instanceMap.lookup k) ∧
        (∀ key, key ≠ request.key →
          signers t key = signers (account.machine.final s is) key) ∧
        (∀ name : Symbol, t.instanceMap.lookup (intoVal name) =
          (account.machine.final s is).instanceMap.lookup (intoVal name)) ∧
        ∀ e, result = .error e → t = account.machine.final s is) ∧
    ∀ js, (∀ pre inv, pre ++ [inv] <+: js →
        SignerCallAuthorized account inv (account.machine.final s (is ++ pre))) →
      signerRegistry.machine.final (signers (account.machine.final s is))
          (js.filterMap Invocation.request) = signers (account.machine.final s (is ++ js)) ∧
        signerRegistry.machine.history (signers (account.machine.final s is))
            (js.filterMap Invocation.request) =
          (account.machine.history (account.machine.final s is) js).filterMap
            fun answered => answered.1.request.map (·, succeeded answered.2) := by
  have hlive := (live_of_deploy h).final account is
  simp only [Machine.final_append]
  generalize account.machine.final s is = u at hlive
  constructor
  · intro inv op request hop hauth
    obtain ⟨result, t, hexec, hserves, hok, herror⟩ := run_exec_request hlive hauth hop
    have hframe (k : Val) (hk : k ≠ intoVal request.key) :
        t.instanceMap.lookup k = u.instanceMap.lookup k := by
      cases result with
      | ok _ => rw [hok rfl, lookup_next_of_ne hop hk]
      | error e => rw [herror e rfl]
    refine ⟨result, t, hexec, hserves, ?_, hframe, ?_, ?_, herror⟩
    · intro hresult
      rw [hok hresult, signers_next_request hop]
    · intro key hkey
      unfold signers
      rw [hframe _ fun heq => hkey (intoVal_injective heq)]
    · intro name
      exact hframe _ (intoVal_signerKey_ne_symbol request.key name).symm
  · intro js hauth
    exact account.machine.refines signerRegistry.machine (C := SignerCallAuthorized account)
      (fun inv _ ht => ht.step account inv) (fun _ _ _ ht hok => registry_step ht hok)
      (fun _ _ ht _ => signers_step_of_no_request ht) hlive hauth

/-- The addition of a passkey is served by the registry and succeeds on the account. -/
theorem sample_signerManagement_refines_registry :
    signerRegistry.machine.history (signers Sample.state)
        [.insert (.secp256r1 [1]) (.secp256r1 ⟨[1], Sample.passkey⟩ .standard)] =
      (Sample.account.machine.history Sample.state [Sample.addPasskey .standard]).filterMap
        fun answered => answered.1.request.map (·, succeeded answered.2) := by
  apply ((signerManagement_refines_registry Sample.deploy_deployment []).2
    [Sample.addPasskey .standard] _).2
  intro pre inv hpre
  rcases pre with _ | ⟨first, pre⟩
  · obtain rfl : inv = Sample.addPasskey .standard := by simpa using hpre
    rintro op ⟨⟩ -
    exact Sample.authorizes_invoke _ Sample.signers_state
  · simp at hpre

end Run
end StellarSmartAccount.SmartAccount
