import StellarSmartAccount.Account.Construction

/-! # One entry for each public key

An Ed25519 entry is keyed by its public key, a Secp256r1 entry by a key id that is
chosen independently of it. The entries of a run have distinct public keys, and
updates keep them, exactly when the constructor's list has distinct public keys,
no addition reuses a stored one and no update replaces one.
-/

namespace StellarSmartAccount.SmartAccount
open Foundations Soroban

/-- A public key of one of the two schemes. -/
inductive PublicKey where
  | ed25519 (publicKey : BytesN 32)
  | secp256r1 (publicKey : BytesN 65)
  deriving DecidableEq

end StellarSmartAccount.SmartAccount

namespace StellarSmartAccount
open SmartAccount

/-- The scheme and public key of a signer. -/
def Signer.publicKey : Signer → PublicKey
  | .ed25519 signer _ => .ed25519 signer.publicKey
  | .secp256r1 signer _ => .secp256r1 signer.publicKey

section PublicKey
variable {signer signer' : Signer}

theorem Signer.sameScheme_congr (h : signer.publicKey = signer'.publicKey) (proof : SignerProof) :
    signer.sameScheme proof = signer'.sameScheme proof := by
  cases signer <;> cases signer' <;> simp [Signer.publicKey] at h <;> cases proof <;> rfl

theorem Signer.hostVerifies_congr (h : signer.publicKey = signer'.publicKey)
    (crypto : Soroban.Crypto) (payload : Soroban.BytesN 32) (proof : SignerProof) :
    signer.hostVerifies crypto payload proof = signer'.hostVerifies crypto payload proof := by
  cases signer <;> cases signer' <;> simp [Signer.publicKey] at h <;> cases proof <;>
    simp [Signer.hostVerifies, h]

theorem Signer.refusal_congr (h : signer.publicKey = signer'.publicKey) (crypto : Soroban.Crypto)
    (payload : Soroban.BytesN 32) (proof : SignerProof) :
    signer.refusal crypto payload proof = signer'.refusal crypto payload proof := by
  rw [Signer.refusal, Signer.refusal, sameScheme_congr h, hostVerifies_congr h]

end PublicKey

namespace SmartAccount
open Foundations Soroban

/-- No two entries share a public key, so each public key has one role. -/
structure OneIdentity (s : State) : Prop where
  unique : ∀ key key' signer signer', signers s key = some signer →
    signers s key' = some signer' → signer.publicKey = signer'.publicKey → key = key'
  oneRole : ∀ key key' signer signer', signers s key = some signer →
    signers s key' = some signer' → signer.publicKey = signer'.publicKey →
      signer.role = signer'.role

/-- A successful update keeps the public key of its entry and sets the role of that
public key; a successful revocation removes its public key from the account. -/
structure KeepsIdentity (account : Account) (inv : Invocation) (s : State) : Prop where
  update : ∀ signer old, inv.call = .operation (.updateSigner signer) →
    (account.step inv s).1 = .ok (.ok ⟨⟩) → signers s signer.key = some old →
      signer.publicKey = old.publicKey
  weakens : ∀ signer old, inv.call = .operation (.updateSigner signer) →
    (account.step inv s).1 = .ok (.ok ⟨⟩) → signers s signer.key = some old →
      ∀ key x, signers (account.step inv s).2 key = some x → x.publicKey = old.publicKey →
        x.role = signer.role
  removes : ∀ key old, inv.call = .operation (.revokeSigner key) →
    (account.step inv s).1 = .ok (.ok ⟨⟩) → signers s key = some old →
      ∀ key' x, signers (account.step inv s).2 key' = some x → x.publicKey ≠ old.publicKey

/-- An authorized addition of a public key that is already stored, or an authorized
update of an entry to another public key. -/
inductive ReusesPublicKey (account : Account) (inv : Invocation) (s : State) : Prop where
  | add {signer : Signer} (hcall : inv.call = .operation (.addSigner signer))
      (hauth : account.authorizes inv (.addSigner signer) s = true)
      (habsent : signers s signer.key = none) {key : SignerKey} {old : Signer}
      (hold : signers s key = some old) (hsame : signer.publicKey = old.publicKey)
  | update {signer : Signer} (hcall : inv.call = .operation (.updateSigner signer))
      (hauth : account.authorizes inv (.updateSigner signer) s = true) {old : Signer}
      (hold : signers s signer.key = some old) (hother : signer.publicKey ≠ old.publicKey)

section Step
variable {account : Account} {inv : Invocation} {s s' : State}

theorem OneIdentity.of_unique
    (h : ∀ key key' signer signer', signers s key = some signer → signers s key' = some signer' →
      signer.publicKey = signer'.publicKey → key = key') : OneIdentity s := by
  refine ⟨h, ?_⟩
  intro key key' signer signer' hsigner hsigner' hsame
  obtain rfl := h key key' signer signer' hsigner hsigner' hsame
  rw [hsigner, Option.some.injEq] at hsigner'
  rw [hsigner']

theorem OneIdentity.of_kept (h : OneIdentity s)
    (hkept : ∀ key signer, signers s' key = some signer →
      ∃ old, signers s key = some old ∧ old.publicKey = signer.publicKey) : OneIdentity s' := by
  apply OneIdentity.of_unique
  intro key key' signer signer' hsigner hsigner' hsame
  obtain ⟨old, hold, hpublic⟩ := hkept key signer hsigner
  obtain ⟨old', hold', hpublic'⟩ := hkept key' signer' hsigner'
  apply h.unique key key' old old' hold hold'
  rw [hpublic, hpublic', hsame]

theorem OneIdentity.of_added (h : OneIdentity s) {signer : Signer}
    (hnew : ∀ key old, signers s key = some old → signer.publicKey ≠ old.publicKey) :
    OneIdentity (added s signer) := by
  apply OneIdentity.of_unique
  intro key key' x x' hx hx' hsame
  rw [signers_added] at hx hx'
  rcases Table.set_eq_some_iff.mp hx with ⟨rfl, ⟨⟩⟩ | ⟨-, hold⟩
  · rcases Table.set_eq_some_iff.mp hx' with ⟨rfl, -⟩ | ⟨-, hold'⟩
    · rfl
    · exact absurd hsame (hnew key' x' hold')
  · rcases Table.set_eq_some_iff.mp hx' with ⟨rfl, ⟨⟩⟩ | ⟨-, hold'⟩
    · exact absurd hsame.symm (hnew key x hold)
    · exact h.unique key key' x x' hold hold' hsame

theorem OneIdentity.next (h : OneIdentity s) {op : Operation}
    (hadd : ∀ signer, op = .addSigner signer →
      ∀ key old, signers s key = some old → signer.publicKey ≠ old.publicKey)
    (hupdate : ∀ signer, op = .updateSigner signer →
      ∃ old, signers s signer.key = some old ∧ signer.publicKey = old.publicKey) :
    OneIdentity (op.next s) := by
  cases op with
  | addSigner signer => exact h.of_added (hadd signer rfl)
  | updateSigner signer =>
    obtain ⟨old, hold, hpublic⟩ := hupdate signer rfl
    apply h.of_kept
    intro key x hx
    rcases signers_next_eq_some hx with ⟨hop, rfl⟩ | ⟨hx, -⟩
    · rcases hop with hop | hop <;> cases hop
      exact ⟨old, hold, hpublic.symm⟩
    · exact ⟨x, hx, rfl⟩
  | revokeSigner key' =>
    apply h.of_kept
    intro key x hx
    rcases signers_next_eq_some hx with ⟨hop, -⟩ | ⟨hx, -⟩
    · rcases hop with hop | hop <;> cases hop
    · exact ⟨x, hx, rfl⟩
  | upgrade hash =>
    apply h.of_kept
    intro key x hx
    rw [signers_next] at hx
    exact ⟨x, hx, rfl⟩

/-- On distinct public keys, a step that keeps the public key of an updated entry
keeps the identities. -/
theorem keepsIdentity_of_update (h : Live s) (hone : OneIdentity s)
    (hone' : OneIdentity (account.step inv s).2)
    (hupdate : ∀ signer old, inv.call = .operation (.updateSigner signer) →
      (account.step inv s).1 = .ok (.ok ⟨⟩) → signers s signer.key = some old →
        signer.publicKey = old.publicKey) : KeepsIdentity account inv s := by
  refine ⟨hupdate, ?_, ?_⟩
  · intro signer old hcall hok hold key x hx hpublic
    have hpublic' := hupdate signer old hcall hok hold
    obtain ⟨-, -, hnext⟩ := performed_of_ok h hcall hok
    have hnew : signers (account.step inv s).2 signer.key = some signer := by
      rw [hnext, signers_next]
      exact Table.set_self _ _ _
    exact hone'.oneRole key signer.key x signer hx hnew (hpublic.trans hpublic'.symm)
  · intro key old hcall hok hold key' x hx hpublic
    obtain ⟨-, -, hnext⟩ := performed_of_ok h hcall hok
    rw [hnext, signers_next] at hx
    rcases Table.set_eq_some_iff.mp hx with ⟨-, hnone⟩ | ⟨hne, hx⟩
    · cases hnone
    · exact hne (hone.unique key' key x old hx hold hpublic)

/-- A step keeps public keys distinct and in place exactly when it reuses none. -/
theorem oneIdentity_step_iff (h : Live s) (hone : OneIdentity s) :
    (OneIdentity (account.step inv s).2 ∧ KeepsIdentity account inv s) ↔
      ¬ ReusesPublicKey account inv s := by
  constructor
  · rintro ⟨hone', hkeeps⟩ hreuses
    cases hreuses with
    | @add signer hcall hauth habsent key old hold hsame =>
      rw [step_of_enabled h hcall hauth habsent] at hone'
      have hne : key ≠ signer.key := by
        rintro rfl
        rw [hold] at habsent
        cases habsent
      have hnew : signers (Operation.next s (.addSigner signer)) signer.key = some signer := by
        rw [signers_next]
        exact Table.set_self _ _ _
      have hkept : signers (Operation.next s (.addSigner signer)) key = some old := by
        rw [signers_next]
        exact (Table.set_of_ne _ hne _).trans hold
      exact hne (hone'.unique key signer.key old signer hkept hnew hsame.symm)
    | @update signer hcall hauth old hold hother =>
      have hstored : (signers s signer.key).isSome := by rw [hold]; rfl
      have hstep := step_of_enabled h hcall hauth hstored
      exact hother (hkeeps.update signer old hcall (by rw [hstep]) hold)
  · intro hreuses
    have hupdate (signer old : Signer) (hcall : inv.call = .operation (.updateSigner signer))
        (hauth : account.authorizes inv (.updateSigner signer) s = true)
        (hold : signers s signer.key = some old) : signer.publicKey = old.publicKey := by
      by_contra hother
      exact hreuses (.update hcall hauth hold hother)
    have hone' : OneIdentity (account.step inv s).2 := by
      apply step_preserves h hone
      intro op hcall hauth henabled
      apply hone.next
      · rintro signer rfl key old hold hsame
        exact hreuses (.add hcall hauth henabled hold hsame)
      · rintro signer rfl
        obtain ⟨old, hold⟩ := Option.isSome_iff_exists.mp henabled
        exact ⟨old, hold, hupdate signer old hcall hauth hold⟩
    refine ⟨hone', keepsIdentity_of_update h hone hone' ?_⟩
    intro signer old hcall hok hold
    exact hupdate signer old hcall (performed_of_ok h hcall hok).1 hold

end Step

section Run
variable {account : Account} {d : Deployment} {s : State}

theorem oneIdentity_of_deploy_iff (h : account.deploy d = .ok (⟨⟩, s)) :
    OneIdentity s ↔ (d.signers.map Signer.publicKey).Nodup := by
  have hkeys := (valid_of_deploy h).2.1
  have hstored {signer : Signer} (hmem : signer ∈ d.signers) :
      signers s signer.key = some signer := (signers_of_deploy_eq_some_iff h).mpr ⟨hmem, rfl⟩
  constructor
  · intro hone
    apply List.Nodup.map_on _ (List.Nodup.of_map _ hkeys)
    intro signer hmem signer' hmem' hsame
    have hkey := hone.unique _ _ signer signer' (hstored hmem) (hstored hmem') hsame
    exact List.inj_on_of_nodup_map hkeys hmem hmem' hkey
  · intro hnodup
    apply OneIdentity.of_unique
    intro key key' signer signer' hsigner hsigner' hsame
    obtain ⟨hmem, rfl⟩ := (signers_of_deploy_eq_some_iff h).mp hsigner
    obtain ⟨hmem', rfl⟩ := (signers_of_deploy_eq_some_iff h).mp hsigner'
    rw [List.inj_on_of_nodup_map hnodup hmem hmem' hsame]

/-- Along a run the entries have distinct public keys and every step keeps the
identities exactly when the constructor's list has distinct public keys and no
step reuses one. -/
theorem oneIdentity_throughout_iff (h : account.deploy d = .ok (⟨⟩, s)) (is : List Invocation) :
    ((∀ pre, pre <+: is → OneIdentity (account.machine.final s pre)) ∧
      ∀ pre inv, pre ++ [inv] <+: is →
        KeepsIdentity account inv (account.machine.final s pre)) ↔
      (d.signers.map Signer.publicKey).Nodup ∧ ∀ pre inv, pre ++ [inv] <+: is →
        ¬ ReusesPublicKey account inv (account.machine.final s pre) := by
  rw [account.machine.forall_prefix_iff, oneIdentity_of_deploy_iff h, and_assoc]
  apply and_congr_right
  intro hnodup
  have hstart : Live s ∧ OneIdentity s :=
    ⟨live_of_deploy h, (oneIdentity_of_deploy_iff h).mpr hnodup⟩
  have hsteps := account.machine.steps_iff
    (A := fun inv t => OneIdentity (account.step inv t).2 ∧ KeepsIdentity account inv t)
    (B := fun inv t => ¬ ReusesPublicKey account inv t)
    (I := fun t => Live t ∧ OneIdentity t)
    (fun inv t ht => oneIdentity_step_iff ht.1 ht.2)
    (fun inv t ht hstep => ⟨ht.1.step account inv, hstep.1⟩) hstart is
  rw [← hsteps]
  constructor
  · rintro ⟨hone, hkeeps⟩ pre inv hpre
    exact ⟨hone pre inv hpre, hkeeps pre inv hpre⟩
  · intro hboth
    exact ⟨fun pre inv hpre => (hboth pre inv hpre).1, fun pre inv hpre => (hboth pre inv hpre).2⟩

/-- The sample admin adds a passkey beside its Ed25519 key. -/
theorem sample_oneIdentity_throughout_iff :
    (∀ pre, pre <+: [Sample.addPasskey .standard] →
        OneIdentity (Sample.account.machine.final Sample.state pre)) ∧
      ∀ pre inv, pre ++ [inv] <+: [Sample.addPasskey .standard] →
        KeepsIdentity Sample.account inv (Sample.account.machine.final Sample.state pre) := by
  apply (oneIdentity_throughout_iff Sample.deploy_deployment _).mpr
  refine ⟨List.nodup_singleton _, (Sample.account.machine.forall_steps_cons_iff
    (fun inv t => ¬ ReusesPublicKey Sample.account inv t) _ _ _).mpr
      ⟨?_, fun pre inv hpre => ?_⟩⟩
  · intro hreuses
    cases hreuses with
    | add hcall hauth habsent hold hsame =>
      cases hcall
      obtain ⟨hmem, -⟩ := (signers_of_deploy_eq_some_iff Sample.deploy_deployment).mp hold
      rw [List.mem_singleton.mp hmem] at hsame
      cases hsame
    | update hcall hauth hold hother => cases hcall
  · simp at hpre

/-- The sample admin adds the same passkey under two key ids, with two roles. -/
theorem addSigner_stores_passkey_twice :
    Sample.account.deploy Sample.deployment = .ok (⟨⟩, Sample.state) ∧
      ¬ ((∀ pre, pre <+: [Sample.addPasskey .standard,
            Sample.invoke (.addSigner (.secp256r1 ⟨[2], Sample.passkey⟩ .admin))] →
          OneIdentity (Sample.account.machine.final Sample.state pre)) ∧
        ∀ pre inv, pre ++ [inv] <+: [Sample.addPasskey .standard,
            Sample.invoke (.addSigner (.secp256r1 ⟨[2], Sample.passkey⟩ .admin))] →
          KeepsIdentity Sample.account inv (Sample.account.machine.final Sample.state pre)) := by
  refine ⟨Sample.deploy_deployment, ?_⟩
  rintro ⟨hone, -⟩
  have hfirst : signers (Sample.account.machine.final Sample.state [Sample.addPasskey .standard,
      Sample.invoke (.addSigner (.secp256r1 ⟨[2], Sample.passkey⟩ .admin))]) (.secp256r1 [1]) =
      some (.secp256r1 ⟨[1], Sample.passkey⟩ .standard) := by decide
  have hsecond : signers (Sample.account.machine.final Sample.state [Sample.addPasskey .standard,
      Sample.invoke (.addSigner (.secp256r1 ⟨[2], Sample.passkey⟩ .admin))]) (.secp256r1 [2]) =
      some (.secp256r1 ⟨[2], Sample.passkey⟩ .admin) := by decide
  have hroles := (hone _ (List.prefix_refl _)).oneRole _ _ _ _ hfirst hsecond rfl
  cases hroles

end Run
end SmartAccount
end StellarSmartAccount
