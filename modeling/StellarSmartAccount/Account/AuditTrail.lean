import StellarSmartAccount.Account.Construction

/-! # The event log as an audit trail

Every write of the signer table publishes a storage event and then the signer
event that describes it. The decoded signer events replay strictly to the stored
table, from an empty one.
-/

namespace StellarSmartAccount.SmartAccount
open Foundations Soroban

abbrev SignerChange := Change SignerKey Signer

/-- The signer event of a change. -/
def signerEvent : SignerChange → Event
  | .insert key signer => ⟨["signer", "added"], intoVal (⟨key, signer⟩ : SignerAddedEvent)⟩
  | .replace key signer => ⟨["signer", "updated"], intoVal (⟨key, signer⟩ : SignerUpdatedEvent)⟩
  | .remove key signer => ⟨["signer", "revoked"], intoVal (⟨key, signer⟩ : SignerRevokedEvent)⟩

/-- The storage operation of a change. -/
def storageOperation : SignerChange → StorageOperation
  | .insert _ _ => .store
  | .replace _ _ => .update
  | .remove _ _ => .delete

/-- The events of a change, in the order of their publication. -/
def changeEvents (c : SignerChange) : List Event :=
  [(default : Storage).changeEvent (storageOperation c), signerEvent c]

/-- Read a signer event back; other events are no changes. -/
def signerChange (e : Event) : Option SignerChange :=
  match e.topics with
  | ["signer", "added"] =>
    (tryFromVal e.data).map fun (x : SignerAddedEvent) => .insert x.signerKey x.signer
  | ["signer", "updated"] =>
    (tryFromVal e.data).map fun (x : SignerUpdatedEvent) => .replace x.signerKey x.newSigner
  | ["signer", "revoked"] =>
    (tryFromVal e.data).map fun (x : SignerRevokedEvent) => .remove x.signerKey x.revokedSigner
  | _ => none

/-- The changes published so far, oldest first. -/
def signerLog (s : State) : List SignerChange := s.events.filterMap signerChange

/-- The log consists of the events of its changes and replays to the table. -/
structure Audited (s : State) : Prop where
  events : s.events = (signerLog s).flatMap changeEvents
  replay : Table.empty.replay (signerLog s) = some (signers s)

theorem signerChange_signerEvent (c : SignerChange) : signerChange (signerEvent c) = some c := by
  cases c with
  | insert key signer =>
    change (tryFromVal (intoVal (⟨key, signer⟩ : SignerAddedEvent))).map _ = _
    rw [LawfulVal.tryFromVal_intoVal]
    rfl
  | replace key signer =>
    change (tryFromVal (intoVal (⟨key, signer⟩ : SignerUpdatedEvent))).map _ = _
    rw [LawfulVal.tryFromVal_intoVal]
    rfl
  | remove key signer =>
    change (tryFromVal (intoVal (⟨key, signer⟩ : SignerRevokedEvent))).map _ = _
    rw [LawfulVal.tryFromVal_intoVal]
    rfl

theorem filterMap_changeEvents (c : SignerChange) :
    (changeEvents c).filterMap signerChange = [c] := by
  have hstorage : signerChange ((default : Storage).changeEvent (storageOperation c)) = none := by
    cases c <;> rfl
  rw [changeEvents, List.filterMap_cons, hstorage]
  change [signerEvent c].filterMap signerChange = [c]
  rw [List.filterMap_cons, signerChange_signerEvent]
  rfl

section Preservation
variable {s s' : State}

theorem Audited.of_change (h : Audited s) {c : SignerChange}
    (hevents : s'.events = s.events ++ changeEvents c) (hdescribes : (signers s).Describes c)
    (hsigners : signers s' = (signers s).record c) : Audited s' := by
  have hlog : signerLog s' = signerLog s ++ [c] := by
    rw [signerLog, hevents, List.filterMap_append, filterMap_changeEvents]
    rfl
  constructor
  · rw [hlog, hevents, List.flatMap_append, ← h.events]
    simp
  · rw [hlog, Table.replay_concat, h.replay]
    exact Table.change_eq_some_iff.mpr ⟨hdescribes, hsigners.symm⟩

theorem Audited.of_eq (h : Audited s) (hevents : s'.events = s.events)
    (hsigners : signers s' = signers s) : Audited s' := by
  have hlog : signerLog s' = signerLog s := by
    rw [signerLog, hevents]
    rfl
  constructor
  · rw [hlog, hevents]
    exact h.events
  · rw [hlog, hsigners]
    exact h.replay

theorem Audited.of_added (h : Audited s) {signer : Signer}
    (habsent : signers s signer.key = none) : Audited (added s signer) := by
  have hevents : (added s signer).events =
      s.events ++ changeEvents (.insert signer.key signer) := by
    simp [added, Storage.written, changeEvents, signerEvent, storageOperation]
  exact h.of_change hevents habsent signers_added

theorem Audited.of_updated (h : Audited s) {signer : Signer}
    (hstored : signers s signer.key ≠ none) : Audited (updated s signer) := by
  have hevents : (updated s signer).events =
      s.events ++ changeEvents (.replace signer.key signer) := by
    simp [updated, Storage.written, changeEvents, signerEvent, storageOperation]
  exact h.of_change hevents hstored signers_updated

theorem Audited.of_revoked (h : Audited s) {key : SignerKey} {signer : Signer}
    (hstored : signers s key = some signer) : Audited (revoked s key signer) := by
  have hevents : (revoked s key signer).events = s.events ++ changeEvents (.remove key signer) := by
    simp [revoked, Storage.removed, changeEvents, signerEvent, storageOperation]
  exact h.of_change hevents hstored signers_revoked

theorem Audited.next (h : Audited s) {op : Operation} {wasmExists : BytesN 32 → Bool}
    (henabled : op.Enabled wasmExists s) : Audited (op.next s) := by
  cases op with
  | addSigner signer => exact h.of_added henabled
  | updateSigner signer => exact h.of_updated (Option.isSome_iff_ne_none.mp henabled)
  | revokeSigner key =>
    obtain ⟨signer, hsigner, -⟩ := henabled
    have hnext : (Operation.revokeSigner key).next s = revoked s key signer := by
      rw [Operation.next, hsigner]
    rw [hnext]
    exact h.of_revoked hsigner
  | upgrade hash => exact h.of_eq rfl (signers_upgraded hash)

theorem Audited.step (h : Audited s) (hlive : Live s) (account : Account) (inv : Invocation) :
    Audited (account.step inv s).2 :=
  step_preserves hlive h fun _ _ _ henabled => h.next henabled

/-- The loop of the constructor, over keys that are distinct and absent. -/
theorem Audited.foldl_added (signers : List Signer) (h : Audited s)
    (hnodup : (signers.map Signer.key).Nodup)
    (habsent : ∀ signer ∈ signers, SmartAccount.signers s signer.key = none) :
    Audited (signers.foldl added s) := by
  induction signers generalizing s with
  | nil => exact h
  | cons signer signers ih =>
    have hadded := h.of_added (habsent signer List.mem_cons_self)
    exact ih hadded (List.nodup_cons.mp hnodup).2 (absent_added hnodup habsent)

end Preservation

section Run
variable {account : Account} {d : Deployment} {s : State}

theorem audited_of_deploy (h : account.deploy d = .ok (⟨⟩, s)) : Audited s := by
  have hnodup := (valid_of_deploy h).2.1
  obtain ⟨-, rfl⟩ := Account.deploy_ok_iff.mp h
  have hcreated : Audited (created d.wasm) := ⟨rfl, rfl⟩
  exact (hcreated.foldl_added d.signers hnodup fun _ _ => rfl).of_eq rfl signers_marked

/-- In every reachable state the log replays strictly to the stored table and is
made of pairs of a storage event and the signer event of the same change. -/
theorem audit_trail (h : account.deploy d = .ok (⟨⟩, s)) (is : List Invocation) :
    Table.empty.replay (signerLog (account.machine.final s is)) =
        some (signers (account.machine.final s is)) ∧
      (∀ before c after, signerLog (account.machine.final s is) = before ++ c :: after →
        ∃ t, Table.empty.replay before = some t ∧ t.Describes c) ∧
      (account.machine.final s is).events =
        (signerLog (account.machine.final s is)).flatMap changeEvents := by
  have hrun := account.machine.final_invariant (P := fun t => Live t ∧ Audited t)
    (fun inv t ht => ⟨ht.1.step account inv, ht.2.step ht.1 account inv⟩)
    ⟨live_of_deploy h, audited_of_deploy h⟩ is
  refine ⟨hrun.2.replay, ?_, hrun.2.events⟩
  intro before c after hsplit
  have hreplay := hrun.2.replay
  rw [hsplit] at hreplay
  exact Table.describes_of_replay hreplay

/-- The log of the sample account after an addition, a refused addition and a
revocation. -/
theorem sample_audit_trail :
    (Sample.account.machine.final Sample.state
        [Sample.addPasskey .standard, Sample.invoke (.addSigner Sample.admin),
          Sample.invoke (.revokeSigner (.secp256r1 [1]))]).events =
      [Change.insert Sample.admin.key Sample.admin,
        .insert (.secp256r1 [1]) (.secp256r1 ⟨[1], Sample.passkey⟩ .standard),
        .remove (.secp256r1 [1]) (.secp256r1 ⟨[1], Sample.passkey⟩ .standard)].flatMap
          changeEvents := by
  rw [(audit_trail Sample.deploy_deployment _).2.2]
  decide +kernel

end Run
end StellarSmartAccount.SmartAccount
