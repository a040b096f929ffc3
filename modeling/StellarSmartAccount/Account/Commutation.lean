import StellarSmartAccount.Foundations.Footprint
import StellarSmartAccount.Account.SignerRegistry

/-! # Independent operations commute

An invocation reads the storage entry of its operation and the entries under the keys
of its proofs, and it writes the former only. Operations on different signers, neither
authorized through the signer of the other one, therefore get the same answers and leave
the same storage in both orders.
-/

namespace StellarSmartAccount.SmartAccount
open Foundations Soroban

/-- What the instance storage of a state holds under a key. -/
def storedAt (s : State) (k : Val) : Option Val := s.instanceMap.lookup k

/-- The storage keys of the signers that a proof map names. -/
def proofCells (proofs : SignatureProofs) : Set Val :=
  {k | ∃ entry ∈ proofs.proofs.toList, k = intoVal entry.1}

namespace Invocation

/-- The storage keys of the signers that may authorize an invocation. -/
def authCells (inv : Invocation) : Set Val :=
  {k | ∃ entry, inv.auth = some entry ∧ k ∈ proofCells entry.proofs}

/-- The storage keys on which the answer to an invocation depends. -/
def reads (inv : Invocation) : Set Val :=
  match inv.call with
  | .operation op => insert op.storageKey inv.authCells
  | .checkAuth _ authPayloads _ => proofCells authPayloads

/-- The storage keys that an invocation may change. -/
def writes (inv : Invocation) : Set Val :=
  match inv.call with
  | .operation op => {op.storageKey}
  | .checkAuth _ _ _ => ∅

/-- No proof of the invocation is given under the key. -/
def ProofsAvoid (inv : Invocation) (key : SignerKey) : Prop :=
  ∀ entry, inv.auth = some entry → key ∉ entry.proofs.proofs

end Invocation

section Footprint
variable {account : Account} {inv : Invocation} {op : Operation} {s t : State}

theorem refusal_eq_of_sameOn {proofs : SignatureProofs}
    (h : Machine.SameOn storedAt (proofCells proofs) s t) (env : Env) (payload : BytesN 32)
    (contexts : List Context) :
    refusal env payload (entries s) proofs.proofs.toList contexts =
      refusal env payload (entries t) proofs.proofs.toList contexts := by
  refine refusal_eq_of_entries fun entry hentry => ?_
  have hstored : storedAt s (intoVal entry.1) = storedAt t (intoVal entry.1) :=
    h _ ⟨entry, hentry, rfl⟩
  exact congrArg (Option.map tryFromVal) hstored

theorem accepts_eq_of_sameOn {entry : AuthEntry}
    (h : Machine.SameOn storedAt (proofCells entry.proofs) s t) (timestamp : UInt64) :
    account.accepts timestamp entry s = account.accepts timestamp entry t := by
  rw [Bool.eq_iff_iff, accepts_iff, accepts_iff, ← refusal_eq_none_iff, ← refusal_eq_none_iff,
    refusal_eq_of_sameOn h]

theorem authorizes_eq_of_sameOn (h : Machine.SameOn storedAt inv.authCells s t)
    (op : Operation) : account.authorizes inv op s = account.authorizes inv op t := by
  rw [Account.authorizes, Account.authorizes]
  cases hauth : inv.auth with
  | none => rfl
  | some entry =>
    have hentry : Machine.SameOn storedAt (proofCells entry.proofs) s t :=
      fun k hk => h k ⟨entry, hauth, hk⟩
    rw [Option.any_some, Option.any_some, accepts_eq_of_sameOn hentry]

theorem storedAt_added (s : State) (signer : Signer) :
    storedAt (added s signer) (intoVal signer.key) = some (intoVal signer) :=
  Finmap.lookup_insert _

theorem storedAt_updated (s : State) (signer : Signer) :
    storedAt (updated s signer) (intoVal signer.key) = some (intoVal signer) :=
  Finmap.lookup_insert _

theorem storedAt_revoked (s : State) (key : SignerKey) (signer : Signer) :
    storedAt (revoked s key signer) (intoVal key) = none :=
  Finmap.lookup_erase _ _

theorem storedAt_upgraded (s : State) (hash : BytesN 32) :
    storedAt (Upgradeable.upgraded s hash) (intoVal Upgradeable.migrating) =
      some (intoVal true) :=
  Finmap.lookup_insert _

/-- States that authorize an operation alike and hold the same entry under its key answer
it alike and leave the same entry there. -/
theorem step_operation_congr (hs : Live s) (ht : Live t) (hcall : inv.call = .operation op)
    (hauth : account.authorizes inv op s = account.authorizes inv op t)
    (hstored : storedAt s op.storageKey = storedAt t op.storageKey) :
    (account.step inv s).1 = (account.step inv t).1 ∧
      storedAt (account.step inv s).2 op.storageKey =
        storedAt (account.step inv t).2 op.storageKey := by
  have hp : permitted (account.env inv op) t = permitted (account.env inv op) s := by
    rw [permitted_env hs, permitted_env ht, hauth]
  have hsigners (key : SignerKey) (hkey : op.storageKey = intoVal key) :
      signers t key = signers s key := by
    rw [hkey] at hstored
    exact congrArg (Option.bind · tryFromVal) hstored.symm
  rw [step_operation hcall, step_operation hcall]
  cases op with
  | addSigner signer =>
    simp only [Operation.run, Call.commit, addSigner_exec hs.represented,
      addSigner_exec ht.represented, hp, hsigners signer.key rfl]
    split_ifs
    · exact ⟨rfl, hstored⟩
    · exact ⟨rfl, (storedAt_added s signer).trans (storedAt_added t signer).symm⟩
    · exact ⟨rfl, hstored⟩
  | updateSigner signer =>
    simp only [Operation.run, Call.commit, updateSigner_exec hs.represented,
      updateSigner_exec ht.represented, hp, hsigners signer.key rfl]
    split_ifs
    · exact ⟨rfl, (storedAt_updated s signer).trans (storedAt_updated t signer).symm⟩
    · exact ⟨rfl, hstored⟩
    · exact ⟨rfl, hstored⟩
  | revokeSigner key =>
    simp only [Operation.run, Call.commit, revokeSigner_exec hs.represented,
      revokeSigner_exec ht.represented, hp, hsigners key rfl]
    split_ifs
    · cases signers s key with
      | none => exact ⟨rfl, hstored⟩
      | some signer =>
        dsimp only
        split_ifs
        · exact ⟨rfl, hstored⟩
        · exact ⟨rfl, (storedAt_revoked s key signer).trans (storedAt_revoked t key signer).symm⟩
    · exact ⟨rfl, hstored⟩
  | upgrade hash =>
    simp only [Call.commit, run_upgrade_exec, hauth]
    split_ifs
    · exact ⟨rfl, (storedAt_upgraded s hash).trans (storedAt_upgraded t hash).symm⟩
    · exact ⟨rfl, hstored⟩
    · exact ⟨rfl, hstored⟩

theorem storedAt_step_of_ne (h : Live s) (hcall : inv.call = .operation op) {k : Val}
    (hk : k ≠ op.storageKey) : storedAt (account.step inv s).2 k = storedAt s k := by
  refine step_preserves (P := fun u => storedAt u k = storedAt s k) h rfl ?_
  intro op' hcall' _ _
  obtain rfl : op = op' := AccountCall.operation.inj (hcall.symm.trans hcall')
  exact lookup_next_of_ne_storageKey hk

theorem operation_footprint (hcall : inv.call = .operation op) :
    account.machine.Footprint storedAt Live inv (insert op.storageKey inv.authCells)
      {op.storageKey} := by
  have hcongr {s t : State} (hs : Live s) (ht : Live t)
      (h : Machine.SameOn storedAt (insert op.storageKey inv.authCells) s t) :
      (account.step inv s).1 = (account.step inv t).1 ∧
        storedAt (account.step inv s).2 op.storageKey =
          storedAt (account.step inv t).2 op.storageKey := by
    have hauth : Machine.SameOn storedAt inv.authCells s t :=
      fun k hk => h k (Set.mem_insert_of_mem _ hk)
    exact step_operation_congr hs ht hcall (authorizes_eq_of_sameOn hauth op)
      (h _ (Set.mem_insert _ _))
  constructor
  case frame => exact fun s hs k hk => storedAt_step_of_ne hs hcall hk
  case output => exact fun s t hs ht h => (hcongr hs ht h).1
  case written =>
    rintro s t hs ht h k rfl
    exact (hcongr hs ht h).2

theorem checkAuth_footprint {payload : BytesN 32} {proofs : SignatureProofs}
    {contexts : List Context} (hcall : inv.call = .checkAuth payload proofs contexts) :
    account.machine.Footprint storedAt Live inv (proofCells proofs) ∅ := by
  constructor
  case frame => exact fun s _ k _ => congrArg (fun r => storedAt r.2 k) (step_checkAuth hcall s)
  case output =>
    intro s t _ _ h
    change (account.step inv s).1 = (account.step inv t).1
    rw [step_checkAuth hcall, step_checkAuth hcall, refusal_eq_of_sameOn h]
  case written => exact fun s t _ _ _ k hk => absurd hk (Set.notMem_empty k)

/-- Every invocation of a live account keeps to the storage keys it reads and writes. -/
theorem invocation_footprint (account : Account) (inv : Invocation) :
    account.machine.Footprint storedAt Live inv inv.reads inv.writes := by
  unfold Invocation.reads Invocation.writes
  match hcall : inv.call with
  | .operation op => exact operation_footprint hcall
  | .checkAuth payload proofs contexts => exact checkAuth_footprint hcall

end Footprint

/-- An invocation gets the same response and the same authorization in two states. -/
structure AnswersAlike (account : Account) (inv : Invocation) (s t : State) : Prop where
  response : (account.step inv s).1 = (account.step inv t).1
  authorized : ∀ op, account.authorizes inv op s = account.authorizes inv op t
  decision : ∀ entry, inv.auth = some entry →
    ((checkAuth (account.checkEnv inv.timestamp) entry.signaturePayload entry.proofs
        entry.contexts).exec s).map Prod.fst =
      ((checkAuth (account.checkEnv inv.timestamp) entry.signaturePayload entry.proofs
        entry.contexts).exec t).map Prod.fst

section Independence
variable {account : Account} {inv inv' : Invocation} {request request' : Request SignerKey Signer}
  {s : State}

theorem writes_of_request (h : inv.request = some request) :
    inv.writes = {intoVal request.key} := by
  obtain ⟨op, hcall, hop⟩ := exists_operation_of_request h
  rw [Invocation.writes, hcall, ← storageKey_of_request hop]

theorem reads_of_request (h : inv.request = some request) :
    inv.reads = insert (intoVal request.key) inv.authCells := by
  obtain ⟨op, hcall, hop⟩ := exists_operation_of_request h
  rw [Invocation.reads, hcall, ← storageKey_of_request hop]

theorem notMem_authCells {key : SignerKey} (h : inv.ProofsAvoid key) :
    intoVal key ∉ inv.authCells := by
  rintro ⟨entry, hauth, proof, hproof, hkey⟩
  obtain rfl : key = proof.1 := intoVal_injective hkey
  have hstored := Std.ExtTreeMap.mem_toList_iff_getElem?_eq_some.mp hproof
  exact h entry hauth (Std.ExtTreeMap.mem_iff_isSome_getElem?.mpr (by rw [hstored]; rfl))

theorem notMem_writes_of_mem_reads (h : inv.request = some request)
    (h' : inv'.request = some request') (hkeys : request.key ≠ request'.key)
    (hproofs : inv.ProofsAvoid request'.key) : ∀ k ∈ inv.reads, k ∉ inv'.writes := by
  intro k hk hwritten
  rw [writes_of_request h', Set.mem_singleton_iff] at hwritten
  rw [reads_of_request h, hwritten] at hk
  rcases Set.mem_insert_iff.mp hk with heq | hcell
  · exact hkeys (intoVal_injective heq).symm
  · exact notMem_authCells hproofs hcell

theorem answersAlike_step (hs : Live s) (h : inv.request = some request)
    (h' : inv'.request = some request') (hkeys : request.key ≠ request'.key)
    (hproofs : inv.ProofsAvoid request'.key) :
    AnswersAlike account inv s (account.step inv' s).2 := by
  have hinv := invocation_footprint account inv
  have hinv' := invocation_footprint account inv'
  have hapart := notMem_writes_of_mem_reads h h' hkeys hproofs
  have hcells : Machine.SameOn storedAt inv.authCells s (account.step inv' s).2 := by
    intro k hk
    refine hinv'.sameOn hs hapart k ?_
    rw [reads_of_request h]
    exact Set.mem_insert_of_mem _ hk
  constructor
  case response => exact hinv.output_step (fun i _ ht => ht.step account i) hinv' hs hapart
  case authorized => exact fun op => authorizes_eq_of_sameOn hcells op
  case decision =>
    intro entry hentry
    have hentryCells : Machine.SameOn storedAt (proofCells entry.proofs) s
        (account.step inv' s).2 := fun k hk => hcells k ⟨entry, hentry, hk⟩
    rw [checkAuth_exec, checkAuth_exec, Call.map_fst_outcome, Call.map_fst_outcome,
      refusal_eq_of_sameOn hentryCells]

theorem instanceMap_step_step (hs : Live s) (h : inv.request = some request)
    (h' : inv'.request = some request') (hkeys : request.key ≠ request'.key)
    (hproofs : inv.ProofsAvoid request'.key) (hproofs' : inv'.ProofsAvoid request.key) :
    (account.step inv' (account.step inv s).2).2.instanceMap =
      (account.step inv (account.step inv' s).2).2.instanceMap := by
  have hwrites : ∀ k ∈ inv.writes, k ∉ inv'.writes := by
    rw [writes_of_request h, writes_of_request h']
    rintro k rfl heq
    exact hkeys (intoVal_injective heq)
  refine Finmap.ext_lookup fun k => ?_
  exact (invocation_footprint account inv).commute (fun i _ ht => ht.step account i)
    (invocation_footprint account inv') hs (notMem_writes_of_mem_reads h h' hkeys hproofs)
    (notMem_writes_of_mem_reads h' h hkeys.symm hproofs') hwrites k

end Independence

section Run
variable {account : Account} {d : Deployment} {s : State}

/-- In every reachable state two signer operations on different keys, neither of them
authorized with a proof under the key of the other one, leave the same instance storage
in both orders, and each one gets the same response and the same authorization in both. -/
theorem signerOperations_commute (h : account.deploy d = .ok (⟨⟩, s)) (is : List Invocation)
    {inv₁ inv₂ : Invocation} {request₁ request₂ : Request SignerKey Signer}
    (h₁ : inv₁.request = some request₁) (h₂ : inv₂.request = some request₂)
    (hkeys : request₁.key ≠ request₂.key) (hproofs₁ : inv₁.ProofsAvoid request₂.key)
    (hproofs₂ : inv₂.ProofsAvoid request₁.key) :
    (account.machine.final s (is ++ [inv₁, inv₂])).instanceMap =
        (account.machine.final s (is ++ [inv₂, inv₁])).instanceMap ∧
      AnswersAlike account inv₁ (account.machine.final s is)
        (account.machine.final s (is ++ [inv₂])) ∧
      AnswersAlike account inv₂ (account.machine.final s is)
        (account.machine.final s (is ++ [inv₁])) := by
  have hlive := (live_of_deploy h).final account is
  simp only [Machine.final_append]
  generalize account.machine.final s is = u at hlive
  exact ⟨instanceMap_step_step hlive h₁ h₂ hkeys hproofs₁ hproofs₂,
    answersAlike_step hlive h₁ h₂ hkeys hproofs₁,
    answersAlike_step hlive h₂ h₁ hkeys.symm hproofs₂⟩

/-- The sample admin revokes one passkey and adds another one, in either order. -/
theorem sample_signerOperations_commute :
    (Sample.account.machine.final Sample.state [Sample.addPasskey .standard,
        Sample.invoke (.revokeSigner (.secp256r1 [1])),
        Sample.invoke (.addSigner (.secp256r1 ⟨[2], Sample.passkey⟩ .standard))]).instanceMap =
      (Sample.account.machine.final Sample.state [Sample.addPasskey .standard,
        Sample.invoke (.addSigner (.secp256r1 ⟨[2], Sample.passkey⟩ .standard)),
        Sample.invoke (.revokeSigner (.secp256r1 [1]))]).instanceMap := by
  have havoid (op : Operation) (keyId : Bytes) :
      (Sample.invoke op).ProofsAvoid (.secp256r1 keyId) := by
    rintro entry ⟨⟩ hmem
    obtain ⟨proof, hproof⟩ :=
      Option.isSome_iff_exists.mp (Std.ExtTreeMap.mem_iff_isSome_getElem?.mp hmem)
    have hlist := Std.ExtTreeMap.mem_toList_iff_getElem?_eq_some.mpr hproof
    rw [Sample.toList_proofs, List.mem_singleton] at hlist
    cases hlist
  have hrevoke : (Sample.invoke (.revokeSigner (.secp256r1 [1]))).request =
      some (.remove (.secp256r1 [1])) := rfl
  exact (signerOperations_commute Sample.deploy_deployment [Sample.addPasskey .standard] hrevoke
    rfl (by decide) (havoid _ _) (havoid _ _)).1

end Run
end StellarSmartAccount.SmartAccount
