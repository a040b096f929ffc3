import StellarSmartAccount.Account.Run

/-! # Exact behaviour of the constructor

On an uninitialized state without the keys of the list, the constructor aborts
for the first reason of its three checks, in their order, or adds every signer of
the list and sets the `init` flag.
-/

namespace StellarSmartAccount.SmartAccount
open Foundations Soroban

def policyAbort (env : Env) (policy : SignerPolicy) : Option Abort :=
  match policy.check env with
  | .ok _ => none
  | .error e => some (.contractError e.code)

theorem policyAbort_eq_none_iff {env : Env} {policy : SignerPolicy} :
    policyAbort env policy = none ↔ policy.check env = .ok () := by
  rw [policyAbort]
  cases policy.check env <;> simp

/-- The first policy of the signer that does not validate. -/
def signerAbort (env : Env) (signer : Signer) : Option Abort :=
  signer.role.policies.findSome? (policyAbort env)

/-- Why the constructor aborts, in the order of its checks. -/
def constructorAbort (env : Env) (signers : List Signer) : Option Abort :=
  (if signers.any (·.role = .admin) then none
    else some (.contractError Error.insufficientPermissionsOnCreation.code)).or <|
  (if (signers.map Signer.key).Nodup then none
    else some (.contractError Error.signerAlreadyExists.code)).or <|
  signers.findSome? (signerAbort env)

section Loops
variable {env : Env} {s : State}

theorem checkPolicies_exec (role : SignerRole) :
    (checkPolicies env role).exec s =
      Tx.outcome ⟨⟩ s (role.policies.findSome? (policyAbort env)) := by
  cases role with
  | admin => rfl
  | standard => rfl
  | restricted policies =>
    refine Tx.exec_forM_outcome policies fun policy _ => ?_
    rw [policyAbort]
    cases policy.check env <;> rfl

/-- The duplicate scan, continued from the keys seen so far. -/
theorem scan_exec (signers : List Signer) (seen : List SignerKey) (hseen : seen.Nodup) :
    Tx.exec (signers.foldlM (fun seenSignerKeys signer => do
      if seenSignerKeys.contains signer.key then
        panicWithError Error.signerAlreadyExists.code
      return seenSignerKeys ++ [signer.key]) seen) s =
      Tx.outcome (seen ++ signers.map Signer.key) s
        (if (seen ++ signers.map Signer.key).Nodup then none
          else some (.contractError Error.signerAlreadyExists.code)) := by
  induction signers generalizing seen with
  | nil =>
    rw [List.map_nil, List.append_nil, if_pos hseen]
    rfl
  | cons signer signers ih =>
    rw [List.foldlM_cons, List.map_cons]
    by_cases hmem : signer.key ∈ seen
    · have hdup : ¬ (seen ++ signer.key :: signers.map Signer.key).Nodup := by
        intro hnodup
        exact (List.nodup_append.mp hnodup).2.2 _ hmem _ List.mem_cons_self rfl
      rw [if_neg hdup, if_pos (List.contains_iff_mem.mpr hmem)]
      rfl
    · have hnew : (seen ++ [signer.key]).Nodup := by
        rw [List.nodup_append]
        refine ⟨hseen, List.nodup_singleton _, ?_⟩
        intro a ha b hb
        rw [List.mem_singleton.mp hb]
        rintro rfl
        exact hmem ha
      have hrest := ih (seen ++ [signer.key]) hnew
      rw [List.append_assoc, List.singleton_append] at hrest
      rw [if_neg (mt List.contains_iff_mem.mp hmem)]
      exact hrest

theorem checkDistinctKeys_exec (signers : List Signer) :
    (checkDistinctKeys signers).exec s =
      Tx.outcome (signers.map Signer.key) s
        (if (signers.map Signer.key).Nodup then none
          else some (.contractError Error.signerAlreadyExists.code)) :=
  scan_exec signers [] List.nodup_nil

theorem addSigner_exec_of_uninitialized (h : Represented s)
    (hinit : s.flag Initializable.initialized = false) {signer : Signer}
    (habsent : SmartAccount.signers s signer.key = none) :
    (addSigner env signer).exec s = .ok (.ok ⟨⟩, added s signer) := by
  have hp : permitted env s = true := by
    rw [permitted, hinit]
    rfl
  rw [addSigner_exec h, if_pos hp, habsent]
  rfl

/-- Distinct keys that are absent stay absent when the first of them is added. -/
theorem absent_added {signer : Signer} {signers : List Signer}
    (hnodup : ((signer :: signers).map Signer.key).Nodup)
    (habsent : ∀ x ∈ signer :: signers, SmartAccount.signers s x.key = none) :
    ∀ x ∈ signers, SmartAccount.signers (added s signer) x.key = none := by
  intro x hx
  have hne : x.key ≠ signer.key := by
    intro heq
    rw [List.map_cons, List.nodup_cons] at hnodup
    exact hnodup.1 (heq ▸ List.mem_map_of_mem hx)
  rw [signers_added, Table.set_of_ne _ hne]
  exact habsent x (List.mem_cons_of_mem signer hx)

/-- The validation and insertion loop over keys that are distinct and absent. -/
theorem addSigners_exec (signers : List Signer) (h : Represented s)
    (hinit : s.flag Initializable.initialized = false) (hnodup : (signers.map Signer.key).Nodup)
    (habsent : ∀ signer ∈ signers, SmartAccount.signers s signer.key = none) :
    Tx.exec (signers.forM fun signer => do
      checkPolicies env signer.role
      unwrapOrPanic Error.code (← (addSigner env signer).run)) s =
      Tx.outcome ⟨⟩ (signers.foldl added s) (signers.findSome? (signerAbort env)) := by
  induction signers generalizing s with
  | nil => rfl
  | cons signer signers ih =>
    have hadd : Tx.exec (addSigner env signer).run s = .ok (.ok ⟨⟩, added s signer) :=
      addSigner_exec_of_uninitialized h hinit (habsent signer List.mem_cons_self)
    have hrest := ih (h.of_added signer) ((flag_added _).trans hinit)
      (List.nodup_cons.mp hnodup).2 (absent_added hnodup habsent)
    have hbody : Tx.exec (do
        checkPolicies env signer.role
        unwrapOrPanic Error.code (← (addSigner env signer).run)) s =
        Tx.outcome ⟨⟩ (added s signer) (signerAbort env signer) := by
      have hsecond : Tx.exec (do unwrapOrPanic Error.code (← (addSigner env signer).run)) s =
          Tx.outcome ⟨⟩ (added s signer) none := by
        rw [Tx.exec_bind_ok hadd]
        rfl
      rw [Tx.exec_bind_outcome (checkPolicies_exec signer.role) (fun _ => hsecond),
        Option.or_none, signerAbort]
    change Tx.exec (_ >>= fun _ => signers.forM _) s = _
    rw [Tx.exec_bind_outcome hbody (fun _ => hrest), List.findSome?_cons]
    cases signerAbort env signer <;> rfl

end Loops

theorem represented_foldl_added (signers : List Signer) {s : State} (h : Represented s) :
    Represented (signers.foldl added s) := by
  induction signers generalizing s with
  | nil => exact h
  | cons signer signers ih => exact ih (h.of_added signer)

theorem flag_foldl_added (signers : List Signer) (s : State) (name : Symbol) :
    (signers.foldl added s).flag name = s.flag name := by
  induction signers generalizing s with
  | nil => rfl
  | cons signer signers ih => exact (ih (added s signer)).trans (flag_added name)

theorem signers_foldl_added (signers : List Signer) (s : State) :
    SmartAccount.signers (signers.foldl added s) =
      (SmartAccount.signers s).writeAll (signers.map fun signer => (signer.key, some signer)) := by
  induction signers generalizing s with
  | nil => rfl
  | cons signer signers ih =>
    rw [List.foldl_cons, ih, signers_added]
    rfl

section Constructor
variable {env : Env} {s : State} {signers : List Signer}

theorem constructor_exec_of_initialized (h : Initializable.FlagTyped s)
    (hinit : s.flag Initializable.initialized = true) :
    (constructor env signers).exec s = .error (.contractError Error.alreadyInitialized.code) := by
  have hguard := Initializable.onlyNotInitialized_exec Error.alreadyInitialized.code h
  rw [if_pos hinit] at hguard
  exact Tx.exec_bind_error hguard _

theorem constructor_exec (h : Represented s) (hinit : s.flag Initializable.initialized = false)
    (habsent : ∀ signer ∈ signers, SmartAccount.signers s signer.key = none) :
    (constructor env signers).exec s =
      Tx.outcome ⟨⟩ (Initializable.marked (signers.foldl added s))
        (constructorAbort env signers) := by
  have hguard := Initializable.onlyNotInitialized_exec Error.alreadyInitialized.code h.flagTyped
  have hflag : (signers.foldl added s).flag Initializable.initialized = false :=
    (flag_foldl_added signers s _).trans hinit
  have hmark : Tx.exec (do
      unwrapOrPanic InitializableError.code (← Initializable.initializeContract.run))
      (signers.foldl added s) =
      Tx.outcome ⟨⟩ (Initializable.marked (signers.foldl added s)) none := by
    have hinitialize :=
      Initializable.initializeContract_exec (represented_foldl_added signers h).flagTyped
    rw [hflag] at hinitialize
    exact Tx.exec_bind_ok hinitialize _
  rw [hinit] at hguard
  rw [constructor, Tx.exec_bind_ok hguard, constructorAbort]
  by_cases hadmin : signers.any (·.role = .admin) = true
  · rw [if_pos hadmin, Option.none_or, hadmin]
    refine Tx.exec_bind_outcome (checkDistinctKeys_exec signers) fun hdistinct => ?_
    have hnodup : (signers.map Signer.key).Nodup := by
      by_contra hdup
      rw [if_neg hdup] at hdistinct
      cases hdistinct
    have hor : signers.findSome? (signerAbort env) =
        (signers.findSome? (signerAbort env)).or none := Option.or_none.symm
    rw [hor]
    exact Tx.exec_bind_outcome (addSigners_exec signers h hinit hnodup habsent) fun _ => hmark
  · rw [if_neg hadmin, Bool.eq_false_of_not_eq_true hadmin]
    rfl

theorem constructorAbort_eq_none_iff :
    constructorAbort env signers = none ↔
      (∃ signer ∈ signers, signer.role = .admin) ∧ (signers.map Signer.key).Nodup ∧
        ∀ signer ∈ signers, ∀ policy ∈ signer.role.policies, policy.check env = .ok () := by
  have hany : signers.any (·.role = .admin) = true ↔ ∃ signer ∈ signers, signer.role = .admin := by
    simp
  simp only [constructorAbort, Option.or_eq_none_iff, List.findSome?_eq_none_iff, signerAbort,
    policyAbort_eq_none_iff]
  refine and_congr ?_ (and_congr ?_ Iff.rfl)
  · rw [← hany]
    split_ifs with h <;> simp [h]
  · split_ifs with h <;> simp [h]

end Constructor

/-- What the deployer of an account chooses. -/
structure Deployment where
  timestamp : UInt64
  wasm : BytesN 32
  signers : List Signer

/-- A contract right after its creation. -/
def created (wasm : BytesN 32) : State where
  persistentMap := ∅
  instanceMap := ∅
  events := []
  wasm := wasm

theorem represented_created (wasm : BytesN 32) : Represented (created wasm) :=
  ⟨fun _ _ h => nomatch h⟩

@[simp] theorem signers_created (wasm : BytesN 32) : signers (created wasm) = Table.empty := rfl

namespace Account

def deploy (account : Account) (d : Deployment) : Except Abort (Unit × State) :=
  (constructor (account.checkEnv d.timestamp) d.signers).exec (created d.wasm)

theorem deploy_eq (account : Account) (d : Deployment) :
    account.deploy d =
      Tx.outcome ⟨⟩ (Initializable.marked (d.signers.foldl added (created d.wasm)))
        (constructorAbort (account.checkEnv d.timestamp) d.signers) :=
  constructor_exec (represented_created d.wasm) rfl fun _ _ => rfl

theorem deploy_ok_iff {account : Account} {d : Deployment} {s : State} :
    account.deploy d = .ok (⟨⟩, s) ↔
      constructorAbort (account.checkEnv d.timestamp) d.signers = none ∧
        s = Initializable.marked (d.signers.foldl added (created d.wasm)) := by
  rw [deploy_eq, Tx.outcome_eq_ok_iff]
  simp

end Account

section Deployed
variable {account : Account} {d : Deployment} {s : State}

theorem live_of_deploy (h : account.deploy d = .ok (⟨⟩, s)) : Live s := by
  obtain ⟨-, rfl⟩ := Account.deploy_ok_iff.mp h
  exact ⟨(represented_foldl_added _ (represented_created _)).of_marked, flag_initialized_marked⟩

/-- The table of a deployed account holds the signers of the list under their
keys. -/
theorem signers_of_deploy (h : account.deploy d = .ok (⟨⟩, s)) :
    signers s = Table.lastWrite (d.signers.map fun signer => (signer.key, some signer)) := by
  obtain ⟨-, rfl⟩ := Account.deploy_ok_iff.mp h
  rw [signers_marked, signers_foldl_added, signers_created, Table.lastWrite_eq_writeAll]

theorem valid_of_deploy (h : account.deploy d = .ok (⟨⟩, s)) :
    (∃ signer ∈ d.signers, signer.role = .admin) ∧ (d.signers.map Signer.key).Nodup ∧
      ∀ signer ∈ d.signers, ∀ policy ∈ signer.role.policies,
        policy.check (account.checkEnv d.timestamp) = .ok () :=
  constructorAbort_eq_none_iff.mp (Account.deploy_ok_iff.mp h).1

theorem signers_of_deploy_eq_some_iff (h : account.deploy d = .ok (⟨⟩, s)) {key : SignerKey}
    {signer : Signer} :
    signers s key = some signer ↔ signer ∈ d.signers ∧ signer.key = key := by
  rw [signers_of_deploy h]
  exact Table.lastWrite_map_eq_some_iff (valid_of_deploy h).2.1 key signer

end Deployed

-- Genuine keys, hashes and signatures; the sample host knows no other inputs.
namespace Sample

def publicKey : BytesN 32 :=
  ⟨[215, 90, 152, 1, 130, 177, 10, 183, 213, 75, 254, 211, 201, 100, 7, 58, 14, 225, 114, 243, 218,
    166, 35, 37, 175, 2, 26, 104, 247, 7, 81, 26], rfl⟩

def payload : BytesN 32 :=
  ⟨[134, 159, 231, 86, 109, 64, 108, 221, 224, 217, 65, 162, 113, 42, 74, 203, 14, 148, 126, 165,
    199, 92, 196, 5, 59, 67, 131, 89, 99, 119, 35, 237], rfl⟩

/-- The Ed25519 signature of the payload. -/
def signature : BytesN 64 :=
  ⟨[157, 195, 105, 120, 69, 91, 169, 71, 194, 225, 195, 17, 227, 161, 97, 58, 190, 125, 150, 84,
    92, 220, 119, 218, 126, 175, 197, 150, 41, 46, 211, 32, 112, 254, 89, 108, 190, 215, 82, 239,
    142, 74, 62, 173, 167, 248, 239, 45, 183, 46, 73, 79, 225, 138, 99, 194, 78, 168, 122, 156,
    143, 184, 255, 11], rfl⟩

def passkey : BytesN 65 :=
  ⟨[4, 178, 118, 203, 197, 82, 189, 42, 135, 157, 115, 175, 243, 234, 29, 41, 229, 86, 71, 1, 68,
    97, 63, 249, 148, 153, 191, 55, 48, 64, 136, 83, 59, 185, 42, 2, 221, 241, 104, 173, 213, 15,
    197, 243, 232, 250, 20, 164, 210, 143, 172, 31, 12, 187, 246, 221, 35, 32, 201, 189, 176, 5,
    159, 40, 47], rfl⟩

def authenticatorData : Bytes := [1]

/-- The text "{}". -/
def clientDataJson : Bytes := [123, 125]

def clientDataHash : BytesN 32 :=
  ⟨[68, 19, 111, 163, 85, 179, 103, 138, 17, 70, 173, 22, 247, 232, 100, 158, 148, 251, 79, 194,
    31, 231, 126, 131, 16, 192, 96, 246, 28, 170, 255, 138], rfl⟩

/-- The digest of the authenticator data and the hash of the client data. -/
def digest : BytesN 32 :=
  ⟨[219, 54, 164, 191, 247, 88, 4, 154, 184, 227, 225, 134, 45, 156, 101, 151, 10, 17, 226, 30,
    122, 65, 77, 197, 241, 32, 77, 128, 39, 128, 9, 55], rfl⟩

/-- The Secp256r1 signature of the digest. -/
def passkeySignature : BytesN 64 :=
  ⟨[3, 177, 99, 247, 12, 53, 84, 99, 161, 231, 190, 251, 227, 204, 232, 191, 196, 157, 75, 142, 69,
    218, 32, 149, 21, 235, 227, 0, 71, 44, 89, 249, 110, 238, 122, 86, 101, 247, 24, 243, 163, 150,
    255, 165, 222, 218, 17, 11, 226, 72, 255, 181, 227, 41, 228, 233, 182, 255, 85, 129, 155, 201,
    219, 106], rfl⟩

def crypto : Crypto where
  sha256 b :=
    if b = clientDataJson then clientDataHash
    else if b = authenticatorData ++ clientDataHash.toList then digest
    else List.Vector.replicate 32 0
  ed25519Verify pk m sig := pk = publicKey && m = payload.toList && sig = signature
  secp256r1Verify pk d sig := pk = passkey && d = digest && sig = passkeySignature

def account : Account where
  crypto := crypto
  address := .contract (List.Vector.replicate 32 1)

def admin : Signer := .ed25519 ⟨publicKey⟩ .admin

/-- An admin that signs with a passkey. -/
def passkeyAdmin : Signer := .secp256r1 ⟨[1], passkey⟩ .admin

def deployment : Deployment where
  timestamp := 0
  wasm := List.Vector.replicate 32 0
  signers := [admin]

def state : State := Initializable.marked (added (created deployment.wasm) admin)

theorem deploy_deployment : account.deploy deployment = .ok (⟨⟩, state) :=
  Account.deploy_ok_iff.mpr ⟨by decide, rfl⟩

def passkeyDeployment : Deployment where
  timestamp := 0
  wasm := List.Vector.replicate 32 0
  signers := [passkeyAdmin]

def passkeyState : State :=
  Initializable.marked (added (created passkeyDeployment.wasm) passkeyAdmin)

theorem deploy_passkeyDeployment : account.deploy passkeyDeployment = .ok (⟨⟩, passkeyState) :=
  Account.deploy_ok_iff.mpr ⟨by decide, rfl⟩

theorem signers_passkeyState : signers passkeyState passkeyAdmin.key = some passkeyAdmin := by
  rw [passkeyState, signers_marked, signers_added, Table.set_self]

def passkeyProof : SignerProof :=
  .secp256r1 ⟨authenticatorData, clientDataJson, passkeySignature⟩

def passkeyProofs : SignatureProofs := ⟨.ofList [(passkeyAdmin.key, passkeyProof)]⟩

theorem toList_passkeyProofs :
    passkeyProofs.proofs.toList = [(passkeyAdmin.key, passkeyProof)] := rfl

def proofs : SignatureProofs := ⟨.ofList [(admin.key, SignerProof.ed25519 signature)]⟩

theorem toList_proofs : proofs.proofs.toList = [(admin.key, .ed25519 signature)] := rfl

/-- The admin's invocation of an operation. -/
def invoke (op : Operation) : Invocation where
  timestamp := 0
  wasmExists _ := true
  auth := some ⟨payload, proofs, [op.context account.address]⟩
  call := .operation op

/-- The admin adds the passkey with a role. -/
def addPasskey (role : SignerRole) : Invocation :=
  invoke (.addSigner (.secp256r1 ⟨[1], passkey⟩ role))

/-- A direct call of `__check_auth` with the admin's proof. -/
def check (contexts : List Context) : Invocation where
  timestamp := 0
  wasmExists _ := true
  auth := none
  call := .checkAuth payload proofs contexts

theorem authorizes_invoke (op : Operation) {s : State} (h : signers s admin.key = some admin) :
    account.authorizes (invoke op) op s = true := by
  have hverifies : admin.hostVerifies crypto payload (.ed25519 signature) = true := by decide
  refine authorizes_iff.mpr ⟨_, rfl, List.mem_singleton_self _, accepts_iff.mpr ?_⟩
  change Accepts _ payload (signers s) proofs.proofs.toList _
  rw [toList_proofs]
  refine ⟨List.cons_ne_nil _ _, fun entry hentry => ?_, fun context _ => ?_⟩
  · rw [List.mem_singleton.mp hentry]
    exact ⟨admin, h, hverifies⟩
  · exact ⟨_, List.mem_singleton_self _, admin, h, rfl⟩

theorem signers_state : signers state admin.key = some admin := by
  rw [state, signers_marked, signers_added, Table.set_self]

end Sample
end StellarSmartAccount.SmartAccount
