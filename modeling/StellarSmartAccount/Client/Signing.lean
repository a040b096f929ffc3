import Mathlib.Data.Char
import Mathlib.Data.List.Lex
import StellarSmartAccount.Account.Auth.Proof
import StellarSmartAccount.Account.Batch
import StellarSmartAccount.Foundations.Resorting

/-! # Signing of authorization entries by a client

A client signs the hash of an entry and puts its proof into the map that the entry carries;
several clients sign one after another. The map is sorted by the digits of the keys' bytes,
while the host takes it only in the order of the bytes themselves. What a host and an account
make of the entry is therefore determined by the keys, their roles and these two orders.
-/

namespace StellarSmartAccount.Client
open Foundations Soroban SmartAccount

/-- What the client throws: an error of its own, or one of the libraries that it calls on a
value out of range. -/
inductive SigningError where
  | error (message : String)
  | invalidValue
  deriving DecidableEq

structure Keypair where
  rawPublicKey : Bytes
  sign : BytesN 32 → Bytes

/-- The signature that an entry carries: none yet, the vector with the map of the proofs so
far, or a value that the client does not support. Vectors of other shapes, which no client
writes, are left out. -/
inductive EntrySignature where
  | void
  | vec (proofs : List (SignerKey × SignerProof))
  | unsupported (v : Val) (hvoid : v ≠ .scalar .void) (hvec : ∀ vs, v ≠ .vec vs)

def EntrySignature.toVal : EntrySignature → Val
  | .void => .scalar .void
  | .vec proofs => proofsVal proofs
  | .unsupported v _ _ => v

/-- An authorization entry with the credentials of an address. -/
structure AuthorizationEntry where
  nonce : Int64
  signatureExpirationLedger : UInt32
  signature : EntrySignature
  rootInvocation : List Context

/-- The expiration that an entry has or gets: about five minutes after the latest ledger. -/
def expirationLedger (sequence : ℕ) (entry : AuthorizationEntry) : Except SigningError UInt32 :=
  let expiration := if entry.signatureExpirationLedger = 0 then sequence + 300 / 5
    else entry.signatureExpirationLedger.toNat
  if expiration < UInt32.size then .ok (.ofNat expiration) else .error .invalidValue

/-- The signer's key and its proof for a hash. -/
def signerEntry (signerKeypair : Keypair) (payload : BytesN 32) :
    Except SigningError (SignerKey × SignerProof) :=
  let signature := signerKeypair.sign payload
  let rawPublicKey := signerKeypair.rawPublicKey
  if hkey : rawPublicKey.length = 32 then
    if hsignature : signature.length = 64 then
      .ok (.ed25519 ⟨rawPublicKey, hkey⟩, .ed25519 ⟨signature, hsignature⟩)
    else .error (.error ("Invalid signature. It should be 64 bytes long, but is " ++
      toString signature.length))
  else .error (.error ("Invalid public key. It should be 32 bytes long, but is " ++
    toString rawPublicKey.length))

/-- The external representation of a host value of bytes: its type, its length and the bytes,
filled up to a multiple of four. -/
def bytesToXdr (b : Bytes) : Bytes :=
  [0, 0, 0, 13] ++ [24, 16, 8, 0].map (fun shift => .ofNat (b.length >>> shift)) ++ b ++
    List.replicate ((4 - b.length % 4) % 4) 0

/-- The decimal numbers of the bytes without a separator. -/
def joined (b : Bytes) : List Char := b.flatMap fun byte => Nat.toDigits 10 byte.toNat

/-- What an entry is sorted by: the tag and the second component of its key. -/
def keyText : SignerKey → List Char
  | .ed25519 publicKey => "Ed25519".toList ++ joined (bytesToXdr publicKey.toList)
  | .secp256r1 keyId => "Secp256r1".toList ++ joined (bytesToXdr keyId)

/-- The client's order of entries. -/
def SortsBefore (a b : SignerKey × SignerProof) : Prop := keyText a.1 ≤ keyText b.1

instance : DecidableRel SortsBefore :=
  fun a b => inferInstanceAs (Decidable (keyText a.1 ≤ keyText b.1))

instance : Std.Total SortsBefore := ⟨fun a b => le_total (keyText a.1) (keyText b.1)⟩

instance : IsTrans (SignerKey × SignerProof) SortsBefore := ⟨fun _ _ _ => le_trans⟩

/-- Put an entry into the map of a signature, which the first signer creates. -/
def addSignature (entry : SignerKey × SignerProof) :
    EntrySignature → Except SigningError EntrySignature
  | .void => .ok (.vec [entry])
  | .vec proofs => .ok (.vec ((proofs ++ [entry]).insertionSort SortsBefore))
  | .unsupported _ _ _ => .error (.error "Unsupported signature")

/-- The callback of `authorizeWithSmartAccount` that signs an entry. -/
def authorizeEntry (signaturePayload : Int64 → UInt32 → List Context → BytesN 32) (sequence : ℕ)
    (signerKeypair : Keypair) (entry : AuthorizationEntry) :
    Except SigningError AuthorizationEntry := do
  let expiration ← expirationLedger sequence entry
  let payload := signaturePayload entry.nonce expiration entry.rootInvocation
  let signed ← signerEntry signerKeypair payload
  let signature ← addSignature signed entry.signature
  return { entry with signatureExpirationLedger := expiration, signature }

/-- A key pair whose signatures the host verifies. -/
structure Signatory (crypto : Crypto) where
  publicKey : BytesN 32
  sign : BytesN 32 → BytesN 64
  verifies : ∀ payload, crypto.ed25519Verify publicKey payload.toList (sign payload) = true

namespace Signatory
variable {crypto : Crypto}

def keypair (signatory : Signatory crypto) : Keypair where
  rawPublicKey := signatory.publicKey.toList
  sign payload := (signatory.sign payload).toList

def key (signatory : Signatory crypto) : SignerKey := .ed25519 signatory.publicKey

def proof (signatory : Signatory crypto) (payload : BytesN 32) : SignerKey × SignerProof :=
  (signatory.key, .ed25519 (signatory.sign payload))

theorem signerEntry_keypair (signatory : Signatory crypto) (payload : BytesN 32) :
    signerEntry signatory.keypair payload = .ok (signatory.proof payload) := by
  have hkey : signatory.keypair.rawPublicKey.length = 32 := signatory.publicKey.toList_length
  have hsignature : (signatory.keypair.sign payload).length = 64 :=
    (signatory.sign payload).toList_length
  rw [signerEntry, dif_pos hkey, dif_pos hsignature]
  rfl

end Signatory

/-- Signers sign one after another, each with its own view of the latest ledger. -/
def authorizeAll (host : HostedAccount) (signings : List (ℕ × Signatory host.crypto))
    (entry : AuthorizationEntry) : Except SigningError AuthorizationEntry :=
  signings.foldlM (fun entry signing =>
    authorizeEntry host.signaturePayload signing.1 signing.2.keypair entry) entry

/-- What the host hands to the account, if the signature is a proof map in its order. -/
def AuthorizationEntry.received (entry : AuthorizationEntry) : Option SignedEntry :=
  (tryFromVal entry.signature.toVal).map fun proofs =>
    ⟨entry.nonce, entry.signatureExpirationLedger, entry.rootInvocation, proofs⟩

section Turn
variable {host : HostedAccount} {entry : AuthorizationEntry} {expiration : UInt32}

theorem expirationLedger_of_ne_zero (sequence : ℕ) (h : entry.signatureExpirationLedger ≠ 0) :
    expirationLedger sequence entry = .ok entry.signatureExpirationLedger := by
  rw [expirationLedger]
  simp only [if_neg h]
  rw [if_pos entry.signatureExpirationLedger.toNat_lt, UInt32.ofNat_toNat]

theorem expirationLedger_ne_zero {sequence : ℕ}
    (h : expirationLedger sequence entry = .ok expiration) : expiration ≠ 0 := by
  by_cases hset : entry.signatureExpirationLedger = 0
  · rw [expirationLedger] at h
    simp only [if_pos hset] at h
    split_ifs at h with hrange
    cases h
    intro hzero
    have hnat := congrArg UInt32.toNat hzero
    rw [UInt32.toNat_ofNat_of_lt' hrange] at hnat
    simp at hnat
  · rw [expirationLedger_of_ne_zero sequence hset] at h
    cases h
    exact hset

/-- The hash that is signed for an entry with an expiration. -/
def payload (host : HostedAccount) (entry : AuthorizationEntry) (expiration : UInt32) : BytesN 32 :=
  host.signaturePayload entry.nonce expiration entry.rootInvocation

theorem authorizeEntry_eq {sequence : ℕ} {signature : EntrySignature}
    (signatory : Signatory host.crypto)
    (hexpiration : expirationLedger sequence entry = .ok expiration)
    (hadd : addSignature (signatory.proof (payload host entry expiration)) entry.signature =
      .ok signature) :
    authorizeEntry host.signaturePayload sequence signatory.keypair entry =
      .ok { entry with signatureExpirationLedger := expiration, signature } := by
  have hsigned := signatory.signerEntry_keypair (payload host entry expiration)
  rw [payload] at hsigned hadd
  simp only [authorizeEntry, hexpiration, hsigned, hadd, bind, Except.bind]
  rfl

/-- The proofs of the signers for an entry with an expiration. -/
def proofsFor (host : HostedAccount) (entry : AuthorizationEntry) (expiration : UInt32)
    (signings : List (ℕ × Signatory host.crypto)) : List (SignerKey × SignerProof) :=
  signings.map fun signing => signing.2.proof (payload host entry expiration)

/-- Every signer signs the same hash, so the map collects proofs for the entry as it leaves. -/
theorem authorizeAll_vec (h : entry.signatureExpirationLedger ≠ 0)
    {entries : List (SignerKey × SignerProof)} (hsignature : entry.signature = .vec entries)
    (signings : List (ℕ × Signatory host.crypto)) :
    authorizeAll host signings entry = .ok { entry with
      signature := .vec (Resorting.pushAll SortsBefore entries
        (proofsFor host entry entry.signatureExpirationLedger signings)) } := by
  induction signings generalizing entry entries with
  | nil =>
    change Except.ok entry = .ok { entry with signature := .vec entries }
    rw [← hsignature]
  | cons signing signings ih =>
    have hfirst := authorizeEntry_eq signing.2 (expirationLedger_of_ne_zero signing.1 h)
      (congrArg (addSignature _) hsignature)
    rw [authorizeAll, List.foldlM_cons, hfirst]
    refine ih ?_ ?_
    · exact h
    · rfl

theorem authorizeAll_void (hsignature : entry.signature = .void)
    {first : ℕ × Signatory host.crypto} {rest : List (ℕ × Signatory host.crypto)}
    (hexpiration : expirationLedger first.1 entry = .ok expiration) :
    authorizeAll host (first :: rest) entry = .ok { entry with
      signatureExpirationLedger := expiration
      signature := .vec (Resorting.pushAll SortsBefore []
        (proofsFor host entry expiration (first :: rest))) } := by
  have hadd : addSignature (first.2.proof (payload host entry expiration)) entry.signature =
      .ok (.vec [first.2.proof (payload host entry expiration)]) := by
    rw [hsignature]
    rfl
  rw [authorizeAll, List.foldlM_cons, authorizeEntry_eq first.2 hexpiration hadd]
  refine authorizeAll_vec ?_ ?_ rest
  · exact expirationLedger_ne_zero hexpiration
  · rfl

end Turn

/-- The digits of two keys are in the same order as their bytes; the first signer's entry stays
in front if the digits agree. -/
def OrderedAlike (a b : BytesN 32) : Prop :=
  joined a.toList ≤ joined b.toList ∧ compare a.toList b.toList = .lt ∨
    ¬ joined a.toList ≤ joined b.toList ∧ compare b.toList a.toList = .lt

instance : DecidableRel OrderedAlike := fun a b => inferInstanceAs
  (Decidable (joined a.toList ≤ joined b.toList ∧ compare a.toList b.toList = .lt ∨
    ¬ joined a.toList ≤ joined b.toList ∧ compare b.toList a.toList = .lt))

theorem append_le_append_iff (p a b : List Char) : p ++ a ≤ p ++ b ↔ a ≤ b := by
  constructor
  · intro h
    by_contra hlt
    exact absurd h (not_le.mpr (List.append_left_lt (not_le.mp hlt)))
  · intro h
    rcases h.lt_or_eq with hlt | rfl
    · exact (List.append_left_lt hlt).le
    · exact le_rfl

theorem joined_append (b b' : Bytes) : joined (b ++ b') = joined b ++ joined b' :=
  List.flatMap_append

/-- The representations of two public keys differ in their bytes only. -/
theorem joined_bytesToXdr (publicKey : BytesN 32) : joined (bytesToXdr publicKey.toList) =
    joined [0, 0, 0, 13, 0, 0, 0, 32] ++ joined publicKey.toList := by
  have hlength : ([24, 16, 8, 0].map fun shift => UInt8.ofNat (32 >>> shift)) = [0, 0, 0, 32] := by
    decide
  have hpadding : List.replicate ((4 - 32 % 4) % 4) (0 : UInt8) = [] := rfl
  rw [bytesToXdr, publicKey.toList_length, hlength, hpadding, List.append_nil, joined_append]
  rfl

theorem agrees_iff {crypto : Crypto} (a b : Signatory crypto) (hash : BytesN 32) :
    Resorting.Agrees SortsBefore KeyBefore (a.proof hash) (b.proof hash) ↔
      OrderedAlike a.publicKey b.publicKey := by
  have hsorts : SortsBefore (a.proof hash) (b.proof hash) ↔
      joined a.publicKey.toList ≤ joined b.publicKey.toList := by
    change "Ed25519".toList ++ joined (bytesToXdr a.publicKey.toList) ≤
      "Ed25519".toList ++ joined (bytesToXdr b.publicKey.toList) ↔ _
    rw [append_le_append_iff, joined_bytesToXdr, joined_bytesToXdr, append_le_append_iff]
  rw [Resorting.Agrees, hsorts]
  rfl

section Authentication
variable {host : HostedAccount} {entry : AuthorizationEntry} {expiration : UInt32} {s : State}
  {signings : List (ℕ × Signatory host.crypto)}

theorem mem_proofsFor {proof : SignerKey × SignerProof} :
    proof ∈ proofsFor host entry expiration signings ↔
      ∃ signing ∈ signings, signing.2.proof (payload host entry expiration) = proof :=
  List.mem_map

theorem verified_iff (hlive : Live s) {signatory : Signatory host.crypto} {hash : BytesN 32} :
    (∃ signer, signers s (signatory.proof hash).1 = some signer ∧
      signer.hostVerifies host.crypto hash (signatory.proof hash).2 = true) ↔
      (signers s signatory.key).isSome = true := by
  constructor
  · rintro ⟨signer, hsigner, -⟩
    exact Option.isSome_iff_exists.mpr ⟨signer, hsigner⟩
  · intro hstored
    obtain ⟨signer, hsigner⟩ := Option.isSome_iff_exists.mp hstored
    refine ⟨signer, hsigner, ?_⟩
    have hkey : signer.key = .ed25519 signatory.publicKey := hlive.represented.key_eq hsigner
    cases signer with
    | ed25519 signer role =>
      obtain ⟨publicKey⟩ := signer
      cases hkey
      exact signatory.verifies hash
    | secp256r1 signer role => cases hkey

theorem accepts_proofs_iff (hlive : Live s) (hne : signings ≠ [])
    {proofs : List (SignerKey × SignerProof)}
    (hproofs : proofs.Perm (proofsFor host entry expiration signings)) (timestamp : UInt64) :
    Accepts (host.checkEnv timestamp) (payload host entry expiration) (signers s) proofs
        entry.rootInvocation ↔
      (∀ signing ∈ signings, (signers s signing.2.key).isSome = true) ∧
        ∀ context ∈ entry.rootInvocation, ∃ signing ∈ signings, ∃ signer,
          signers s signing.2.key = some signer ∧
            signer.role.isAuthorized (host.checkEnv timestamp) context = true := by
  constructor
  · intro haccepts
    constructor
    · intro signing hsigning
      exact (verified_iff hlive).mp
        (haccepts.verified _ (hproofs.mem_iff.mpr (mem_proofsFor.mpr ⟨signing, hsigning, rfl⟩)))
    · intro context hcontext
      obtain ⟨proof, hproof, signer, hsigner, hauthorized⟩ := haccepts.authorized context hcontext
      obtain ⟨signing, hsigning, rfl⟩ := mem_proofsFor.mp (hproofs.mem_iff.mp hproof)
      exact ⟨signing, hsigning, signer, hsigner, hauthorized⟩
  · rintro ⟨hstored, hauthorized⟩
    refine ⟨?_, fun proof hproof => ?_, fun context hcontext => ?_⟩
    · rintro rfl
      exact hne (List.map_eq_nil_iff.mp hproofs.symm.eq_nil)
    · obtain ⟨signing, hsigning, rfl⟩ := mem_proofsFor.mp (hproofs.mem_iff.mp hproof)
      exact (verified_iff hlive).mpr (hstored signing hsigning)
    · obtain ⟨signing, hsigning, signer, hsigner, hrole⟩ := hauthorized context hcontext
      exact ⟨_, hproofs.mem_iff.mpr (mem_proofsFor.mpr ⟨signing, hsigning, rfl⟩), signer,
        hsigner, hrole⟩

/-- The host takes the map of the clients exactly if their keys are ordered alike. -/
theorem pairwise_proofsFor_iff (entry : AuthorizationEntry) (expiration : UInt32) :
    (Resorting.pushAll SortsBefore [] (proofsFor host entry expiration signings)).Pairwise
        KeyBefore ↔
      signings.Pairwise fun a b => OrderedAlike a.2.publicKey b.2.publicKey := by
  rw [Resorting.pairwise_pushAll_iff, proofsFor, List.pairwise_map]
  simp only [agrees_iff]

theorem authenticates_iff {t : HostedState} (hlive : Live t.account) (hne : signings ≠ [])
    {proofs : List (SignerKey × SignerProof)}
    (hproofs : proofs.Perm (proofsFor host entry expiration signings))
    (hordered : proofs.Pairwise KeyBefore) (sub : Submission) :
    host.authenticates { sub with entry :=
        ⟨entry.nonce, expiration, entry.rootInvocation, ⟨.ofList proofs compare⟩⟩ } t = true ↔
      t.nonces.admits host.expirationLimit ⟨entry.nonce, expiration.toNat⟩
        (t.ledgerSequence + sub.elapsed) = true ∧
        (∀ signing ∈ signings, (signers t.account signing.2.key).isSome = true) ∧
        ∀ context ∈ entry.rootInvocation, ∃ signing ∈ signings, ∃ signer,
          signers t.account signing.2.key = some signer ∧
            signer.role.isAuthorized (host.checkEnv sub.timestamp) context = true := by
  have haccepts := accepts_proofs_iff hlive hne hproofs sub.timestamp
  rw [← toList_ofList hordered] at haccepts
  rw [HostedAccount.authenticates, Bool.and_eq_true, accepts_iff]
  exact and_congr_right' haccepts

theorem authorizeAll_eq_ok_iff (hunsigned : entry.signature = .void)
    {first : ℕ × Signatory host.crypto} {rest : List (ℕ × Signatory host.crypto)}
    {signed : AuthorizationEntry} :
    authorizeAll host (first :: rest) entry = .ok signed ↔
      ∃ expiration, expirationLedger first.1 entry = .ok expiration ∧ signed = { entry with
        signatureExpirationLedger := expiration
        signature := .vec (Resorting.pushAll SortsBefore []
          (proofsFor host entry expiration (first :: rest))) } := by
  constructor
  · intro hsigned
    cases hexpiration : expirationLedger first.1 entry with
    | error e =>
      rw [authorizeAll, List.foldlM_cons, authorizeEntry, hexpiration] at hsigned
      cases hsigned
    | ok expiration =>
      rw [authorizeAll_void hunsigned hexpiration] at hsigned
      exact ⟨expiration, rfl, (Except.ok.inj hsigned).symm⟩
  · rintro ⟨expiration, hexpiration, rfl⟩
    exact authorizeAll_void hunsigned hexpiration

/-- An entry that any number of clients have signed in turn is authenticated in a reachable
state exactly if the host admits its nonce until the first signer's expiration, the digits of
the public keys are in the order of their bytes, all keys are stored and each invocation is
authorized by the role of one of them. -/
theorem signed_entry_authenticates_iff {d : Deployment} (h : host.deploy d = .ok (⟨⟩, s))
    (nonces : Register Int64) (ledgerSequence : ℕ) (subs : List Submission)
    (hunsigned : entry.signature = .void) (signings : List (ℕ × Signatory host.crypto))
    (sub : Submission) :
    (∃ signed received, authorizeAll host signings entry = .ok signed ∧
        signed.received = some received ∧ host.authenticates { sub with entry := received }
          (host.machine.final ⟨s, nonces, ledgerSequence⟩ subs) = true) ↔
      ∃ first rest expiration, signings = first :: rest ∧
        expirationLedger first.1 entry = .ok expiration ∧
        (host.machine.final ⟨s, nonces, ledgerSequence⟩ subs).nonces.admits host.expirationLimit
          ⟨entry.nonce, expiration.toNat⟩
          ((host.machine.final ⟨s, nonces, ledgerSequence⟩ subs).ledgerSequence + sub.elapsed) =
            true ∧
        (signings.Pairwise fun a b => OrderedAlike a.2.publicKey b.2.publicKey) ∧
        (∀ signing ∈ signings, (signers
          (host.machine.final ⟨s, nonces, ledgerSequence⟩ subs).account signing.2.key).isSome =
            true) ∧
        ∀ context ∈ entry.rootInvocation, ∃ signing ∈ signings, ∃ signer,
          signers (host.machine.final ⟨s, nonces, ledgerSequence⟩ subs).account signing.2.key =
            some signer ∧
          signer.role.isAuthorized (host.checkEnv sub.timestamp) context = true := by
  have hdeployed : Live (HostedState.account ⟨s, nonces, ledgerSequence⟩) := live_of_deploy h
  have hlive : Live (host.machine.final ⟨s, nonces, ledgerSequence⟩ subs).account :=
    live_final hdeployed subs
  generalize host.machine.final ⟨s, nonces, ledgerSequence⟩ subs = t at hlive ⊢
  cases signings with
  | nil =>
    constructor
    · rintro ⟨signed, received, hsigned, hreceived, -⟩
      cases hsigned
      rw [AuthorizationEntry.received, hunsigned] at hreceived
      cases hreceived
    · rintro ⟨first, rest, expiration, ⟨⟩, -⟩
  | cons first rest =>
    have hproofs := fun expiration => Resorting.perm_pushAll SortsBefore []
      (proofsFor host entry expiration (first :: rest))
    constructor
    · rintro ⟨signed, received, hsigned, hreceived, hauth⟩
      obtain ⟨expiration, hexpiration, rfl⟩ := (authorizeAll_eq_ok_iff hunsigned).mp hsigned
      obtain ⟨proofs, hread, rfl⟩ := Option.map_eq_some_iff.mp hreceived
      obtain ⟨hordered, rfl⟩ := tryFromVal_proofsVal_iff.mp hread
      obtain ⟨hadmits, hstored, hauthorized⟩ := (authenticates_iff hlive
        (List.cons_ne_nil first rest) (hproofs expiration) hordered sub).mp hauth
      exact ⟨first, rest, expiration, rfl, hexpiration, hadmits,
        (pairwise_proofsFor_iff entry expiration).mp hordered, hstored, hauthorized⟩
    · rintro ⟨_, _, expiration, ⟨⟩, hexpiration, hadmits, halike, hstored, hauthorized⟩
      have hordered := (pairwise_proofsFor_iff entry expiration).mpr halike
      refine ⟨_, _, (authorizeAll_eq_ok_iff hunsigned).mpr ⟨expiration, hexpiration, rfl⟩,
        Option.map_eq_some_iff.mpr ⟨_, tryFromVal_proofsVal_iff.mpr ⟨hordered, rfl⟩, rfl⟩, ?_⟩
      exact (authenticates_iff hlive (List.cons_ne_nil first rest) (hproofs expiration)
        hordered sub).mpr ⟨hadmits, hstored, hauthorized⟩

/-- Two signers whose keys begin with the bytes 1 and 2 can sign together, with 9 and 10 not. -/
example : OrderedAlike (1 ::ᵥ .replicate 31 0) (2 ::ᵥ .replicate 31 0) ∧
    ¬ OrderedAlike (9 ::ᵥ .replicate 31 0) (10 ::ᵥ .replicate 31 0) ∧
    ¬ OrderedAlike (10 ::ᵥ .replicate 31 0) (9 ::ᵥ .replicate 31 0) := by
  decide

end Authentication

namespace Sample

/-- The key pair of the sample admin. -/
def signatory : Signatory SmartAccount.Sample.signing.crypto where
  publicKey := SmartAccount.Sample.publicKey
  sign hash := if hash.toList = SmartAccount.Sample.payload.toList then
    SmartAccount.Sample.signature else List.Vector.replicate 64 0
  verifies _ := decide_eq_true rfl

/-- The addition of a passkey, as it comes from the simulation. -/
def entry : AuthorizationEntry where
  nonce := 0
  signatureExpirationLedger := 0
  signature := .void
  rootInvocation := [(Operation.addSigner SmartAccount.Sample.passkeyAdmin).context
    SmartAccount.Sample.account.address]

end Sample

/-- The entry that the sample admin signs is authenticated. -/
theorem sample_signed_entry_authenticates_iff :
    ∃ signed received, authorizeAll SmartAccount.Sample.signing [(0, Sample.signatory)]
        Sample.entry = .ok signed ∧ signed.received = some received ∧
      SmartAccount.Sample.signing.authenticates
        { SmartAccount.Sample.used SmartAccount.Sample.proofs with entry := received }
        (SmartAccount.Sample.signing.machine.final
          ⟨SmartAccount.Sample.state, Table.empty, 0⟩ []) = true := by
  refine (signed_entry_authenticates_iff SmartAccount.Sample.deploy_signing Table.empty 0 [] rfl
    [(0, Sample.signatory)] (SmartAccount.Sample.used SmartAccount.Sample.proofs)).mpr
    ⟨_, [], 60, rfl, rfl, by decide, List.pairwise_singleton _ _, ?_, ?_⟩
  · intro signing hsigning
    rw [List.mem_singleton.mp hsigning]
    exact Option.isSome_iff_exists.mpr ⟨_, SmartAccount.Sample.signers_state⟩
  · intro context _
    exact ⟨_, List.mem_singleton_self _, _, SmartAccount.Sample.signers_state, rfl⟩

end StellarSmartAccount.Client
