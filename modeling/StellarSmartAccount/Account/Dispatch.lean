import StellarSmartAccount.Account.Auth.Canonical
import StellarSmartAccount.Account.Construction

/-! # Calls of the account by name

The host calls an entry point by its name with encoded arguments, and presents the same name
and arguments to the account when a signature is checked. The encodings of two operations
differ, so what is signed determines what is performed. Arguments that encode no value of the
parameter's type are refused when the call is made.
-/

namespace StellarSmartAccount.SmartAccount
open Foundations Soroban

namespace Operation

/-- The operation that a call performs, unless its name or an argument is refused. -/
def ofCall (func : Symbol) (args : List Val) : Option Operation :=
  match func, args with
  | "add_signer", [signer] => (tryFromVal signer).map .addSigner
  | "update_signer", [signer] => (tryFromVal signer).map .updateSigner
  | "revoke_signer", [signerKey] => (tryFromVal signerKey).map .revokeSigner
  | "upgrade", [newWasmHash] => (tryFromVal newWasmHash).map .upgrade
  | _, _ => none

variable {op op' : Operation} {func : Symbol} {args : List Val} {address address' : Address}

theorem ofCall_fnName_args (op : Operation) : ofCall op.fnName op.args = some op := by
  cases op with
  | addSigner signer => exact congrArg (Option.map addSigner) (LawfulVal.tryFromVal_intoVal signer)
  | updateSigner signer =>
    exact congrArg (Option.map updateSigner) (LawfulVal.tryFromVal_intoVal signer)
  | revokeSigner signerKey =>
    exact congrArg (Option.map revokeSigner) (LawfulVal.tryFromVal_intoVal signerKey)
  | upgrade newWasmHash =>
    exact congrArg (Option.map upgrade) (LawfulVal.tryFromVal_intoVal newWasmHash)

/-- A call performs the operation whose name and encoded arguments it carries. -/
theorem ofCall_eq_some_iff : ofCall func args = some op ↔ op.fnName = func ∧ op.args = args := by
  constructor
  · intro h
    unfold ofCall at h
    split at h
    case h_5 => cases h
    all_goals
      obtain ⟨a, ha, rfl⟩ := Option.map_eq_some_iff.mp h
      rw [tryFromVal_eq_some_iff] at ha
      subst ha
      exact ⟨rfl, rfl⟩
  · rintro ⟨rfl, rfl⟩
    exact ofCall_fnName_args op

theorem context_eq_iff :
    op.context address = .contract ⟨address', func, args⟩ ↔
      address = address' ∧ ofCall func args = some op := by
  rw [ofCall_eq_some_iff, context]
  simp

end Operation

/-- A call from outside; the host undoes one that aborts or returns an error. -/
def invoke (env : Env) (func : Symbol) (args : List Val) (s : State) : Option (Val × State) := do
  let op ← Operation.ofCall func args
  match (op.run env).exec s with
  | .ok (.ok _, s') => return (.scalar .void, s')
  | _ => none

section Invoke
variable {env : Env} {op : Operation} {s s' : State} {func : Symbol} {args : List Val} {v : Val}

theorem permitted_of_live (h : Live s) :
    permitted env s = env.authorizes env.currentContractAddress s := by
  rw [permitted, h.initialized]
  rfl

theorem run_exec_eq_ok_iff (h : Live s) :
    (op.run env).exec s = .ok (.ok ⟨⟩, s') ↔
      env.authorizes env.currentContractAddress s = true ∧ op.Enabled env.wasmExists s ∧
        s' = op.next s := by
  rw [← permitted_of_live h]
  cases op with
  | addSigner signer =>
    refine (Eq.congr_left (addSigner_exec h.represented env signer)).trans ?_
    cases hs : signers s signer.key <;> cases permitted env s <;>
      simp [Operation.Enabled, Operation.next, hs, eq_comm]
  | updateSigner signer =>
    refine (Eq.congr_left (updateSigner_exec h.represented env signer)).trans ?_
    cases hs : signers s signer.key <;> cases permitted env s <;>
      simp [Operation.Enabled, Operation.next, hs, eq_comm]
  | revokeSigner key =>
    refine (Eq.congr_left (revokeSigner_exec h.represented env key)).trans ?_
    cases hs : signers s key with
    | none => cases permitted env s <;> simp [Operation.Enabled, hs]
    | some signer =>
      by_cases hrole : signer.role = .admin <;> cases permitted env s <;>
        simp [Operation.Enabled, Operation.next, hs, hrole, eq_comm (a := s')]
  | upgrade hash =>
    rw [permitted_of_live h, Operation.run, Call.exec_lift]
    by_cases hauth : env.authorizes env.currentContractAddress s = true
    · rw [upgrade_exec_of_authorizes hauth]
      cases hwasm : env.wasmExists hash <;>
        simp [Operation.Enabled, Operation.next, hwasm, hauth, Except.map, eq_comm]
    · rw [upgrade_exec_of_not_authorizes hauth]
      simp [hauth, Except.map]

/-- A call from outside changes a live account by one authorized and enabled operation. -/
theorem invoke_eq_some_iff (h : Live s) :
    invoke env func args s = some (v, s') ↔
      ∃ op, Operation.ofCall func args = some op ∧
        env.authorizes env.currentContractAddress s = true ∧ op.Enabled env.wasmExists s ∧
        v = .scalar .void ∧ s' = op.next s := by
  rw [invoke, Option.bind_eq_bind, Option.bind_eq_some_iff]
  refine exists_congr fun op => and_congr_right fun _ => ?_
  constructor
  · intro hmatch
    split at hmatch
    · next hexec =>
      cases hmatch
      obtain ⟨hauth, henabled, rfl⟩ := (run_exec_eq_ok_iff h).mp hexec
      exact ⟨hauth, henabled, rfl, rfl⟩
    · cases hmatch
  · rintro ⟨hauth, henabled, rfl, rfl⟩
    rw [(run_exec_eq_ok_iff h).mpr ⟨hauth, henabled, rfl⟩]
    rfl

end Invoke

section Signed
variable {account : Account} {inv : Invocation} {op : Operation} {s : State}

/-- The state after a list of operations. -/
def performAll (s : State) (ops : List Operation) : State := ops.foldl Operation.next s

theorem performAll_append (s : State) (ops ops' : List Operation) :
    performAll s (ops ++ ops') = performAll (performAll s ops) ops' := List.foldl_append

theorem signers_performAll (u : State) (ops : List Operation) :
    signers (performAll u ops) = (signers u).writeAll (ops.flatMap Operation.writes) := by
  induction ops generalizing u with
  | nil => rfl
  | cons op ops ih =>
    rw [List.flatMap_cons, Table.writeAll_append, ← signers_next]
    exact ih (op.next u)

/-- The operation that an answered invocation performed. -/
def performed (answered : Invocation × Response) : List Operation :=
  match answered.1.call, answered.2 with
  | .operation op, .ok (.ok _) => [op]
  | _, _ => []

end Signed

end StellarSmartAccount.SmartAccount
