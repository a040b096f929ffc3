import StellarSmartAccount.Account.Error

/-! # Policies and roles

A role decides whether its signer may authorize one context. An administrative
operation is a call on the account itself: only an admin authorizes it, and a
restricted signer additionally needs the consent of each of its policies.
-/

namespace StellarSmartAccount
open Soroban

structure TimeBasedPolicy where
  notBefore : UInt64
  notAfter : UInt64
  deriving DecidableEq

structure ContractDenyListPolicy where
  deniedContracts : List Address
  deriving DecidableEq

structure ContractAllowListPolicy where
  allowedContracts : List Address
  deriving DecidableEq

namespace TimeBasedPolicy

def isAuthorized (self : TimeBasedPolicy) (env : Env) (_context : Context) : Bool :=
  self.notBefore ≤ env.timestamp && env.timestamp ≤ self.notAfter

def check (self : TimeBasedPolicy) (env : Env) : Except Error Unit := do
  if self.notAfter < env.timestamp then
    throw .invalidNotAfterTime
  if self.notAfter < self.notBefore then
    throw .invalidTimeRange

end TimeBasedPolicy

namespace ContractDenyListPolicy

def isAuthorized (self : ContractDenyListPolicy) (_env : Env) : Context → Bool
  | .contract c => !self.deniedContracts.contains c.contract
  | _ => true

def check (_self : ContractDenyListPolicy) (_env : Env) : Except Error Unit := .ok ()

end ContractDenyListPolicy

namespace ContractAllowListPolicy

def isAuthorized (self : ContractAllowListPolicy) (_env : Env) : Context → Bool
  | .contract c => self.allowedContracts.contains c.contract
  | _ => false

def check (self : ContractAllowListPolicy) (env : Env) : Except Error Unit := do
  if self.allowedContracts.contains env.currentContractAddress then
    throw .invalidPolicy

end ContractAllowListPolicy

inductive SignerPolicy where
  | timeBased (policy : TimeBasedPolicy)
  | contractDenyList (policy : ContractDenyListPolicy)
  | contractAllowList (policy : ContractAllowListPolicy)
  deriving DecidableEq

namespace SignerPolicy

def isAuthorized (self : SignerPolicy) (env : Env) (context : Context) : Bool :=
  match self with
  | .timeBased policy => policy.isAuthorized env context
  | .contractDenyList policy => policy.isAuthorized env context
  | .contractAllowList policy => policy.isAuthorized env context

def check (self : SignerPolicy) (env : Env) : Except Error Unit :=
  match self with
  | .timeBased policy => policy.check env
  | .contractDenyList policy => policy.check env
  | .contractAllowList policy => policy.check env

theorem timeBased_check_ok {p : TimeBasedPolicy} {env : Env}
    (h : (SignerPolicy.timeBased p).check env = .ok ()) : p.notBefore ≤ p.notAfter := by
  by_contra hn
  have hlt : p.notAfter < p.notBefore := UInt64.not_le.mp hn
  simp only [check, TimeBasedPolicy.check, hlt, if_true] at h
  split at h <;> cases h

theorem timeBased_check_not_ended {p : TimeBasedPolicy} {env : Env}
    (h : (SignerPolicy.timeBased p).check env = .ok ()) : env.timestamp ≤ p.notAfter := by
  by_contra hn
  have hlt : p.notAfter < env.timestamp := UInt64.not_le.mp hn
  simp only [check, TimeBasedPolicy.check, hlt, if_true] at h
  cases h

theorem contractAllowList_check_ok {p : ContractAllowListPolicy} {env : Env}
    (h : (SignerPolicy.contractAllowList p).check env = .ok ()) :
    env.currentContractAddress ∉ p.allowedContracts := by
  intro hmem
  simp only [check, ContractAllowListPolicy.check, List.contains_iff_mem.mpr hmem] at h
  cases h

theorem check_error {p : SignerPolicy} {env : Env} {e : Error} (h : p.check env = .error e) :
    e = .invalidPolicy ∨ e = .invalidNotAfterTime ∨ e = .invalidTimeRange := by
  cases p with
  | timeBased policy =>
    simp only [check, TimeBasedPolicy.check] at h
    by_cases hended : policy.notAfter < env.timestamp
    · simp only [hended, if_true] at h
      cases h
      exact .inr (.inl rfl)
    · by_cases hrange : policy.notAfter < policy.notBefore
      · simp only [hended, hrange, if_true, if_false] at h
        cases h
        exact .inr (.inr rfl)
      · simp only [hended, hrange, if_false] at h
        cases h
  | contractDenyList policy => cases h
  | contractAllowList policy =>
    simp only [check, ContractAllowListPolicy.check] at h
    split at h <;> cases h
    exact .inl rfl

end SignerPolicy

inductive SignerRole where
  | admin
  | standard
  | restricted (policies : List SignerPolicy)
  deriving DecidableEq

namespace SignerRole

/-- A call on the account itself. -/
def isAdminOperation (env : Env) : Context → Bool
  | .contract c => c.contract = env.currentContractAddress
  | _ => false

def isAuthorized (self : SignerRole) (env : Env) (context : Context) : Bool :=
  match self with
  | .admin => true
  | .standard => !isAdminOperation env context
  | .restricted policies =>
    if isAdminOperation env context then false
    else policies.all (·.isAuthorized env context)

/-- The policies of a restricted role; the other roles carry none. -/
def policies : SignerRole → List SignerPolicy
  | .restricted policies => policies
  | _ => []

theorem mem_policies_iff {role : SignerRole} {policy : SignerPolicy} :
    policy ∈ role.policies ↔ ∃ policies, role = .restricted policies ∧ policy ∈ policies := by
  cases role <;> simp [policies]

/-- Only an admin role authorizes a call on the account itself. -/
theorem eq_admin_of_isAuthorized {role : SignerRole} {env : Env} {context : Context}
    (hop : isAdminOperation env context = true) (h : role.isAuthorized env context = true) :
    role = .admin := by
  cases role with
  | admin => rfl
  | standard => simp [isAuthorized, hop] at h
  | restricted policies => simp [isAuthorized, hop] at h

end SignerRole
end StellarSmartAccount
