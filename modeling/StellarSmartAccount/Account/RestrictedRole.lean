import Mathlib.Data.Finset.Lattice.Fold
import Mathlib.Order.Interval.Set.Basic
import StellarSmartAccount.Account.Decision

/-! # Normal form of a restricted role

Whatever its policies and their order, a restricted role stands for one time window, the
intersection of its allow lists and the union of its deny lists, and never authorizes a
call on the account.
-/

namespace StellarSmartAccount.Foundations

variable {ι τ : Type*} [Lattice τ] [BoundedOrder τ]

/-- The window from the latest start to the earliest end. -/
def commonWindow (start stop : ι → τ) (s : Finset ι) : Set τ := Set.Icc (s.sup start) (s.inf stop)

variable {start stop : ι → τ} {s : Finset ι} {t now : τ}

theorem mem_commonWindow :
    t ∈ commonWindow start stop s ↔ ∀ i ∈ s, start i ≤ t ∧ t ≤ stop i := by
  simp only [commonWindow, Set.mem_Icc, Finset.sup_le_iff, Finset.le_inf_iff, forall_and]

/-- Windows that have not ended have a common time from now on exactly when the latest
starts no later than the earliest ends. -/
theorem exists_mem_commonWindow_iff (hnow : ∀ i ∈ s, now ≤ stop i) :
    (∃ t, now ≤ t ∧ t ∈ commonWindow start stop s) ↔ s.sup start ≤ s.inf stop := by
  constructor
  · rintro ⟨t, -, hstart, hstop⟩
    exact hstart.trans hstop
  · intro hle
    have hend : now ≤ s.inf stop := Finset.le_inf hnow
    exact ⟨now ⊔ s.sup start, le_sup_left, le_sup_right, sup_le hend hle⟩

end StellarSmartAccount.Foundations

namespace StellarSmartAccount
open Foundations SmartAccount Soroban

local instance timestampOrder : LinearOrder UInt64 where
  le_refl := UInt64.le_refl
  le_trans _ _ _ := UInt64.le_trans
  le_antisymm _ _ := UInt64.le_antisymm
  le_total := UInt64.le_total
  lt_iff_le_not_ge a b := by
    rw [UInt64.not_le]
    exact ⟨fun h => ⟨UInt64.le_of_lt h, h⟩, And.right⟩
  toDecidableLE := inferInstance

local instance timestampBounds : BoundedOrder UInt64 where
  bot := 0
  bot_le _ := UInt64.zero_le
  top := 0xffffffffffffffff
  le_top t := UInt64.le_iff_toNat_le.mpr (Nat.le_pred_of_lt t.toNat_lt)

namespace SignerRole
variable (policies : List SignerPolicy)

def windows : List TimeBasedPolicy :=
  policies.filterMap fun
    | .timeBased policy => some policy
    | _ => none

def allowLists : List (List Address) :=
  policies.filterMap fun
    | .contractAllowList policy => some policy.allowedContracts
    | _ => none

def denyLists : List (List Address) :=
  policies.filterMap fun
    | .contractDenyList policy => some policy.deniedContracts
    | _ => none

/-- The maximum of all `not_before`. -/
def latestStart : UInt64 := (windows policies).toFinset.sup TimeBasedPolicy.notBefore

/-- The minimum of all `not_after`. -/
def earliestEnd : UInt64 := (windows policies).toFinset.inf TimeBasedPolicy.notAfter

/-- The closed form of a restricted role. -/
structure NormalForm (env : Env) (context : Context) : Prop where
  notSelf : ¬ CallsAccount env.currentContractAddress context
  started : latestStart policies ≤ env.timestamp
  notEnded : env.timestamp ≤ earliestEnd policies
  allowed : allowLists policies ≠ [] →
    ∃ c, context = .contract c ∧ ∀ contracts ∈ allowLists policies, c.contract ∈ contracts
  notDenied : ∀ c, context = .contract c →
    ∀ contracts ∈ denyLists policies, c.contract ∉ contracts

variable {policies} {env : Env} {context : Context}

/-- The policies of one kind, read off by a partial inverse of its constructor. -/
theorem mem_filterMap_iff {α : Type} {read : SignerPolicy → Option α} (make : α → SignerPolicy)
    (h : ∀ policy a, read policy = some a ↔ policy = make a) {a : α} :
    a ∈ policies.filterMap read ↔ make a ∈ policies := by
  simp only [List.mem_filterMap, h, exists_eq_right]

theorem mem_windows {policy : TimeBasedPolicy} :
    policy ∈ windows policies ↔ .timeBased policy ∈ policies := by
  refine mem_filterMap_iff .timeBased fun p a => ?_
  cases p <;> simp

theorem mem_allowLists {contracts : List Address} :
    contracts ∈ allowLists policies ↔ .contractAllowList ⟨contracts⟩ ∈ policies := by
  refine mem_filterMap_iff (fun contracts => .contractAllowList ⟨contracts⟩) fun p a => ?_
  rcases p with ⟨_⟩ | ⟨_⟩ | ⟨⟨_⟩⟩ <;> simp

theorem mem_denyLists {contracts : List Address} :
    contracts ∈ denyLists policies ↔ .contractDenyList ⟨contracts⟩ ∈ policies := by
  refine mem_filterMap_iff (fun contracts => .contractDenyList ⟨contracts⟩) fun p a => ?_
  rcases p with ⟨_⟩ | ⟨⟨_⟩⟩ | ⟨_⟩ <;> simp

theorem forall_policies_iff {P : SignerPolicy → Prop} :
    (∀ policy ∈ policies, P policy) ↔
      (∀ policy ∈ windows policies, P (.timeBased policy)) ∧
        (∀ contracts ∈ allowLists policies, P (.contractAllowList ⟨contracts⟩)) ∧
          ∀ contracts ∈ denyLists policies, P (.contractDenyList ⟨contracts⟩) := by
  simp only [mem_windows, mem_allowLists, mem_denyLists]
  constructor
  · intro h
    exact ⟨fun policy => h _, fun contracts => h _, fun contracts => h _⟩
  · rintro ⟨hwindows, hallow, hdeny⟩ policy hpolicy
    cases policy with
    | timeBased policy => exact hwindows policy hpolicy
    | contractDenyList policy => exact hdeny policy.deniedContracts hpolicy
    | contractAllowList policy => exact hallow policy.allowedContracts hpolicy

/-- All time windows are open from the latest start to the earliest end. -/
theorem forall_windows_iff :
    (∀ policy ∈ windows policies, (SignerPolicy.timeBased policy).isAuthorized env context = true) ↔
      env.timestamp ∈ commonWindow TimeBasedPolicy.notBefore TimeBasedPolicy.notAfter
        (windows policies).toFinset := by
  simp only [mem_commonWindow, List.mem_toFinset, SignerPolicy.isAuthorized,
    TimeBasedPolicy.isAuthorized, Bool.and_eq_true, decide_eq_true_eq]

theorem allowList_isAuthorized_iff {contracts : List Address} :
    (SignerPolicy.contractAllowList ⟨contracts⟩).isAuthorized env context = true ↔
      ∃ c, context = .contract c ∧ c.contract ∈ contracts := by
  cases context <;> simp [SignerPolicy.isAuthorized, ContractAllowListPolicy.isAuthorized]

theorem denyList_isAuthorized_iff {contracts : List Address} :
    (SignerPolicy.contractDenyList ⟨contracts⟩).isAuthorized env context = true ↔
      ∀ c, context = .contract c → c.contract ∉ contracts := by
  cases context <;> simp [SignerPolicy.isAuthorized, ContractDenyListPolicy.isAuthorized]

theorem isAuthorized_iff_normalForm :
    (restricted policies).isAuthorized env context = true ↔ NormalForm policies env context := by
  rw [isAuthorized_iff_permits, Permits, forall_policies_iff, forall_windows_iff]
  simp only [allowList_isAuthorized_iff, denyList_isAuthorized_iff]
  constructor
  · rintro ⟨hself, ⟨hstart, hend⟩, hallow, hdeny⟩
    refine ⟨hself, hstart, hend, fun hne => ?_,
      fun c hc contracts hmem => hdeny contracts hmem c hc⟩
    obtain ⟨contracts, hcontracts⟩ := List.exists_mem_of_ne_nil _ hne
    obtain ⟨c, rfl, -⟩ := hallow contracts hcontracts
    refine ⟨c, rfl, fun contracts' hcontracts' => ?_⟩
    obtain ⟨c', hc', hmem⟩ := hallow contracts' hcontracts'
    cases hc'
    exact hmem
  · intro h
    refine ⟨h.notSelf, ⟨h.started, h.notEnded⟩, fun contracts hcontracts => ?_,
      fun contracts hcontracts c hc => h.notDenied c hc contracts hcontracts⟩
    obtain ⟨c, hc, hmem⟩ := h.allowed (List.ne_nil_of_mem hcontracts)
    exact ⟨c, hc, hmem contracts hcontracts⟩

section Consequences
variable (policies env context)

/-- The ledger times at which a restricted role authorizes a context. -/
def authorizedTimes : Set UInt64 :=
  {t | (restricted policies).isAuthorized { env with timestamp := t } context = true}

/-- The clock only opens and closes the common window. -/
theorem authorizedTimes_eq :
    authorizedTimes policies env context = ∅ ∨
      authorizedTimes policies env context =
        Set.Icc (latestStart policies) (earliestEnd policies) := by
  by_cases hempty : authorizedTimes policies env context = ∅
  · exact .inl hempty
  obtain ⟨t₀, ht₀⟩ := Set.nonempty_iff_ne_empty.mpr hempty
  have h₀ : NormalForm policies { env with timestamp := t₀ } context :=
    isAuthorized_iff_normalForm.mp ht₀
  right
  ext t
  change (restricted policies).isAuthorized { env with timestamp := t } context = true ↔ _
  rw [isAuthorized_iff_normalForm]
  constructor
  · intro h
    exact ⟨h.started, h.notEnded⟩
  · rintro ⟨hstart, hend⟩
    exact ⟨h₀.notSelf, hstart, hend, h₀.allowed, h₀.notDenied⟩

theorem isAuthorized_congr {policies' : List SignerPolicy}
    (hsame : ∀ policy, policy ∈ policies ↔ policy ∈ policies') :
    (restricted policies).isAuthorized env context =
      (restricted policies').isAuthorized env context := by
  rw [Bool.eq_iff_iff, isAuthorized_iff_permits, isAuthorized_iff_permits]
  simp only [Permits, hsame]

/-- The verdict of a restricted role is its normal form. It depends on the set of
policies alone, its times form one window that does not reopen, and a contract on an
allow list and a deny list is refused. -/
theorem restricted_normal_form :
    ((restricted policies).isAuthorized env context = true ↔ NormalForm policies env context) ∧
    (∀ policies', (∀ policy, policy ∈ policies ↔ policy ∈ policies') →
      (restricted policies).isAuthorized env context =
        (restricted policies').isAuthorized env context) ∧
    (authorizedTimes policies env context = ∅ ∨
      authorizedTimes policies env context =
        Set.Icc (latestStart policies) (earliestEnd policies)) ∧
    (∀ t ∈ authorizedTimes policies env context,
      ∀ t' ∉ authorizedTimes policies env context, t ≤ t' →
        ∀ t'', t' ≤ t'' → t'' ∉ authorizedTimes policies env context) ∧
    ∀ c, context = .contract c →
      (∃ contracts ∈ allowLists policies, c.contract ∈ contracts) →
      (∃ contracts ∈ denyLists policies, c.contract ∈ contracts) →
        (restricted policies).isAuthorized env context = false := by
  have hwindow := authorizedTimes_eq policies env context
  refine ⟨isAuthorized_iff_normalForm, ?_, hwindow, ?_, ?_⟩
  · intro policies' hsame
    exact isAuthorized_congr policies env context hsame
  · intro t ht t' ht' hle t'' hle' ht''
    rcases hwindow with hempty | hIcc
    · rw [hempty] at ht
      exact ht
    · rw [hIcc] at ht ht' ht''
      exact ht' ⟨ht.1.trans hle, hle'.trans ht''.2⟩
  · rintro c hc - ⟨contracts, hcontracts, hdenied⟩
    apply Bool.eq_false_of_not_eq_true
    intro h
    exact (isAuthorized_iff_normalForm.mp h).notDenied c hc contracts hcontracts hdenied

end Consequences

/-- A contract that is allowed and denied is refused, in an account of the sample. -/
theorem sample_restricted_normal_form :
    (restricted [.contractAllowList ⟨[.contract (List.Vector.replicate 32 2)]⟩,
        .contractDenyList ⟨[.contract (List.Vector.replicate 32 2)]⟩]).isAuthorized
      (Sample.account.checkEnv 0)
      (.contract ⟨.contract (List.Vector.replicate 32 2), "transfer", []⟩) = false := by
  apply (restricted_normal_form _ _ _).2.2.2.2 _ rfl
  · exact ⟨_, List.mem_singleton_self _, List.mem_singleton_self _⟩
  · exact ⟨_, List.mem_singleton_self _, List.mem_singleton_self _⟩

end SignerRole
end StellarSmartAccount
