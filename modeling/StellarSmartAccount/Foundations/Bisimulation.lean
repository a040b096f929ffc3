import StellarSmartAccount.Foundations.Machine
import StellarSmartAccount.Foundations.Table

/-! # Indistinguishable states and exact specifications

Two states of a machine are indistinguishable if every run answers alike from both, for as
long as the answers meet a condition. For this it is enough to relate them by one relation
that answers alike and that every step keeps. A step relation on a view of the states
specifies the machine exactly if its runs are those of the machine.
-/

namespace StellarSmartAccount.Foundations
namespace Machine
variable {σ ι ο : Type*} {M : Machine σ ι ο} {R : σ → σ → Prop} {s t : σ}

/-- A run answers alike from both states as long as all answers before meet the condition. -/
def Indistinguishable (M : Machine σ ι ο) (C : ι × ο → Prop) (s t : σ) : Prop :=
  ∀ is i, (∀ answered ∈ M.history s is, C answered) → (∀ answered ∈ M.history t is, C answered) →
    M.history s (is ++ [i]) = M.history t (is ++ [i])

structure Bisimulation (M : Machine σ ι ο) (R : σ → σ → Prop) : Prop where
  answer : ∀ i s t, R s t → (M.step i s).1 = (M.step i t).1
  next : ∀ i s t, R s t → R (M.step i s).2 (M.step i t).2

theorem Bisimulation.history_eq (h : M.Bisimulation R) (hst : R s t) (is : List ι) :
    M.history s is = M.history t is := by
  induction is generalizing s t with
  | nil => rfl
  | cons i is ih => rw [history, history, h.answer i s t hst, ih (h.next i s t hst)]

theorem Bisimulation.indistinguishable (h : M.Bisimulation R) (hst : R s t) (C : ι × ο → Prop) :
    M.Indistinguishable C s t := fun is i _ _ => h.history_eq hst (is ++ [i])

namespace Indistinguishable
variable {C : ι × ο → Prop}

theorem symm (h : M.Indistinguishable C s t) : M.Indistinguishable C t s :=
  fun is i ht hs => (h is i hs ht).symm

theorem answer (h : M.Indistinguishable C s t) (i : ι) : (M.step i s).1 = (M.step i t).1 := by
  have hi := h [] i nofun nofun
  rw [List.nil_append, history_singleton, history_singleton] at hi
  exact congrArg Prod.snd (List.singleton_inj.mp hi)

end Indistinguishable

/-- The runs of a step relation, with the inputs and outputs of the steps. -/
inductive Runs {τ : Type*} (S : τ → ι → ο → τ → Prop) : τ → List (ι × ο) → τ → Prop where
  | nil (t : τ) : Runs S t [] t
  | cons {t t' t'' : τ} {i : ι} {o : ο} {history : List (ι × ο)} (head : S t i o t')
      (tail : Runs S t' history t'') : Runs S t ((i, o) :: history) t''

/-- A relation that holds of exactly the steps of a machine has exactly its runs. -/
theorem runs_iff {τ : Type*} {S : τ → ι → ο → τ → Prop} {f : σ → τ} {I : σ → Prop}
    (hI : ∀ i s, I s → I (M.step i s).2)
    (hS : ∀ i s o t, I s → (S (f s) i o t ↔ (M.step i s).1 = o ∧ f (M.step i s).2 = t))
    (hs : I s) (history : List (ι × ο)) (t : τ) :
    Runs S (f s) history t ↔ ∃ is, history = M.history s is ∧ t = f (M.final s is) := by
  induction history generalizing s with
  | nil =>
    constructor
    · rintro ⟨⟩
      exact ⟨[], rfl, rfl⟩
    · rintro ⟨is, hnil, rfl⟩
      cases is with
      | nil => exact .nil _
      | cons i is => cases hnil
  | cons answered history ih =>
    obtain ⟨i, o⟩ := answered
    constructor
    · rintro ⟨⟩
      next t' head tail =>
        obtain ⟨rfl, rfl⟩ := (hS i s o t' hs).mp head
        obtain ⟨is, rfl, rfl⟩ := (ih (hI i s hs)).mp tail
        exact ⟨i :: is, rfl, rfl⟩
    · rintro ⟨is, hcons, rfl⟩
      cases is with
      | nil => cases hcons
      | cons j is =>
        rw [Machine.history, List.cons_eq_cons, Prod.mk.injEq] at hcons
        obtain ⟨⟨rfl, rfl⟩, rfl⟩ := hcons
        exact .cons ((hS i s _ _ hs).mpr ⟨rfl, rfl⟩) ((ih (hI i s hs)).mpr ⟨is, rfl, rfl⟩)

end Machine

namespace Table
variable {K V : Type*} {r : V → V → Prop} {t t' : Table K V}

/-- Under every key both tables have related values or none. -/
def Related (r : V → V → Prop) (t t' : Table K V) : Prop := ∀ k, Option.Rel r (t k) (t' k)

theorem Related.refl (hrefl : ∀ v, r v v) (t : Table K V) : Related r t t := by
  intro k
  cases t k with
  | none => exact .none
  | some v => exact .some (hrefl v)

theorem Related.isSome_eq (h : Related r t t') (k : K) : (t k).isSome = (t' k).isSome := by
  have hk := h k
  generalize t k = v, t' k = v' at hk
  cases hk <;> rfl

theorem Related.eq_none_iff (h : Related r t t') (k : K) : t k = none ↔ t' k = none := by
  rw [← Option.not_isSome_iff_eq_none, ← Option.not_isSome_iff_eq_none, h.isSome_eq]

theorem Related.exists_right (h : Related r t t') {k : K} {v : V} (hv : t k = some v) :
    ∃ v', t' k = some v' ∧ r v v' := by
  have hk := h k
  rw [hv] at hk
  generalize t' k = w at hk
  cases hk with
  | some hr => exact ⟨_, rfl, hr⟩

theorem Related.writeAll [DecidableEq K] (hrefl : ∀ v, r v v) (h : Related r t t')
    (ws : List (K × Option V)) : Related r (t.writeAll ws) (t'.writeAll ws) := by
  induction ws generalizing t t' with
  | nil => exact h
  | cons w ws ih =>
    have hset : Related r (t.set w.1 w.2) (t'.set w.1 w.2) := by
      intro k
      rw [set_apply, set_apply]
      split_ifs with hk
      · cases w.2 with
        | none => exact .none
        | some v => exact .some (hrefl v)
      · exact h k
    exact ih hset

end Table
end StellarSmartAccount.Foundations
