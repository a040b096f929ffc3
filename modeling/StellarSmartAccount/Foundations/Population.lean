import Mathlib.Logic.Relation
import StellarSmartAccount.Foundations.Table

/-! # Populations of components

The components of a population live side by side under keys of their own: one is born
under a free key and moves on its own from then on. What happens to the population is
projected to each component: it stays, has an origin, and is the same where it cannot move.
-/

namespace StellarSmartAccount.Foundations

/-- How components come into being and how they move. -/
structure Population (K S : Type*) where
  born : K → S → Prop
  moves : K → S → S → Prop

namespace Population
variable {K S : Type*} [DecidableEq K] {P Q : Population K S} {t t' : Table K S} {k : K} {s : S}

/-- One component is born or moves. -/
inductive Step (P : Population K S) : Table K S → Table K S → Prop where
  | born {t : Table K S} {k : K} {s : S} (hfree : t k = none) (hborn : P.born k s) :
      Step P t (t.set k (some s))
  | moved {t : Table K S} {k : K} {s s' : S} (hs : t k = some s) (hmoves : P.moves k s s') :
      Step P t (t.set k (some s'))

/-- Any number of births and moves. -/
def Evolves (P : Population K S) : Table K S → Table K S → Prop :=
  Relation.ReflTransGen P.Step

theorem Step.mono (hborn : ∀ k s, P.born k s → Q.born k s)
    (hmoves : ∀ k s s', P.moves k s s' → Q.moves k s s') (h : P.Step t t') : Q.Step t t' := by
  cases h with
  | born hfree hs => exact .born hfree (hborn _ _ hs)
  | moved hs hmove => exact .moved hs (hmoves _ _ _ hmove)

namespace Evolves

theorem refl (P : Population K S) (t : Table K S) : P.Evolves t t := Relation.ReflTransGen.refl

theorem trans {t'' : Table K S} (h : P.Evolves t t') (h' : P.Evolves t' t'') : P.Evolves t t'' :=
  Relation.ReflTransGen.trans h h'

theorem of_step (h : P.Step t t') : P.Evolves t t' := Relation.ReflTransGen.single h

theorem mono (hborn : ∀ k s, P.born k s → Q.born k s)
    (hmoves : ∀ k s s', P.moves k s s' → Q.moves k s s') (h : P.Evolves t t') :
    Q.Evolves t t' :=
  Relation.ReflTransGen.mono (fun _ _ hstep => Step.mono hborn hmoves hstep) _ _ h

theorem component (h : P.Evolves t t') (hs : t k = some s) :
    ∃ s', t' k = some s' ∧ Relation.ReflTransGen (P.moves k) s s' := by
  induction h with
  | refl => exact ⟨s, hs, .refl⟩
  | tail _ hstep ih =>
    obtain ⟨u, hu, hmoved⟩ := ih
    cases hstep with
    | @born k' v hfree hborn =>
      have hne : k ≠ k' := by
        rintro rfl
        rw [hu] at hfree
        cases hfree
      exact ⟨u, (Table.set_of_ne _ hne _).trans hu, hmoved⟩
    | @moved k' v v' hv hmove =>
      by_cases hk : k = k'
      · subst hk
        rw [hu] at hv
        cases hv
        exact ⟨v', Table.set_self _ k _, hmoved.tail hmove⟩
      · exact ⟨u, (Table.set_of_ne _ hk _).trans hu, hmoved⟩

theorem unmoved (h : P.Evolves t t') (hs : t k = some s) (hstill : ∀ s', ¬ P.moves k s s') :
    t' k = some s := by
  obtain ⟨s', hs', hmoved⟩ := h.component hs
  rcases Relation.ReflTransGen.cases_head hmoved with rfl | ⟨u, hmove, -⟩
  · exact hs'
  · exact absurd hmove (hstill u)

/-- A property that births establish and moves keep holds of every component, if it held of
those at the start. -/
theorem invariant {I : K → S → Prop} (h : P.Evolves t t') (hborn : ∀ k s, P.born k s → I k s)
    (hmoves : ∀ k s s', P.moves k s s' → I k s → I k s') (ht : ∀ k s, t k = some s → I k s) :
    ∀ k s, t' k = some s → I k s := by
  induction h with
  | refl => exact ht
  | tail _ hstep ih =>
    intro k s hs
    cases hstep with
    | born hfree hnew =>
      rcases Table.set_eq_some_iff.mp hs with ⟨rfl, ⟨⟩⟩ | ⟨-, hold⟩
      · exact hborn _ _ hnew
      · exact ih k s hold
    | moved hv hmove =>
      rcases Table.set_eq_some_iff.mp hs with ⟨rfl, ⟨⟩⟩ | ⟨-, hold⟩
      · exact hmoves _ _ _ hmove (ih _ _ hv)
      · exact ih k s hold

end Evolves
end Population

end StellarSmartAccount.Foundations
