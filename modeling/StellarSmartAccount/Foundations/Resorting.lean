import Mathlib.Data.List.Induction
import Mathlib.Data.List.Sort

/-! # Lists that are sorted after every arrival

Elements arrive one after another; each is appended and the list is sorted stably. The
result is increasing for a second order exactly if the two orders agree on every two elements,
taken in the order of their arrival.
-/

namespace StellarSmartAccount.Foundations.Resorting
variable {α : Type*} (r : α → α → Prop) [DecidableRel r]

/-- Append an element and sort again. -/
def push (l : List α) (a : α) : List α := (l ++ [a]).insertionSort r

def pushAll (l : List α) (as : List α) : List α := as.foldl (push r) l

/-- Sorting an element before a later one by `r` also puts them in the order `lt`. -/
def Agrees (lt : α → α → Prop) (a b : α) : Prop := r a b ∧ lt a b ∨ ¬ r a b ∧ lt b a

instance (lt : α → α → Prop) [DecidableRel lt] : DecidableRel (Agrees r lt) :=
  fun a b => inferInstanceAs (Decidable (r a b ∧ lt a b ∨ ¬ r a b ∧ lt b a))

theorem pushAll_append (l as bs : List α) :
    pushAll r l (as ++ bs) = pushAll r (pushAll r l as) bs := List.foldl_append

theorem perm_push (l : List α) (a : α) : (push r l a).Perm (l ++ [a]) :=
  List.perm_insertionSort r _

theorem perm_pushAll (l as : List α) : (pushAll r l as).Perm (l ++ as) := by
  induction as generalizing l with
  | nil =>
    rw [List.append_nil]
    exact .refl l
  | cons a as ih =>
    have hrest := (ih (push r l a)).trans ((perm_push r l a).append_right as)
    rwa [List.append_assoc, List.singleton_append] at hrest

section Transitive
variable [IsTrans α r] {r}

theorem filter_of_head {a b : α} {l : List α} (h : (b :: l).Pairwise r) (hba : ¬ r b a) :
    l.filter (fun b => r b a) = [] ∧ l.filter (fun b => !decide (r b a)) = l := by
  have hnone : ∀ c ∈ l, ¬ r c a :=
    fun c hc hca => hba (IsTrans.trans _ _ _ (List.rel_of_pairwise_cons h hc) hca)
  exact ⟨List.filter_eq_nil_iff.mpr (by simpa using hnone),
    List.filter_eq_self.mpr (by simpa using hnone)⟩

section Push
variable {l : List α} (hl : l.Pairwise r)
include hl

theorem filter_append_filter (a : α) :
    l.filter (fun b => r b a) ++ l.filter (fun b => !decide (r b a)) = l := by
  induction l with
  | nil => rfl
  | cons b l ih =>
    by_cases hba : r b a
    · simpa [hba] using ih hl.of_cons
    · obtain ⟨hbefore, hafter⟩ := filter_of_head hl hba
      simp [hba, hbefore, hafter]

/-- A new element goes behind those that are not after it. -/
theorem push_eq (a : α) :
    push r l a = l.filter (fun b => r b a) ++ a :: l.filter (fun b => !decide (r b a)) := by
  rw [push]
  induction l with
  | nil => rfl
  | cons b l ih =>
    obtain ⟨hb, hl'⟩ := List.pairwise_cons.mp hl
    by_cases hba : r b a
    · have hall : ∀ c ∈ l ++ [a], r b c := by
        intro c hc
        rcases List.mem_append.mp hc with hc | hc
        · exact hb c hc
        · rwa [List.mem_singleton.mp hc]
      rw [List.cons_append, List.insertionSort_cons_of_forall_rel r hall, ih hl']
      simp [hba]
    · have hsame : List.orderedInsert r b l = b :: l := by
        have hsorted := hl.insertionSort_eq
        rwa [List.insertionSort_cons, hl'.insertionSort_eq] at hsorted
      obtain ⟨hbefore, hafter⟩ := filter_of_head hl hba
      rw [List.cons_append, List.insertionSort_cons, ih hl', hbefore, hafter]
      simp [hba, hbefore, hafter, hsame]

theorem pairwise_push_iff (lt : α → α → Prop) (a : α) :
    (push r l a).Pairwise lt ↔ l.Pairwise lt ∧ ∀ b ∈ l, Agrees r lt b a := by
  have hsplit : l.Pairwise lt ↔
      (l.filter (fun b => r b a) ++ l.filter (fun b => !decide (r b a))).Pairwise lt := by
    rw [filter_append_filter hl]
  rw [push_eq hl, hsplit, List.pairwise_append, List.pairwise_append, List.pairwise_cons]
  simp only [List.mem_filter, List.mem_cons, decide_eq_true_eq, Bool.not_eq_true',
    decide_eq_false_iff_not, Agrees]
  constructor
  · rintro ⟨hbefore, ⟨hlast, hafter⟩, hacross⟩
    refine ⟨⟨hbefore, hafter, fun b hb c hc => hacross b hb c (.inr hc)⟩, fun b hb => ?_⟩
    by_cases hba : r b a
    · exact .inl ⟨hba, hacross b ⟨hb, hba⟩ a (.inl rfl)⟩
    · exact .inr ⟨hba, hlast b ⟨hb, hba⟩⟩
  · rintro ⟨⟨hbefore, hafter, hacross⟩, hagrees⟩
    refine ⟨hbefore, ⟨fun c hc => ?_, hafter⟩, ?_⟩
    · exact ((hagrees c hc.1).resolve_left fun h => hc.2 h.1).2
    · rintro b hb c (rfl | hc)
      · exact ((hagrees b hb.1).resolve_right fun h => h.1 hb.2).2
      · exact hacross b hb c hc

end Push

section Total
variable [Std.Total r]

theorem pairwise_push (l : List α) (a : α) : (push r l a).Pairwise r :=
  List.pairwise_insertionSort r _

theorem pairwise_pushAll {l : List α} (hl : l.Pairwise r) (as : List α) :
    (pushAll r l as).Pairwise r := by
  induction as generalizing l with
  | nil => exact hl
  | cons a as ih => exact ih (pairwise_push l a)

/-- After all arrivals the list is increasing exactly if the orders agree on every two elements
in the order of their arrival. -/
theorem pairwise_pushAll_iff (lt : α → α → Prop) (as : List α) :
    (pushAll r [] as).Pairwise lt ↔ as.Pairwise (Agrees r lt) := by
  induction as using List.reverseRecOn with
  | nil => exact iff_of_true .nil .nil
  | append_singleton as a ih =>
    have hsorted : (pushAll r [] as).Pairwise r := pairwise_pushAll .nil as
    have hmem : ∀ b, b ∈ pushAll r [] as ↔ b ∈ as := fun b => (perm_pushAll r [] as).mem_iff
    rw [pushAll_append, List.pairwise_append]
    refine (pairwise_push_iff hsorted lt a).trans ?_
    simp only [ih, hmem, List.mem_singleton, forall_eq, List.pairwise_singleton, true_and]

end Total
end Transitive
end StellarSmartAccount.Foundations.Resorting
