import StellarSmartAccount.Foundations.Machine

/-! # Licences that are granted and used up

Some events of a history grant a licence and others use it up. The licence is held
if a grant comes after the last use, and a history respects it if every use comes
while it is held. Grants then separate the uses, so that they are never outnumbered.
-/

namespace StellarSmartAccount.Foundations

structure Licence (α : Type*) where
  grants : α → Bool
  uses : α → Bool
  disjoint : ∀ a, grants a = true → uses a = false

namespace Licence
variable {α : Type*} (L : Licence α)

/-- A grant comes after the last use. -/
def Held (l : List α) : Prop :=
  ∃ before a after, l = before ++ a :: after ∧ L.grants a = true ∧ ∀ b ∈ after, L.uses b = false

/-- Every use comes while the licence is held. -/
def Respected (l : List α) : Prop :=
  ∀ before a, before ++ [a] <+: l → L.uses a = true → L.Held before

variable {L} {l : List α}

theorem not_held_nil : ¬ L.Held [] := by
  rintro ⟨before, a, after, h, -⟩
  simp at h

theorem held_concat_iff {a : α} :
    L.Held (l ++ [a]) ↔ L.grants a = true ∨ (L.Held l ∧ L.uses a = false) := by
  constructor
  · rintro ⟨before, b, after, heq, hb, hafter⟩
    rcases List.eq_nil_or_concat after with rfl | ⟨after, c, rfl⟩
    · obtain ⟨-, hlast⟩ := List.append_inj' heq rfl
      obtain rfl : a = b := by simpa using hlast
      exact .inl hb
    · rw [List.concat_eq_append] at heq hafter
      rw [← List.cons_append, ← List.append_assoc] at heq
      obtain ⟨rfl, hlast⟩ := List.append_inj' heq rfl
      obtain rfl : a = c := by simpa using hlast
      refine .inr ⟨⟨before, b, after, rfl, hb, fun d hd => hafter d ?_⟩, hafter a ?_⟩
      · exact List.mem_append_left _ hd
      · simp
  · rintro (ha | ⟨⟨before, b, after, rfl, hb, hafter⟩, ha⟩)
    · exact ⟨l, a, [], rfl, ha, nofun⟩
    · refine ⟨before, b, after ++ [a], by simp, hb, fun c hc => ?_⟩
      rcases List.mem_append.mp hc with hc | hc
      · exact hafter c hc
      · rw [List.mem_singleton.mp hc]
        exact ha

/-- After a use the licence is held only if a later event grants it. -/
theorem exists_grant_of_held {before after : List α} {a : α} (ha : L.uses a = true)
    (h : L.Held (before ++ a :: after)) : ∃ g ∈ after, L.grants g = true := by
  induction after using List.reverseRecOn with
  | nil =>
    rcases held_concat_iff.mp h with hgrant | ⟨-, hunused⟩
    · rw [L.disjoint a hgrant] at ha
      cases ha
    · rw [hunused] at ha
      cases ha
  | append_singleton after b ih =>
    rw [← List.cons_append, ← List.append_assoc] at h
    rcases held_concat_iff.mp h with hgrant | ⟨hheld, -⟩
    · exact ⟨b, by simp, hgrant⟩
    · obtain ⟨g, hg, hgrant⟩ := ih hheld
      exact ⟨g, List.mem_append_left _ hg, hgrant⟩

namespace Respected

theorem prefix_of {l' : List α} (h : L.Respected l) (hpre : l' <+: l) : L.Respected l' :=
  fun before a ha => h before a (ha.trans hpre)

theorem grant_between (h : L.Respected l) {before between after : List α} {a b : α}
    (hl : l = before ++ a :: (between ++ b :: after)) (ha : L.uses a = true)
    (hb : L.uses b = true) : ∃ g ∈ between, L.grants g = true := by
  refine exists_grant_of_held ha (h (before ++ a :: between) b ?_ hb)
  rw [hl]
  exact ⟨after, by simp⟩

theorem concat_iff {a : α} :
    L.Respected (l ++ [a]) ↔ L.Respected l ∧ (L.uses a = true → L.Held l) := by
  constructor
  · intro h
    exact ⟨h.prefix_of (List.prefix_append l [a]), h l a (List.prefix_refl _)⟩
  · rintro ⟨h, ha⟩ before b hpre hb
    rcases List.prefix_concat_iff.mp hpre with heq | hpre
    · obtain ⟨rfl, hlast⟩ := List.append_inj' heq rfl
      obtain rfl : b = a := by simpa using hlast
      exact ha hb
    · exact h before b hpre hb

/-- The uses, with one more as long as the licence is held, are at most the grants. -/
theorem countP_add_le (h : L.Respected l) :
    l.countP L.uses ≤ l.countP L.grants ∧
      (L.Held l → l.countP L.uses + 1 ≤ l.countP L.grants) := by
  induction l using List.reverseRecOn with
  | nil => exact ⟨Nat.le_refl _, fun hheld => absurd hheld not_held_nil⟩
  | append_singleton l a ih =>
    obtain ⟨hl, hlicensed⟩ := concat_iff.mp h
    obtain ⟨hle, hheld⟩ := ih hl
    rw [held_concat_iff, List.countP_append, List.countP_append, List.countP_singleton,
      List.countP_singleton]
    cases hgrants : L.grants a with
    | true =>
      rw [L.disjoint a hgrants]
      simp only [Bool.false_eq_true, if_false, if_true]
      omega
    | false =>
      cases huses : L.uses a with
      | true =>
        have hlt := hheld (hlicensed huses)
        simp only [Bool.false_eq_true, if_false, if_true]
        constructor
        · omega
        · rintro (hgrant | ⟨-, hunused⟩) <;> contradiction
      | false =>
        simp only [Bool.false_eq_true, if_false, false_or, and_true]
        exact ⟨hle, hheld⟩

theorem countP_le (h : L.Respected l) : l.countP L.uses ≤ l.countP L.grants := h.countP_add_le.1

end Respected
end Licence

/-- A machine whose flag `P` is set by the grants and cleared by the uses, and which uses the
licence under the flag only, has the flag exactly while the licence is held. -/
theorem Machine.licensed {σ ι ο : Type*} (M : Machine σ ι ο) {L : Licence (ι × ο)}
    {I P : σ → Prop} (hI : ∀ i s, I s → I (M.step i s).2)
    (hflag : ∀ i s, I s → (P (M.step i s).2 ↔
      L.grants (i, (M.step i s).1) = true ∨ (P s ∧ L.uses (i, (M.step i s).1) = false)))
    (huse : ∀ i s, I s → L.uses (i, (M.step i s).1) = true → P s)
    {s : σ} (hs : I s) (h₀ : ¬ P s) (is : List ι) :
    (P (M.final s is) ↔ L.Held (M.history s is)) ∧ L.Respected (M.history s is) := by
  have hrun : I (M.final s is) ∧ (P (M.final s is) ↔ L.Held (M.history s is)) ∧
      L.Respected (M.history s is) := by
    refine M.history_invariant
      (R := fun l t => I t ∧ (P t ↔ L.Held l) ∧ L.Respected l) ?_ ?_ is
    · rintro l i t ⟨ht, hheld, hrespected⟩
      refine ⟨hI i t ht, ?_, ?_⟩
      · rw [hflag i t ht, Licence.held_concat_iff, hheld]
      · exact Licence.Respected.concat_iff.mpr
          ⟨hrespected, fun huses => hheld.mp (huse i t ht huses)⟩
    · refine ⟨hs, iff_of_false h₀ Licence.not_held_nil, fun before a hpre => ?_⟩
      simp at hpre
  exact hrun.2

end StellarSmartAccount.Foundations
