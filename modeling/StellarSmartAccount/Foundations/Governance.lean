import Mathlib.Data.Set.Finite.Basic
import Mathlib.Logic.Relation
import StellarSmartAccount.Foundations.Registry

/-! # Governed registries

A governed registry serves a request only while one of its entries approves requests, and
never removes such an entry. A request may still replace its own approver, so the tables that
can be reached are those finite changes that leave some key under which an approving value
could stand.
-/

namespace StellarSmartAccount.Foundations

namespace Table
variable {K V : Type*} [DecidableEq K] {t t' u : Table K V}

theorem writeAll_map_apply (t t' : Table K V) (ks : List K) (k : K) :
    t.writeAll (ks.map fun k => (k, t' k)) k = if k ∈ ks then t' k else t k := by
  induction ks generalizing t with
  | nil => simp
  | cons k₀ ks ih =>
    refine (ih (t.set k₀ (t' k₀))).trans ?_
    by_cases hk : k = k₀
    · subst hk
      simp
    · simp [hk, set_of_ne]

theorem writeAll_of_finite (h : {k | t' k ≠ t k}.Finite) :
    t.writeAll (h.toFinset.toList.map fun k => (k, t' k)) = t' := by
  funext k
  rw [writeAll_map_apply]
  split_ifs with hk
  · rfl
  · rw [Finset.mem_toList, Set.Finite.mem_toFinset] at hk
    exact (not_not.mp hk).symm

theorem finite_ne_writeAll (t : Table K V) (ws : List (K × Option V)) :
    {k | t.writeAll ws k ≠ t k}.Finite := by
  apply (ws.map Prod.fst).finite_toSet.subset
  intro k hk
  by_contra hnone
  apply hk
  apply writeAll_of_notMem
  rintro w hw rfl
  exact hnone (List.mem_map_of_mem hw)

omit [DecidableEq K] in
theorem finite_ne_trans (h : {k | u k ≠ t k}.Finite) (h' : {k | t' k ≠ u k}.Finite) :
    {k | t' k ≠ t k}.Finite := by
  refine (h.union h').subset fun k hk => ?_
  by_cases hu : u k = t k
  · right
    intro heq
    exact hk (heq.trans hu)
  · exact .inl hu

end Table

/-- A registry whose values know their key and may approve requests. -/
structure Governed (K V : Type*) extends Registry K V where
  keyOf : V → K
  approves : V → Prop
  keeps_of_approves : ∀ v, approves v → keeps v = true

namespace Governed
variable {K V : Type*} [DecidableEq K] (G : Governed K V)

/-- Every value stands under its own key. -/
def WellKeyed (t : Table K V) : Prop := ∀ k v, t k = some v → G.keyOf v = k

/-- One approved and served request for a value under its own key. -/
def Step (t t' : Table K V) : Prop :=
  ∃ request : Request K V, t.Has G.approves ∧
    (∀ v, request.value = some v → G.keyOf v = request.key) ∧ G.serves t request = true ∧
    t' = t.set request.key request.value

def Reaches : Table K V → Table K V → Prop := Relation.ReflTransGen G.Step

/-- An approving value could stand under a key of the table. -/
def Recoverable (t : Table K V) : Prop := ∃ v, (t (G.keyOf v)).isSome = true ∧ G.approves v

variable {G} {t t' u : Table K V} {k : K}

theorem Step.wellKeyed (h : G.Step t t') (ht : G.WellKeyed t) : G.WellKeyed t' := by
  obtain ⟨request, -, hkeyed, -, rfl⟩ := h
  intro k v hv
  rcases Table.set_eq_some_iff.mp hv with ⟨rfl, hvalue⟩ | ⟨-, hold⟩
  · exact hkeyed v hvalue
  · exact ht k v hold

/-- A request does not remove its approver, so a value that approves could be put back. -/
theorem Step.recoverable (h : G.Step t t') (ht : G.WellKeyed t) : G.Recoverable t' := by
  obtain ⟨request, ⟨k, v, hv, happroves⟩, -, hserves, rfl⟩ := h
  have hkey : G.keyOf v = k := ht k v hv
  refine ⟨v, ?_, happroves⟩
  rw [hkey, Table.set_apply]
  split_ifs with hk
  · cases request with
    | insert k' v' => rfl
    | replace k' v' => rfl
    | remove k' =>
      obtain rfl : k = k' := hk
      rw [Registry.serves, hv, Option.any_some, G.keeps_of_approves v happroves] at hserves
      cases hserves
  · rw [hv]
    rfl

theorem Step.finite (h : G.Step t t') : {k | t' k ≠ t k}.Finite := by
  obtain ⟨request, -, -, -, rfl⟩ := h
  exact t.finite_ne_writeAll [(request.key, request.value)]

theorem Reaches.wellKeyed (h : G.Reaches t t') (ht : G.WellKeyed t) : G.WellKeyed t' := by
  induction h with
  | refl => exact ht
  | tail _ hstep ih => exact hstep.wellKeyed ih

/-- What a table that is reached by at least one request has in common with the first. -/
theorem Reaches.eq_or (h : G.Reaches t t') (ht : G.WellKeyed t) :
    t' = t ∨ t.Has G.approves ∧ {k | t' k ≠ t k}.Finite ∧ G.Recoverable t' := by
  induction h with
  | refl => exact .inl rfl
  | @tail u u' hreach hstep ih =>
    have hrecoverable : G.Recoverable u' := hstep.recoverable (Reaches.wellKeyed hreach ht)
    rcases ih with rfl | ⟨hhas, hfinite, -⟩
    · exact .inr ⟨hstep.choose_spec.1, hstep.finite, hrecoverable⟩
    · exact .inr ⟨hhas, Table.finite_ne_trans hfinite hstep.finite, hrecoverable⟩

/-- A value is put under its own key, whether the key is taken or not. -/
theorem step_put (hhas : t.Has G.approves) (v : V) : G.Step t (t.set (G.keyOf v) (some v)) := by
  cases hk : t (G.keyOf v) with
  | none =>
    refine ⟨.insert (G.keyOf v) v, hhas, ?_, ?_, rfl⟩
    · rintro _ ⟨⟩
      rfl
    · rw [Registry.serves, hk]
      rfl
  | some old =>
    refine ⟨.replace (G.keyOf v) v, hhas, ?_, ?_, rfl⟩
    · rintro _ ⟨⟩
      rfl
    · rw [Registry.serves, hk]
      rfl

theorem step_remove (hhas : t.Has G.approves) {v : V} (hv : t k = some v)
    (hkeeps : G.keeps v = false) : G.Step t (t.set k none) := by
  refine ⟨.remove k, hhas, nofun, ?_, rfl⟩
  rw [Registry.serves, hv, Option.any_some, hkeeps]
  rfl

section Approver
variable {a : V} (happroves : G.approves a)
include happroves

/-- A key other than the approver's is cleared, after a replacement by a value that the
registry does not keep. -/
theorem reaches_clear (ha : t (G.keyOf a) = some a) (hk : k ≠ G.keyOf a)
    (hspare : ∃ v, G.keyOf v = k ∧ G.keeps v = false) : G.Reaches t (t.set k none) := by
  have hhas : t.Has G.approves := ⟨_, a, ha, happroves⟩
  cases hold : t k with
  | none =>
    have hsame : t.set k none = t := by
      rw [← hold]
      exact Function.update_eq_self k t
    rw [hsame]
    exact .refl
  | some v =>
    cases hkeeps : G.keeps v with
    | false => exact .single (step_remove hhas hold hkeeps)
    | true =>
      obtain ⟨spare, rfl, hspare⟩ := hspare
      have ha' : (t.set (G.keyOf spare) (some spare)) (G.keyOf a) = some a := by
        rw [Table.set_of_ne t hk.symm, ha]
      have hclear := step_remove ⟨_, a, ha', happroves⟩ (Table.set_self t _ _) hspare
      rw [Table.set, Table.set, Function.update_idem] at hclear
      exact (Relation.ReflTransGen.single (step_put hhas spare)).tail hclear

theorem reaches_write (ha : t (G.keyOf a) = some a) (hk : k ≠ G.keyOf a)
    (hspare : ∃ v, G.keyOf v = k ∧ G.keeps v = false) (w : Option V)
    (hw : ∀ v, w = some v → G.keyOf v = k) : G.Reaches t (t.set k w) := by
  cases w with
  | none => exact reaches_clear happroves ha hk hspare
  | some v =>
    obtain rfl := hw v rfl
    exact .single (step_put ⟨_, a, ha, happroves⟩ v)

theorem reaches_writeAll (hspare : ∀ k, ∃ v, G.keyOf v = k ∧ G.keeps v = false)
    (ht' : G.WellKeyed t') (ha : t (G.keyOf a) = some a) {ks : List K} (hks : G.keyOf a ∉ ks) :
    G.Reaches t (t.writeAll (ks.map fun k => (k, t' k))) := by
  induction ks generalizing t with
  | nil => exact .refl
  | cons k ks ih =>
    rw [List.mem_cons, not_or] at hks
    have ha' : (t.set k (t' k)) (G.keyOf a) = some a := by
      rw [Table.set_of_ne t hks.1, ha]
    exact (reaches_write happroves ha (Ne.symm hks.1) (hspare k) (t' k) (ht' k)).trans
      (ih ha' hks.2)

theorem reaches_of_finite (hspare : ∀ k, ∃ v, G.keyOf v = k ∧ G.keeps v = false)
    (ht' : G.WellKeyed t') (ha : t (G.keyOf a) = some a) (ha' : t' (G.keyOf a) = some a)
    (hfinite : {k | t' k ≠ t k}.Finite) : G.Reaches t t' := by
  have hks : G.keyOf a ∉ hfinite.toFinset.toList := by
    rw [Finset.mem_toList, Set.Finite.mem_toFinset]
    exact fun hne => hne (ha'.trans ha.symm)
  rw [← Table.writeAll_of_finite hfinite]
  exact reaches_writeAll happroves hspare ht' ha hks

end Approver

/-- The reachable tables: first the approving value that can be recovered is put under its
key, then it approves all other changes, and the last request replaces it. -/
theorem reaches_iff (hspare : ∀ k, ∃ v, G.keyOf v = k ∧ G.keeps v = false)
    (ht : G.WellKeyed t) :
    G.Reaches t t' ↔ t' = t ∨ t.Has G.approves ∧ {k | t' k ≠ t k}.Finite ∧ G.WellKeyed t' ∧
      G.Recoverable t' := by
  constructor
  · intro h
    rcases h.eq_or ht with hsame | ⟨hhas, hfinite, hrecoverable⟩
    · exact .inl hsame
    · exact .inr ⟨hhas, hfinite, h.wellKeyed ht, hrecoverable⟩
  · rintro (rfl | ⟨hhas, hfinite, ht', a, htaken, happroves⟩)
    · exact .refl
    · obtain ⟨v, hv⟩ := Option.isSome_iff_exists.mp htaken
      have hkey : G.keyOf v = G.keyOf a := ht' _ v hv
      have hmiddle : G.Reaches (t.set (G.keyOf a) (some a)) (t'.set (G.keyOf a) (some a)) := by
        refine reaches_of_finite happroves hspare ?_ (Table.set_self _ _ _)
          (Table.set_self _ _ _) (hfinite.subset ?_)
        · intro k v' hv'
          rcases Table.set_eq_some_iff.mp hv' with ⟨rfl, ⟨⟩⟩ | ⟨-, hold⟩
          · rfl
          · exact ht' k v' hold
        · intro k hk
          by_cases heq : k = G.keyOf a
          · subst heq
            exact absurd ((Table.set_self t' _ _).trans (Table.set_self t _ _).symm) hk
          · intro hsame
            exact hk ((Table.set_of_ne t' heq _).trans
              (hsame.trans (Table.set_of_ne t heq _).symm))
      have hlast : G.Step (t'.set (G.keyOf a) (some a)) t' := by
        have hstep := step_put ⟨_, a, Table.set_self t' (G.keyOf a) _, happroves⟩ v
        rw [hkey, Table.set, Table.set, Function.update_idem, ← hv,
          Function.update_eq_self] at hstep
        exact hstep
      exact (Relation.ReflTransGen.head (step_put hhas a) hmiddle).tail hlast

end Governed
end StellarSmartAccount.Foundations
