import Mathlib.Data.List.Induction

/-! # Deterministic machines, their runs and their histories

A machine answers every input with an output and a next state. A run feeds it a
finite list of inputs; the history pairs each input with the output it received.
The inductions over runs are stated once: a preserved property, a preserved relation
between history and state, an observation that the history acts on, the exact condition
on the steps under which a property survives at every point of a run, the step that makes
a property true, a refinement in which the inputs without an abstract counterpart stutter,
and the deletion of inputs that an observer does not notice. What a program does to a
machine whose services it asks for is the run of its requests.
-/

namespace StellarSmartAccount.Foundations

structure Machine (σ ι ο : Type*) where
  step : ι → σ → ο × σ

namespace Machine
variable {σ ι ο : Type*} (M : Machine σ ι ο)

/-- The state after a finite list of inputs. -/
def final : σ → List ι → σ
  | s, [] => s
  | s, i :: is => final (M.step i s).2 is

/-- Every input of a run with the output it received, oldest first. -/
def history : σ → List ι → List (ι × ο)
  | _, [] => []
  | s, i :: is => (i, (M.step i s).1) :: history (M.step i s).2 is

@[simp] theorem final_nil (s : σ) : M.final s [] = s := rfl

@[simp] theorem history_nil (s : σ) : M.history s [] = [] := rfl

@[simp] theorem final_append (s : σ) (is js : List ι) :
    M.final s (is ++ js) = M.final (M.final s is) js := by
  induction is generalizing s with
  | nil => rfl
  | cons i is ih => exact ih _

@[simp] theorem final_singleton (s : σ) (i : ι) : M.final s [i] = (M.step i s).2 := rfl

@[simp] theorem history_append (s : σ) (is js : List ι) :
    M.history s (is ++ js) = M.history s is ++ M.history (M.final s is) js := by
  induction is generalizing s with
  | nil => rfl
  | cons i is ih => exact congrArg (_ :: ·) (ih _)

@[simp] theorem history_singleton (s : σ) (i : ι) :
    M.history s [i] = [(i, (M.step i s).1)] := rfl

theorem map_fst_history (s : σ) (is : List ι) : (M.history s is).map Prod.fst = is := by
  induction is generalizing s with
  | nil => rfl
  | cons i is ih => exact congrArg (i :: ·) (ih _)

theorem mem_of_mem_history {s : σ} {is : List ι} {answered : ι × ο}
    (h : answered ∈ M.history s is) : answered.1 ∈ is := by
  rw [← M.map_fst_history s is]
  exact List.mem_map_of_mem h

theorem final_invariant {P : σ → Prop} (hstep : ∀ i s, P s → P (M.step i s).2)
    {s : σ} (hs : P s) (is : List ι) : P (M.final s is) := by
  induction is generalizing s with
  | nil => exact hs
  | cons i is ih => exact ih (hstep i s hs)

/-- A relation between history and state that every step preserves holds of
every run. -/
theorem history_invariant {R : List (ι × ο) → σ → Prop}
    (hstep : ∀ h i s, R h s → R (h ++ [(i, (M.step i s).1)]) (M.step i s).2)
    {s : σ} (hs : R [] s) (is : List ι) : R (M.history s is) (M.final s is) := by
  induction is using List.reverseRecOn with
  | nil => exact hs
  | append_singleton is i ih =>
    rw [history_append, final_append]
    exact hstep _ i _ ih

/-- If every step acts on an observation by the entries that its answer contributes, then a
run acts on it by the entries of its history, in order. -/
theorem final_acted {τ δ : Type*} {f : σ → τ} {act : τ → List δ → τ} {w : ι × ο → List δ}
    {I : σ → Prop} (hnil : ∀ t, act t [] = t)
    (happend : ∀ t ds es, act t (ds ++ es) = act (act t ds) es) (hI : ∀ i s, I s → I (M.step i s).2)
    (hstep : ∀ i s, I s → f (M.step i s).2 = act (f s) (w (i, (M.step i s).1)))
    {s : σ} (hs : I s) (is : List ι) :
    f (M.final s is) = act (f s) ((M.history s is).flatMap w) := by
  induction is generalizing s with
  | nil => exact (hnil (f s)).symm
  | cons i is ih =>
    rw [final, history, List.flatMap_cons, happend, ← hstep i s hs]
    exact ih (hI i s hs)

theorem forall_steps_cons_iff (C : ι → σ → Prop) (s : σ) (i : ι) (is : List ι) :
    (∀ pre j, pre ++ [j] <+: i :: is → C j (M.final s pre)) ↔
      C i s ∧ ∀ pre j, pre ++ [j] <+: is → C j (M.final (M.step i s).2 pre) := by
  constructor
  · intro h
    exact ⟨h [] i (by simp), fun pre j hpre => h (i :: pre) j (by simpa using hpre)⟩
  · rintro ⟨hhead, htail⟩ pre j hpre
    cases pre with
    | nil =>
      obtain rfl := (List.cons_prefix_cons.mp hpre).1
      exact hhead
    | cons k pre =>
      obtain ⟨rfl, hrest⟩ := List.cons_prefix_cons.mp hpre
      exact htail pre j hrest

/-- Two conditions on steps that agree wherever the invariant holds agree along
a whole run, as long as the first one re-establishes the invariant. -/
theorem steps_iff {A B : ι → σ → Prop} {I : σ → Prop}
    (hAB : ∀ i s, I s → (A i s ↔ B i s)) (hI : ∀ i s, I s → A i s → I (M.step i s).2)
    {s : σ} (hs : I s) (is : List ι) :
    (∀ pre i, pre ++ [i] <+: is → A i (M.final s pre)) ↔
      ∀ pre i, pre ++ [i] <+: is → B i (M.final s pre) := by
  have along {C : ι → σ → Prop} (hC : ∀ i s, I s → C i s → A i s)
      (h : ∀ pre i, pre ++ [i] <+: is → C i (M.final s pre)) (pre : List ι) (hpre : pre <+: is) :
      I (M.final s pre) := by
    induction pre using List.reverseRecOn with
    | nil => exact hs
    | append_singleton pre i ih =>
      have hp := ih ((List.prefix_append pre [i]).trans hpre)
      rw [final_append]
      exact hI i _ hp (hC i _ hp (h pre i hpre))
  have before {pre : List ι} {i : ι} (hpre : pre ++ [i] <+: is) : pre <+: is :=
    (List.prefix_append pre [i]).trans hpre
  constructor
  · intro h pre i hpre
    exact (hAB i _ (along (fun _ _ _ hc => hc) h pre (before hpre))).mp (h pre i hpre)
  · intro h pre i hpre
    exact (hAB i _ (along (fun j t ht => (hAB j t ht).mpr) h pre (before hpre))).mpr (h pre i hpre)

/-- A relation holds at every point of a run exactly when every step of the run
meets the condition under which that step keeps it. -/
theorem throughout_iff {R : List (ι × ο) → σ → Prop} {Q : ι → σ → Prop} {I : σ → Prop}
    (hI : ∀ i s, I s → I (M.step i s).2)
    (hR : ∀ h i s, I s → R h s → (R (h ++ [(i, (M.step i s).1)]) (M.step i s).2 ↔ Q i s))
    {s : σ} (hs : I s) (h₀ : R [] s) (is : List ι) :
    (∀ pre, pre <+: is → R (M.history s pre) (M.final s pre)) ↔
      ∀ pre i, pre ++ [i] <+: is → Q i (M.final s pre) := by
  constructor
  · intro h pre i hpre
    have hend := h (pre ++ [i]) hpre
    rw [history_append, final_append] at hend
    exact (hR _ i _ (M.final_invariant hI hs pre)
      (h pre ((List.prefix_append pre [i]).trans hpre))).mp hend
  · intro h pre hpre
    induction pre using List.reverseRecOn with
    | nil => exact h₀
    | append_singleton pre i ih =>
      rw [history_append, final_append]
      exact (hR _ i _ (M.final_invariant hI hs pre)
        (ih ((List.prefix_append pre [i]).trans hpre))).mpr (h pre i hpre)

/-- A property of all states of a run is one of its start and of each step's end. -/
theorem forall_prefix_iff {P : σ → Prop} (s : σ) (is : List ι) :
    (∀ pre, pre <+: is → P (M.final s pre)) ↔
      P s ∧ ∀ pre i, pre ++ [i] <+: is → P (M.step i (M.final s pre)).2 := by
  constructor
  · intro h
    refine ⟨h [] List.nil_prefix, fun pre i hpre => ?_⟩
    have hend := h (pre ++ [i]) hpre
    rwa [final_append] at hend
  · rintro ⟨hs, hstep⟩ pre hpre
    rcases List.eq_nil_or_concat pre with rfl | ⟨pre, i, rfl⟩
    · exact hs
    · rw [List.concat_eq_append] at hpre ⊢
      rw [final_append]
      exact hstep pre i hpre

/-- What a run makes true some step of the run makes true. -/
theorem exists_step_of_final {P : σ → Prop} {s : σ} {is : List ι} (hs : ¬ P s)
    (h : P (M.final s is)) :
    ∃ pre i, pre ++ [i] <+: is ∧ ¬ P (M.final s pre) ∧ P (M.step i (M.final s pre)).2 := by
  by_contra hnone
  have hnever : ∀ pre, pre <+: is → ¬ P (M.final s pre) := by
    intro pre hpre
    induction pre using List.reverseRecOn with
    | nil => exact hs
    | append_singleton pre i ih =>
      intro hP
      rw [final_append] at hP
      exact hnone ⟨pre, i, hpre, ih ((List.prefix_append pre [i]).trans hpre), hP⟩
  exact hnever is (List.prefix_refl is) h

/-- The inputs with an abstract counterpart perform it and the other ones stutter;
then a run performs the abstract run of its counterparts, with the same outputs. -/
theorem refines {τ κ π : Type*} (N : Machine τ κ π) {f : σ → τ} {g : ι → Option κ} {r : ο → π}
    {I : σ → Prop} {C : ι → σ → Prop} (hI : ∀ i s, I s → I (M.step i s).2)
    (hstep : ∀ i s k, I s → C i s → g i = some k →
      N.step k (f s) = (r (M.step i s).1, f (M.step i s).2))
    (hstutter : ∀ i s, I s → C i s → g i = none → f (M.step i s).2 = f s)
    {s : σ} (hs : I s) {is : List ι} (hok : ∀ pre i, pre ++ [i] <+: is → C i (M.final s pre)) :
    N.final (f s) (is.filterMap g) = f (M.final s is) ∧
      N.history (f s) (is.filterMap g) =
        (M.history s is).filterMap fun answered => (g answered.1).map (·, r answered.2) := by
  induction is generalizing s with
  | nil => exact ⟨rfl, rfl⟩
  | cons i is ih =>
    obtain ⟨hhead, htail⟩ := (M.forall_steps_cons_iff C s i is).mp hok
    have hrest := ih (hI i s hs) htail
    rw [List.filterMap_cons, history, List.filterMap_cons]
    cases hg : g i with
    | none =>
      rw [hstutter i s hs hhead hg] at hrest
      exact hrest
    | some k =>
      have hk := hstep i s k hs hhead hg
      rw [final, history, hk]
      exact ⟨hrest.1, congrArg (_ :: ·) hrest.2⟩

end Machine

/-- A program of unknown code: it asks a machine for one service after another and decides
with each answer how to go on. A part that gives up is undone before the program goes on. -/
inductive Interaction (ι ο α : Type*) where
  | fail
  | stop (a : α)
  | ask (request : ι) (next : ο → Interaction ι ο α)
  | attempt (part : Interaction ι ο α) (next : Option α → Interaction ι ο α)

namespace Interaction
variable {σ ι ο α : Type*} {M : Machine σ ι ο} {p : Interaction ι ο α} {s s' : σ} {a : α}

/-- The result and the last state of the machine, unless the program gives up. -/
def run (M : Machine σ ι ο) : Interaction ι ο α → σ → Option (α × σ)
  | .fail, _ => none
  | .stop a, s => some (a, s)
  | .ask request next, s => run M (next (M.step request s).1) (M.step request s).2
  | .attempt part next, s =>
    match run M part s with
    | some (a, s') => run M (next (some a)) s'
    | none => run M (next none) s

/-- The requests of a program that are not undone, oldest first. -/
def requests (M : Machine σ ι ο) : Interaction ι ο α → σ → List ι
  | .fail, _ => []
  | .stop _, _ => []
  | .ask request next, s =>
    request :: requests M (next (M.step request s).1) (M.step request s).2
  | .attempt part next, s =>
    match run M part s with
    | some (a, s') => requests M part s ++ requests M (next (some a)) s'
    | none => requests M (next none) s

/-- The effect of a program is that of its requests. -/
theorem final_requests (h : p.run M s = some (a, s')) : M.final s (p.requests M s) = s' := by
  induction p generalizing s s' a with
  | fail => cases h
  | stop b =>
    cases h
    rfl
  | ask request next ih => exact ih _ h
  | attempt part next hpart hnext =>
    rw [run] at h
    rw [requests]
    split at h
    · next b t ht =>
      rw [Machine.final_append, hpart ht]
      exact hnext _ h
    · exact hnext _ h

/-- A transitive relation that every service respects holds across a program. -/
theorem related_of_run {R : σ → σ → Prop} (hrefl : ∀ s, R s s)
    (htrans : ∀ s t u, R s t → R t u → R s u) (hstep : ∀ i s, R s (M.step i s).2)
    (h : p.run M s = some (a, s')) : R s s' := by
  rw [← final_requests h]
  exact M.final_invariant (P := R s) (fun i t ht => htrans s t _ ht (hstep i t)) (hrefl s) _

end Interaction
end StellarSmartAccount.Foundations
