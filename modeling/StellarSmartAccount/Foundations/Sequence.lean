import Mathlib.Data.List.Basic
import StellarSmartAccount.Foundations.Transaction

/-! # Transactions performed over a list

A loop that performs one transaction per element and collects the results is a run:
every element starts in the state that the one before it left. Runs are determined
by their start, split where their lists split, and name the state of each element.
-/

namespace StellarSmartAccount.Foundations
universe u
variable {σ ρ β : Type u} {γ : Type*}

/-- Collecting the results at the end of an accumulator is a monadic map. -/
theorem foldlM_concat_eq_mapM {m : Type u → Type*} [Monad m] [LawfulMonad m] (f : γ → m β)
    (cs : List γ) (before : List β) :
    cs.foldlM (fun results c => do return results ++ [← f c]) before =
      (before ++ ·) <$> cs.mapM f := by
  induction cs generalizing before with
  | nil => simp
  | cons c cs ih =>
    simp only [List.foldlM_cons, List.mapM_cons, bind_assoc, pure_bind, ih]
    simp

/-- If decoding an element takes back its encoding only, then a list decodes exactly if it
consists of encodings. -/
theorem mapM_eq_some_iff {encode : β → γ} {decode : γ → Option β}
    (h : ∀ c b, decode c = some b ↔ c = encode b) {cs : List γ} {bs : List β} :
    cs.mapM decode = some bs ↔ cs = bs.map encode := by
  induction cs generalizing bs with
  | nil => cases bs <;> simp
  | cons c cs ih =>
    rw [List.mapM_cons]
    constructor
    · intro hall
      obtain ⟨b, hb, hrest⟩ := Option.bind_eq_some_iff.mp hall
      obtain ⟨bs', hbs, heq⟩ := Option.bind_eq_some_iff.mp hrest
      cases heq
      rw [List.map_cons, (h c b).mp hb, ih.mp hbs]
    · intro heq
      cases bs with
      | nil => cases heq
      | cons b bs =>
        obtain ⟨hc, hcs⟩ := List.cons.inj heq
        rw [(h c b).mpr hc, ih.mpr hcs]
        rfl

namespace Tx

/-- Elements performed in order, with their results and the states in between. -/
inductive Runs (f : γ → Tx σ ρ β) : List γ → σ → List β → σ → Prop where
  | nil (s : σ) : Runs f [] s [] s
  | cons {c : γ} {cs : List γ} {s t u : σ} {b : β} {bs : List β}
      (head : exec (f c) s = .ok (b, t)) (tail : Runs f cs t bs u) : Runs f (c :: cs) s (b :: bs) u

theorem exec_mapM_eq_ok_iff {f : γ → Tx σ ρ β} {cs : List γ} {s u : σ} {bs : List β} :
    exec (cs.mapM f) s = .ok (bs, u) ↔ Runs f cs s bs u := by
  constructor
  · intro h
    induction cs generalizing s bs with
    | nil =>
      cases h
      exact .nil _
    | cons c cs ih =>
      rw [List.mapM_cons] at h
      obtain ⟨b, t, hhead, hrest⟩ := exec_bind_eq_ok_iff.mp h
      obtain ⟨bs', u', htail, hpure⟩ := exec_bind_eq_ok_iff.mp hrest
      cases hpure
      exact .cons hhead (ih htail)
  · intro h
    induction h with
    | nil s => rfl
    | cons head tail ih =>
      rw [List.mapM_cons, exec_bind_ok head, exec_bind_ok ih]
      rfl

theorem exec_foldlM_concat_eq_ok_iff {f : γ → Tx σ ρ β} {cs : List γ} {s u : σ} {bs : List β} :
    exec (cs.foldlM (fun results c => do return results ++ [← f c]) []) s = .ok (bs, u) ↔
      Runs f cs s bs u := by
  rw [foldlM_concat_eq_mapM, ← exec_mapM_eq_ok_iff]
  simp

namespace Runs
variable {f : γ → Tx σ ρ β} {cs ds : List γ} {s u : σ} {bs : List β}

theorem length_eq (h : Runs f cs s bs u) : bs.length = cs.length := by
  induction h with
  | nil s => rfl
  | cons head tail ih => rw [List.length_cons, List.length_cons, ih]

theorem append_iff : Runs f (cs ++ ds) s bs u ↔
    ∃ first rest t, bs = first ++ rest ∧ Runs f cs s first t ∧ Runs f ds t rest u := by
  constructor
  · intro h
    induction cs generalizing s bs with
    | nil => exact ⟨[], bs, s, rfl, .nil s, h⟩
    | cons c cs ih =>
      cases h with
      | cons head tail =>
        obtain ⟨first, rest, t, rfl, hfirst, hrest⟩ := ih tail
        exact ⟨_ :: first, rest, t, rfl, .cons head hfirst, hrest⟩
  · rintro ⟨first, rest, t, rfl, hfirst, hrest⟩
    induction hfirst with
    | nil s => exact hrest
    | cons head tail ih => exact .cons head (ih hrest)

/-- A run performs each element once, between the elements before it and those after it. -/
theorem split_at (h : Runs f cs s bs u) {i : ℕ} (hi : i < cs.length) (hi' : i < bs.length) :
    ∃ t t', Runs f (cs.take i) s (bs.take i) t ∧ exec (f cs[i]) t = .ok (bs[i], t') ∧
      Runs f (cs.drop (i + 1)) t' (bs.drop (i + 1)) u := by
  induction h generalizing i with
  | nil s => exact absurd hi (Nat.not_lt_zero i)
  | cons head tail ih =>
    cases i with
    | zero => exact ⟨_, _, .nil _, head, tail⟩
    | succ i =>
      obtain ⟨t, t', hbefore, hat, hafter⟩ :=
        ih (Nat.lt_of_succ_lt_succ hi) (Nat.lt_of_succ_lt_succ hi')
      exact ⟨t, t', .cons head hbefore, hat, hafter⟩

theorem invariant {P : σ → Prop} (hstep : ∀ c s b t, exec (f c) s = .ok (b, t) → P s → P t)
    (h : Runs f cs s bs u) (hs : P s) : P u := by
  induction h with
  | nil s => exact hs
  | cons head tail ih => exact ih (hstep _ _ _ _ head hs)

end Runs
end Tx
end StellarSmartAccount.Foundations
