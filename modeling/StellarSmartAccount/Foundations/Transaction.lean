import Mathlib.Control.Basic

/-! # Transactions that may return an error or abort

A transaction threads a state and may abort, which discards the state. A call
additionally returns an error value; a returned error keeps the state reached so
far. The run of each combinator is an equation on outcomes, and the loops of a
program are run through the refusal of each step. A read-only call is determined
by its refusal, so a loop of such calls refuses for its first refusing element.
-/

namespace StellarSmartAccount.Foundations
universe u
variable {σ ρ ε ε' α β : Type u}

/-- Computations over a state which an abort discards. -/
abbrev Tx (σ ρ : Type u) := StateT σ (Except ρ)

/-- Transactions with a returned error, which keeps the state. -/
abbrev Call (σ ρ ε : Type u) := ExceptT ε (Tx σ ρ)

namespace Tx

def exec (x : Tx σ ρ α) (s : σ) : Except ρ (α × σ) := StateT.run x s

def abort (r : ρ) : Tx σ ρ α := fun _ => .error r

@[simp] theorem exec_pure (a : α) (s : σ) : exec (pure a : Tx σ ρ α) s = .ok (a, s) := rfl

@[simp] theorem exec_abort (r : ρ) (s : σ) : exec (abort r : Tx σ ρ α) s = .error r := rfl

@[simp] theorem exec_get (s : σ) : exec (get : Tx σ ρ σ) s = .ok (s, s) := rfl

@[simp] theorem exec_modify (f : σ → σ) (s : σ) :
    exec (modify f : Tx σ ρ PUnit) s = .ok (⟨⟩, f s) := rfl

theorem exec_bind (x : Tx σ ρ α) (f : α → Tx σ ρ β) (s : σ) :
    exec (x >>= f) s = (exec x s).bind (fun p => exec (f p.1) p.2) := rfl

theorem exec_bind_ok {x : Tx σ ρ α} {s s' : σ} {a : α} (h : exec x s = .ok (a, s'))
    (f : α → Tx σ ρ β) : exec (x >>= f) s = exec (f a) s' := by
  rw [exec_bind, h]
  rfl

theorem exec_bind_error {x : Tx σ ρ α} {s : σ} {r : ρ} (h : exec x s = .error r)
    (f : α → Tx σ ρ β) : exec (x >>= f) s = .error r := by
  rw [exec_bind, h]
  rfl

theorem exec_bind_eq_ok_iff {x : Tx σ ρ α} {f : α → Tx σ ρ β} {s : σ} {p : β × σ} :
    exec (x >>= f) s = .ok p ↔ ∃ a s', exec x s = .ok (a, s') ∧ exec (f a) s' = .ok p := by
  rw [exec_bind]
  cases hx : exec x s with
  | error r => simp [Except.bind]
  | ok q =>
    constructor
    · intro h
      exact ⟨q.1, q.2, rfl, h⟩
    · rintro ⟨a, s', heq, h⟩
      cases heq
      exact h

/-- The caller's view of a transaction: an abort restores the state before it. -/
def commit (x : Tx σ ρ α) (s : σ) : Except ρ α × σ :=
  match exec x s with
  | .ok (a, s') => (.ok a, s')
  | .error r => (.error r, s)

theorem commit_snd_of_error {x : Tx σ ρ α} {s : σ} {r : ρ} (h : (commit x s).1 = .error r) :
    (commit x s).2 = s := by
  rw [commit] at h ⊢
  cases hx : exec x s with
  | ok p =>
    rw [hx] at h
    cases h
  | error e => rfl

/-- The outcome of a transaction that ends in a given state unless it aborts. -/
def outcome (a : α) (s : σ) : Option ρ → Except ρ (α × σ)
  | none => .ok (a, s)
  | some r => .error r

theorem outcome_eq_ok_iff {a : α} {s : σ} {r : Option ρ} {p : α × σ} :
    outcome a s r = .ok p ↔ r = none ∧ p = (a, s) := by
  cases r with
  | none => simp [outcome, eq_comm]
  | some r => simp [outcome]

theorem outcome_eq_error_iff {a : α} {s : σ} {r : Option ρ} {e : ρ} :
    outcome a s r = .error e ↔ r = some e := by
  cases r with
  | none => simp [outcome]
  | some r => simp [outcome]

theorem exec_bind_outcome {x : Tx σ ρ α} {f : α → Tx σ ρ β} {s s' s'' : σ} {a : α} {b : β}
    {r₁ r₂ : Option ρ} (hx : exec x s = outcome a s' r₁)
    (hf : r₁ = none → exec (f a) s' = outcome b s'' r₂) :
    exec (x >>= f) s = outcome b s'' (r₁.or r₂) := by
  cases r₁ with
  | none =>
    rw [exec_bind_ok hx, hf rfl]
    rfl
  | some r => exact exec_bind_error hx f

/-- A read-only loop aborts at its first aborting element. -/
theorem exec_forM_outcome {γ : Type*} {f : γ → Tx σ ρ PUnit} {s : σ} {abort : γ → Option ρ}
    (l : List γ) (h : ∀ c ∈ l, exec (f c) s = outcome ⟨⟩ s (abort c)) :
    exec (l.forM f) s = outcome ⟨⟩ s (l.findSome? abort) := by
  induction l with
  | nil => rfl
  | cons c l ih =>
    have hrest := ih (fun d hd => h d (List.mem_cons_of_mem c hd))
    change exec (f c >>= fun _ => l.forM f) s = _
    rw [exec_bind_outcome (h c List.mem_cons_self) (fun _ => hrest), List.findSome?_cons]
    cases abort c <;> rfl

theorem exec_anyM {σ ρ : Type} {γ : Type*} {f : γ → Tx σ ρ Bool} {p : γ → Bool} {s : σ}
    (l : List γ) (h : ∀ c ∈ l, exec (f c) s = .ok (p c, s)) :
    exec (l.anyM f) s = .ok (l.any p, s) := by
  induction l with
  | nil => rfl
  | cons c l ih =>
    have hc := h c List.mem_cons_self
    rw [List.anyM, exec_bind_ok hc, List.any_cons]
    cases p c with
    | true => rfl
    | false => exact ih (fun d hd => h d (List.mem_cons_of_mem c hd))

end Tx

namespace Call

def exec (x : Call σ ρ ε α) (s : σ) : Except ρ (Except ε α × σ) := Tx.exec (ExceptT.run x) s

@[simp] theorem exec_pure (a : α) (s : σ) :
    exec (pure a : Call σ ρ ε α) s = .ok (.ok a, s) := rfl

@[simp] theorem exec_throw (e : ε) (s : σ) :
    exec (throw e : Call σ ρ ε α) s = .ok (.error e, s) := rfl

theorem exec_lift (x : Tx σ ρ α) (s : σ) :
    exec (liftM x : Call σ ρ ε α) s = (Tx.exec x s).map (fun p => (.ok p.1, p.2)) := by
  change (Except.bind (Tx.exec x s) (fun p => Except.ok (Except.ok p.1, p.2)) :
    Except ρ (Except ε α × σ)) = _
  cases Tx.exec x s <;> rfl

theorem exec_adapt (f : ε → ε') (x : Call σ ρ ε α) (s : σ) :
    exec (ExceptT.adapt f x : Call σ ρ ε' α) s =
      (exec x s).map (fun p => (p.1.mapError f, p.2)) := by
  change (Except.bind (exec x s) (fun p => Except.ok (p.1.mapError f, p.2)) :
    Except ρ (Except ε' α × σ)) = _
  cases exec x s <;> rfl

theorem exec_bind (x : Call σ ρ ε α) (f : α → Call σ ρ ε β) (s : σ) :
    exec (x >>= f) s = (exec x s).bind (fun p =>
      match p.1 with
      | .ok a => exec (f a) p.2
      | .error e => .ok (.error e, p.2)) := by
  change (exec x s).bind _ = _
  congr 1
  funext p
  rcases p with ⟨r, s'⟩
  cases r <;> rfl

theorem exec_bind_ok {x : Call σ ρ ε α} {s s' : σ} {a : α} (h : exec x s = .ok (.ok a, s'))
    (f : α → Call σ ρ ε β) : exec (x >>= f) s = exec (f a) s' := by
  rw [exec_bind, h]
  rfl

theorem exec_bind_throw {x : Call σ ρ ε α} {s s' : σ} {e : ε}
    (h : exec x s = .ok (.error e, s')) (f : α → Call σ ρ ε β) :
    exec (x >>= f) s = .ok (.error e, s') := by
  rw [exec_bind, h]
  rfl

theorem exec_bind_abort {x : Call σ ρ ε α} {s : σ} {r : ρ} (h : exec x s = .error r)
    (f : α → Call σ ρ ε β) : exec (x >>= f) s = .error r := by
  rw [exec_bind, h]
  rfl

theorem exec_lift_ok {x : Tx σ ρ α} {s s' : σ} {a : α} (h : Tx.exec x s = .ok (a, s')) :
    exec (liftM x : Call σ ρ ε α) s = .ok (.ok a, s') := by
  rw [exec_lift, h]
  rfl

theorem exec_lift_error {x : Tx σ ρ α} {s : σ} {r : ρ} (h : Tx.exec x s = .error r) :
    exec (liftM x : Call σ ρ ε α) s = .error r := by
  rw [exec_lift, h]
  rfl

/-- Why a call does not return a value. -/
inductive Refusal (ρ ε : Type u) where
  | error (e : ε)
  | abort (r : ρ)
  deriving DecidableEq

/-- The outcome of a call that leaves the state alone, from its refusal. -/
def outcome (a : α) (s : σ) : Option (Refusal ρ ε) → Except ρ (Except ε α × σ)
  | none => .ok (.ok a, s)
  | some (.error e) => .ok (.error e, s)
  | some (.abort r) => .error r

theorem outcome_eq_ok_iff {a : α} {s : σ} {refusal : Option (Refusal ρ ε)} :
    outcome a s refusal = .ok (.ok a, s) ↔ refusal = none := by
  rcases refusal with _ | ⟨e | r⟩ <;> simp [outcome]

theorem outcome_eq_error_iff {a : α} {s : σ} {refusal : Option (Refusal ρ ε)} {r : ρ} :
    outcome a s refusal = .error r ↔ refusal = some (.abort r) := by
  rcases refusal with _ | ⟨e | r⟩ <;> simp [outcome]

theorem exec_bind_outcome {x : Call σ ρ ε α} {f : α → Call σ ρ ε β} {s : σ} {a : α} {b : β}
    {r₁ r₂ : Option (Refusal ρ ε)} (hx : exec x s = outcome a s r₁)
    (hf : r₁ = none → exec (f a) s = outcome b s r₂) :
    exec (x >>= f) s = outcome b s (r₁.or r₂) := by
  rcases r₁ with _ | ⟨e | r⟩
  · rw [exec_bind_ok hx, hf rfl]
    rfl
  · exact exec_bind_throw hx f
  · exact exec_bind_abort hx f

theorem exec_bind_outcome_ok {x : Call σ ρ ε α} {f : α → Call σ ρ ε β} {s : σ} {a : α} {b : β}
    {r : Option (Refusal ρ ε)} (hx : exec x s = outcome a s r)
    (hf : exec (f a) s = .ok (.ok b, s)) : exec (x >>= f) s = outcome b s r := by
  have hnone : exec (f a) s = outcome b s none := hf
  have h := exec_bind_outcome hx (fun _ => hnone)
  rwa [Option.or_none] at h

/-- A read-only loop refuses for its first refusing element; otherwise it returns
the fold of its steps. -/
theorem exec_foldlM_outcome {γ : Type*} {f : α → γ → Call σ ρ ε α} {g : α → γ → α} {s : σ}
    {refusal : γ → Option (Refusal ρ ε)} (l : List γ) (a : α)
    (h : ∀ c ∈ l, ∀ a, exec (f a c) s = outcome (g a c) s (refusal c)) :
    exec (l.foldlM f a) s = outcome (l.foldl g a) s (l.findSome? refusal) := by
  induction l generalizing a with
  | nil => rfl
  | cons c l ih =>
    have hrest := ih (g a c) (fun d hd => h d (List.mem_cons_of_mem c hd))
    rw [List.foldlM_cons, exec_bind_outcome (h c List.mem_cons_self a) (fun _ => hrest),
      List.foldl_cons, List.findSome?_cons]
    cases refusal c <;> rfl

theorem exec_forM_outcome {γ : Type*} {f : γ → Call σ ρ ε PUnit} {s : σ}
    {refusal : γ → Option (Refusal ρ ε)} (l : List γ)
    (h : ∀ c ∈ l, exec (f c) s = outcome ⟨⟩ s (refusal c)) :
    exec (l.forM f) s = outcome ⟨⟩ s (l.findSome? refusal) := by
  induction l with
  | nil => rfl
  | cons c l ih =>
    have hrest := ih (fun d hd => h d (List.mem_cons_of_mem c hd))
    change exec (f c >>= fun _ => l.forM f) s = _
    rw [exec_bind_outcome (h c List.mem_cons_self) (fun _ => hrest), List.findSome?_cons]
    cases refusal c <;> rfl

/-- The caller's view of a call: an abort restores the state before it. -/
def commit (x : Call σ ρ ε α) (s : σ) : Except ρ (Except ε α) × σ :=
  match exec x s with
  | .ok (r, s') => (.ok r, s')
  | .error r => (.error r, s)

theorem commit_of_ok {x : Call σ ρ ε α} {s s' : σ} {r : Except ε α}
    (h : exec x s = .ok (r, s')) : commit x s = (.ok r, s') := by
  rw [commit, h]

theorem commit_of_error {x : Call σ ρ ε α} {s : σ} {r : ρ} (h : exec x s = .error r) :
    commit x s = (.error r, s) := by
  rw [commit, h]

/-- What the caller of a read-only call sees of its refusal. -/
def response (a : α) : Option (Refusal ρ ε) → Except ρ (Except ε α)
  | none => .ok (.ok a)
  | some (.error e) => .ok (.error e)
  | some (.abort r) => .error r

theorem map_fst_outcome (a : α) (s : σ) (refusal : Option (Refusal ρ ε)) :
    (outcome a s refusal).map Prod.fst = response a refusal := by
  rcases refusal with _ | ⟨e | r⟩ <;> rfl

theorem commit_of_outcome {x : Call σ ρ ε α} {s : σ} {a : α} {refusal : Option (Refusal ρ ε)}
    (h : exec x s = outcome a s refusal) : commit x s = (response a refusal, s) := by
  rw [commit, h]
  rcases refusal with _ | ⟨e | r⟩ <;> rfl

end Call
end StellarSmartAccount.Foundations
