import Mathlib.Data.List.Nodup
import StellarSmartAccount.Foundations.Machine
import StellarSmartAccount.Foundations.Table

/-! # Tickets that are good once

A ticket carries a number and is good until a time, which may not be too far ahead. A
register keeps the number of a used ticket for as long as the ticket would be good and
forgets it afterwards. While the clock does not go back, no ticket is used twice, although a
number may come back on a later one.
-/

namespace StellarSmartAccount.Foundations

structure Ticket (N : Type*) where
  nonce : N
  expiry : ℕ
  deriving DecidableEq

/-- The numbers of used tickets, each with the time until which it is kept. -/
abbrev Register (N : Type*) := Table N ℕ

namespace Register
variable {N : Type*} {r : Register N} {t t' : Ticket N} {limit now now' : ℕ}

/-- The number is not kept any more. -/
def free (r : Register N) (nonce : N) (now : ℕ) : Bool := (r nonce).all (· < now)

/-- A ticket is admitted until it expires, and only if that is within the limit. -/
def admits (r : Register N) (limit : ℕ) (t : Ticket N) (now : ℕ) : Bool :=
  decide (now ≤ t.expiry ∧ t.expiry ≤ now + limit) && r.free t.nonce now

/-- The ticket has expired, or the register keeps its number for it. -/
def Spent (r : Register N) (t : Ticket N) (now : ℕ) : Prop :=
  t.expiry < now ∨ r t.nonce = some t.expiry

theorem admits_iff :
    r.admits limit t now = true ↔ (now ≤ t.expiry ∧ t.expiry ≤ now + limit) ∧
      ∀ expiry, r t.nonce = some expiry → expiry < now := by
  rw [admits, Bool.and_eq_true, decide_eq_true_eq, free]
  cases r t.nonce <;> simp

theorem Spent.later (h : r.Spent t now) (hle : now ≤ now') : r.Spent t now' := by
  rcases h with hexpired | hkept
  · exact .inl (Nat.lt_of_lt_of_le hexpired hle)
  · exact .inr hkept

theorem Spent.not_admits (h : r.Spent t now) : ¬ r.admits limit t now = true := by
  intro hadmits
  obtain ⟨hgood, hfree⟩ := admits_iff.mp hadmits
  rcases h with hexpired | hkept
  · omega
  · have hpast := hfree t.expiry hkept
    omega

variable [DecidableEq N]

def use (r : Register N) (t : Ticket N) : Register N := r.set t.nonce (some t.expiry)

theorem spent_use (r : Register N) (t : Ticket N) (now : ℕ) : (r.use t).Spent t now :=
  .inr (Table.set_self r t.nonce _)

/-- A number that comes back on another ticket was kept until the first one expired. -/
theorem Spent.use (h : r.Spent t now) (hadmits : r.admits limit t' now = true) :
    (r.use t').Spent t now := by
  rcases h with hexpired | hkept
  · exact .inl hexpired
  · by_cases hnonce : t.nonce = t'.nonce
    · rw [hnonce] at hkept
      exact .inl ((admits_iff.mp hadmits).2 t.expiry hkept)
    · exact .inr ((Table.set_of_ne r hnonce _).trans hkept)

end Register

/-- Every step moves the clock on, and a step that uses a ticket is one that the register
admits and records. -/
structure TakesTickets {σ ι ο N : Type*} [DecidableEq N] (M : Machine σ ι ο) (clock : σ → ℕ)
    (register : σ → Register N) (limit : ℕ) (used : ι × ο → Option (Ticket N)) : Prop where
  clock_le : ∀ i s, clock s ≤ clock (M.step i s).2
  unused : ∀ i s, used (i, (M.step i s).1) = none → register (M.step i s).2 = register s
  taken : ∀ i s t, used (i, (M.step i s).1) = some t →
    (register s).admits limit t (clock (M.step i s).2) = true ∧
      register (M.step i s).2 = (register s).use t

namespace TakesTickets
variable {σ ι ο N : Type*} [DecidableEq N] {M : Machine σ ι ο} {clock : σ → ℕ}
  {register : σ → Register N} {limit : ℕ} {used : ι × ο → Option (Ticket N)} {s : σ}
  {t : Ticket N}

theorem spent_step (h : TakesTickets M clock register limit used) (i : ι)
    (ht : (register s).Spent t (clock s)) :
    (register (M.step i s).2).Spent t (clock (M.step i s).2) := by
  have hlater := ht.later (h.clock_le i s)
  cases hused : used (i, (M.step i s).1) with
  | none =>
    rw [h.unused i s hused]
    exact hlater
  | some t' =>
    obtain ⟨hadmits, hregister⟩ := h.taken i s t' hused
    rw [hregister]
    exact hlater.use hadmits

theorem used_once (h : TakesTickets M clock register limit used) (s : σ) (is : List ι) :
    ((M.history s is).filterMap used).Nodup ∧
      ∀ t ∈ (M.history s is).filterMap used,
        (register (M.final s is)).Spent t (clock (M.final s is)) := by
  refine M.history_invariant (R := fun history u => (history.filterMap used).Nodup ∧
    ∀ t ∈ history.filterMap used, (register u).Spent t (clock u)) ?_ ⟨List.nodup_nil, nofun⟩ is
  rintro history i u ⟨hnodup, hspent⟩
  have hspent' := fun t ht => h.spent_step i (hspent t ht)
  rw [List.filterMap_append]
  cases hused : used (i, (M.step i u).1) with
  | none =>
    rw [List.filterMap_cons_none hused, List.filterMap_nil, List.append_nil]
    exact ⟨hnodup, hspent'⟩
  | some t' =>
    obtain ⟨hadmits, hregister⟩ := h.taken i u t' hused
    rw [List.filterMap_cons_some hused, List.filterMap_nil]
    constructor
    · refine hnodup.append (List.nodup_singleton t') ?_
      rw [List.disjoint_singleton]
      intro ht'
      exact ((hspent t' ht').later (h.clock_le i u)).not_admits hadmits
    · intro t ht
      rcases List.mem_append.mp ht with hold | hnew
      · exact hspent' t hold
      · rw [List.mem_singleton.mp hnew, hregister]
        exact Register.spent_use _ t' _

end TakesTickets

/-- If the elements with a property all hold the same ticket and no ticket occurs twice, then
one element at most has the property. -/
theorem countP_le_one_of_nodup {α T : Type*} {l : List α} {f : α → Option T} {p : α → Bool}
    (hnodup : (l.filterMap f).Nodup) (hsame : ∀ a ∈ l, ∀ b ∈ l, p a = true → p b = true →
      ∃ t, f a = some t ∧ f b = some t) : l.countP p ≤ 1 := by
  induction l with
  | nil => exact Nat.zero_le 1
  | cons a l ih =>
    have htail : (l.filterMap f).Nodup := by
      rw [List.filterMap_cons] at hnodup
      cases hfa : f a with
      | none => rwa [hfa] at hnodup
      | some t =>
        rw [hfa] at hnodup
        exact hnodup.of_cons
    have hrest := ih htail fun b hb c hc =>
      hsame b (List.mem_cons_of_mem a hb) c (List.mem_cons_of_mem a hc)
    by_cases ha : p a = true
    · -- the ticket of the first element occurs nowhere else
      have hnone : l.countP p = 0 := by
        rw [List.countP_eq_zero]
        intro b hb hpb
        obtain ⟨t, hfa, hfb⟩ := hsame a List.mem_cons_self b (List.mem_cons_of_mem a hb) ha hpb
        rw [List.filterMap_cons_some hfa, List.nodup_cons] at hnodup
        exact hnodup.1 (List.mem_filterMap.mpr ⟨b, hb, hfb⟩)
      have hcount : (a :: l).countP p = l.countP p + 1 := List.countP_cons_of_pos ha
      omega
    · rwa [List.countP_cons_of_neg ha]

end StellarSmartAccount.Foundations
