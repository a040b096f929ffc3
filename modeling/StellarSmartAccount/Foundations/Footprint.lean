import Mathlib.Data.Set.Basic
import StellarSmartAccount.Foundations.Machine

/-! # Footprints of the inputs of a machine

The states of a machine are observed cell by cell. A footprint of an input bounds
the cells that its output and its effect depend on and the cells that it changes.
Two inputs commute if neither of them writes what the other one reads or writes.
-/

namespace StellarSmartAccount.Foundations
namespace Machine
variable {σ ι ο κ β : Type*}

/-- Two states have the same content in every cell of a set. -/
def SameOn (cell : σ → κ → β) (cells : Set κ) (s t : σ) : Prop :=
  ∀ k ∈ cells, cell s k = cell t k

/-- On the states of an invariant an input changes its written cells only, and the states
that agree on the cells it reads get the same output and the same written cells. -/
structure Footprint (M : Machine σ ι ο) (cell : σ → κ → β) (I : σ → Prop) (i : ι)
    (reads writes : Set κ) : Prop where
  frame : ∀ s, I s → ∀ k ∉ writes, cell (M.step i s).2 k = cell s k
  output : ∀ s t, I s → I t → SameOn cell reads s t → (M.step i s).1 = (M.step i t).1
  written : ∀ s t, I s → I t → SameOn cell reads s t →
    SameOn cell writes (M.step i s).2 (M.step i t).2

namespace Footprint
variable {M : Machine σ ι ο} {cell : σ → κ → β} {I : σ → Prop} {i j : ι}
  {reads writes reads' writes' : Set κ} {s : σ}

theorem sameOn (hj : Footprint M cell I j reads' writes') (hs : I s)
    (h : ∀ k ∈ reads, k ∉ writes') : SameOn cell reads s (M.step j s).2 :=
  fun k hk => (hj.frame s hs k (h k hk)).symm

/-- An input that reads nothing of what another one writes gets the same output before
and after it. -/
theorem output_step (hI : ∀ i s, I s → I (M.step i s).2) (hi : Footprint M cell I i reads writes)
    (hj : Footprint M cell I j reads' writes') (hs : I s) (h : ∀ k ∈ reads, k ∉ writes') :
    (M.step i s).1 = (M.step i (M.step j s).2).1 :=
  hi.output s _ hs (hI j s hs) (hj.sameOn hs h)

/-- A cell that the second of two inputs does not write holds in both orders what the
first one leaves in it. -/
theorem cell_step_step (hI : ∀ i s, I s → I (M.step i s).2)
    (hi : Footprint M cell I i reads writes) (hj : Footprint M cell I j reads' writes')
    (hs : I s) (h : ∀ k ∈ reads, k ∉ writes') {k : κ} (hk : k ∉ writes') :
    cell (M.step j (M.step i s).2).2 k = cell (M.step i (M.step j s).2).2 k := by
  rw [hj.frame _ (hI i s hs) k hk]
  by_cases hw : k ∈ writes
  · exact hi.written s _ hs (hI j s hs) (hj.sameOn hs h) k hw
  · rw [hi.frame s hs k hw, hi.frame _ (hI j s hs) k hw, hj.frame s hs k hk]

theorem commute (hI : ∀ i s, I s → I (M.step i s).2) (hi : Footprint M cell I i reads writes)
    (hj : Footprint M cell I j reads' writes') (hs : I s)
    (hrw : ∀ k ∈ reads, k ∉ writes') (hwr : ∀ k ∈ reads', k ∉ writes)
    (hww : ∀ k ∈ writes, k ∉ writes') (k : κ) :
    cell (M.step j (M.step i s).2).2 k = cell (M.step i (M.step j s).2).2 k := by
  by_cases hk : k ∈ writes'
  · have hother : k ∉ writes := fun hw => hww k hw hk
    exact (cell_step_step hI hj hi hs hwr hother).symm
  · exact cell_step_step hI hi hj hs hrw hk

end Footprint
end Machine
end StellarSmartAccount.Foundations
