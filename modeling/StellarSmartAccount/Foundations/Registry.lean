import StellarSmartAccount.Foundations.Machine
import StellarSmartAccount.Foundations.Table

/-! # Registries

A registry is a table with three requests: an insertion under an absent key, a
replacement under a present one and the removal of a value that it does not keep.
A refused request changes nothing and a served one changes its own key only.
-/

namespace StellarSmartAccount.Foundations

inductive Request (K V : Type*) where
  | insert (k : K) (v : V)
  | replace (k : K) (v : V)
  | remove (k : K)

namespace Request
variable {K V : Type*}

def key : Request K V → K
  | .insert k _ => k
  | .replace k _ => k
  | .remove k => k

/-- The value under the key once the request is served. -/
def value : Request K V → Option V
  | .insert _ v => some v
  | .replace _ v => some v
  | .remove _ => none

end Request

/-- The values that a registry never removes. -/
structure Registry (K V : Type*) where
  keeps : V → Bool

namespace Registry
variable {K V : Type*} [DecidableEq K] (R : Registry K V)

def serves (t : Table K V) : Request K V → Bool
  | .insert k _ => (t k).isNone
  | .replace k _ => (t k).isSome
  | .remove k => (t k).any (!R.keeps ·)

/-- Whether each request is served, and the table after it. -/
def machine : Machine (Table K V) (Request K V) Bool where
  step request t :=
    if R.serves t request then (true, t.set request.key request.value) else (false, t)

variable {R} {t : Table K V} {request : Request K V}

theorem step_of_serves (h : R.serves t request = true) :
    R.machine.step request t = (true, t.set request.key request.value) := if_pos h

theorem step_of_not_serves (h : ¬ R.serves t request = true) :
    R.machine.step request t = (false, t) := if_neg h

end Registry
end StellarSmartAccount.Foundations
