import Mathlib.Data.Vector.Basic

/-! # Untyped host values and the contract-type codec

Storage entries, call arguments and events are untyped host values. A contract
enum becomes a vector headed by the symbol of its variant and a contract struct a
map from field symbols, in field-name order. Decoding may fail; every type used
here decodes what it encodes, hence encodes injectively.
-/

namespace StellarSmartAccount.Soroban

abbrev Bytes := List UInt8
abbrev BytesN (n : ℕ) := List.Vector UInt8 n
abbrev Symbol := String

inductive Address where
  | account (id : BytesN 32)
  | contract (id : BytesN 32)
  deriving DecidableEq

/-- Host values without components. -/
inductive Scalar where
  | void
  | bool (b : Bool)
  | u32 (n : UInt32)
  | i32 (n : Int32)
  | u64 (n : UInt64)
  | i64 (n : Int64)
  | timepoint (n : UInt64)
  | duration (n : UInt64)
  | u128 (n : BitVec 128)
  | i128 (n : BitVec 128)
  | u256 (n : BitVec 256)
  | i256 (n : BitVec 256)
  | bytes (b : Bytes)
  | string (b : Bytes)
  | symbol (s : Symbol)
  | address (a : Address)
  deriving DecidableEq

inductive Val where
  | scalar (x : Scalar)
  | vec (xs : List Val)
  | map (entries : List (Val × Val))

namespace Val

@[match_pattern] abbrev bool (b : Bool) : Val := .scalar (.bool b)
@[match_pattern] abbrev u64 (n : UInt64) : Val := .scalar (.u64 n)
@[match_pattern] abbrev bytes (b : Bytes) : Val := .scalar (.bytes b)
@[match_pattern] abbrev symbol (s : Symbol) : Val := .scalar (.symbol s)
@[match_pattern] abbrev address (a : Address) : Val := .scalar (.address a)

mutual

def beq : Val → Val → Bool
  | .scalar x, .scalar y => x = y
  | .vec xs, .vec ys => beqVec xs ys
  | .map xs, .map ys => beqMap xs ys
  | _, _ => false

def beqVec : List Val → List Val → Bool
  | [], [] => true
  | x :: xs, y :: ys => beq x y && beqVec xs ys
  | _, _ => false

def beqMap : List (Val × Val) → List (Val × Val) → Bool
  | [], [] => true
  | (k, v) :: xs, (k', v') :: ys => beq k k' && beq v v' && beqMap xs ys
  | _, _ => false

end

mutual

theorem beq_iff : ∀ a b : Val, beq a b = true ↔ a = b
  | .scalar x, b => by cases b <;> simp [beq]
  | .vec xs, b => by cases b <;> simp [beq, beqVec_iff xs]
  | .map xs, b => by cases b <;> simp [beq, beqMap_iff xs]

theorem beqVec_iff : ∀ xs ys : List Val, beqVec xs ys = true ↔ xs = ys
  | [], ys => by cases ys <;> simp [beqVec]
  | x :: xs, ys => by cases ys <;> simp [beqVec, beq_iff x, beqVec_iff xs]

theorem beqMap_iff : ∀ xs ys : List (Val × Val), beqMap xs ys = true ↔ xs = ys
  | [], ys => by cases ys <;> simp [beqMap]
  | (k, v) :: xs, ys => by
    cases ys with
    | nil => simp [beqMap]
    | cons y ys =>
      obtain ⟨k', v'⟩ := y
      simp [beqMap, beq_iff k, beq_iff v, beqMap_iff xs, and_assoc]

end

instance : DecidableEq Val := fun a b => decidable_of_iff _ (beq_iff a b)

end Val

class IntoVal (α : Type) where
  intoVal : α → Val

class TryFromVal (α : Type) where
  tryFromVal : Val → Option α

export IntoVal (intoVal)
export TryFromVal (tryFromVal)

/-- Decoding is a left inverse of encoding. -/
class LawfulVal (α : Type) [IntoVal α] [TryFromVal α] : Prop where
  tryFromVal_intoVal : ∀ a : α, tryFromVal (intoVal a) = some a

attribute [simp] LawfulVal.tryFromVal_intoVal

theorem intoVal_injective {α : Type} [IntoVal α] [TryFromVal α] [LawfulVal α] :
    Function.Injective (intoVal : α → Val) := by
  intro a b h
  have hd := congrArg (tryFromVal (α := α)) h
  simpa using hd

instance : IntoVal Bool := ⟨.bool⟩
instance : TryFromVal Bool where
  tryFromVal
    | .bool b => some b
    | _ => none
instance : LawfulVal Bool := ⟨fun _ => rfl⟩

instance : IntoVal UInt64 := ⟨.u64⟩
instance : TryFromVal UInt64 where
  tryFromVal
    | .u64 n => some n
    | _ => none
instance : LawfulVal UInt64 := ⟨fun _ => rfl⟩

instance : IntoVal Bytes := ⟨.bytes⟩
instance : TryFromVal Bytes where
  tryFromVal
    | .bytes b => some b
    | _ => none
instance : LawfulVal Bytes := ⟨fun _ => rfl⟩

instance {n : ℕ} : IntoVal (BytesN n) := ⟨fun b => .bytes b.toList⟩
instance {n : ℕ} : TryFromVal (BytesN n) where
  tryFromVal
    | .bytes b => if h : b.length = n then some ⟨b, h⟩ else none
    | _ => none
instance {n : ℕ} : LawfulVal (BytesN n) where
  tryFromVal_intoVal b := by
    obtain ⟨b, h⟩ := b
    exact dif_pos h

instance : IntoVal Symbol := ⟨.symbol⟩
instance : TryFromVal Symbol where
  tryFromVal
    | .symbol s => some s
    | _ => none
instance : LawfulVal Symbol := ⟨fun _ => rfl⟩

instance : IntoVal Address := ⟨.address⟩
instance : TryFromVal Address where
  tryFromVal
    | .address a => some a
    | _ => none
instance : LawfulVal Address := ⟨fun _ => rfl⟩

/-! A vector is decoded element by element; the host decodes the elements when
they are read, which differs only on values that no contract type encodes. -/

section Vec
variable {α : Type} [IntoVal α] [TryFromVal α]

instance : IntoVal (List α) := ⟨fun xs => .vec (xs.map intoVal)⟩

instance : TryFromVal (List α) where
  tryFromVal
    | .vec xs => xs.mapM tryFromVal
    | _ => none

theorem mapM_tryFromVal [LawfulVal α] (xs : List α) :
    (xs.map intoVal).mapM (tryFromVal (α := α)) = some xs := by
  induction xs with
  | nil => rfl
  | cons x xs ih => simp [ih]

instance [LawfulVal α] : LawfulVal (List α) := ⟨mapM_tryFromVal⟩

end Vec

/-- An enum value: the symbol of its variant, then its fields. -/
@[match_pattern] abbrev Val.variant (name : Symbol) (fields : List Val) : Val :=
  .vec (.symbol name :: fields)

end StellarSmartAccount.Soroban
