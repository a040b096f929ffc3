import StellarSmartAccount.Soroban.Host

/-! # The storage wrapper

Typed create, update, read and delete over one kind of contract storage. A write
that succeeds publishes one storage event; a refused one changes nothing.
-/

namespace StellarSmartAccount
open Foundations Soroban

inductive StorageError where
  | notFound
  | alreadyExists
  deriving DecidableEq

inductive StorageType where
  | persistentStorage
  | instanceStorage
  deriving DecidableEq

inductive StorageOperation where
  | store
  | update
  | delete
  deriving DecidableEq

structure StorageChangeEvent where
  storageType : StorageType
  operation : StorageOperation
  deriving DecidableEq

structure Storage where
  storageType : StorageType

instance : Inhabited Storage := ⟨⟨.instanceStorage⟩⟩

instance : IntoVal StorageType where
  intoVal
    | .persistentStorage => .variant "Persistent" []
    | .instanceStorage => .variant "Instance" []

instance : TryFromVal StorageType where
  tryFromVal
    | .variant "Persistent" [] => some .persistentStorage
    | .variant "Instance" [] => some .instanceStorage
    | _ => none

instance : LawfulVal StorageType := ⟨fun t => by cases t <;> rfl⟩

instance : IntoVal StorageOperation where
  intoVal
    | .store => .variant "Store" []
    | .update => .variant "Update" []
    | .delete => .variant "Delete" []

instance : TryFromVal StorageOperation where
  tryFromVal
    | .variant "Store" [] => some .store
    | .variant "Update" [] => some .update
    | .variant "Delete" [] => some .delete
    | _ => none

instance : LawfulVal StorageOperation := ⟨fun o => by cases o <;> rfl⟩

instance : IntoVal StorageChangeEvent where
  intoVal e := .map [(.symbol "operation", intoVal e.operation),
    (.symbol "storage_type", intoVal e.storageType)]

instance : TryFromVal StorageChangeEvent where
  tryFromVal
    | .map [(.symbol "operation", o), (.symbol "storage_type", t)] => do
      return ⟨← tryFromVal t, ← tryFromVal o⟩
    | _ => none

instance : LawfulVal StorageChangeEvent where
  tryFromVal_intoVal e := by
    change (do return ⟨← tryFromVal (intoVal e.storageType), ← tryFromVal (intoVal e.operation)⟩ :
      Option StorageChangeEvent) = some e
    simp

namespace Storage
variable {κ ν : Type} [IntoVal κ]

def executeStorageSet [IntoVal ν] (self : Storage) (key : κ) (value : ν) : Host Unit :=
  match self.storageType with
  | .persistentStorage => storageSet .persistentStorage key value
  | .instanceStorage => storageSet .instanceStorage key value

def executeStorageRemove (self : Storage) (key : κ) : Host Unit :=
  match self.storageType with
  | .persistentStorage => storageRemove .persistentStorage key
  | .instanceStorage => storageRemove .instanceStorage key

def get [TryFromVal ν] (self : Storage) (key : κ) : Host (Option ν) :=
  match self.storageType with
  | .persistentStorage => storageGet .persistentStorage key
  | .instanceStorage => storageGet .instanceStorage key

def has (self : Storage) (key : κ) : Host Bool :=
  match self.storageType with
  | .persistentStorage => storageHas .persistentStorage key
  | .instanceStorage => storageHas .instanceStorage key

def store [IntoVal ν] (self : Storage) (key : κ) (value : ν) : Fallible StorageError Unit := do
  if ← self.has key then
    throw .alreadyExists
  self.executeStorageSet key value
  publish ["storage", "store"] (⟨self.storageType, .store⟩ : StorageChangeEvent)

def update [IntoVal ν] (self : Storage) (key : κ) (value : ν) : Fallible StorageError Unit := do
  if !(← self.has key) then
    throw .notFound
  self.executeStorageSet key value
  publish ["storage", "update"] (⟨self.storageType, .update⟩ : StorageChangeEvent)

def delete (self : Storage) (key : κ) : Fallible StorageError Unit := do
  if !(← self.has key) then
    throw .notFound
  self.executeStorageRemove key
  publish ["storage", "delete"] (⟨self.storageType, .delete⟩ : StorageChangeEvent)

/-- The host storage an instance of the wrapper works on. -/
def durability (self : Storage) : Durability :=
  match self.storageType with
  | .persistentStorage => .persistentStorage
  | .instanceStorage => .instanceStorage

@[simp] theorem durability_default : (default : Storage).durability = .instanceStorage := rfl

def changeEvent (self : Storage) (operation : StorageOperation) : Event where
  topics := ["storage", match operation with
    | .store => "store"
    | .update => "update"
    | .delete => "delete"]
  data := intoVal (⟨self.storageType, operation⟩ : StorageChangeEvent)

/-- The state after a successful store or update. -/
def written [IntoVal ν] (self : Storage) (s : State) (operation : StorageOperation)
    (key : κ) (value : ν) : State :=
  (s.setStorage ((s.storage self.durability).insert (intoVal key) (intoVal value))
    self.durability).publish (self.changeEvent operation)

/-- The state after a successful delete. -/
def removed (self : Storage) (s : State) (key : κ) : State :=
  (s.setStorage ((s.storage self.durability).erase (intoVal key))
    self.durability).publish (self.changeEvent .delete)

theorem has_exec (self : Storage) (key : κ) (s : State) :
    (self.has key).exec s = .ok (decide (intoVal key ∈ s.storage self.durability), s) := by
  rcases self with ⟨_ | _⟩ <;> rfl

theorem get_exec_none [TryFromVal ν] {self : Storage} {key : κ} {s : State}
    (h : (s.storage self.durability).lookup (intoVal key) = none) :
    (self.get (ν := ν) key).exec s = .ok (none, s) := by
  rcases self with ⟨_ | _⟩ <;> exact storageGet_exec_none h

theorem get_exec_some [TryFromVal ν] {self : Storage} {key : κ} {s : State} {v : Val}
    (h : (s.storage self.durability).lookup (intoVal key) = some v) :
    (self.get (ν := ν) key).exec s =
      match tryFromVal v with
      | some x => .ok (some x, s)
      | none => .error .conversion := by
  rcases self with ⟨_ | _⟩ <;> exact storageGet_exec_some h

theorem store_exec [IntoVal ν] (self : Storage) (key : κ) (value : ν) (s : State) :
    (self.store key value).exec s =
      if intoVal key ∈ s.storage self.durability then .ok (.error .alreadyExists, s)
      else .ok (.ok (), self.written s .store key value) := by
  rw [store, Call.exec_bind, Call.exec_lift, has_exec]
  by_cases h : intoVal key ∈ s.storage self.durability
  · simp [Except.map, Except.bind, h]
  · rcases self with ⟨_ | _⟩ <;> simp only [h, decide_false, if_false] <;> rfl

theorem update_exec [IntoVal ν] (self : Storage) (key : κ) (value : ν) (s : State) :
    (self.update key value).exec s =
      if intoVal key ∈ s.storage self.durability then
        .ok (.ok (), self.written s .update key value)
      else .ok (.error .notFound, s) := by
  rw [update, Call.exec_bind, Call.exec_lift, has_exec]
  by_cases h : intoVal key ∈ s.storage self.durability
  · rcases self with ⟨_ | _⟩ <;> simp only [h, decide_true, if_true] <;> rfl
  · simp [Except.map, Except.bind, h]

theorem delete_exec (self : Storage) (key : κ) (s : State) :
    (self.delete key).exec s =
      if intoVal key ∈ s.storage self.durability then .ok (.ok (), self.removed s key)
      else .ok (.error .notFound, s) := by
  rw [delete, Call.exec_bind, Call.exec_lift, has_exec]
  by_cases h : intoVal key ∈ s.storage self.durability
  · rcases self with ⟨_ | _⟩ <;> simp only [h, decide_true, if_true] <;> rfl
  · simp [Except.map, Except.bind, h]

end Storage
end StellarSmartAccount
