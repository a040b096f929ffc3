import StellarSmartAccount.Soroban.Host

/-! # The initialization flag

The default methods of the `Initializable` trait over the boolean instance entry
`init`, whose absence means that the contract is not initialized.
-/

namespace StellarSmartAccount
open Foundations Soroban

inductive InitializableError where
  | alreadyInitialized
  | notInitialized
  deriving DecidableEq

def InitializableError.code : InitializableError → UInt32
  | .alreadyInitialized => 0
  | .notInitialized => 1

namespace Initializable

def initialized : Symbol := "init"

def getInitializationValue : Host Bool := readFlag initialized

def setInitializationValue (value : Bool) : Host Unit :=
  storageSet .instanceStorage initialized value

def ensureNotInitialized : Fallible InitializableError Unit := do
  if ← getInitializationValue then
    throw .alreadyInitialized

def markInitialized : Fallible InitializableError Unit := do
  if ← getInitializationValue then
    throw .alreadyInitialized
  setInitializationValue true

def isInitialized : Host Bool := getInitializationValue

/-- The trait method `initialize`. -/
def initializeContract : Fallible InitializableError Unit := do
  ensureNotInitialized
  markInitialized

/-- The macro `only_not_initialized!`, with the error code of its call site. -/
def onlyNotInitialized (alreadyInitialized : UInt32) : Host Unit := do
  if ← isInitialized then
    panicWithError alreadyInitialized

/-- The state with the flag set. -/
def marked (s : State) : State :=
  s.setStorage ((s.storage .instanceStorage).insert (intoVal initialized) (intoVal true))
    .instanceStorage

/-- The flag, if present, is a boolean. -/
def FlagTyped (s : State) : Prop :=
  ∀ v, s.instanceMap.lookup (intoVal initialized) = some v → ∃ b : Bool, v = intoVal b

variable {s : State}

theorem isInitialized_exec (h : FlagTyped s) :
    isInitialized.exec s = .ok (s.flag initialized, s) := readFlag_exec h

theorem onlyNotInitialized_exec (code : UInt32) (h : FlagTyped s) :
    (onlyNotInitialized code).exec s =
      if s.flag initialized then .error (.contractError code) else .ok (⟨⟩, s) := by
  rw [onlyNotInitialized, Tx.exec_bind_ok (isInitialized_exec h)]
  cases s.flag initialized <;> rfl

theorem ensureNotInitialized_exec (h : FlagTyped s) :
    ensureNotInitialized.exec s =
      .ok (if s.flag initialized then .error .alreadyInitialized else .ok ⟨⟩, s) := by
  rw [ensureNotInitialized, Call.exec_bind, Call.exec_lift, getInitializationValue,
    readFlag_exec h]
  cases s.flag initialized <;> rfl

theorem markInitialized_exec (h : FlagTyped s) :
    markInitialized.exec s =
      if s.flag initialized then .ok (.error .alreadyInitialized, s)
      else .ok (.ok ⟨⟩, marked s) := by
  rw [markInitialized, Call.exec_bind, Call.exec_lift, getInitializationValue, readFlag_exec h]
  cases s.flag initialized <;> rfl

theorem initializeContract_exec (h : FlagTyped s) :
    initializeContract.exec s =
      if s.flag initialized then .ok (.error .alreadyInitialized, s)
      else .ok (.ok ⟨⟩, marked s) := by
  have he := ensureNotInitialized_exec h
  rw [initializeContract]
  cases hf : s.flag initialized with
  | true =>
    rw [hf] at he
    exact Call.exec_bind_throw he _
  | false =>
    rw [hf] at he
    rw [Call.exec_bind_ok he, markInitialized_exec h, hf]

end Initializable
end StellarSmartAccount
