import StellarSmartAccount.Foundations.Machine
import StellarSmartAccount.Initializable

/-! # Guarded functions over whole histories

A contract with the trait `Initializable` guards its functions by the macros
`only_initialized!` and `only_not_initialized!`. As long as no body writes the flag, the flag
is set exactly if `initialize` has returned Ok before, which happens at most once, and every
guard decides by this part of the history.
-/

namespace StellarSmartAccount.Initializable
open Foundations Soroban

/-- The macro `only_initialized!`, with the error code of its call site. -/
def onlyInitialized (notInitialized : UInt32) : Host Unit := do
  unless ← isInitialized do
    panicWithError notInitialized

/-- A transaction that leaves the flag as it was, unless it aborts. -/
def KeepsFlag (x : Host Unit) : Prop :=
  ∀ s t, x.exec s = .ok (⟨⟩, t) →
    t.instanceMap.lookup (intoVal initialized) = s.instanceMap.lookup (intoVal initialized)

inductive Guard where
  | onlyInitialized
  | onlyNotInitialized
  | unguarded
  deriving DecidableEq

def Guard.run : Guard → Host Unit
  | .onlyInitialized => Initializable.onlyInitialized InitializableError.notInitialized.code
  | .onlyNotInitialized =>
    Initializable.onlyNotInitialized InitializableError.alreadyInitialized.code
  | .unguarded => pure ⟨⟩

/-- Why the guard does not pass, given whether the contract is initialized. -/
def Guard.refusal : Guard → (initialized : Bool) → Option Abort
  | .onlyInitialized, false => some (.contractError InitializableError.notInitialized.code)
  | .onlyNotInitialized, true => some (.contractError InitializableError.alreadyInitialized.code)
  | _, _ => none

/-- A function of the contract behind its guard. -/
structure GuardedFunction where
  guard : Guard
  body : Host Unit
  keepsFlag : KeepsFlag body

inductive GuardedCall where
  | initializeContract
  | function (f : GuardedFunction)

def GuardedCall.run : GuardedCall → Fallible InitializableError Unit
  | .initializeContract => Initializable.initializeContract
  | .function f => liftM (do f.guard.run; f.body : Host Unit)

abbrev GuardedResponse := Except Abort (Except InitializableError Unit)

/-- The contract; an abort is rolled back by the host. -/
def machine : Machine State GuardedCall GuardedResponse where
  step call s := Call.commit call.run s

/-- The call is an initialization that returned Ok. -/
def initializes : GuardedCall × GuardedResponse → Bool
  | (.initializeContract, .ok (.ok _)) => true
  | _ => false

section Step
variable {s : State}

theorem onlyInitialized_exec (code : UInt32) (h : FlagTyped s) :
    (onlyInitialized code).exec s =
      if s.flag initialized then .ok (⟨⟩, s) else .error (.contractError code) := by
  rw [onlyInitialized, Tx.exec_bind_ok (isInitialized_exec h)]
  cases s.flag initialized <;> rfl

theorem Guard.run_exec (h : FlagTyped s) (guard : Guard) :
    guard.run.exec s = Tx.outcome ⟨⟩ s (guard.refusal (s.flag initialized)) := by
  cases guard with
  | onlyInitialized =>
    rw [Guard.run, onlyInitialized_exec _ h]
    cases s.flag initialized <;> rfl
  | onlyNotInitialized =>
    rw [Guard.run, onlyNotInitialized_exec _ h]
    cases s.flag initialized <;> rfl
  | unguarded => rfl

theorem lookup_marked (s : State) :
    (marked s).instanceMap.lookup (intoVal initialized) = some (intoVal true) :=
  Finmap.lookup_insert _

/-- The answer to a call, given whether the contract is initialized. -/
def GuardedCall.answer (call : GuardedCall) (isInitialized : Bool) (s : State) : GuardedResponse :=
  match call with
  | .initializeContract => .ok (if isInitialized then .error .alreadyInitialized else .ok ⟨⟩)
  | .function f =>
    match f.guard.refusal isInitialized with
    | some r => .error r
    | none => (Tx.commit f.body s).1.map .ok

theorem flagTyped_of_lookup {t : State} (h : FlagTyped s)
    (hsame : t.instanceMap.lookup (intoVal initialized) =
      s.instanceMap.lookup (intoVal initialized)) :
    FlagTyped t ∧ t.flag initialized = s.flag initialized := by
  constructor
  · intro v hv
    exact h v (hsame.symm.trans hv)
  · rw [State.flag, State.flag, hsame]

/-- What one call does to the flag: a successful initialization sets it. -/
structure Answered (call : GuardedCall) (s : State) (result : GuardedResponse × State) : Prop where
  answer : result.1 = call.answer (s.flag initialized) s
  typed : FlagTyped result.2
  flag : result.2.flag initialized = (s.flag initialized || initializes (call, result.1))

theorem answered_initialize (h : FlagTyped s) :
    Answered .initializeContract s (machine.step .initializeContract s) := by
  have hexec := initializeContract_exec h
  change Answered _ _ (Call.commit initializeContract s)
  cases hflag : s.flag initialized with
  | true =>
    rw [hflag, if_pos rfl] at hexec
    rw [Call.commit_of_ok hexec]
    refine ⟨?_, h, ?_⟩
    · rw [GuardedCall.answer, hflag]
      rfl
    · rw [hflag]
      rfl
  | false =>
    rw [hflag] at hexec
    rw [Call.commit_of_ok hexec]
    refine ⟨?_, ?_, ?_⟩
    · rw [GuardedCall.answer, hflag]
      rfl
    · intro v hv
      rw [lookup_marked] at hv
      exact ⟨true, (Option.some.inj hv).symm⟩
    · rw [State.flag, lookup_marked, hflag]
      rfl

theorem answered_function (h : FlagTyped s) (f : GuardedFunction) :
    Answered (.function f) s (machine.step (.function f) s) := by
  have hguard := f.guard.run_exec h
  change Answered _ _ (Call.commit (liftM (do f.guard.run; f.body : Host Unit)) s)
  cases hrefusal : f.guard.refusal (s.flag initialized) with
  | some r =>
    rw [hrefusal] at hguard
    rw [Call.commit_of_error (Call.exec_lift_error (Tx.exec_bind_error hguard _))]
    refine ⟨?_, h, ?_⟩
    · rw [GuardedCall.answer, hrefusal]
    · exact (Bool.or_false _).symm
  | none =>
    rw [hrefusal] at hguard
    have hrun := Tx.exec_bind_ok hguard fun _ => f.body
    cases hbody : f.body.exec s with
    | error r =>
      rw [Call.commit_of_error (Call.exec_lift_error (hrun.trans hbody))]
      refine ⟨?_, h, ?_⟩
      · rw [GuardedCall.answer, hrefusal, Tx.commit, hbody]
        rfl
      · exact (Bool.or_false _).symm
    | ok p =>
      obtain ⟨⟨⟩, t⟩ := p
      obtain ⟨htyped, hflag⟩ := flagTyped_of_lookup h (f.keepsFlag s t hbody)
      rw [Call.commit_of_ok (Call.exec_lift_ok (hrun.trans hbody))]
      refine ⟨?_, htyped, ?_⟩
      · rw [GuardedCall.answer, hrefusal, Tx.commit, hbody]
        rfl
      · exact hflag.trans (Bool.or_false _).symm

theorem answered_step (h : FlagTyped s) (call : GuardedCall) :
    Answered call s (machine.step call s) := by
  cases call with
  | initializeContract => exact answered_initialize h
  | function f => exact answered_function h f

end Step

/-- The flag records whether the history has a successful initialization, and it has at most
one. -/
structure Recorded (history : List (GuardedCall × GuardedResponse)) (s : State) : Prop where
  typed : FlagTyped s
  flag : s.flag initialized = history.any initializes
  once : history.countP initializes ≤ 1

theorem Recorded.step {history : List (GuardedCall × GuardedResponse)} {s : State}
    (h : Recorded history s) (call : GuardedCall) :
    Recorded (history ++ [(call, (machine.step call s).1)]) (machine.step call s).2 := by
  obtain ⟨hanswer, htyped, hflag⟩ := answered_step h.typed call
  refine ⟨htyped, ?_, ?_⟩
  · rw [hflag, h.flag]
    simp
  · rw [List.countP_append, List.countP_singleton]
    by_cases hinit : initializes (call, (machine.step call s).1) = true
    · -- an initialization succeeds only while the history has none
      have hfresh : history.any initializes = false := by
        rw [← h.flag]
        cases call with
        | initializeContract =>
          rw [hanswer, GuardedCall.answer] at hinit
          cases hset : s.flag initialized with
          | true =>
            rw [hset] at hinit
            cases hinit
          | false => rfl
        | function f => cases hinit
      have hnone : history.countP initializes = 0 := by
        rw [List.countP_eq_zero]
        simpa using hfresh
      rw [hnone, if_pos hinit]
    · rw [if_neg hinit]
      exact h.once

/-- Over every history of a contract that starts without the flag, `initialize` succeeds at
most once; each call of `initialize` and each guard answers by whether it has succeeded
before, and a function whose guard passes answers as its body does. -/
theorem initialization_protocol {s : State}
    (h : s.instanceMap.lookup (intoVal initialized) = none) (calls : List GuardedCall) :
    (machine.history s calls).countP initializes ≤ 1 ∧
      (machine.final s calls).flag initialized = (machine.history s calls).any initializes ∧
      ∀ pre call, pre ++ [call] <+: calls →
        (machine.step call (machine.final s pre)).1 =
          call.answer ((machine.history s pre).any initializes) (machine.final s pre) := by
  have hstart : Recorded [] s := by
    refine ⟨?_, ?_, Nat.zero_le 1⟩
    · intro v hv
      rw [h] at hv
      cases hv
    · rw [State.flag, h]
      rfl
  have hrecorded : ∀ pre, Recorded (machine.history s pre) (machine.final s pre) := fun pre =>
    machine.history_invariant (R := Recorded) (fun _ call _ ht => ht.step call) hstart pre
  refine ⟨(hrecorded calls).once, (hrecorded calls).flag, fun pre call _ => ?_⟩
  have hanswer := (answered_step (hrecorded pre).typed call).answer
  rwa [(hrecorded pre).flag] at hanswer

namespace Sample

/-- A contract without any storage entry. -/
def fresh : State := ⟨∅, ∅, [], List.Vector.replicate 32 0⟩

/-- A function that demands an initialized contract and publishes an event. -/
def guarded : GuardedFunction where
  guard := .onlyInitialized
  body := publish ["done"] true
  keepsFlag := by
    intro s t hexec
    cases hexec
    rfl

end Sample

/-- The guarded function answers once the contract is initialized. -/
theorem sample_initialization_protocol :
    (machine.step (.function Sample.guarded)
      (machine.final Sample.fresh [.initializeContract])).1 = .ok (.ok ⟨⟩) := by
  have hfresh : Sample.fresh.instanceMap.lookup (intoVal initialized) = none := rfl
  exact (initialization_protocol hfresh
    [.initializeContract, .function Sample.guarded]).2.2 [.initializeContract] _
    (List.prefix_refl _)

end StellarSmartAccount.Initializable
