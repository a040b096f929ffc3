import StellarSmartAccount.Foundations.Machine
import StellarSmartAccount.Foundations.Table
import StellarSmartAccount.Storage

/-! # The storage wrapper as two finite maps with a log

Calls on both kinds of storage are interleaved at will, with keys of one type and values
of several. Each kind answers its own calls as a finite map from encoded keys to encoded
values does, and the successful changes of both are logged in their order.
-/

namespace StellarSmartAccount.StorageMaps
open Foundations Soroban

inductive StorageCall (κ : Type) {τ : Type} (ν : τ → Type) where
  | store (key : κ) {i : τ} (value : ν i)
  | update (key : κ) {i : τ} (value : ν i)
  | delete (key : κ)
  | get (key : κ) (i : τ)
  | has (key : κ)

inductive StorageAnswer {τ : Type} (ν : τ → Type) where
  | changed (result : Except StorageError Unit)
  | value {i : τ} (v : Option (ν i))
  | present (b : Bool)

abbrev StorageResponse {τ : Type} (ν : τ → Type) := Except Abort (StorageAnswer ν)

variable {κ τ : Type} {ν : τ → Type}

/-- The response is that of a successful store, update or delete. -/
def changes : StorageResponse ν → Bool
  | .ok (.changed (.ok _)) => true
  | _ => false

namespace StorageCall

def run [IntoVal κ] [∀ i, IntoVal (ν i)] [∀ i, TryFromVal (ν i)] (storage : Storage) :
    StorageCall κ ν → Host (StorageAnswer ν)
  | .store key value => return .changed (← (storage.store key value).run)
  | .update key value => return .changed (← (storage.update key value).run)
  | .delete key => return .changed (← (storage.delete key).run)
  | .get key i => return .value (← storage.get (ν := ν i) key)
  | .has key => return .present (← storage.has key)

/-- The operation that a successful call is logged as. -/
def operation : StorageCall κ ν → Option StorageOperation
  | .store _ _ => some .store
  | .update _ _ => some .update
  | .delete _ => some .delete
  | .get _ _ => none
  | .has _ => none

/-- The writes of a successful call. -/
def writes [IntoVal κ] [∀ i, IntoVal (ν i)] : StorageCall κ ν → List (Val × Option Val)
  | .store key value => [(intoVal key, some (intoVal value))]
  | .update key value => [(intoVal key, some (intoVal value))]
  | .delete key => [(intoVal key, none)]
  | .get _ _ => []
  | .has _ => []

/-- What a finite map responds. A read of another type than the stored one aborts. -/
def answer [IntoVal κ] [∀ i, TryFromVal (ν i)] (t : Table Val Val) :
    StorageCall κ ν → StorageResponse ν
  | .store key _ => .ok (.changed (if (t (intoVal key)).isSome then .error .alreadyExists
      else .ok ⟨⟩))
  | .update key _ => .ok (.changed (if (t (intoVal key)).isSome then .ok ⟨⟩
      else .error .notFound))
  | .delete key => .ok (.changed (if (t (intoVal key)).isSome then .ok ⟨⟩
      else .error .notFound))
  | .get key i =>
    match t (intoVal key) with
    | none => .ok (.value (i := i) none)
    | some v =>
      match tryFromVal (α := ν i) v with
      | some x => .ok (.value (some x))
      | none => .error .conversion
  | .has key => .ok (.present (t (intoVal key)).isSome)

end StorageCall

section Answer
variable [IntoVal κ] [∀ i, TryFromVal (ν i)] {t : Table Val Val} {key : κ} {i : τ}

theorem answer_store_iff {value : ν i} :
    (StorageCall.store key value : StorageCall κ ν).answer t = .ok (.changed (.ok ⟨⟩)) ↔
      t (intoVal key) = none := by
  rw [StorageCall.answer]
  cases t (intoVal key) <;> simp

theorem answer_update_iff {value : ν i} :
    (StorageCall.update key value : StorageCall κ ν).answer t = .ok (.changed (.ok ⟨⟩)) ↔
      t (intoVal key) ≠ none := by
  rw [StorageCall.answer]
  cases t (intoVal key) <;> simp

theorem answer_delete_iff :
    (StorageCall.delete key : StorageCall κ ν).answer t = .ok (.changed (.ok ⟨⟩)) ↔
      t (intoVal key) ≠ none := by
  rw [StorageCall.answer]
  cases t (intoVal key) <;> simp

theorem answer_get_of_none (h : t (intoVal key) = none) :
    (StorageCall.get key i : StorageCall κ ν).answer t = .ok (.value (none : Option (ν i))) := by
  rw [StorageCall.answer, h]

theorem answer_get_of_some [∀ i, IntoVal (ν i)] [LawfulVal (ν i)] {value : ν i}
    (h : t (intoVal key) = some (intoVal value)) :
    (StorageCall.get key i : StorageCall κ ν).answer t = .ok (.value (some value)) := by
  simp only [StorageCall.answer, h, LawfulVal.tryFromVal_intoVal]

/-- A read that returns finds a value exactly if the key is present. -/
theorem answer_has_of_get {v : Option (ν i)}
    (h : (StorageCall.get key i : StorageCall κ ν).answer t = .ok (.value v)) :
    (StorageCall.has key : StorageCall κ ν).answer t = .ok (.present v.isSome) := by
  rw [StorageCall.answer] at h
  rw [StorageCall.answer]
  cases hkey : t (intoVal key) with
  | none =>
    rw [hkey] at h
    cases h
    rfl
  | some x =>
    rw [hkey] at h
    cases hx : tryFromVal (α := ν i) x with
    | none => simp [hx] at h
    | some y =>
      simp only [hx] at h
      cases h
      rfl

end Answer

section Wrapper
variable [IntoVal κ] [∀ i, IntoVal (ν i)] [∀ i, TryFromVal (ν i)]

/-- The abstract map, which performs the writes of the successful calls. -/
def finiteMap (κ : Type) (ν : τ → Type) [IntoVal κ] [∀ i, IntoVal (ν i)]
    [∀ i, TryFromVal (ν i)] : Machine (Table Val Val) (StorageCall κ ν) (StorageResponse ν) where
  step call t :=
    (call.answer t, if changes (call.answer t) then t.writeAll call.writes else t)

/-- The wrapper on both kinds of storage of one contract; an abort is rolled back. -/
def storageMachine (κ : Type) (ν : τ → Type) [IntoVal κ] [∀ i, IntoVal (ν i)]
    [∀ i, TryFromVal (ν i)] :
    Machine State (StorageType × StorageCall κ ν) (StorageResponse ν) where
  step call s := Tx.commit (call.2.run ⟨call.1⟩) s

/-- The entries of one kind of storage. -/
def contents (T : StorageType) (s : State) : Table Val Val :=
  fun k => (s.storage (Storage.durability ⟨T⟩)).lookup k

section Contents
variable {T : StorageType} {s : State}

theorem isSome_contents (k : Val) :
    (contents T s k).isSome = decide (k ∈ s.storage (Storage.durability ⟨T⟩)) := by
  rw [Bool.eq_iff_iff, contents, Finmap.lookup_isSome, decide_eq_true_iff]

theorem durability_injective : Function.Injective fun T => Storage.durability ⟨T⟩ := by
  intro T T' h
  cases T <;> cases T' <;> first | rfl | cases h

theorem contents_setStorage (m : StorageMap) :
    contents T (s.setStorage m (Storage.durability ⟨T⟩)) = fun k => m.lookup k := by
  unfold contents
  rw [State.storage_setStorage]

theorem contents_setStorage_of_ne {T' : StorageType} (h : T' ≠ T) (m : StorageMap) :
    contents T' (s.setStorage m (Storage.durability ⟨T⟩)) = contents T' s := by
  unfold contents
  rw [State.storage_setStorage_of_ne _ _ fun heq => h (durability_injective heq)]

theorem contents_publish (e : Event) : contents T (s.publish e) = contents T s := by
  unfold contents
  rw [State.storage_publish]

theorem lookup_insert_eq_set (m : StorageMap) (k v : Val) :
    (fun k' => (m.insert k v).lookup k') = Table.set (fun k' => m.lookup k') k (some v) := by
  funext k'
  rw [Table.set_apply]
  split_ifs with hk
  · rw [hk, Finmap.lookup_insert]
  · exact Finmap.lookup_insert_of_ne _ hk

theorem lookup_erase_eq_set (m : StorageMap) (k : Val) :
    (fun k' => (m.erase k).lookup k') = Table.set (fun k' => m.lookup k') k none := by
  funext k'
  rw [Table.set_apply]
  split_ifs with hk
  · rw [hk, Finmap.lookup_erase]
  · exact Finmap.lookup_erase_ne hk

theorem contents_written {ρ : Type} [IntoVal ρ] (T' : StorageType) (o : StorageOperation) (key : κ)
    (value : ρ) : contents T' (Storage.written ⟨T⟩ s o key value) =
      if T' = T then (contents T s).set (intoVal key) (some (intoVal value))
      else contents T' s := by
  rw [Storage.written, contents_publish]
  split_ifs with h
  · rw [h, contents_setStorage, lookup_insert_eq_set]
    rfl
  · exact contents_setStorage_of_ne h _

theorem contents_removed (T' : StorageType) (key : κ) :
    contents T' (Storage.removed ⟨T⟩ s key) =
      if T' = T then (contents T s).set (intoVal key) none else contents T' s := by
  rw [Storage.removed, contents_publish]
  split_ifs with h
  · rw [h, contents_setStorage, lookup_erase_eq_set]
    rfl
  · exact contents_setStorage_of_ne h _

end Contents

/-- What a call does to the contract. -/
inductive StorageEffect (T : StorageType) (s : State) (call : StorageCall κ ν) :
    StorageResponse ν × State → Prop where
  | unchanged (h : changes (call.answer (contents T s)) = false) :
      StorageEffect T s call (call.answer (contents T s), s)
  | changed (o : StorageOperation) (t : State)
      (hop : call.operation = some o)
      (hanswer : call.answer (contents T s) = .ok (.changed (.ok ⟨⟩)))
      (hcontents : ∀ T', contents T' t =
        if T' = T then (contents T s).writeAll call.writes else contents T' s)
      (hevents : t.events = s.events ++ [Storage.changeEvent ⟨T⟩ o]) :
      StorageEffect T s call (.ok (.changed (.ok ⟨⟩)), t)

section Effect
variable {T : StorageType} {s t : State} {call : StorageCall κ ν} {a : StorageAnswer ν}

theorem storage_step_of_ok (hexec : (call.run ⟨T⟩).exec s = .ok (a, t)) :
    (storageMachine κ ν).step (T, call) s = (.ok a, t) := by
  change Tx.commit (call.run ⟨T⟩) s = _
  rw [Tx.commit, hexec]

theorem storage_step_of_abort {r : Abort} (hexec : (call.run ⟨T⟩).exec s = .error r) :
    (storageMachine κ ν).step (T, call) s = (.error r, s) := by
  change Tx.commit (call.run ⟨T⟩) s = _
  rw [Tx.commit, hexec]

theorem StorageEffect.of_ok (hexec : (call.run ⟨T⟩).exec s = .ok (a, s))
    (hanswer : call.answer (contents T s) = .ok a)
    (hchanges : changes (.ok a : StorageResponse ν) = false) :
    StorageEffect T s call ((storageMachine κ ν).step (T, call) s) := by
  rw [storage_step_of_ok hexec, ← hanswer]
  rw [← hanswer] at hchanges
  exact .unchanged hchanges

theorem StorageEffect.of_changed (hexec : (call.run ⟨T⟩).exec s = .ok (.changed (.ok ⟨⟩), t))
    {o : StorageOperation} (hop : call.operation = some o)
    (hanswer : call.answer (contents T s) = .ok (.changed (.ok ⟨⟩)))
    (hcontents : ∀ T', contents T' t =
      if T' = T then (contents T s).writeAll call.writes else contents T' s)
    (hevents : t.events = s.events ++ [Storage.changeEvent ⟨T⟩ o]) :
    StorageEffect T s call ((storageMachine κ ν).step (T, call) s) := by
  rw [storage_step_of_ok hexec]
  exact .changed o t hop hanswer hcontents hevents

/-! Each operation guards, writes and logs the kind of storage it is called on. -/

theorem store_effect (T : StorageType) (key : κ) {i : τ} (value : ν i) (s : State) :
    StorageEffect T s (.store key value) ((storageMachine κ ν).step (T, .store key value) s) := by
  have hexec := Storage.store_exec ⟨T⟩ key value s
  have hstored := isSome_contents (T := T) (s := s) (intoVal key)
  by_cases hmem : intoVal key ∈ s.storage (Storage.durability ⟨T⟩)
  · rw [if_pos hmem] at hexec
    rw [decide_eq_true hmem] at hstored
    exact .of_ok (Tx.exec_bind_ok hexec _) (by rw [StorageCall.answer, hstored]; rfl) rfl
  · rw [if_neg hmem] at hexec
    rw [decide_eq_false hmem] at hstored
    exact .of_changed (Tx.exec_bind_ok hexec _) rfl (by rw [StorageCall.answer, hstored]; rfl)
      (fun T' => contents_written T' .store key value) (by simp [Storage.written])

theorem update_effect (T : StorageType) (key : κ) {i : τ} (value : ν i) (s : State) :
    StorageEffect T s (.update key value)
      ((storageMachine κ ν).step (T, .update key value) s) := by
  have hexec := Storage.update_exec ⟨T⟩ key value s
  have hstored := isSome_contents (T := T) (s := s) (intoVal key)
  by_cases hmem : intoVal key ∈ s.storage (Storage.durability ⟨T⟩)
  · rw [if_pos hmem] at hexec
    rw [decide_eq_true hmem] at hstored
    exact .of_changed (Tx.exec_bind_ok hexec _) rfl (by rw [StorageCall.answer, hstored]; rfl)
      (fun T' => contents_written T' .update key value) (by simp [Storage.written])
  · rw [if_neg hmem] at hexec
    rw [decide_eq_false hmem] at hstored
    exact .of_ok (Tx.exec_bind_ok hexec _) (by rw [StorageCall.answer, hstored]; rfl) rfl

theorem delete_effect (T : StorageType) (key : κ) (s : State) :
    StorageEffect T s (.delete key : StorageCall κ ν)
      ((storageMachine κ ν).step (T, .delete key) s) := by
  have hexec := Storage.delete_exec ⟨T⟩ key s
  have hstored := isSome_contents (T := T) (s := s) (intoVal key)
  by_cases hmem : intoVal key ∈ s.storage (Storage.durability ⟨T⟩)
  · rw [if_pos hmem] at hexec
    rw [decide_eq_true hmem] at hstored
    exact .of_changed (Tx.exec_bind_ok hexec _) rfl (by rw [StorageCall.answer, hstored]; rfl)
      (fun T' => contents_removed T' key) (by simp [Storage.removed])
  · rw [if_neg hmem] at hexec
    rw [decide_eq_false hmem] at hstored
    exact .of_ok (Tx.exec_bind_ok hexec _) (by rw [StorageCall.answer, hstored]; rfl) rfl

theorem get_effect (T : StorageType) (key : κ) (i : τ) (s : State) :
    StorageEffect T s (.get key i : StorageCall κ ν)
      ((storageMachine κ ν).step (T, .get key i) s) := by
  cases hv : contents T s (intoVal key) with
  | none =>
    have hget : ((⟨T⟩ : Storage).get (ν := ν i) key).exec s = .ok (none, s) :=
      Storage.get_exec_none hv
    exact .of_ok (Tx.exec_bind_ok hget _) (answer_get_of_none hv) rfl
  | some v =>
    have hget : ((⟨T⟩ : Storage).get (ν := ν i) key).exec s = _ := Storage.get_exec_some hv
    cases hx : tryFromVal (α := ν i) v with
    | some x =>
      rw [hx] at hget
      exact .of_ok (Tx.exec_bind_ok hget _) (by simp only [StorageCall.answer, hv, hx]) rfl
    | none =>
      rw [hx] at hget
      have hanswer : (StorageCall.get key i : StorageCall κ ν).answer (contents T s) =
          .error .conversion := by
        simp only [StorageCall.answer, hv, hx]
      rw [storage_step_of_abort (Tx.exec_bind_error hget _), ← hanswer]
      exact .unchanged (by rw [hanswer]; rfl)

/-- Every call is answered as by a finite map over its own kind of storage. -/
theorem storage_effect (T : StorageType) (call : StorageCall κ ν) (s : State) :
    StorageEffect T s call ((storageMachine κ ν).step (T, call) s) := by
  cases call with
  | store key value => exact store_effect T key value s
  | update key value => exact update_effect T key value s
  | delete key => exact delete_effect T key s
  | get key i => exact get_effect T key i s
  | has key =>
    have hhas := Storage.has_exec ⟨T⟩ key s
    exact .of_ok (Tx.exec_bind_ok hhas _) (by rw [StorageCall.answer, isSome_contents]) rfl

end Effect

/-- A call on one of the two kinds of storage, with its response. -/
abbrev StorageAnswered (κ : Type) (ν : τ → Type) :=
  (StorageType × StorageCall κ ν) × StorageResponse ν

/-- The call, if it is one on the given kind of storage. -/
def onType (T : StorageType) (call : StorageType × StorageCall κ ν) : Option (StorageCall κ ν) :=
  if call.1 = T then some call.2 else none

/-- The responses to the calls on one kind of storage. -/
def responsesOn (T : StorageType) (answered : List (StorageAnswered κ ν)) :
    List (StorageCall κ ν × StorageResponse ν) :=
  answered.filterMap fun a => (onType T a.1).map (·, a.2)

/-- The writes of an answered call on one kind of storage. -/
def writesOn (T : StorageType) (a : StorageAnswered κ ν) : List (Val × Option Val) :=
  if a.1.1 = T ∧ changes a.2 = true then a.1.2.writes else []

/-- The event of an answered call, which is published if the call succeeded. -/
def publishedEvents (a : StorageAnswered κ ν) : List Event :=
  if changes a.2 then a.1.2.operation.toList.map (Storage.changeEvent ⟨a.1.1⟩) else []

section Step
variable {T : StorageType} {call : StorageCall κ ν} {s : State}

theorem storage_step_response (T : StorageType) (call : StorageCall κ ν) (s : State) :
    ((storageMachine κ ν).step (T, call) s).1 = call.answer (contents T s) := by
  have heffect := storage_effect T call s
  generalize (storageMachine κ ν).step (T, call) s = result at heffect
  cases heffect with
  | unchanged h => rfl
  | changed o t hop hanswer hcontents hevents => exact hanswer.symm

/-- A call that does not change its storage leaves the contract alone. -/
theorem storage_step_of_not_changes
    (h : changes ((storageMachine κ ν).step (T, call) s).1 = false) :
    ((storageMachine κ ν).step (T, call) s).2 = s := by
  have heffect := storage_effect T call s
  generalize (storageMachine κ ν).step (T, call) s = result at heffect h
  cases heffect with
  | unchanged h => rfl
  | changed o t hop hanswer hcontents hevents => cases h

theorem contents_step (T' : StorageType) (call : StorageType × StorageCall κ ν) (s : State) :
    contents T' ((storageMachine κ ν).step call s).2 =
      (contents T' s).writeAll (writesOn T' (call, ((storageMachine κ ν).step call s).1)) := by
  obtain ⟨T, call⟩ := call
  have heffect := storage_effect T call s
  unfold writesOn
  generalize (storageMachine κ ν).step (T, call) s = result at heffect
  cases heffect with
  | unchanged h => simp [h]
  | changed o t hop hanswer hcontents hevents =>
    rw [hcontents T']
    by_cases hT : T' = T
    · rw [if_pos hT, if_pos ⟨hT.symm, rfl⟩, hT]
    · rw [if_neg hT, if_neg fun h => hT h.1.symm, Table.writeAll_nil]

theorem events_step (call : StorageType × StorageCall κ ν) (s : State) :
    ((storageMachine κ ν).step call s).2.events =
      s.events ++ publishedEvents (call, ((storageMachine κ ν).step call s).1) := by
  obtain ⟨T, call⟩ := call
  have heffect := storage_effect T call s
  unfold publishedEvents
  generalize (storageMachine κ ν).step (T, call) s = result at heffect
  cases heffect with
  | unchanged h => simp [h]
  | changed o t hop hanswer hcontents hevents => simp [hevents, hop, changes]

theorem finiteMap_step (T : StorageType) (call : StorageCall κ ν) (s : State) :
    (finiteMap κ ν).step call (contents T s) =
      (((storageMachine κ ν).step (T, call) s).1,
        contents T ((storageMachine κ ν).step (T, call) s).2) := by
  have hcontents := contents_step T (T, call) s
  rw [storage_step_response] at hcontents ⊢
  rw [hcontents, writesOn, finiteMap]
  simp only [true_and]
  split_ifs <;> rfl

end Step

section Run
variable (s : State) (calls : List (StorageType × StorageCall κ ν))

theorem storage_refines_finiteMap (T : StorageType) :
    (finiteMap κ ν).final (contents T s) (calls.filterMap (onType T)) =
        contents T ((storageMachine κ ν).final s calls) ∧
      (finiteMap κ ν).history (contents T s) (calls.filterMap (onType T)) =
        responsesOn T ((storageMachine κ ν).history s calls) := by
  refine (storageMachine κ ν).refines (finiteMap κ ν) (f := contents T) (g := onType T) (r := id)
    (I := fun _ => True) (C := fun _ _ => True) (fun _ _ _ => trivial) ?_ ?_ trivial
    (fun _ _ _ => trivial)
  · rintro ⟨T', call⟩ t k - - hk
    unfold onType at hk
    split_ifs at hk with hT
    cases hk
    obtain rfl : T' = T := hT
    exact finiteMap_step T' call t
  · rintro ⟨T', call⟩ t - - hk
    unfold onType at hk
    split_ifs at hk with hT
    have hwrites : writesOn T ((T', call), ((storageMachine κ ν).step (T', call) t).1) = [] :=
      if_neg fun h => hT h.1
    rw [contents_step, hwrites, Table.writeAll_nil]

theorem contents_final (T : StorageType) :
    contents T ((storageMachine κ ν).final s calls) =
      (contents T s).writeAll (((storageMachine κ ν).history s calls).flatMap (writesOn T)) :=
  (storageMachine κ ν).final_acted (I := fun _ => True) Table.writeAll_nil Table.writeAll_append
    (fun _ _ _ => trivial) (fun call t _ => contents_step T call t) trivial calls

theorem events_final :
    ((storageMachine κ ν).final s calls).events =
      s.events ++ ((storageMachine κ ν).history s calls).flatMap publishedEvents :=
  (storageMachine κ ν).final_acted (I := fun _ => True) (f := State.events) List.append_nil
    (fun _ _ _ => (List.append_assoc _ _ _).symm) (fun _ _ _ => trivial)
    (fun call t _ => events_step call t) trivial calls

end Run

/-- Two finite maps with a log: what holds of a state that a sequence of calls leads to,
and of the next call on it. -/
structure TwoMaps (s : State) (calls : List (StorageType × StorageCall κ ν)) (t : State)
    (answered : List (StorageAnswered κ ν)) : Prop where
  /-- Each kind of storage answers its own calls as a finite map started from its contents. -/
  simulates : ∀ T,
    (finiteMap κ ν).final (contents T s) (calls.filterMap (onType T)) = contents T t ∧
      (finiteMap κ ν).history (contents T s) (calls.filterMap (onType T)) = responsesOn T answered
  /-- The calls on the other kind of storage do not matter. -/
  independent : ∀ T calls', calls'.filterMap (onType T) = calls.filterMap (onType T) →
    contents T ((storageMachine κ ν).final s calls') = contents T t ∧
      responsesOn T ((storageMachine κ ν).history s calls') = responsesOn T answered
  stores : ∀ T (key : κ) i (value : ν i),
    ((storageMachine κ ν).step (T, .store key value) t).1 = .ok (.changed (.ok ⟨⟩)) ↔
      contents T t (intoVal key) = none
  updates : ∀ T (key : κ) i (value : ν i),
    ((storageMachine κ ν).step (T, .update key value) t).1 = .ok (.changed (.ok ⟨⟩)) ↔
      contents T t (intoVal key) ≠ none
  deletes : ∀ T (key : κ),
    ((storageMachine κ ν).step (T, .delete key) t).1 = .ok (.changed (.ok ⟨⟩)) ↔
      contents T t (intoVal key) ≠ none
  /-- A read returns the last value written under the key, and none after a deletion. -/
  reads : ∀ T (key : κ) before v after,
    answered.flatMap (writesOn T) = before ++ (intoVal key, v) :: after →
      (∀ w ∈ after, w.1 ≠ intoVal key) →
      (∀ i (value : ν i), v = some (intoVal value) →
        ((storageMachine κ ν).step (T, .get key i) t).1 = .ok (.value (some value))) ∧
      (v = none → ∀ i,
        ((storageMachine κ ν).step (T, .get key i) t).1 = .ok (.value (none : Option (ν i))))
  /-- A key without a write is read from the initial contents. -/
  readsInitial : ∀ T (key : κ), (∀ w ∈ answered.flatMap (writesOn T), w.1 ≠ intoVal key) → ∀ i,
    ((storageMachine κ ν).step (T, .get key i) t).1 =
      (StorageCall.get key i).answer (contents T s)
  agrees : ∀ T (key : κ) i (v : Option (ν i)),
    ((storageMachine κ ν).step (T, .get key i) t).1 = .ok (.value v) →
      ((storageMachine κ ν).step (T, .has key) t).1 = .ok (.present v.isSome)
  /-- Refused calls and reads change nothing. -/
  failed : ∀ call, changes ((storageMachine κ ν).step call t).1 = false →
    ((storageMachine κ ν).step call t).2 = t
  logged : t.events = s.events ++ answered.flatMap publishedEvents

/-- Every interleaving of calls on the two kinds of storage, from any state, is one of two
independent finite maps with a common log. -/
theorem storage_twoMaps [∀ i, LawfulVal (ν i)] (s : State)
    (calls : List (StorageType × StorageCall κ ν)) :
    TwoMaps s calls ((storageMachine κ ν).final s calls)
      ((storageMachine κ ν).history s calls) := by
  constructor
  case simulates => exact storage_refines_finiteMap s calls
  case independent =>
    intro T calls' hcalls
    obtain ⟨hfinal, hhistory⟩ := storage_refines_finiteMap s calls T
    obtain ⟨hfinal', hhistory'⟩ := storage_refines_finiteMap s calls' T
    rw [hcalls] at hfinal' hhistory'
    exact ⟨hfinal'.symm.trans hfinal, hhistory'.symm.trans hhistory⟩
  case stores =>
    intro T key i value
    rw [storage_step_response]
    exact answer_store_iff
  case updates =>
    intro T key i value
    rw [storage_step_response]
    exact answer_update_iff
  case deletes =>
    intro T key
    rw [storage_step_response]
    exact answer_delete_iff
  case reads =>
    intro T key before v after hwrites hlast
    have hkey : contents T ((storageMachine κ ν).final s calls) (intoVal key) = v := by
      rw [contents_final, hwrites]
      exact Table.writeAll_of_last _ hlast
    constructor
    · rintro i value rfl
      rw [storage_step_response]
      exact answer_get_of_some hkey
    · rintro rfl i
      rw [storage_step_response]
      exact answer_get_of_none hkey
  case readsInitial =>
    intro T key hwrites i
    have hkey : contents T ((storageMachine κ ν).final s calls) (intoVal key) =
        contents T s (intoVal key) := by
      rw [contents_final]
      exact Table.writeAll_of_notMem _ hwrites
    rw [storage_step_response, StorageCall.answer, StorageCall.answer, hkey]
  case agrees =>
    intro T key i v hget
    rw [storage_step_response] at hget ⊢
    exact answer_has_of_get hget
  case failed => exact fun call hfail => storage_step_of_not_changes hfail
  case logged => exact events_final s calls

end Wrapper

namespace Sample

def key : Symbol := "key"

abbrev Value (_ : Unit) := UInt64

def state : State := ⟨∅, ∅, [], List.Vector.replicate 32 0⟩

/-- The key is stored in both kinds of storage and deleted from one of them. -/
def calls : List (StorageType × StorageCall Symbol Value) :=
  [(.persistentStorage, .store key (i := ()) 1), (.instanceStorage, .store key (i := ()) 2),
    (.persistentStorage, .delete key)]

end Sample

/-- The instance entry survives the deletion of the persistent one. -/
theorem sample_storage_twoMaps :
    ((storageMachine Symbol Sample.Value).step (.instanceStorage, .get Sample.key ())
      ((storageMachine Symbol Sample.Value).final Sample.state Sample.calls)).1 =
        .ok (.value (i := ()) (some 2)) := by
  have hmaps := storage_twoMaps Sample.state Sample.calls
  have hwrites : ((storageMachine Symbol Sample.Value).history Sample.state
      Sample.calls).flatMap (writesOn .instanceStorage) =
        [] ++ (intoVal Sample.key, some (intoVal (2 : UInt64))) :: [] := by
    rfl
  exact (hmaps.reads .instanceStorage Sample.key [] _ [] hwrites nofun).1 () 2 rfl

end StellarSmartAccount.StorageMaps
