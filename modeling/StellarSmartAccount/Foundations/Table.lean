import Mathlib.Logic.Function.Basic
import Mathlib.Data.List.Induction

/-! # Finite tables, their write histories and their audit logs

A table maps keys to optional values. Its content after a list of writes is the
last write of each key; a change log is replayed strictly, so an insertion needs
an absent key, a replacement a present one and a removal the recorded value.
-/

namespace StellarSmartAccount.Foundations

abbrev Table (K V : Type*) := K → Option V

namespace Table
variable {K V : Type*} [DecidableEq K]

def empty : Table K V := fun _ => none

/-- Write or clear a single key. -/
def set (t : Table K V) (k : K) (v : Option V) : Table K V := Function.update t k v

theorem set_apply (t : Table K V) (k k' : K) (v : Option V) :
    t.set k v k' = if k' = k then v else t k' := by
  rw [set, Function.update_apply]

@[simp] theorem set_self (t : Table K V) (k : K) (v : Option V) : t.set k v k = v := by
  rw [set_apply, if_pos rfl]

theorem set_of_ne (t : Table K V) {k k' : K} (h : k' ≠ k) (v : Option V) :
    t.set k v k' = t k' := by
  rw [set_apply, if_neg h]

theorem set_eq_some_iff {t : Table K V} {k k' : K} {v : Option V} {x : V} :
    t.set k v k' = some x ↔ k' = k ∧ v = some x ∨ k' ≠ k ∧ t k' = some x := by
  rw [set_apply]
  by_cases h : k' = k <;> simp [h]

/-- Some entry satisfies a predicate. -/
def Has (t : Table K V) (p : V → Prop) : Prop := ∃ k v, t k = some v ∧ p v

/-- A single write keeps an entry alive unless it takes the place of the last one. -/
theorem has_set_iff (t : Table K V) (k : K) (v : Option V) (p : V → Prop) :
    (t.set k v).Has p ↔ (∃ x, v = some x ∧ p x) ∨ ∃ k', k' ≠ k ∧ ∃ x, t k' = some x ∧ p x := by
  constructor
  · rintro ⟨k', x, hx, hp⟩
    rcases set_eq_some_iff.mp hx with ⟨-, hv⟩ | ⟨hk, hv⟩
    · exact .inl ⟨x, hv, hp⟩
    · exact .inr ⟨k', hk, x, hv, hp⟩
  · rintro (⟨x, hx, hp⟩ | ⟨k', hk, x, hx, hp⟩)
    · exact ⟨k, x, by rw [set_self, hx], hp⟩
    · exact ⟨k', x, by rw [set_of_ne t hk, hx], hp⟩

/-- The value of the most recent write of a key, if it is not a removal. -/
def lastWrite (ws : List (K × Option V)) : Table K V :=
  fun k => (ws.reverse.find? (fun w => w.1 = k)).bind Prod.snd

@[simp] theorem lastWrite_nil (k : K) : lastWrite ([] : List (K × Option V)) k = none := rfl

theorem lastWrite_concat (ws : List (K × Option V)) (w : K × Option V) (k : K) :
    lastWrite (ws ++ [w]) k = if w.1 = k then w.2 else lastWrite ws k := by
  unfold lastWrite
  rw [List.reverse_append, List.reverse_singleton, List.singleton_append, List.find?_cons]
  by_cases h : w.1 = k <;> simp [h]

/-- A table read through the write history is updated by the write that extends it. -/
theorem lastWrite_concat_eq_set (ws : List (K × Option V)) (k : K) (v : Option V) :
    lastWrite (ws ++ [(k, v)]) = set (lastWrite ws) k v := by
  funext k'
  rw [lastWrite_concat, set_apply]
  simp only [eq_comm]

/-- Perform a list of writes, oldest first. -/
def writeAll (t : Table K V) (ws : List (K × Option V)) : Table K V :=
  ws.foldl (fun t w => t.set w.1 w.2) t

@[simp] theorem writeAll_nil (t : Table K V) : t.writeAll [] = t := rfl

@[simp] theorem writeAll_singleton (t : Table K V) (w : K × Option V) :
    t.writeAll [w] = t.set w.1 w.2 := rfl

theorem writeAll_append (t : Table K V) (ws ws' : List (K × Option V)) :
    t.writeAll (ws ++ ws') = (t.writeAll ws).writeAll ws' := List.foldl_append

theorem writeAll_of_notMem (t : Table K V) {ws : List (K × Option V)} {k : K}
    (h : ∀ w ∈ ws, w.1 ≠ k) : t.writeAll ws k = t k := by
  induction ws generalizing t with
  | nil => rfl
  | cons w ws ih =>
    have hrest := ih (t.set w.1 w.2) (fun w' hw' => h w' (List.mem_cons_of_mem w hw'))
    exact hrest.trans (set_of_ne t (h w List.mem_cons_self).symm w.2)

/-- A table holds the last of the writes of a key. -/
theorem writeAll_of_last (t : Table K V) {before after : List (K × Option V)} {k : K}
    {v : Option V} (h : ∀ w ∈ after, w.1 ≠ k) :
    t.writeAll (before ++ (k, v) :: after) k = v := by
  have hrest := writeAll_of_notMem ((t.writeAll before).set k v) h
  rw [writeAll_append]
  exact hrest.trans (set_self _ k v)

theorem lastWrite_append (ws ws' : List (K × Option V)) :
    lastWrite (ws ++ ws') = (lastWrite ws).writeAll ws' := by
  induction ws' using List.reverseRecOn with
  | nil => rw [List.append_nil, writeAll_nil]
  | append_singleton ws' w ih =>
    rw [← List.append_assoc, lastWrite_concat_eq_set, ih, writeAll_append, writeAll_singleton]

theorem lastWrite_eq_writeAll (ws : List (K × Option V)) : lastWrite ws = empty.writeAll ws :=
  lastWrite_append [] ws

theorem lastWrite_map {W : Type*} (f : V → W) (ws : List (K × Option V)) (k : K) :
    lastWrite (ws.map fun w => (w.1, w.2.map f)) k = (lastWrite ws k).map f := by
  induction ws using List.reverseRecOn with
  | nil => rfl
  | append_singleton ws w ih =>
    rw [List.map_append, List.map_singleton, lastWrite_concat, lastWrite_concat, ih]
    split_ifs <;> rfl

theorem lastWrite_map_eq_some_iff {key : V → K} {vs : List V} (h : (vs.map key).Nodup) (k : K)
    (v : V) : lastWrite (vs.map fun v => (key v, some v)) k = some v ↔ v ∈ vs ∧ key v = k := by
  induction vs using List.reverseRecOn with
  | nil => simp
  | append_singleton vs w ih =>
    rw [List.map_append, List.map_singleton] at h
    obtain ⟨hvs, -, hdisjoint⟩ := List.nodup_append.mp h
    rw [List.map_append, List.map_singleton, lastWrite_concat, List.mem_append,
      List.mem_singleton]
    by_cases hk : key w = k
    · rw [if_pos hk, Option.some.injEq]
      constructor
      · rintro rfl
        exact ⟨.inr rfl, hk⟩
      · rintro ⟨hv | hv, hkey⟩
        · have hne := hdisjoint (key v) (List.mem_map_of_mem hv) (key w) (List.mem_singleton_self _)
          exact absurd (hkey.trans hk.symm) hne
        · exact hv.symm
    · rw [if_neg hk, ih hvs]
      constructor
      · rintro ⟨hv, hkey⟩
        exact ⟨.inl hv, hkey⟩
      · rintro ⟨hv | rfl, hkey⟩
        · exact ⟨hv, hkey⟩
        · exact absurd hkey hk

/-- The last write is found at a position after which the key is not written again. -/
theorem lastWrite_eq_some_iff (ws : List (K × Option V)) (k : K) (v : V) :
    lastWrite ws k = some v ↔
      ∃ before after, ws = before ++ (k, some v) :: after ∧ ∀ w ∈ after, w.1 ≠ k := by
  constructor
  · intro h
    induction ws using List.reverseRecOn with
    | nil => cases h
    | append_singleton ws w ih =>
      rw [lastWrite_concat] at h
      by_cases hk : w.1 = k
      · rw [if_pos hk] at h
        exact ⟨ws, [], by rw [← h, ← hk], by simp⟩
      · rw [if_neg hk] at h
        obtain ⟨before, after, rfl, hafter⟩ := ih h
        refine ⟨before, after ++ [w], by simp, fun w' hw' => ?_⟩
        rcases List.mem_append.mp hw' with hw' | hw'
        · exact hafter w' hw'
        · rw [List.mem_singleton.mp hw']
          exact hk
  · rintro ⟨before, after, rfl, hafter⟩
    rw [lastWrite_eq_writeAll]
    exact writeAll_of_last _ hafter

end Table

/-- One entry of an audit log. -/
inductive Change (K V : Type*) where
  | insert (k : K) (v : V)
  | replace (k : K) (v : V)
  | remove (k : K) (v : V)
  deriving DecidableEq

namespace Table
variable {K V : Type*} [DecidableEq K] [DecidableEq V]

/-- The situation that a logged change describes. -/
def Describes (t : Table K V) : Change K V → Prop
  | .insert k _ => t k = none
  | .replace k _ => t k ≠ none
  | .remove k v => t k = some v

instance (t : Table K V) : DecidablePred t.Describes := fun c =>
  match c with
  | .insert k _ => inferInstanceAs (Decidable (t k = none))
  | .replace k _ => inferInstanceAs (Decidable (t k ≠ none))
  | .remove k v => inferInstanceAs (Decidable (t k = some v))

/-- The table after the write that a logged change records. -/
def record (t : Table K V) : Change K V → Table K V
  | .insert k v => t.set k (some v)
  | .replace k v => t.set k (some v)
  | .remove k _ => t.set k none

/-- A logged change is refused unless the table is in the state it describes. -/
def change (t : Table K V) (c : Change K V) : Option (Table K V) :=
  if t.Describes c then some (t.record c) else none

theorem change_eq_some_iff {t t' : Table K V} {c : Change K V} :
    t.change c = some t' ↔ t.Describes c ∧ t.record c = t' := by
  rw [change]
  split_ifs with h <;> simp [h]

/-- Strict replay of an audit log from a given table. -/
def replay (t : Table K V) (log : List (Change K V)) : Option (Table K V) :=
  log.foldlM change t

@[simp] theorem replay_nil (t : Table K V) : t.replay [] = some t := rfl

theorem replay_concat (t : Table K V) (log : List (Change K V)) (c : Change K V) :
    t.replay (log ++ [c]) = (t.replay log).bind (·.change c) := by
  simp [replay, List.foldlM_append]

/-- In a log that replays, every change describes the table at its point. -/
theorem describes_of_replay {t t' : Table K V} {before after : List (Change K V)} {c : Change K V}
    (h : t.replay (before ++ c :: after) = some t') :
    ∃ u, t.replay before = some u ∧ u.Describes c := by
  rw [replay, List.foldlM_append] at h
  obtain ⟨u, hu, hrest⟩ := Option.bind_eq_some_iff.mp h
  rw [List.foldlM_cons] at hrest
  obtain ⟨u', hu', -⟩ := Option.bind_eq_some_iff.mp hrest
  exact ⟨u, hu, (change_eq_some_iff.mp hu').1⟩

end Table
end StellarSmartAccount.Foundations
