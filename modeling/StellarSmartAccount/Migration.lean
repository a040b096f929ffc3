import StellarSmartAccount.Foundations.Licence
import StellarSmartAccount.Upgradeable

/-! # The migration licence over whole histories

A migratable contract runs the code of its current Wasm, and each Wasm brings its own
authorization check and its own data migration. As long as neither of them writes
`MIGRATING`, the entry records whether an upgrade succeeded after the last completed
migration, whatever calls failed in between.
-/

namespace StellarSmartAccount.Upgradeable
open Foundations Soroban

/-- A transaction that leaves the entry `MIGRATING` as it was, unless it aborts. -/
def KeepsLicence (x : Host Unit) : Prop :=
  ∀ s t, x.exec s = .ok (⟨⟩, t) →
    t.instanceMap.lookup (intoVal migrating) = s.instanceMap.lookup (intoVal migrating)

theorem keepsLicence_requireAuth (env : Env) (address : Address) :
    KeepsLicence (requireAuth env address) := by
  intro s t h
  rw [requireAuth_exec] at h
  split_ifs at h
  cases h
  rfl

/-- The methods that an implementer supplies, `_require_auth_upgrade` and `_migrate`. -/
structure Implementer (μ : Type) where
  requireAuthUpgrade : Env → Host Unit
  migrateData : Env → μ → Host Unit
  keeps_requireAuthUpgrade : ∀ env, KeepsLicence (requireAuthUpgrade env)

inductive UpgradeCall (μ : Type) where
  | upgrade (env : Env) (newWasmHash : BytesN 32)
  | migrate (env : Env) (migrationData : μ)

variable {μ : Type}

def UpgradeCall.env : UpgradeCall μ → Env
  | .upgrade env _ | .migrate env _ => env

def UpgradeCall.run (implementer : Implementer μ) : UpgradeCall μ → Host Unit
  | .upgrade env newWasmHash =>
    Upgradeable.upgrade (implementer.requireAuthUpgrade env) env newWasmHash
  | .migrate env migrationData =>
    Upgradeable.migrate (implementer.requireAuthUpgrade env) (implementer.migrateData env)
      migrationData

/-- The contract whose implementer is determined by its current Wasm; an abort is rolled
back by the host. -/
def machine (code : BytesN 32 → Implementer μ) :
    Machine State (UpgradeCall μ) (Except Abort Unit) where
  step call s := Tx.commit (call.run (code s.wasm)) s

/-- A call and its response, once the call is over. -/
abbrev Answered (μ : Type) := UpgradeCall μ × Except Abort Unit

def upgrades : Answered μ → Bool
  | (.upgrade _ _, .ok _) => true
  | _ => false

def completes : Answered μ → Bool
  | (.migrate _ _, .ok _) => true
  | _ => false

/-- Successful upgrades grant the licence that completed migrations use up. -/
def licence (μ : Type) : Licence (Answered μ) where
  grants := upgrades
  uses := completes
  disjoint := by rintro ⟨_ | _, _ | _⟩ <;> simp [upgrades, completes]

/-- The flag, if present, is a boolean. -/
def LicenceTyped (s : State) : Prop :=
  ∀ v, s.instanceMap.lookup (intoVal migrating) = some v → ∃ b : Bool, v = intoVal b

/-- The state after a completed migration. -/
def completed (s : State) : State :=
  { s with instanceMap := s.instanceMap.insert (intoVal migrating) (intoVal false) }

/-- In a state whose authorization check ends in `u` the entry point runs the implementer's
migration: it returns exactly if `_migrate` does, with the licence given back, and otherwise
aborts as `_migrate` does and changes nothing. -/
def Migrates (code : BytesN 32 → Implementer μ) (env : Env) (migrationData : μ) (s u : State) :
    Prop :=
  (∀ v, (machine code).step (.migrate env migrationData) s = (.ok ⟨⟩, v) ↔
    ∃ u', ((code s.wasm).migrateData env migrationData).exec u = .ok (⟨⟩, u') ∧ v = completed u') ∧
  ∀ r, (machine code).step (.migrate env migrationData) s = (.error r, s) ↔
    ((code s.wasm).migrateData env migrationData).exec u = .error r

section Exec
variable {s t : State} {implementer : Implementer μ} {env : Env}

theorem licenceTyped_of_insert {b : Bool}
    (h : t.instanceMap = s.instanceMap.insert (intoVal migrating) (intoVal b)) :
    LicenceTyped t := by
  intro v hv
  rw [h, Finmap.lookup_insert] at hv
  exact ⟨b, (Option.some.inj hv).symm⟩

theorem flag_of_insert {b : Bool}
    (h : t.instanceMap = s.instanceMap.insert (intoVal migrating) (intoVal b)) :
    t.flag migrating = b := by
  rw [State.flag, h, Finmap.lookup_insert]
  simp [intoVal_injective.eq_iff]

theorem ensureCanCompleteMigration_exec (h : LicenceTyped s) :
    ensureCanCompleteMigration.exec s =
      if s.flag migrating then .ok (⟨⟩, s) else .error (.contractError migrationNotAllowed) := by
  have hread : canCompleteMigration.exec s = .ok (s.flag migrating, s) := readFlag_exec h
  rw [ensureCanCompleteMigration, Tx.exec_bind_ok hread]
  cases s.flag migrating <;> rfl

theorem upgrade_of_ok {newWasmHash : BytesN 32}
    (h : ((UpgradeCall.upgrade env newWasmHash).run implementer).exec s = .ok (⟨⟩, t)) :
    ∃ u, t = upgraded u newWasmHash := by
  obtain ⟨_, u, hauth, -⟩ := Tx.exec_bind_eq_ok_iff.mp h
  rw [UpgradeCall.run, upgrade_exec hauth] at h
  split_ifs at h
  cases h
  exact ⟨u, rfl⟩

/-- An authorized migration is refused without the licence; with it, it migrates the data and
gives the licence back. -/
theorem migrate_exec {migrationData : μ}
    (hauth : (implementer.requireAuthUpgrade env).exec s = .ok (⟨⟩, t)) (ht : LicenceTyped t) :
    ((UpgradeCall.migrate env migrationData).run implementer).exec s =
      if t.flag migrating then
        ((implementer.migrateData env migrationData).exec t).map fun p => (⟨⟩, completed p.2)
      else .error (.contractError migrationNotAllowed) := by
  have hensure := ensureCanCompleteMigration_exec ht
  rw [UpgradeCall.run, migrate, Tx.exec_bind_ok hauth]
  by_cases hflag : t.flag migrating = true
  · rw [if_pos hflag] at hensure ⊢
    rw [Tx.exec_bind_ok hensure, Tx.exec_bind]
    cases (implementer.migrateData env migrationData).exec t <;> rfl
  · rw [if_neg hflag] at hensure ⊢
    exact Tx.exec_bind_error hensure _

theorem LicenceTyped.of_keeps {x : Host Unit} (hkeeps : KeepsLicence x) (hs : LicenceTyped s)
    (h : x.exec s = .ok (⟨⟩, t)) : LicenceTyped t := by
  rw [LicenceTyped, hkeeps s t h]
  exact hs

theorem flag_eq_of_keeps {x : Host Unit} (hkeeps : KeepsLicence x)
    (h : x.exec s = .ok (⟨⟩, t)) : t.flag migrating = s.flag migrating := by
  rw [State.flag, State.flag, hkeeps s t h]

theorem migrate_of_ok {migrationData : μ} (hs : LicenceTyped s)
    (h : ((UpgradeCall.migrate env migrationData).run implementer).exec s = .ok (⟨⟩, t)) :
    s.flag migrating = true ∧ ∃ u, t = completed u := by
  obtain ⟨_, u, hauth, -⟩ := Tx.exec_bind_eq_ok_iff.mp h
  have hkeeps := implementer.keeps_requireAuthUpgrade env
  rw [migrate_exec hauth (hs.of_keeps hkeeps hauth), flag_eq_of_keeps hkeeps hauth] at h
  split_ifs at h with hflag
  cases hdata : (implementer.migrateData env migrationData).exec u with
  | error r => simp [hdata, Except.map] at h
  | ok p =>
    rw [hdata] at h
    cases h
    exact ⟨hflag, p.2, rfl⟩

end Exec

section Step
variable {code : BytesN 32 → Implementer μ} {call : UpgradeCall μ} {s : State}

theorem step_of_error {r : Abort} (h : ((machine code).step call s).1 = .error r) :
    ((machine code).step call s).2 = s := Tx.commit_snd_of_error h

theorem step_eq_of_ok {t : State} (h : (call.run (code s.wasm)).exec s = .ok (⟨⟩, t)) :
    (machine code).step call s = (.ok ⟨⟩, t) := by
  change Tx.commit _ s = _
  rw [Tx.commit, h]

theorem step_eq_of_error {r : Abort} (h : (call.run (code s.wasm)).exec s = .error r) :
    (machine code).step call s = (.error r, s) := by
  change Tx.commit _ s = _
  rw [Tx.commit, h]

/-- What a call does to the licence. -/
inductive Effect (code : BytesN 32 → Implementer μ) (s : State) :
    UpgradeCall μ → Except Abort Unit × State → Prop where
  | failed (call : UpgradeCall μ) (r : Abort) : Effect code s call (.error r, s)
  | upgraded (env : Env) (newWasmHash : BytesN 32) (u : State) :
      Effect code s (.upgrade env newWasmHash) (.ok ⟨⟩, upgraded u newWasmHash)
  | completed (env : Env) (migrationData : μ) (u : State) (hflag : s.flag migrating = true) :
      Effect code s (.migrate env migrationData) (.ok ⟨⟩, completed u)

theorem step_effect (hs : LicenceTyped s) (code : BytesN 32 → Implementer μ)
    (call : UpgradeCall μ) : Effect code s call ((machine code).step call s) := by
  cases hrun : (call.run (code s.wasm)).exec s with
  | error r =>
    rw [step_eq_of_error hrun]
    exact .failed call r
  | ok p =>
    rw [step_eq_of_ok hrun]
    cases call with
    | upgrade env newWasmHash =>
      obtain ⟨u, hu⟩ := upgrade_of_ok hrun
      rw [hu]
      exact .upgraded env newWasmHash u
    | migrate env migrationData =>
      obtain ⟨hflag, u, hu⟩ := migrate_of_ok hs hrun
      rw [hu]
      exact .completed env migrationData u hflag

theorem LicenceTyped.step (hs : LicenceTyped s) (code : BytesN 32 → Implementer μ)
    (call : UpgradeCall μ) : LicenceTyped ((machine code).step call s).2 := by
  have heffect := step_effect hs code call
  generalize (machine code).step call s = result at heffect
  cases heffect with
  | failed call r => exact hs
  | upgraded env newWasmHash u => exact licenceTyped_of_insert (b := true) rfl
  | completed env migrationData u hflag => exact licenceTyped_of_insert (b := false) rfl

theorem flag_step_iff (hs : LicenceTyped s) (code : BytesN 32 → Implementer μ)
    (call : UpgradeCall μ) :
    ((machine code).step call s).2.flag migrating = true ↔
      (licence μ).grants (call, ((machine code).step call s).1) = true ∨
        (s.flag migrating = true ∧
          (licence μ).uses (call, ((machine code).step call s).1) = false) := by
  have heffect := step_effect hs code call
  generalize (machine code).step call s = result at heffect
  cases heffect with
  | failed call r => cases call <;> simp [licence, upgrades, completes]
  | upgraded env newWasmHash u =>
    have hflag : (upgraded u newWasmHash).flag migrating = true := flag_of_insert rfl
    simp [hflag, licence, upgrades]
  | completed env migrationData u _ =>
    have hflag : (completed u).flag migrating = false := flag_of_insert rfl
    simp [hflag, licence, upgrades, completes]

theorem flag_of_completes (hs : LicenceTyped s)
    (h : (licence μ).uses (call, ((machine code).step call s).1) = true) :
    s.flag migrating = true := by
  have heffect := step_effect hs code call
  generalize (machine code).step call s = result at heffect h
  cases heffect with
  | failed call r => cases call <;> simp [licence, completes] at h
  | upgraded env newWasmHash u => simp [licence, completes] at h
  | completed env migrationData u hflag => exact hflag

theorem step_of_unauthorized {r : Abort} (hauth : ((code s.wasm).requireAuthUpgrade call.env).exec s
    = .error r) : (machine code).step call s = (.error r, s) := by
  cases call with
  | upgrade env newWasmHash => exact step_eq_of_error (Tx.exec_bind_error hauth _)
  | migrate env migrationData => exact step_eq_of_error (Tx.exec_bind_error hauth _)

theorem step_migrate_of_unlicensed (hs : LicenceTyped s) {env : Env} {migrationData : μ} {u : State}
    (hauth : ((code s.wasm).requireAuthUpgrade env).exec s = .ok (⟨⟩, u))
    (hflag : ¬ s.flag migrating = true) :
    (machine code).step (.migrate env migrationData) s =
      (.error (.contractError migrationNotAllowed), s) := by
  have hkeeps := (code s.wasm).keeps_requireAuthUpgrade env
  refine step_eq_of_error ?_
  rw [migrate_exec hauth (hs.of_keeps hkeeps hauth), flag_eq_of_keeps hkeeps hauth, if_neg hflag]

theorem step_upgrade_of_authorized {env : Env} {u : State}
    (hauth : ((code s.wasm).requireAuthUpgrade env).exec s = .ok (⟨⟩, u))
    (newWasmHash : BytesN 32) :
    (machine code).step (.upgrade env newWasmHash) s =
      if env.wasmExists newWasmHash then (.ok ⟨⟩, upgraded u newWasmHash)
      else (.error .missingWasm, s) := by
  have hexec : ((UpgradeCall.upgrade env newWasmHash).run (code s.wasm)).exec s = _ :=
    upgrade_exec hauth env newWasmHash
  by_cases hwasm : env.wasmExists newWasmHash = true
  · rw [if_pos hwasm] at hexec ⊢
    exact step_eq_of_ok hexec
  · rw [if_neg hwasm] at hexec ⊢
    exact step_eq_of_error hexec

/-- Under the licence a migration is the implementer's, which the entry point completes. -/
theorem step_migrate_of_licensed (hs : LicenceTyped s) {env : Env} {migrationData : μ} {u : State}
    (hauth : ((code s.wasm).requireAuthUpgrade env).exec s = .ok (⟨⟩, u))
    (hflag : s.flag migrating = true) :
    Migrates code env migrationData s u := by
  have hkeeps := (code s.wasm).keeps_requireAuthUpgrade env
  have hexec : ((UpgradeCall.migrate env migrationData).run (code s.wasm)).exec s = _ :=
    migrate_exec hauth (hs.of_keeps hkeeps hauth)
  rw [flag_eq_of_keeps hkeeps hauth, if_pos hflag] at hexec
  cases hdata : ((code s.wasm).migrateData env migrationData).exec u with
  | error r =>
    rw [hdata] at hexec
    rw [Migrates, step_eq_of_error hexec, hdata]
    simp
  | ok p =>
    rw [hdata] at hexec
    rw [Migrates, step_eq_of_ok hexec, hdata]
    simp [Prod.ext_iff, eq_comm]

end Step

/-- What the licence protocol says about a state and the history that leads to it. -/
structure FollowsLicence (code : BytesN 32 → Implementer μ) (t : State)
    (answered : List (Answered μ)) : Prop where
  unauthorized : ∀ call r, ((code t.wasm).requireAuthUpgrade call.env).exec t = .error r →
    (machine code).step call t = (.error r, t)
  upgraded : ∀ env newWasmHash u, ((code t.wasm).requireAuthUpgrade env).exec t = .ok (⟨⟩, u) →
    (machine code).step (.upgrade env newWasmHash) t =
      if env.wasmExists newWasmHash then (.ok ⟨⟩, upgraded u newWasmHash)
      else (.error .missingWasm, t)
  /-- After an upgrade that no completed migration has followed yet, `migrate` gets to
  `_migrate`. -/
  licensed : ∀ env migrationData u,
    ((code t.wasm).requireAuthUpgrade env).exec t = .ok (⟨⟩, u) →
      (licence μ).Held answered → Migrates code env migrationData t u
  /-- Otherwise it is refused by `ensure_can_complete_migration`. -/
  unlicensed : ∀ env migrationData u,
    ((code t.wasm).requireAuthUpgrade env).exec t = .ok (⟨⟩, u) →
      ¬ (licence μ).Held answered → (machine code).step (.migrate env migrationData) t =
        (.error (.contractError migrationNotAllowed), t)
  separated : ∀ before first between second after,
    answered = before ++ first :: (between ++ second :: after) → completes first = true →
      completes second = true → ∃ granted ∈ between, upgrades granted = true
  bounded : ∀ pre, pre <+: answered → pre.countP completes ≤ pre.countP upgrades
  /-- One completed migration uses up all upgrades before it. -/
  usedUp : ∀ before done after, answered = before ++ done :: after → completes done = true →
    (∀ later ∈ after, upgrades later = false) → ¬ (licence μ).Held answered
  /-- A licensed migration that aborts may be retried. -/
  retried : ∀ env migrationData r, (licence μ).Held answered →
    ((machine code).step (.migrate env migrationData) t).1 = .error r →
      ((machine code).step (.migrate env migrationData) t).2 = t ∧
        (licence μ).Held (answered ++ [(.migrate env migrationData, .error r)])

section Run
variable {s : State}

theorem licensed_run (code : BytesN 32 → Implementer μ)
    (hs : s.instanceMap.lookup (intoVal migrating) = none)
    (calls : List (UpgradeCall μ)) :
    LicenceTyped ((machine code).final s calls) ∧
      (((machine code).final s calls).flag migrating = true ↔
        (licence μ).Held ((machine code).history s calls)) ∧
      (licence μ).Respected ((machine code).history s calls) := by
  have htyped : LicenceTyped s := by
    intro v hv
    rw [hs] at hv
    cases hv
  have hflag : ¬ s.flag migrating = true := by simp [State.flag, hs]
  refine ⟨(machine code).final_invariant (fun call _ ht => ht.step code call) htyped calls, ?_⟩
  exact (machine code).licensed (P := fun t => t.flag migrating = true)
    (fun call _ ht => ht.step code call) (fun call _ ht => flag_step_iff ht code call)
    (fun _ _ ht huses => flag_of_completes ht huses) htyped hflag calls

/-- Every run of upgrades and migrations from a state without `MIGRATING` follows the
licence protocol, whatever implementers authorize the calls and migrate the data. -/
theorem run_followsLicence (code : BytesN 32 → Implementer μ)
    (hs : s.instanceMap.lookup (intoVal migrating) = none) (calls : List (UpgradeCall μ)) :
    FollowsLicence code ((machine code).final s calls) ((machine code).history s calls) := by
  obtain ⟨htyped, hheld, hrespected⟩ := licensed_run code hs calls
  generalize (machine code).final s calls = t at htyped hheld
  generalize (machine code).history s calls = answered at hheld hrespected
  constructor
  case unauthorized => exact fun call r hauth => step_of_unauthorized hauth
  case upgraded => exact fun env newWasmHash u hauth => step_upgrade_of_authorized hauth newWasmHash
  case licensed =>
    exact fun env migrationData u hauth hlicensed =>
      step_migrate_of_licensed htyped hauth (hheld.mpr hlicensed)
  case unlicensed =>
    exact fun env migrationData u hauth hunlicensed =>
      step_migrate_of_unlicensed htyped hauth fun hflag => hunlicensed (hheld.mp hflag)
  case separated =>
    intro before first between second after heq hfirst hsecond
    exact hrespected.grant_between heq hfirst hsecond
  case bounded => exact fun pre hpre => (hrespected.prefix_of hpre).countP_le
  case usedUp =>
    intro before done after heq hdone hafter hlicensed
    rw [heq] at hlicensed
    obtain ⟨granted, hmem, hgranted⟩ := Licence.exists_grant_of_held hdone hlicensed
    exact absurd hgranted (Bool.eq_false_iff.mp (hafter granted hmem))
  case retried =>
    intro env migrationData r hlicensed herror
    refine ⟨step_of_error herror, Licence.held_concat_iff.mpr (.inr ⟨hlicensed, ?_⟩)⟩
    rfl

end Run

namespace Sample

def version : Symbol := "VERSION"

/-- The contract authorizes its own upgrades; its migrations store the new version, which
is not zero. -/
def implementer : Implementer UInt64 where
  requireAuthUpgrade env := requireAuth env env.currentContractAddress
  migrateData _ newVersion :=
    if newVersion = 0 then Tx.abort .unwrapNone
    else storageSet .instanceStorage version newVersion
  keeps_requireAuthUpgrade env := keepsLicence_requireAuth env _

def env : Env where
  crypto := ⟨fun _ => List.Vector.replicate 32 0, fun _ _ _ => false, fun _ _ _ => false⟩
  currentContractAddress := .contract (List.Vector.replicate 32 1)
  timestamp := 0
  wasmExists _ := true
  authorizes _ _ := true

def state : State := ⟨∅, ∅, [], List.Vector.replicate 32 0⟩

/-- An upgrade and a migration that aborts. -/
def calls : List (UpgradeCall UInt64) :=
  [.upgrade env (List.Vector.replicate 32 2), .migrate env 0]

def code : BytesN 32 → Implementer UInt64 := fun _ => implementer

theorem authorized (t : State) : (implementer.requireAuthUpgrade env).exec t = .ok (⟨⟩, t) :=
  (requireAuth_exec _ _ t).trans (if_pos rfl)

end Sample

/-- After the aborted migration of the sample contract a second one completes, and a third
one is refused. -/
theorem sample_run_followsLicence :
    ∃ t, (machine Sample.code).step (.migrate Sample.env 1)
        ((machine Sample.code).final Sample.state Sample.calls) = (.ok ⟨⟩, t) ∧
      (machine Sample.code).step (.migrate Sample.env 2) t =
        (.error (.contractError migrationNotAllowed), t) := by
  have hfollows := run_followsLicence (s := Sample.state) Sample.code rfl Sample.calls
  have hheld : (licence UInt64).Held ((machine Sample.code).history Sample.state Sample.calls) := by
    refine ⟨[], _, [_], rfl, rfl, fun later hlater => ?_⟩
    rw [List.mem_singleton.mp hlater]
    rfl
  have hsecond := ((hfollows.licensed Sample.env 1 _ (Sample.authorized _) hheld).1 _).mpr
    ⟨_, rfl, rfl⟩
  refine ⟨_, hsecond, ?_⟩
  have hthird := run_followsLicence (s := Sample.state) Sample.code rfl
    (Sample.calls ++ [.migrate Sample.env 1])
  rw [Machine.final_append, Machine.final_singleton, Machine.history_append,
    Machine.history_singleton, hsecond] at hthird
  refine hthird.unlicensed Sample.env 2 _ (Sample.authorized _) ?_
  exact hthird.usedUp _ _ [] rfl rfl nofun

end StellarSmartAccount.Upgradeable
