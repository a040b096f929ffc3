import StellarSmartAccount.Factory.Audit

/-! # Address prediction and single use of a salt

All three deploying entry points create at the address that `get_deployed_address`
answers for their salt. The contracts of a run are the addresses of its used salts, in
order, and no salt is used twice.
-/

namespace StellarSmartAccount.ContractFactory
open Foundations Soroban

variable {α κ ω : Type}

/-- The salt of a deploying call. -/
def FactoryCall.salt : FactoryCall κ → Option (BytesN 32)
  | .deploy _ deploymentArgs => some deploymentArgs.salt
  | .deployAccountAndInvoke _ deploymentArgs _ => some deploymentArgs.salt
  | .uploadAndDeploy _ _ salt _ => some salt
  | .getDeployedAddress _ => none
  | .access _ => none

/-- The salt of a deploying call that succeeded. -/
def usedSalt : Invocation κ ω × Except Abort Val → Option (BytesN 32)
  | (inv, .ok _) => inv.call.salt
  | (_, .error _) => none

/-- The salts that a history has used, oldest first. -/
def usedSalts (h : List (Invocation κ ω × Except Abort Val)) : List (BytesN 32) :=
  h.filterMap usedSalt

theorem usedSalts_append (h : List (Invocation κ ω × Except Abort Val))
    (answered : Invocation κ ω × Except Abort Val) :
    usedSalts (h ++ [answered]) = usedSalts h ++ (usedSalt answered).toList := by
  rw [usedSalts, List.filterMap_append]
  cases hused : usedSalt answered <;> simp [usedSalts, hused]

namespace Factory
variable (factory : Factory α κ ω)

/-- The address that the factory derives from a salt. -/
def addressOf (salt : BytesN 32) : Address :=
  factory.network.deployedAddress factory.address salt

def creationOf (salt : BytesN 32) : Creation := ⟨factory.address, salt, factory.addressOf salt⟩

end Factory

section Step
variable {factory : Factory α κ ω} {inv : Invocation κ ω} {s : State α ω}

theorem step_getDeployedAddress {salt : BytesN 32} (hcall : inv.call = .getDeployedAddress salt)
    (s : State α ω) : factory.step inv s = (.ok (intoVal (factory.addressOf salt)), s) := by
  rw [Factory.step, hcall]
  rfl

/-- A creation is recorded under the salt of its deployer, whose address was free. -/
theorem creations_create {env : Env α κ ω} {deployer : Deployer} {wasmHash : BytesN 32}
    {constructorArgs : List Val} {t : State α ω} {contractId : Address}
    (h : deployer.create env wasmHash constructorArgs s = some (contractId, t)) :
    t.creations = s.creations ++
        [⟨deployer.address, deployer.salt, deployer.deployedAddress env⟩] ∧
      ∀ salt, some deployer.salt = some salt → ∀ creation ∈ s.creations,
        creation.address ≠ env.network.deployedAddress deployer.address salt := by
  obtain ⟨rfl, hfree, world, -, rfl⟩ := create_eq_some_iff.mp h
  refine ⟨rfl, ?_⟩
  rintro salt ⟨⟩
  exact hfree

theorem step_creations (factory : Factory α κ ω) (inv : Invocation κ ω) (s : State α ω) :
    (factory.step inv s).2.creations = s.creations ++
        (usedSalt (inv, (factory.step inv s).1)).toList.map factory.creationOf ∧
      ∀ salt, usedSalt (inv, (factory.step inv s).1) = some salt →
        ∀ creation ∈ s.creations, creation.address ≠ factory.addressOf salt := by
  have heffect := step_effect factory inv s
  obtain ⟨authorizes, call⟩ := inv
  generalize factory.step ⟨authorizes, call⟩ s = result at heffect ⊢
  cases heffect with
  | failed call r => exact ⟨(List.append_nil _).symm, nofun⟩
  | answered salt => exact ⟨(List.append_nil _).symm, nofun⟩
  | managed call access => exact ⟨(List.append_nil _).symm, nofun⟩
  | deployed hpermitted hcreate => exact creations_create hcreate
  | invoked hpermitted hcreate hauth results world => exact creations_create hcreate
  | uploaded hpermitted hupload hcreate => exact creations_create hcreate

/-- The contracts are the addresses of the used salts, each used once. -/
structure SaltsUsed (factory : Factory α κ ω) (h : List (Invocation κ ω × Except Abort Val))
    (s : State α ω) : Prop where
  creations : s.creations = (usedSalts h).map factory.creationOf
  nodup : ((usedSalts h).map factory.addressOf).Nodup

theorem SaltsUsed.step {h : List (Invocation κ ω × Except Abort Val)} (hs : SaltsUsed factory h s)
    (inv : Invocation κ ω) :
    SaltsUsed factory (h ++ [(inv, (factory.step inv s).1)]) (factory.step inv s).2 := by
  obtain ⟨hcreations, hfree⟩ := step_creations factory inv s
  have hsalts := usedSalts_append h (inv, (factory.step inv s).1)
  constructor
  · rw [hcreations, hs.creations, hsalts, List.map_append]
  · rw [hsalts, List.map_append]
    cases hused : usedSalt (inv, (factory.step inv s).1) with
    | none =>
      rw [Option.toList_none, List.map_nil, List.append_nil]
      exact hs.nodup
    | some salt =>
      rw [Option.toList_some, List.map_singleton, ← List.concat_eq_append]
      refine List.Nodup.concat (fun hmem => ?_) hs.nodup
      obtain ⟨salt', hsalt', heq⟩ := List.mem_map.mp hmem
      have hcreation : factory.creationOf salt' ∈ s.creations := by
        rw [hs.creations]
        exact List.mem_map_of_mem hsalt'
      exact hfree salt hused _ hcreation heq

theorem saltsUsed_final (factory : Factory α κ ω) (admin : Address) (world : ω)
    (is : List (Invocation κ ω)) :
    SaltsUsed factory (factory.machine.history (factory.start admin world) is)
      (factory.machine.final (factory.start admin world) is) :=
  factory.machine.history_invariant (R := SaltsUsed factory) (fun _ inv _ hs => hs.step inv)
    ⟨rfl, List.nodup_nil⟩ is

end Step

section Run
variable {factory : Factory α κ ω}

/-- A successful deploying call creates one contract at the address that
`get_deployed_address` answers in every state. -/
theorem step_of_usedSalt {inv : Invocation κ ω} {s : State α ω} {salt : BytesN 32} {v : Val}
    (hsalt : inv.call.salt = some salt) (hok : (factory.step inv s).1 = .ok v) :
    (factory.step inv s).2.creations = s.creations ++ [factory.creationOf salt] ∧
      ∀ query s', query.call = .getDeployedAddress salt →
        factory.step query s' = (.ok (intoVal (factory.creationOf salt).address), s') := by
  have hused : usedSalt (inv, (factory.step inv s).1) = some salt := by
    rw [hok]
    exact hsalt
  have hcreations := (step_creations factory inv s).1
  rw [hused] at hcreations
  exact ⟨hcreations, fun query s' hcall => step_getDeployedAddress hcall s'⟩

theorem SaltsUsed.deployedContracts_eq {h : List (Invocation κ ω × Except Abort Val)}
    {s : State α ω} (hs : SaltsUsed factory h s) :
    deployedContracts factory s = (usedSalts h).map factory.addressOf := by
  rw [deployedContracts, hs.creations, List.filter_map, List.map_map]
  have hall : (usedSalts h).filter ((fun creation : Creation =>
      decide (creation.deployer = factory.address)) ∘ factory.creationOf) = usedSalts h := by
    apply List.filter_eq_self.mpr
    intro salt _
    exact decide_eq_true rfl
  rw [hall]
  rfl

/-- In every run a successful deployment creates at the address that
`get_deployed_address` answers for its salt in every state, no salt is used twice,
distinct salts have distinct answers, and each deployed contract has exactly one used
salt. -/
theorem address_prediction (factory : Factory α κ ω) (admin : Address) (world : ω)
    (hinjective : Function.Injective (factory.network.deployedAddress factory.address))
    (is : List (Invocation κ ω)) :
    (∀ pre inv salt v, pre ++ [inv] <+: is → inv.call.salt = some salt →
      (factory.step inv (factory.machine.final (factory.start admin world) pre)).1 = .ok v →
      ∃ contractId,
        (factory.step inv (factory.machine.final (factory.start admin world) pre)).2.creations =
          (factory.machine.final (factory.start admin world) pre).creations ++
            [⟨factory.address, salt, contractId⟩] ∧
        ∀ query s, query.call = .getDeployedAddress salt →
          factory.step query s = (.ok (intoVal contractId), s)) ∧
    (usedSalts (factory.machine.history (factory.start admin world) is)).Nodup ∧
    (∀ query query' salt salt' s s', query.call = .getDeployedAddress salt →
      query'.call = .getDeployedAddress salt' → salt ≠ salt' →
        (factory.step query s).1 ≠ (factory.step query' s').1) ∧
    ∀ contractId ∈ deployedContracts factory
        (factory.machine.final (factory.start admin world) is),
      ∃! salt, salt ∈ usedSalts (factory.machine.history (factory.start admin world) is) ∧
        ∀ query s, query.call = .getDeployedAddress salt →
          factory.step query s = (.ok (intoVal contractId), s) := by
  have hsalts : SaltsUsed factory (factory.machine.history (factory.start admin world) is)
      (factory.machine.final (factory.start admin world) is) :=
    saltsUsed_final factory admin world is
  refine ⟨?_, hsalts.nodup.of_map _, ?_, ?_⟩
  · intro pre inv salt v _ hsalt hok
    obtain ⟨hcreations, hanswer⟩ := step_of_usedSalt hsalt hok
    exact ⟨factory.addressOf salt, hcreations, hanswer⟩
  · intro query query' salt salt' s s' hcall hcall' hne heq
    rw [step_getDeployedAddress hcall, step_getDeployedAddress hcall'] at heq
    exact hne (hinjective (intoVal_injective (Except.ok.inj heq)))
  · intro contractId hcontract
    rw [hsalts.deployedContracts_eq] at hcontract
    obtain ⟨salt, hsalt, rfl⟩ := List.mem_map.mp hcontract
    refine ⟨salt, ⟨hsalt, fun query s hcall => step_getDeployedAddress hcall s⟩, ?_⟩
    rintro salt' ⟨-, hanswer⟩
    have hquery : factory.step ⟨fun _ _ => false, .getDeployedAddress salt'⟩
        (factory.start admin world) = _ := step_getDeployedAddress rfl _
    rw [hanswer ⟨fun _ _ => false, .getDeployedAddress salt'⟩ _ rfl] at hquery
    exact hinjective (intoVal_injective (Except.ok.inj (Prod.mk.inj hquery).1)).symm

/-- The sample admin's upload creates at the predicted address. -/
theorem sample_address_prediction :
    ∃ contractId,
      (Sample.factory.step Sample.upload (Sample.factory.start Sample.admin [])).2.creations =
        (Sample.factory.start Sample.admin []).creations ++
          [⟨Sample.factory.address, List.Vector.replicate 32 3, contractId⟩] ∧
      ∀ query s, query.call = .getDeployedAddress (List.Vector.replicate 32 3) →
        Sample.factory.step query s = (.ok (intoVal contractId), s) := by
  have hinjective : Function.Injective
      (Sample.factory.network.deployedAddress Sample.factory.address) := by
    intro salt salt' heq
    exact Address.contract.inj heq
  have hok : (Sample.factory.step Sample.upload (Sample.factory.start Sample.admin [])).1 =
      .ok (intoVal (Address.contract (List.Vector.replicate 32 3))) := by decide
  exact (address_prediction Sample.factory Sample.admin [] hinjective [Sample.upload]).1 []
    Sample.upload _ _ (List.prefix_refl _) rfl hok

end Run
end StellarSmartAccount.ContractFactory
