/-
  RttRos2.Params.Load — parameters loaded into properties (`loadProperty`).

  RTT's `update` applies the conversion for the property's type; what a conversion throws is
  caught. The integer 4294967297 is loaded into an `int` as 1, and the call reports success
  (`large_integer_is_narrowed`). Otherwise a property gets what the parameter holds, or keeps
  its value: `load_exact_iff`.
-/

import RttRos2.Params.Conversions
import RttRos2.Params.Service

namespace RttRos2.Params

open RttRos2.Lib

variable {σ D : Type} {N : Node σ D} {s : σ}

/-- The properties of the owner, by name. -/
abbrev Properties (D : Type) := String → Option (Property D)

/-- `property_ds->update(&param_rds)`, `false` also when the conversion throws. -/
def updateProperty (properties : Properties D) (propertyName : String) (paramvalue : ParameterValue D) :
    Bool × Properties D :=
  match properties propertyName with
  | none => (false, properties)
  | some prop =>
    match convert prop.type paramvalue with
    | none => (false, properties)
    | some value => (true, Function.update properties propertyName (some ⟨prop.type, value⟩))

/-- The rest of `loadProperty`, once the parameter was read. `owner` is `none` for the global service. -/
def loadValue (owner : Option (Properties D)) (propertyName : String) (paramvalue : ParameterValue D) :
    Bool × Option (Properties D) :=
  if paramvalue.getType = .notSet then (false, owner)
  else match owner with
    | none => (false, none)
    | some properties =>
      let (loaded, properties) := updateProperty properties propertyName paramvalue
      (loaded, some properties)

/-- `RosParamService::loadProperty` -/
def RosParamService.loadProperty (node : Bool) (owner : Option (Properties D)) (propertyName paramName : String) :
    M D (Bool × Option (Properties D)) := do
  let paramvalue ← getParameter node paramName
  pure (loadValue owner propertyName paramvalue)

/-- On success the property holds what the parameter `v` holds, and nothing else changed; on
    failure nothing changed. -/
structure Loads (owner : Option (Properties D)) (propertyName : String) (v : ParameterValue D)
    (out : Bool × Option (Properties D)) : Prop where
  success : out.1 = true → ∃ properties old new, owner = some properties ∧ properties propertyName = some old ∧
    new.type = old.type ∧ v.datum = some new.datum ∧ out.2 = some (Function.update properties propertyName (some new))
  failure : out.1 = false → out.2 = owner

/-! ## What is loaded -/

theorem loads_nothing {owner : Option (Properties D)} {propertyName : String} {v : ParameterValue D} :
    Loads owner propertyName v (false, owner) := by
  refine ⟨fun h => ?_, fun _ => rfl⟩
  cases h

theorem updateProperty_loads_iff {properties : Properties D} {propertyName : String} {v : ParameterValue D} :
    Loads (some properties) propertyName v
        ((updateProperty properties propertyName v).1, some (updateProperty properties propertyName v).2) ↔
      ∀ p, properties propertyName = some p → Fits p.type v := by
  unfold updateProperty
  cases hp : properties propertyName with
  | none =>
    refine iff_of_true loads_nothing fun p h => ?_
    cases h
  | some p =>
    simp only [Option.some.injEq, forall_eq']
    cases hc : convert p.type v with
    | none => exact iff_of_true loads_nothing (fits_of_convert_none hc)
    | some x =>
      rw [← convert_exact_iff hc]
      constructor
      · intro h
        obtain ⟨properties', old, new, hprop, -, -, hdatum, hout⟩ := h.success rfl
        cases hprop
        have hout : Function.update properties propertyName (some ⟨p.type, x⟩) =
          Function.update properties propertyName (some new) := Option.some.inj hout
        have hnew := congrFun hout propertyName
        rw [Function.update_self, Function.update_self, Option.some.injEq] at hnew
        rw [hdatum, hnew]
      · intro hdatum
        refine ⟨fun _ => ⟨properties, p, ⟨p.type, x⟩, rfl, hp, rfl, hdatum, rfl⟩, fun h => ?_⟩
        cases h

theorem loadValue_loads_iff {owner : Option (Properties D)} {propertyName : String} {v : ParameterValue D} :
    Loads owner propertyName v (loadValue owner propertyName v) ↔
      ∀ properties p, owner = some properties → properties propertyName = some p → Fits p.type v := by
  unfold loadValue
  by_cases hv : v.getType = .notSet
  · rw [if_pos hv]
    have hfits : ∀ type, Fits type v := by
      intro type
      cases v with
      | notSet => cases type <;> trivial
      | _ => cases hv
    exact iff_of_true loads_nothing fun _ p _ _ => hfits p.type
  · rw [if_neg hv]
    cases owner with
    | none =>
      refine iff_of_true loads_nothing fun properties p h => ?_
      cases h
    | some properties =>
      rw [updateProperty_loads_iff]
      constructor
      · intro h properties p howner
        cases howner
        exact h p
      · exact fun h p => h properties p rfl

def speed : Properties Int := fun name => if name = "speed" then some ⟨.int, 7⟩ else none

def large : Table Int where
  declared name := if name = "speed" then some (.integer 4294967297) else none
  overrides _ := none
  allowUndeclared := false

theorem large_integer_is_narrowed :
    let out := ((RosParamService.loadProperty true (some speed) "speed" "speed").eval (Table.node Int).sem large).1
    out.1 = true ∧ (out.2.bind fun properties => (properties "speed").map Property.datum) = some (.integer 1) ∧
      ¬ Loads (some speed) "speed" (.integer 4294967297) out := by
  intro out
  have hone : (out.2.bind fun properties => (properties "speed").map Property.datum) = some (.integer 1) := rfl
  refine ⟨rfl, hone, fun h => ?_⟩
  obtain ⟨properties, old, new, -, -, -, hdatum, hout⟩ := h.success rfl
  rw [hout, Option.bind_some, Function.update_self, Option.map_some, ← hdatum] at hone
  injection hone with hone
  injection hone with hone
  exact absurd hone (by decide)

theorem load_exact_iff (N : Node σ D) (s : σ) (node : Bool) (owner : Option (Properties D))
    (propertyName paramName : String) :
    Loads owner propertyName (N.value s paramName)
        ((RosParamService.loadProperty node owner propertyName paramName).eval N.sem s).1 ↔
      (node = true → ∀ properties p, owner = some properties → properties propertyName = some p →
        Fits p.type (N.value s paramName)) := by
  cases node with
  | false => exact iff_of_true loads_nothing fun h => absurd h (by decide)
  | true =>
    have hload : ((RosParamService.loadProperty true owner propertyName paramName).eval N.sem s).1 =
      loadValue owner propertyName (N.value s paramName) := rfl
    rw [hload, loadValue_loads_iff]
    exact ⟨fun h _ => h, fun h => h rfl⟩

end RttRos2.Params
