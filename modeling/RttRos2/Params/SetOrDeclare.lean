/-
  RttRos2.Params.SetOrDeclare — what `setOrDeclareParameter` sets.

  A declared parameter is set to the value. An undeclared one is declared with the value as
  its default, and rclcpp prefers an override: the call returns true and the parameter has
  the value of the override (`override_wins`). So the operation does what it says unless an
  undeclared name has an override that differs from the value, and rclcpp takes it
  (`sets_parameter_iff`).
-/

import RttRos2.Params.Service

namespace RttRos2.Params

open RttRos2.Lib RosParamService

variable {σ D : Type} {N : Node σ D} {s : σ} {name : String} {v : ParameterValue D}

/-! ## What it does -/

theorem setOrDeclare_declared (h : N.parameters s name ≠ none) :
    (setOrDeclareParameter true name v).eval N.sem s =
      (updated (N.setParameter s name v).1, (N.setParameter s name v).2) := by
  have hd : (N.parameters s name).isSome = true := Option.isSome_iff_ne_none.mpr h
  simp [setOrDeclareParameter, hd]

theorem setOrDeclare_undeclared (h : N.parameters s name = none) :
    (setOrDeclareParameter true name v).eval N.sem s =
      (declared (N.declareParameter s name v).1, (N.declareParameter s name v).2) := by
  simp [setOrDeclareParameter, h]

/-- The value is what `getParameter` returns then, and nothing else changed. -/
structure Sets (N : Node σ D) (s : σ) (name : String) (v : ParameterValue D) (node : Bool)
    (out : Except Exception Bool × σ) : Prop where
  success : out.1 = .ok true → ((getParameter node name).eval N.sem out.2).1 = v ∧
    ∀ other, other ≠ name → N.parameters out.2 other = N.parameters s other
  failure : out.1 = .ok false → N.parameters out.2 = N.parameters s

/-- No override replaces the value. -/
def NotOverridden (N : Node σ D) (s : σ) (name : String) (v : ParameterValue D) : Prop :=
  N.parameters s name = none → ∀ o, N.overrides s name = some o → o = v ∨ N.Refuses s name v

theorem sets_declared (hN : N.Documented) (h : N.parameters s name ≠ none) :
    Sets N s name v true ((setOrDeclareParameter true name v).eval N.sem s) := by
  rw [setOrDeclare_declared h]
  refine ⟨fun hr => ?_, fun hr => ?_⟩
  · have hset : (N.setParameter s name v).1 = .ok true := updated_true hr
    exact hN.set_stores s name v hset
  · refine hN.set_unchanged s name v fun hset => ?_
    rw [hset] at hr
    cases hr

theorem initial_eq_iff : N.initial s name v = v ↔ ∀ o, N.overrides s name = some o → o = v := by
  unfold Node.initial
  cases N.overrides s name <;> simp

theorem sets_undeclared_iff (hN : N.Documented) (h : N.parameters s name = none) :
    Sets N s name v true ((setOrDeclareParameter true name v).eval N.sem s) ↔ NotOverridden N s name v := by
  rw [setOrDeclare_undeclared h]
  have hthrows := hN.declare_throws s name v
  cases hr : (N.declareParameter s name v).1 with
  | error e =>
    have hrefuses : N.Refuses s name v := hthrows.mp ⟨e, hr⟩
    refine iff_of_true ⟨fun hd => ?_, fun hd => ?_⟩ fun _ _ _ => Or.inr hrefuses
    · cases hd
    · cases hd
  | ok r =>
    have hnot : ¬ N.Refuses s name v := by
      rw [← hthrows, hr]
      rintro ⟨e, he⟩
      cases he
    have hstores := hN.declare_stores s name v r hr
    have hvalue : N.value (N.declareParameter s name v).2 name = N.initial s name v := by
      simp [Node.value, hstores]
    have hcond : NotOverridden N s name v ↔ N.initial s name v = v := by
      rw [initial_eq_iff]
      exact ⟨fun hc o ho => (hc h o ho).resolve_right hnot, fun hc _ o ho => Or.inl (hc o ho)⟩
    rw [hcond, ← hvalue]
    constructor
    · exact fun hs => (hs.success rfl).1
    · intro hv
      refine ⟨fun _ => ⟨hv, fun other hne => ?_⟩, fun hd => ?_⟩
      · rw [hstores, Function.update_of_ne hne]
      · cases hd

/-- The node was given 1 for the rate. -/
def overridden : Table Int where
  declared _ := none
  overrides name := if name = "rate" then some (.integer 1) else none
  allowUndeclared := true

/-- The rate is set to 2, which reports success, and it is 1. -/
theorem override_wins :
    let out := (setOrDeclareParameter true "rate" (.integer 2)).eval (Table.node Int).sem overridden
    out.1 = .ok true ∧ ((getParameter true "rate").eval (Table.node Int).sem out.2).1 = .integer 1 ∧
      ¬ Sets (Table.node Int) overridden "rate" (.integer 2) true out := by
  have hget : ((getParameter true "rate").eval (Table.node Int).sem
      ((setOrDeclareParameter true "rate" (.integer 2)).eval (Table.node Int).sem overridden).2).1 = .integer 1 := rfl
  refine ⟨rfl, hget, fun h => ?_⟩
  have hvalue := (h.success rfl).1
  rw [hget] at hvalue
  cases hvalue

theorem sets_parameter_iff (N : Node σ D) (hN : N.Documented) (s : σ) (node : Bool) (name : String)
    (v : ParameterValue D) :
    Sets N s name v node ((setOrDeclareParameter node name v).eval N.sem s) ↔
      (node = true → NotOverridden N s name v) := by
  cases node with
  | false =>
    refine iff_of_true ⟨fun hr => ?_, fun _ => rfl⟩ fun hn => absurd hn (by decide)
    cases hr
  | true =>
    by_cases h : N.parameters s name = none
    · simpa using sets_undeclared_iff hN h
    · exact iff_of_true (sets_declared hN h) fun _ hn => absurd hn h

/-- A name without an override. -/
theorem sets_parameter_iff_other : Sets (Table.node Int) overridden "period" (.integer 2) true
    ((setOrDeclareParameter true "period" (.integer 2)).eval (Table.node Int).sem overridden) := by
  refine (sets_parameter_iff (Table.node Int) Table.documented overridden true "period" (.integer 2)).mpr ?_
  intro _ _ o ho
  cases ho

end RttRos2.Params
