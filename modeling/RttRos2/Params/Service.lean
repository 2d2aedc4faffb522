/-
  RttRos2.Params.Service — the operations of `RosParamService` (rtt_ros2_params) that get,
  set and declare parameters.

  They are programs of calls to the node; what other threads do with the node happens
  between the calls. `node` is whether `getNode` found one. An exception that an operation
  does not catch is its result, `.error`.
-/

import RttRos2.Params.Node

namespace RttRos2.Params

open RttRos2.Lib

variable {σ D : Type}

/-- The calls of `rclcpp::Node`. -/
inductive Call (D : Type) where
  | hasParameter (name : String)
  | getParameter (name : String)
  | declareParameter (name : String) (defaultValue : ParameterValue D)
  | setParameter (name : String) (value : ParameterValue D)

def Call.Res : Call D → Type
  | .hasParameter _ => Bool
  | .getParameter _ => ParameterValue D
  | .declareParameter _ _ => Except Exception (ParameterValue D)
  | .setParameter _ _ => Except Exception Bool

abbrev M (D : Type) := Prog (Call D) Call.Res

def Node.sem (N : Node σ D) : (c : Call D) → σ → c.Res × σ
  | .hasParameter name, s => ((N.parameters s name).isSome, s)
  | .getParameter name, s => (N.value s name, s)
  | .declareParameter name defaultValue, s => N.declareParameter s name defaultValue
  | .setParameter name value, s => N.setParameter s name value

/-! ## The calls -/

namespace Call

def has (name : String) : M D Bool := Prog.perform (hasParameter name : Call D)

def get (name : String) : M D (ParameterValue D) := Prog.perform (getParameter name : Call D)

def declare (name : String) (defaultValue : ParameterValue D) : M D (Except Exception (ParameterValue D)) :=
  Prog.perform (declareParameter name defaultValue)

def set (name : String) (value : ParameterValue D) : M D (Except Exception Bool) :=
  Prog.perform (setParameter name value)

section
variable (N : Node σ D) (s : σ) (name : String) (v : ParameterValue D)

@[simp] theorem eval_has : (has name).eval N.sem s = ((N.parameters s name).isSome, s) := rfl

@[simp] theorem eval_get : (get name).eval N.sem s = (N.value s name, s) := rfl

@[simp] theorem eval_declare : (declare name v).eval N.sem s = N.declareParameter s name v := rfl

@[simp] theorem eval_set : (set name v).eval N.sem s = N.setParameter s name v := rfl

end

end Call

/-! ## The operations -/

namespace RosParamService

def getParameter (node : Bool) (name : String) : M D (ParameterValue D) :=
  if node then Call.get name else pure .notSet

/-- What is returned for the answer to `set_parameter`; one exception is caught. -/
def updated : Except Exception Bool → Except Exception Bool
  | .ok successful => .ok successful
  | .error .parameterNotDeclared => .ok false
  | .error e => .error e

/-- What is returned for the answer to `declare_parameter`; nothing is caught. -/
def declared : Except Exception (ParameterValue D) → Except Exception Bool
  | .ok _ => .ok true
  | .error e => .error e

theorem updated_true {r : Except Exception Bool} (h : updated r = .ok true) : r = .ok true := by
  unfold updated at h
  split at h
  · exact h
  · cases h
  · cases h

theorem updated_error {e : Exception} (h : e ≠ .parameterNotDeclared) : updated (.error e) = .error e := by
  cases e with
  | parameterNotDeclared => exact absurd rfl h
  | _ => rfl

def setParameter (node : Bool) (name : String) (value : ParameterValue D) : M D (Except Exception Bool) :=
  if node then do
    let result ← Call.set name value
    pure (updated result)
  else pure (.ok false)

def declareParameter (node : Bool) (name : String) (defaultValue : ParameterValue D) : M D (Except Exception Bool) :=
  if node then do
    if !(← Call.has name) then
      let result ← Call.declare name defaultValue
      pure (declared result)
    else pure (.ok false)
  else pure (.ok false)

def setOrDeclareParameter (node : Bool) (name : String) (value : ParameterValue D) : M D (Except Exception Bool) :=
  if node then do
    if !(← Call.has name) then
      let result ← Call.declare name value
      pure (declared result)
    else
      let result ← Call.set name value
      pure (updated result)
  else pure (.ok false)

end RosParamService

end RttRos2.Params
