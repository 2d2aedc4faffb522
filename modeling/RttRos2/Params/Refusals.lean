/-
  RttRos2.Params.Refusals — how the operations of the parameter service report that rclcpp
  refuses them, whatever other threads do between two calls.

  What `declare_parameter` throws is not caught: for the empty name, a value that is not
  set, an override of another type, and a parameter that another thread declares after
  `has_parameter` (`exceptions_escape`). `set_parameter` is guarded against the one
  exception it documents.

  `refusals_reported_iff`: an operation returns false and changes nothing when rclcpp
  refuses it, and lets no exception escape, if and only if `declare_parameter` is not
  refused in the state it finds, and `set_parameter` throws nothing else.
-/

import RttRos2.Params.Service

namespace RttRos2.Params

open RttRos2.Lib RosParamService

variable {σ D : Type} {N : Node σ D} {s t : σ} {name : String} {v : ParameterValue D}
  {l : List (Call D × σ)} {r : Except Exception Bool}

/-! ## The operations among other threads -/

inductive Operation where
  | setParameter
  | declareParameter
  | setOrDeclareParameter
  deriving DecidableEq, Repr

def Operation.prog : Operation → Bool → String → ParameterValue D → M D (Except Exception Bool)
  | .setParameter => RosParamService.setParameter
  | .declareParameter => RosParamService.declareParameter
  | .setOrDeclareParameter => RosParamService.setOrDeclareParameter

/-- Between two calls anything may happen to the node. -/
def Node.shared (N : Node σ D) : Setting (Call D) Call.Res σ where
  sem := N.sem
  rely _ _ := True
  ok _ _ := True
  rely_refl _ := trivial
  rely_trans _ _ := trivial

/-- rclcpp does not do what the call asks for. -/
def Refused (N : Node σ D) : Call D → σ → Prop
  | .declareParameter name v, u => ∃ e, (N.declareParameter u name v).1 = .error e
  | .setParameter name v, u => (N.setParameter u name v).1 ≠ .ok true
  | _, _ => False

/-- The calls `l` were made, each listed with the state it found, and `r` is the result. -/
structure Reported (N : Node σ D) (l : List (Call D × σ)) (r : Except Exception Bool) : Prop where
  noEscape : ∀ e, r ≠ .error e
  refused : ∀ c ∈ l, Refused N c.1 c.2 →
    r = .ok false ∧ ∀ c ∈ l, N.parameters (N.sem c.1 c.2).2 = N.parameters c.2

/-- The call throws nothing, or what the operation catches. -/
def Tame (N : Node σ D) : Call D → σ → Prop
  | .declareParameter name v, u => ¬ N.Refuses u name v
  | .setParameter name v, u => ∀ e, (N.setParameter u name v).1 = .error e → e = .parameterNotDeclared
  | _, _ => True

/-! ## What an execution consists of -/

/-- The last call, if any, of an execution that only tests before it. -/
inductive Ends (N : Node σ D) (name : String) (v : ParameterValue D) : List (Call D × σ) → Except Exception Bool → Prop
  /-- Nothing was asked of rclcpp. -/
  | tested (l : List (Call D × σ)) : (∀ c ∈ l, c.1 = .hasParameter name) → Ends N name v l (.ok false)
  | declared (l : List (Call D × σ)) (u : σ) : (∀ c ∈ l, c.1 = .hasParameter name) →
      Ends N name v (l ++ [(.declareParameter name v, u)]) (declared (N.declareParameter u name v).1)
  | updated (l : List (Call D × σ)) (u : σ) : (∀ c ∈ l, c.1 = .hasParameter name) →
      Ends N name v (l ++ [(.setParameter name v, u)]) (updated (N.setParameter u name v).1)

theorem exec_set (h : Exec N.shared (do let result ← Call.set name v; pure (updated result)) s l (.ret r) t) :
    Ends N name v l r := by
  obtain ⟨u, l', -, rfl, hend⟩ := exec_perform h
  obtain ⟨hr, rfl, -⟩ := exec_ret hend
  cases hr
  exact .updated [] u (List.forall_mem_nil _)

theorem exec_declare (h : Exec N.shared (do let result ← Call.declare name v; pure (declared result)) s l (.ret r) t) :
    Ends N name v l r := by
  obtain ⟨u, l', -, rfl, hend⟩ := exec_perform h
  obtain ⟨hr, rfl, -⟩ := exec_ret hend
  cases hr
  exact .declared [] u (List.forall_mem_nil _)

theorem exec_nothing (h : Exec N.shared (pure (.ok false)) s l (.ret r) t) : Ends N name v l r := by
  obtain ⟨hr, rfl, -⟩ := exec_ret h
  cases hr
  exact .tested [] (List.forall_mem_nil _)

/-- A test before. -/
theorem Ends.after_has (h : Ends N name v l r) (u : σ) : Ends N name v ((.hasParameter name, u) :: l) r := by
  cases h with
  | tested l hl => exact .tested _ (List.forall_mem_cons.mpr ⟨rfl, hl⟩)
  | declared l u' hl => exact .declared (_ :: l) u' (List.forall_mem_cons.mpr ⟨rfl, hl⟩)
  | updated l u' hl => exact .updated (_ :: l) u' (List.forall_mem_cons.mpr ⟨rfl, hl⟩)

theorem exec_has {yes no : M D (Except Exception Bool)}
    (h : Exec N.shared (do if !(← Call.has name) then no else yes) s l (.ret r) t)
    (hno : ∀ {s l t}, Exec N.shared no s l (.ret r) t → Ends N name v l r)
    (hyes : ∀ {s l t}, Exec N.shared yes s l (.ret r) t → Ends N name v l r) : Ends N name v l r := by
  obtain ⟨u, l', -, rfl, hrest⟩ := exec_perform h
  split at hrest
  · exact (hno hrest).after_has u
  · exact (hyes hrest).after_has u

theorem operation_ends (op : Operation) {node : Bool} (h : Exec N.shared (op.prog node name v) s l (.ret r) t) :
    Ends N name v l r := by
  cases node with
  | false => cases op <;> exact exec_nothing h
  | true =>
    cases op with
    | setParameter => exact exec_set h
    | declareParameter => exact exec_has h exec_declare exec_nothing
    | setOrDeclareParameter => exact exec_has h exec_declare exec_set

/-! ## Refusals -/

theorem has_unchanged {c : Call D × σ} (h : c.1 = .hasParameter name) :
    ¬ Refused N c.1 c.2 ∧ Tame N c.1 c.2 ∧ N.parameters (N.sem c.1 c.2).2 = N.parameters c.2 := by
  obtain ⟨c, u⟩ := c
  subst h
  exact ⟨id, trivial, rfl⟩

/-- Only the last call can be refused. -/
theorem reported_last (hl : ∀ c ∈ l, c.1 = .hasParameter name) (c : Call D) (u : σ) :
    Reported N (l ++ [(c, u)]) r ↔
      (∀ e, r ≠ .error e) ∧ (Refused N c u → r = .ok false ∧ N.parameters (N.sem c u).2 = N.parameters u) := by
  constructor
  · intro h
    have hlast : (c, u) ∈ l ++ [(c, u)] := List.mem_append_right _ (List.mem_singleton.mpr rfl)
    exact ⟨h.noEscape, fun hr => ⟨(h.refused _ hlast hr).1, (h.refused _ hlast hr).2 _ hlast⟩⟩
  · rintro ⟨hesc, href⟩
    refine ⟨hesc, fun c' hc' hr => ?_⟩
    rcases List.mem_append.mp hc' with hc' | hc'
    · exact absurd hr (has_unchanged (hl c' hc')).1
    · rw [List.mem_singleton.mp hc'] at hr
      refine ⟨(href hr).1, fun c'' hc'' => ?_⟩
      rcases List.mem_append.mp hc'' with hc'' | hc''
      · exact (has_unchanged (hl c'' hc'')).2.2
      · rw [List.mem_singleton.mp hc'']
        exact (href hr).2

theorem tame_last (hl : ∀ c ∈ l, c.1 = .hasParameter name) (c : Call D) (u : σ) :
    (∀ c' ∈ l ++ [(c, u)], Tame N c'.1 c'.2) ↔ Tame N c u := by
  rw [List.forall_mem_append, List.forall_mem_singleton]
  exact and_iff_right fun c' hc' => (has_unchanged (hl c' hc')).2.1

theorem ends_reported_iff (hN : N.Documented) (h : Ends N name v l r) :
    Reported N l r ↔ ∀ c ∈ l, Tame N c.1 c.2 := by
  cases h with
  | tested l hl =>
    refine iff_of_true ⟨fun e he => ?_, fun c hc hr => ?_⟩ fun c hc => (has_unchanged (hl c hc)).2.1
    · cases he
    · exact absurd hr (has_unchanged (hl c hc)).1
  | declared l u hl =>
    rw [reported_last hl, tame_last hl]
    have hthrows := hN.declare_throws u name v
    simp only [Tame, Refused, ← hthrows]
    cases hr : (N.declareParameter u name v).1 with
    | error e =>
      refine iff_of_false ?_ ?_
      · rintro ⟨hesc, -⟩
        exact hesc e rfl
      · intro h
        exact h ⟨e, rfl⟩
    | ok x =>
      have hno : ¬ ∃ e, (Except.ok x : Except Exception (ParameterValue D)) = .error e := by
        rintro ⟨e, he⟩
        cases he
      refine iff_of_true ⟨fun e he => ?_, fun h => absurd h hno⟩ hno
      cases he
  | updated l u hl =>
    rw [reported_last hl, tame_last hl]
    have hsame := hN.set_unchanged u name v
    simp only [Tame, Refused]
    cases hr : (N.setParameter u name v).1 with
    | ok successful =>
      refine iff_of_true ⟨fun e he => ?_, fun hne => ?_⟩ fun e he => ?_
      · cases he
      · cases successful with
        | true => exact absurd rfl hne
        | false => exact ⟨rfl, hsame (by rw [hr]; exact hne)⟩
      · cases he
    | error e =>
      by_cases he : e = .parameterNotDeclared
      · subst he
        refine iff_of_true ⟨fun e he => ?_, fun hne => ⟨rfl, hsame (by rw [hr]; exact hne)⟩⟩ fun e he => ?_
        · cases he
        · cases he
          rfl
      · rw [updated_error he]
        refine iff_of_false ?_ ?_
        · rintro ⟨hesc, -⟩
          exact hesc e rfl
        · intro h
          exact he (h e rfl)

/-! ## Exceptions that escape -/

def empty : Table Int where
  declared _ := none
  overrides _ := none
  allowUndeclared := true

/-- The empty name; and, between the test and the call, another thread that declares the parameter. -/
theorem exceptions_escape :
    (∃ l t, Exec (Table.node Int).shared (Operation.prog .declareParameter true "" (.integer 1)) empty l
        (.ret (.error .invalidParameters)) t ∧
      ¬ Reported (Table.node Int) l (.error .invalidParameters)) ∧
    ∃ l t, Exec (Table.node Int).shared (Operation.prog .setOrDeclareParameter true "rate" (.integer 1)) empty l
        (.ret (.error .parameterAlreadyDeclared)) t ∧
      ¬ Reported (Table.node Int) l (.error .parameterAlreadyDeclared) := by
  constructor
  · let p : M Int (Except Exception Bool) := Operation.prog .declareParameter true "" (.integer 1)
    have htested := (Exec.start : Exec (Table.node Int).shared p empty [] p empty).call
    have hdeclared := htested.call
    exact ⟨_, _, hdeclared, fun h => h.noEscape _ rfl⟩
  · let p : M Int (Except Exception Bool) := Operation.prog .setOrDeclareParameter true "rate" (.integer 1)
    have htested := (Exec.start : Exec (Table.node Int).shared p empty [] p empty).call
    have hbetween := htested.rely (u := empty.store "rate" (.integer 2)) trivial
    have hdeclared := hbetween.call
    exact ⟨_, _, hdeclared, fun h => h.noEscape _ rfl⟩

/-- Every execution of an operation, whatever the other threads do. -/
theorem refusals_reported_iff (N : Node σ D) (hN : N.Documented) (op : Operation) (node : Bool) (name : String)
    (v : ParameterValue D) (s t : σ) (l : List (Call D × σ)) (r : Except Exception Bool)
    (h : Exec N.shared (op.prog node name v) s l (.ret r) t) :
    Reported N l r ↔ ∀ c ∈ l, Tame N c.1 c.2 := ends_reported_iff hN (operation_ends op h)

/-- A parameter that is not declared is not set, when undeclared ones are not allowed. -/
theorem refusals_reported_iff_strict :
    ∃ l t, Exec (Table.node Int).shared (Operation.prog .setParameter true "rate" (.integer 1))
        { empty with allowUndeclared := false } l (.ret (.ok false)) t ∧
      Reported (Table.node Int) l (.ok false) := by
  let s : Table Int := { empty with allowUndeclared := false }
  let p : M Int (Except Exception Bool) := Operation.prog .setParameter true "rate" (.integer 1)
  have hset := (Exec.start : Exec (Table.node Int).shared p s [] p s).call
  refine ⟨_, _, hset, (refusals_reported_iff (Table.node Int) Table.documented .setParameter true "rate" (.integer 1)
    s _ _ (.ok false) hset).mpr ?_⟩
  intro c hc
  rw [List.mem_singleton.mp hc]
  intro e he
  cases he
  rfl

end RttRos2.Params
