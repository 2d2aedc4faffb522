/-
  RttRos2.Services.Dispatch — every live ROS service has an operation to dispatch to.

  Connecting an operation of another signature to a service that is already served fails,
  but only after `impl_` was reset: the service stays, and the next request is dispatched
  through a null `impl_` (`failed_connect_unserves`). As long as no connect call does that
  (`Fits`), every live service has its operation, no request is lost, and a connect that
  fails leaves what every service is served by as it was (`live_servers_dispatch`).
-/

import RttRos2.Services.Service

namespace RttRos2.Services

open RttRos2.Lib

variable {Sig : Type} [DecidableEq Sig] {env : Env Sig} {s t : St Sig}

def Live (s : St Sig) : Prop := ∀ name p, s.servers name = some p → p.server = true → p.impl ≠ none

/-- What the proxy serves. -/
def ServerProxy.serves (p : ServerProxy Sig) : Option (Operation Sig) := if p.server then p.dispatch else none

/-- The operation a request for the service is dispatched to now. -/
def served (s : St Sig) (name : String) : Option (Operation Sig) := (s.servers name).bind ServerProxy.serves

/-- Every live service has an operation, no request met a null one, and the next connect
    call, if it fails, changes nothing of what is served. -/
structure Dispatches (env : Env Sig) (ok : St Sig → Ev → Prop) (s : St Sig) : Prop where
  live : Live s
  requests : ∀ name, (name, none) ∉ s.dispatched
  failing : ∀ operation name type t, ok s (.connect operation name type) →
    connect env s operation name type = (.returned false, t) → served t = served s

/-- Operation "a" has the service's signature, operation "b" another one. -/
def twoOperations : Env Bool where
  registry type := if type = "Empty" then some ⟨true, []⟩ else none
  split name := [name]
  callers := ⟨Unit, (), fun _ _ => none, fun _ _ => none⟩
  operations := ⟨Unit, (), fun _ _ => none, fun _ name =>
    if name = "a" then some ⟨0, true⟩ else if name = "b" then some ⟨1, false⟩ else none⟩
  validName _ := true

def failedConnect : List Ev :=
  [.node true, .connect "a" "/service" "Empty", .connect "b" "/service" "Empty", .request "/service"]

theorem failed_connect_unserves :
    ∃ s, run (step twoOperations) Always init failedConnect = some s ∧ s.dispatched = [("/service", none)] ∧
      ¬ Dispatches twoOperations Always s := by
  refine ⟨_, rfl, rfl, fun h => ?_⟩
  exact h.requests "/service" (.head _)

/-! ## When every reconnect fits -/

/-- The live server proxy that a connect call sets out to connect anew, and the operation. -/
def reconnects (env : Env Sig) (s : St Sig) : Ev → Option (ServerProxy Sig × Operation Sig)
  | .connect operation name type =>
    if (env.registry type).isSome ∧ (env.getOwnerOperationCaller operation).isNone ∧ s.node then
      match env.getOwnerOperation operation, s.servers name with
      | some operation, some p => if p.server then some (p, operation) else none
      | _, _ => none
    else none
  | _ => none

/-- A variant of the live service's type has the signature of the operation. -/
abbrev Fits (env : Env Sig) (s : St Sig) (e : Ev) : Prop :=
  ∀ x ∈ reconnects env s e, (x.1.type.connect x.2).isSome = true

section
variable {p : ServerProxy Sig} {node valid : Bool} {operation : Operation Sig}

theorem connect_live (hp : p.server = true → p.impl ≠ none)
    (hf : node = true → p.server = true → (p.type.connect operation).isSome = true) :
    (p.connect node valid operation).2.server = true → (p.connect node valid operation).2.impl ≠ none := by
  unfold ServerProxy.connect
  cases node with
  | false => exact hp
  | true =>
    cases hc : p.type.connect operation with
    | none =>
      intro hs
      have := hf rfl hs
      rw [hc] at this
      cases this
    | some impl =>
      intro _
      cases valid <;> exact nofun

/-- A connect that returns false leaves the proxy serving what it served. -/
theorem connect_serves (hf : node = true → p.server = true → (p.type.connect operation).isSome = true)
    (hr : (p.connect node valid operation).1 = .returned false) :
    (p.connect node valid operation).2.serves = p.serves := by
  unfold ServerProxy.connect at hr ⊢
  cases node with
  | false => rfl
  | true =>
    cases hc : p.type.connect operation with
    | none =>
      have hs : p.server = false := by
        by_contra h
        have := hf rfl (Bool.of_not_eq_false h)
        rw [hc] at this
        cases this
      simp [ServerProxy.serves, hs]
    | some impl =>
      rw [hc] at hr
      cases valid <;> simp at hr

end

omit [DecidableEq Sig] in
/-- The proxy a connect call uses is the one stored, or one that serves nothing. -/
theorem serverProxy_live (hl : Live s) {name : String} {type : ServiceT Sig} :
    (s.serverProxy name type).server = true → (s.serverProxy name type).impl ≠ none := by
  unfold St.serverProxy
  cases hp : s.servers name with
  | none => exact nofun
  | some p => exact hl name p hp

omit [DecidableEq Sig] in
theorem serverProxy_serves {name : String} {type : ServiceT Sig} :
    (s.serverProxy name type).serves = served s name := by
  unfold St.serverProxy served
  cases s.servers name <;> rfl

/-- `Fits`, for the proxy used. -/
theorem fits_proxy {operation name type : String} {ty : ServiceT Sig} {o : Operation Sig}
    (hf : Fits env s (.connect operation name type)) (ht : env.registry type = some ty)
    (hc : env.getOwnerOperationCaller operation = none) (ho : env.getOwnerOperation operation = some o) :
    s.node = true → (s.serverProxy name ty).server = true → ((s.serverProxy name ty).type.connect o).isSome = true := by
  intro hn hs
  unfold St.serverProxy at hs ⊢
  cases hp : s.servers name with
  | none => rw [hp] at hs; cases hs
  | some p =>
    rw [hp] at hs
    have hr : reconnects env s (.connect operation name type) = some (p, o) := by
      simp only [Option.getD_some] at hs
      simp [reconnects, ht, hc, ho, hn, hp, hs]
    exact hf _ hr

theorem connect_keeps_live (hl : Live s) {operation name type : String}
    (hf : Fits env s (.connect operation name type)) : Live (connect env s operation name type).2 := by
  obtain ⟨-, he⟩ | ⟨ty, caller, -, -, he⟩ | ⟨ty, o, ht, hc, ho, he⟩ := connect_cases env s operation name type <;>
    rw [he]
  · exact hl
  · exact hl
  · intro name' p' hp'
    simp only [connectServer] at hp'
    by_cases hn : name' = name
    · subst hn
      rw [Function.update_self] at hp'
      cases hp'
      exact connect_live (serverProxy_live hl) (fits_proxy hf ht hc ho)
    · rw [Function.update_of_ne hn] at hp'
      exact hl name' p' hp'

theorem failed_keeps_served {operation name type : String} (hf : Fits env s (.connect operation name type))
    (hr : (connect env s operation name type).1 = .returned false) :
    served (connect env s operation name type).2 = served s := by
  obtain ⟨-, he⟩ | ⟨ty, caller, -, -, he⟩ | ⟨ty, o, ht, hc, ho, he⟩ := connect_cases env s operation name type
  · exact congrArg (fun r => served r.2) he
  · exact congrArg (fun r => served r.2) he
  · rw [he] at hr ⊢
    funext name'
    simp only [served, connectServer]
    by_cases hn : name' = name
    · subst hn
      rw [Function.update_self]
      have := connect_serves (fits_proxy hf ht hc ho) hr
      rw [serverProxy_serves] at this
      exact this
    · rw [Function.update_of_ne hn]

theorem step_live (hl : Live s) (hd : ∀ name, (name, none) ∉ s.dispatched) {e : Ev} (hf : Fits env s e)
    (he : step env s e = some t) : Live t ∧ ∀ name, (name, none) ∉ t.dispatched := by
  cases e with
  | connect operation name type =>
    cases he
    refine ⟨connect_keeps_live hl hf, ?_⟩
    obtain ⟨-, he⟩ | ⟨ty, caller, -, -, he⟩ | ⟨ty, o, -, -, -, he⟩ := connect_cases env s operation name type <;>
      rw [he] <;> exact hd
  | disconnect name =>
    cases he
    refine ⟨fun name' p hp => ?_, hd⟩
    simp only [disconnect] at hp
    by_cases hn : name' = name
    · subst hn
      rw [Function.update_self] at hp
      cases hp
    · rw [Function.update_of_ne hn] at hp
      exact hl name' p hp
  | disconnectAll =>
    cases he
    exact ⟨nofun, hd⟩
  | request name =>
    simp only [step] at he
    split at he
    · cases he
    · rename_i p hp
      split at he
      · rename_i hs
        cases he
        refine ⟨hl, fun name' hm => ?_⟩
        rcases List.mem_append.mp hm with hm | hm
        · exact hd name' hm
        · -- the request found an operation
          have hi := hl name p hp hs
          rw [List.mem_singleton, Prod.mk.injEq, ServerProxy.dispatch] at hm
          exact hi (Option.map_eq_none_iff.mp hm.2.symm)
      · cases he
  | node present =>
    cases he
    exact ⟨hl, hd⟩

theorem live_servers_dispatch (h : Path (step env) (Fits env) init s) : Dispatches env (Fits env) s := by
  have hi : Live s ∧ ∀ name, (name, none) ∉ s.dispatched :=
    h.invariant ⟨nofun, nofun⟩ fun t u e ht hf he => step_live ht.1 ht.2 hf he
  refine ⟨hi.1, hi.2, fun operation name type t hf hc => ?_⟩
  have := failed_keeps_served hf (by rw [hc])
  rw [hc] at this
  exact this

/-- Operation "b" is refused for a service of its own; "a" is served all along. -/
def refusedElsewhere : List Ev :=
  [.node true, .connect "a" "/service" "Empty", .connect "b" "/other" "Empty", .connect "a" "/service" "Empty",
    .request "/service"]

theorem live_servers_dispatch_refused_elsewhere :
    ∃ s, run (step twoOperations) (Fits twoOperations) init refusedElsewhere = some s ∧
      s.dispatched = [("/service", some ⟨0, true⟩)] ∧ Dispatches twoOperations (Fits twoOperations) s :=
  ⟨_, rfl, rfl, live_servers_dispatch (run_path refusedElsewhere rfl)⟩

end RttRos2.Services
