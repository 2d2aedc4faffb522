/-
  RttRos2.Services.Failures — what a connect call that fails leaves behind.

  A new proxy goes into the map before it is connected, and stays there when that fails:
  the name is then taken by a proxy that serves nothing (`failed_connect_leaves_proxy`).
  As long as every call that creates a proxy can connect it (`Completes`: there is a node,
  the name is valid and the type accepts the operation), a connect call that fails leaves
  the names as they were, only connected names can be disconnected, and a name that is not
  connected is free for any type (`failures_leave_no_trace`).

  `History` keeps beside the service the names some connect call returned true for since
  they were last disconnected.
-/

import RttRos2.Services.Types

namespace RttRos2.Services

open RttRos2.Lib

variable {Sig : Type} [DecidableEq Sig]

structure History (Sig : Type) where
  st : St Sig
  connected : String → Bool

namespace History

def init : History Sig := ⟨Services.init, fun _ => false⟩

def connectedAfter (env : Env Sig) (h : History Sig) : Ev → String → Bool
  | .connect operation name type =>
    if (connect env h.st operation name type).1 = .returned true then Function.update h.connected name true
    else h.connected
  | .disconnect name => Function.update h.connected name false
  | .disconnectAll => fun _ => false
  | _ => h.connected

def step (env : Env Sig) (h : History Sig) (e : Ev) : Option (History Sig) :=
  (Services.step env h.st e).map fun t => ⟨t, h.connectedAfter env e⟩

end History

/-- The names in the two maps. -/
def names (s : St Sig) : (String → Bool) × (String → Bool) :=
  (fun name => (s.servers name).isSome, fun name => (s.clients name).isSome)

/-- The owner has the operation, or caller, and the type's proxies accept it. -/
structure Compatible (env : Env Sig) (s : St Sig) (operation name : String) (type : ServiceT Sig) : Prop where
  node : s.node = true
  valid : env.validName name = true
  accepts : accepts env operation type = true

/-- The type of the proxy that a connect call creates. -/
def creates (env : Env Sig) (s : St Sig) (operation name type : String) : Option (ServiceT Sig) :=
  if (env.getOwnerOperationCaller operation).isSome ∨ (env.getOwnerOperation operation).isSome then
    if (storedType env s operation name).isNone then env.registry type else none
  else none

/-- A connect call that creates a proxy can connect it. -/
def Completes (env : Env Sig) (s : St Sig) : Ev → Prop
  | .connect operation name type => ∀ ty ∈ creates env s operation name type, Compatible env s operation name ty
  | _ => True

/-- What a failed connect must not leave behind, before the next call, which meets `ok`. -/
structure Traceless (env : Env Sig) (ok : St Sig → Ev → Prop) (h : History Sig) : Prop where
  failing : ∀ operation name type t, ok h.st (.connect operation name type) →
    connect env h.st operation name type = (.returned false, t) → names t = names h.st
  disconnects : ∀ name, (disconnect h.st name).1 = true → h.connected name = true
  retries : ∀ operation name type, h.connected name = false → ∀ ty ∈ env.registry type,
    Compatible env h.st operation name ty → (connect env h.st operation name type).1 = .returned true

/-- The owner has no node when "a" is first connected. -/
theorem failed_connect_leaves_proxy :
    ∃ h, run (History.step twoTypes) Always History.init [.connect "a" "/service" "Empty"] = some h ∧
      connect twoTypes init "a" "/service" "Empty" = (.returned false, h.st) ∧
      names h.st ≠ names (init : St (Option Bool)) ∧ ¬ Traceless twoTypes Always h := by
  refine ⟨_, rfl, rfl, fun h => ?_, fun h => ?_⟩
  · have hs := congrFun (congrArg Prod.fst h) "/service"
    cases hs
  · have hd := h.disconnects "/service" rfl
    cases hd

variable {env : Env Sig} {s : St Sig}

/-! ## One connect call -/

section
variable {operation name type : String}

omit [DecidableEq Sig] in
/-- Nothing is stored yet for a proxy that is created. -/
theorem creates_some {ty : ServiceT Sig} (h : creates env s operation name type = some ty) :
    storedType env s operation name = none ∧ env.registry type = some ty := by
  unfold creates at h
  split at h
  · split at h
    · rename_i hs
      exact ⟨Option.isNone_iff_eq_none.mp hs, h⟩
    · cases h
  · cases h

omit [DecidableEq Sig] in
theorem isSome_update {α : Type} {f : String → Option α} {p : α} (h : (f name).isSome = true) :
    (fun n => (Function.update f name (some p) n).isSome) = fun n => (f n).isSome := by
  funext n
  by_cases hn : n = name <;> simp [hn, h]

theorem connect_keeps_names (hs : creates env s operation name type = none) :
    names (connect env s operation name type).2 = names s := by
  obtain ⟨-, he⟩ | ⟨ty, caller, ht, hc, he⟩ | ⟨ty, o, ht, hc, ho, he⟩ := connect_cases env s operation name type <;>
    rw [he]
  · simp only [creates, storedType, ht, hc, Option.isSome_some, true_or, if_true] at hs
    have hp : (s.clients name).isSome = true := by
      cases hp : s.clients name <;> simp [hp] at hs ⊢
    simp only [names, connectClient, isSome_update hp]
  · simp only [creates, storedType, ht, hc, ho, Option.isSome_some, or_true, if_true] at hs
    have hp : (s.servers name).isSome = true := by
      cases hp : s.servers name <;> simp [hp] at hs ⊢
    simp only [names, connectServer, isSome_update hp]

/-- A call that creates a proxy stores it, whatever it returns. -/
theorem creating_changes_names {ty : ServiceT Sig} (hs : creates env s operation name type = some ty) :
    names (connect env s operation name type).2 ≠ names s := by
  obtain ⟨hn, ht⟩ := creates_some hs
  intro h
  obtain ⟨hr, -⟩ | ⟨ty', caller, -, hc, he⟩ | ⟨ty', o, -, hc, -, he⟩ := connect_cases env s operation name type
  · rcases hr with hr | ⟨hc, ho⟩
    · rw [hr] at ht
      cases ht
    · simp [creates, hc, ho] at hs
  · rw [he] at h
    have h := congrFun (congrArg Prod.snd h) name
    simp [names, connectClient] at h
    simp [storedType, hc] at hn
    simp [hn] at h
  · rw [he] at h
    have h := congrFun (congrArg Prod.fst h) name
    simp [names, connectServer] at h
    simp [storedType, hc] at hn
    simp [hn] at h

/-- No other name is touched. -/
theorem connect_names_of_ne {name' : String} (hn : name' ≠ name) :
    (disconnect (connect env s operation name type).2 name').1 = (disconnect s name').1 := by
  obtain ⟨-, he⟩ | ⟨ty, caller, -, -, he⟩ | ⟨ty, o, -, -, -, he⟩ := connect_cases env s operation name type <;> rw [he]
  · simp only [disconnect, connectClient, Function.update_of_ne hn]
  · simp only [disconnect, connectServer, Function.update_of_ne hn]

/-- A call that creates a proxy it can connect returns true. -/
theorem connect_completes {ty : ServiceT Sig} (ht : env.registry type = some ty)
    (hs : storedType env s operation name = none) (hc : Compatible env s operation name ty) :
    (connect env s operation name type).1 = .returned true := by
  obtain ⟨hn, hv, ha⟩ := hc
  unfold accepts at ha
  unfold storedType at hs
  obtain ⟨hr, he⟩ | ⟨ty', caller, ht', hc, he⟩ | ⟨ty', o, ht', hc, ho, he⟩ := connect_cases env s operation name type
  · rcases hr with hr | ⟨hc, ho⟩
    · rw [hr] at ht
      cases ht
    · rw [hc, ho] at ha
      cases ha
  · cases ht.symm.trans ht'
    rw [hc] at ha hs
    simp only [Option.isSome_some, if_true, Option.map_eq_none_iff] at hs
    rw [he]
    refine (ClientProxy.connect_returns_true ..).mpr ⟨hn, hv, ?_⟩
    simpa [St.clientProxy, hs, ClientProxy.create] using ha
  · cases ht.symm.trans ht'
    rw [hc, ho] at ha
    rw [hc] at hs
    simp only [Option.isSome_none, Bool.false_eq_true, if_false, Option.map_eq_none_iff] at hs
    rw [he]
    refine (ServerProxy.connect_returns_true ..).mpr ⟨hn, hv, ?_⟩
    simpa [St.serverProxy, hs, ServerProxy.create] using ha

theorem created_connects {ty : ServiceT Sig} (hs : creates env s operation name type = some ty)
    (hc : Completes env s (.connect operation name type)) : (connect env s operation name type).1 = .returned true :=
  connect_completes (creates_some hs).2 (creates_some hs).1 (hc ty hs)

end

/-! ## Runs -/

/-- Whatever can be disconnected is connected. -/
def Known (h : History Sig) : Prop := ∀ name, (disconnect h.st name).1 = true → h.connected name = true

theorem connect_known {h : History Sig} {operation name type : String} (hk : Known h)
    (hc : Completes env h.st (.connect operation name type)) :
    Known ⟨(connect env h.st operation name type).2, h.connectedAfter env (.connect operation name type)⟩ := by
  intro name' hd
  have hle : h.connected name' = true → h.connectedAfter env (.connect operation name type) name' = true := by
    intro hn
    simp only [History.connectedAfter]
    split
    · by_cases he : name' = name <;> simp [he, hn]
    · exact hn
  cases hs : creates env h.st operation name type with
  | none =>
    -- the names are as before
    have hn := connect_keeps_names hs
    refine hle (hk name' ?_)
    have h1 := congrFun (congrArg Prod.fst hn) name'
    have h2 := congrFun (congrArg Prod.snd hn) name'
    simp only [names] at h1 h2
    simpa [disconnect, h1, h2] using hd
  | some ty =>
    by_cases he : name' = name
    · have hr := created_connects hs hc
      simp only [History.connectedAfter, hr, if_true, he, Function.update_self]
    · refine hle (hk name' ?_)
      rw [← connect_names_of_ne he]
      exact hd

theorem step_known {h h' : History Sig} {e : Ev} (hk : Known h) (hc : Completes env h.st e)
    (he : h.step env e = some h') : Known h' := by
  obtain ⟨t, ht, rfl⟩ := Option.map_eq_some_iff.mp he
  cases e with
  | connect operation name type =>
    cases ht
    exact connect_known hk hc
  | disconnect name =>
    cases ht
    intro name' hd
    simp only [disconnect, History.connectedAfter] at hd ⊢
    by_cases hn : name' = name
    · simp [hn] at hd
    · simp only [Function.update_of_ne hn] at hd ⊢
      exact hk name' hd
  | disconnectAll =>
    cases ht
    exact nofun
  | request name =>
    simp only [Services.step] at ht
    (repeat' split at ht) <;> cases ht
    exact hk
  | node present =>
    cases ht
    exact hk

theorem failures_leave_no_trace {h : History Sig}
    (hp : Path (History.step env) (fun h => Completes env h.st) History.init h) :
    Traceless env (Completes env) h := by
  have hk : Known h := hp.invariant nofun fun _ _ _ hk hc he => step_known hk hc he
  refine ⟨fun operation name type t hc he => ?_, hk, fun operation name type hn ty ht hc => ?_⟩
  · cases hs : creates env h.st operation name type with
    | none =>
      have hn := connect_keeps_names hs
      rw [he] at hn
      exact hn
    | some ty =>
      have hr := created_connects hs hc
      rw [he] at hr
      cases hr
  · refine connect_completes ht ?_ hc
    -- the name is free in both maps
    have hf : (disconnect h.st name).1 = false := by
      by_contra hf
      have := hk name (Bool.of_not_eq_false hf)
      rw [hn] at this
      cases this
    simp only [disconnect, Bool.or_eq_false_iff, Option.isSome_eq_false_iff, Option.isNone_iff_eq_none] at hf
    simp [storedType, hf.1, hf.2]

/-- An operation that does not exist is refused; the name stays free for the other type. -/
theorem failures_leave_no_trace_unknown_operation :
    ∃ h, run (History.step twoTypes) Always History.init [.node true, .connect "b" "/service" "Empty",
      .connect "a" "/service" "Trigger"] = some h ∧ h.connected "/service" = true ∧
      Traceless twoTypes (Completes twoTypes) h := by
  refine ⟨_, rfl, rfl, failures_leave_no_trace (.step (.connect "a" "/service" "Trigger")
    (.step (.connect "b" "/service" "Empty") (.step (.node true) .refl trivial rfl) ?_ rfl) ?_ rfl)⟩
  · exact nofun
  · intro ty ht
    cases Option.some.inj (ht.symm.trans rfl)
    exact ⟨rfl, rfl, rfl⟩

end RttRos2.Services
