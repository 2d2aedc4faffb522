/-
  RttRos2.Services.Callers — what operation callers are bound to.

  A client proxy gives the caller it connects a function that captures the proxy, and the
  service's map owns the proxy. `disconnect` and `disconnectAll` erase the map's entry
  only: a caller that was connected keeps the function, over a proxy that is gone
  (`disconnect_dangles`). Whatever is called, an event that destroys a proxy some caller is
  bound to leaves that caller dangling (`destroying_dangles`); as long as no event does
  (`Unbound`: its callers were connected elsewhere before), every caller is bound to a
  proxy that is stored (`bound_proxies_stored`).
-/

import RttRos2.Services.Service

namespace RttRos2.Services

open RttRos2.Lib

variable {Sig : Type} [DecidableEq Sig] {env : Env Sig} {s t : St Sig} {e : Ev}

/-- The client proxy of that identity is in the map. -/
def Stored (s : St Sig) (id : Nat) : Prop := ∃ name p, s.clients name = some p ∧ p.id = id

/-- No caller is bound to a proxy that is gone. -/
def NoneDangles (s : St Sig) : Prop := ∀ caller id, s.bound caller = some id → Stored s id

/-- The identities of the client proxies that an event destroys. -/
def Destroys (s : St Sig) (e : Ev) (id : Nat) : Prop :=
  match e with
  | .disconnect name => ∃ p, s.clients name = some p ∧ p.id = id
  | .disconnectAll => Stored s id
  | _ => False

/-- No caller is bound to a proxy that the event destroys. -/
def Unbound (s : St Sig) (e : Ev) : Prop := ∀ id, Destroys s e id → ∀ caller, s.bound caller ≠ some id

/-- One operation caller, "c". -/
def oneCaller : Env Bool where
  registry type := if type = "Empty" then some ⟨true, []⟩ else none
  split name := [name]
  callers := ⟨Unit, (), fun _ _ => none, fun _ name => if name = "c" then some ⟨0, true⟩ else none⟩
  operations := ⟨Unit, (), fun _ _ => none, fun _ _ => none⟩
  validName _ := true

theorem disconnect_dangles :
    ∃ s, run (step oneCaller) Always init [.node true, .connect "c" "/service" "Empty", .disconnect "/service"] =
      some s ∧ ¬ NoneDangles s := by
  refine ⟨_, rfl, fun h => ?_⟩
  obtain ⟨name, p, hp, -⟩ := h 0 0 rfl
  have hp : Function.update (Function.update (fun _ => none) "/service" (some ⟨0, ⟨true, []⟩, true⟩)) "/service" none
      name = some p := hp
  rw [Function.update_idem, Function.update_apply] at hp
  split at hp <;> cases hp

/-! ## Connecting -/

section
variable {name : String} {ty : ServiceT Sig} {caller : Caller Sig}

/-- The proxy used is stored afterwards. -/
theorem connectClient_stores : Stored (connectClient env s name ty caller).2 (s.clientProxy name ty).id :=
  ⟨name, _, Function.update_self .., ClientProxy.connect_id ..⟩

theorem connectClient_keeps {id : Nat} (h : Stored s id) : Stored (connectClient env s name ty caller).2 id := by
  obtain ⟨name', p, hp, rfl⟩ := h
  by_cases hn : name' = name
  · subst hn
    have : (s.clientProxy name' ty).id = p.id := by simp [St.clientProxy, hp]
    rw [← this]
    exact connectClient_stores
  · exact ⟨name', p, (Function.update_of_ne hn ..).trans hp, rfl⟩

theorem connectClient_none_dangles (h : NoneDangles s) : NoneDangles (connectClient env s name ty caller).2 := by
  intro c id hc
  rcases ClientProxy.connect_bound _ _ _ _ _ hc with hc | rfl
  · exact connectClient_keeps (h c id hc)
  · exact connectClient_stores

end

theorem connect_none_dangles (h : NoneDangles s) (operation name type : String) :
    NoneDangles (connect env s operation name type).2 := by
  obtain ⟨-, he⟩ | ⟨ty, caller, -, -, he⟩ | ⟨ty, o, -, -, -, he⟩ := connect_cases env s operation name type <;> rw [he]
  · exact h
  · exact connectClient_none_dangles h
  · exact h

/-! ## Disconnecting -/

omit [DecidableEq Sig] in
theorem disconnect_keeps {name : String} {id : Nat} (h : Stored s id) (hd : ¬ Destroys s (.disconnect name) id) :
    Stored (disconnect s name).2 id := by
  obtain ⟨name', p, hp, hi⟩ := h
  have hn : name' ≠ name := by
    intro hn
    subst hn
    exact hd ⟨p, hp, hi⟩
  exact ⟨name', p, (Function.update_of_ne hn ..).trans hp, hi⟩

theorem step_none_dangles (h : NoneDangles s) (hu : Unbound s e) (he : step env s e = some t) : NoneDangles t := by
  cases e with
  | connect operation name type =>
    cases he
    exact connect_none_dangles h operation name type
  | disconnect name =>
    cases he
    intro c id hc
    exact disconnect_keeps (h c id hc) fun hd => hu id hd c hc
  | disconnectAll =>
    cases he
    intro c id hc
    exact absurd hc (hu id (h c id hc) c)
  | request name =>
    simp only [step] at he
    (repeat' split at he) <;> cases he
    exact h
  | node present =>
    cases he
    exact h

theorem bound_proxies_stored (h : Path (step env) Unbound init s) : NoneDangles s :=
  h.invariant nofun fun _ _ _ hi hu he => step_none_dangles hi hu he

/-- The caller is connected to "/other" before "/service" is disconnected. -/
theorem bound_proxies_stored_reconnected :
    ∃ s, run (step oneCaller) Always init [.node true, .connect "c" "/service" "Empty", .connect "c" "/other" "Empty",
      .disconnect "/service"] = some s ∧ s.bound 0 = some 1 ∧ NoneDangles s := by
  refine ⟨_, rfl, rfl, bound_proxies_stored (.step (.disconnect "/service") (.step (.connect "c" "/other" "Empty")
    (.step (.connect "c" "/service" "Empty") (.step (.node true) .refl ?_ rfl) ?_ rfl) ?_ rfl) ?_ rfl)⟩
  · exact nofun
  · exact nofun
  · exact nofun
  · rintro id ⟨p, hp, rfl⟩ c hc
    have hp : p = ⟨0, ⟨true, []⟩, true⟩ := Option.some.inj (hp.symm.trans rfl)
    have hc : Function.update (Function.update (fun _ => none) 0 (some 0)) 0 (some 1) c = some p.id := hc
    rw [Function.update_idem, Function.update_apply, hp] at hc
    split at hc <;> cases hc

/-! ## The condition is exact -/

/-- Identities tell the stored proxies apart, and none is used again. -/
structure Ids (s : St Sig) : Prop where
  below : ∀ name p, s.clients name = some p → p.id < s.next
  distinct : ∀ name name' p p', s.clients name = some p → s.clients name' = some p' → p.id = p'.id → name = name'

omit [DecidableEq Sig] in
theorem clientProxy_id (s : St Sig) (name : String) (ty : ServiceT Sig) :
    (∃ p, s.clients name = some p ∧ (s.clientProxy name ty).id = p.id) ∨
      s.clients name = none ∧ (s.clientProxy name ty).id = s.next := by
  unfold St.clientProxy
  cases h : s.clients name with
  | none => exact .inr ⟨rfl, rfl⟩
  | some p => exact .inl ⟨p, rfl, rfl⟩

/-- A proxy stored after a connect call was stored before, or has the next identity. -/
theorem connectClient_from {name name' : String} {ty : ServiceT Sig} {caller : Caller Sig} {p : ClientProxy Sig}
    (h : (connectClient env s name ty caller).2.clients name' = some p) :
    (∃ q, s.clients name' = some q ∧ p.id = q.id) ∨ name' = name ∧ s.clients name = none ∧ p.id = s.next := by
  simp only [connectClient] at h
  by_cases hn : name' = name
  · subst hn
    rw [Function.update_self] at h
    cases h
    rw [ClientProxy.connect_id]
    rcases clientProxy_id s name' ty with h | h
    · exact .inl h
    · exact .inr ⟨rfl, h⟩
  · rw [Function.update_of_ne hn] at h
    exact .inl ⟨p, h, rfl⟩

theorem connectClient_ids {name : String} {ty : ServiceT Sig} {caller : Caller Sig} (h : Ids s) :
    Ids (connectClient env s name ty caller).2 := by
  constructor
  · intro name' p hp
    simp only [connectClient]
    rcases connectClient_from hp with ⟨q, hq, hi⟩ | ⟨-, hn, hi⟩
    · have := h.below name' q hq
      split <;> omega
    · rw [hn]
      simp only [Option.isSome_none, Bool.false_eq_true, if_false]
      omega
  · intro n n' p p' hp hp' hi
    rcases connectClient_from hp with ⟨q, hq, hqi⟩ | ⟨rfl, -, hqi⟩ <;>
      rcases connectClient_from hp' with ⟨q', hq', hqi'⟩ | ⟨rfl, -, hqi'⟩
    · exact h.distinct n n' q q' hq hq' (by omega)
    · have := h.below n q hq
      omega
    · have := h.below n' q' hq'
      omega
    · rfl

theorem step_ids (h : Ids s) (he : step env s e = some t) : Ids t := by
  cases e with
  | connect operation name type =>
    cases he
    obtain ⟨-, he⟩ | ⟨ty, caller, -, -, he⟩ | ⟨ty, o, -, -, -, he⟩ := connect_cases env s operation name type <;>
      rw [he]
    · exact h
    · exact connectClient_ids h
    · exact ⟨h.below, h.distinct⟩
  | disconnect name =>
    cases he
    have hk : ∀ {n p}, (disconnect s name).2.clients n = some p → s.clients n = some p := by
      intro n p hp
      simp only [disconnect, Function.update_apply] at hp
      split at hp
      · cases hp
      · exact hp
    exact ⟨fun n p hp => h.below n p (hk hp), fun n n' p p' hp hp' => h.distinct n n' p p' (hk hp) (hk hp')⟩
  | disconnectAll =>
    cases he
    exact ⟨nofun, nofun⟩
  | request name =>
    simp only [step] at he
    (repeat' split at he) <;> cases he
    exact ⟨h.below, h.distinct⟩
  | node present =>
    cases he
    exact ⟨h.below, h.distinct⟩

/-- A caller bound to a proxy that an event destroys dangles after it. -/
theorem destroying_dangles (h : Path (step env) Always init s) (hu : ¬ Unbound s e) (he : step env s e = some t) :
    ¬ NoneDangles t := by
  have hi : Ids s := h.invariant ⟨nofun, nofun⟩ fun _ _ _ hi _ he => step_ids hi he
  simp only [Unbound, not_forall, not_not] at hu
  obtain ⟨id, hd, c, hc⟩ := hu
  intro ht
  cases e with
  | disconnect name =>
    cases he
    obtain ⟨p, hp, rfl⟩ := hd
    obtain ⟨name', p', hp', hpi⟩ := ht c p.id hc
    simp only [disconnect, Function.update_apply] at hp'
    split at hp'
    · cases hp'
    · rename_i hn
      exact hn (hi.distinct name' name p' p hp' hp hpi)
  | disconnectAll =>
    cases he
    obtain ⟨name', p', hp', -⟩ := ht c id hc
    cases hp'
  | connect | request | node => exact hd

end RttRos2.Services
