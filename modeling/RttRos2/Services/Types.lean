/-
  RttRos2.Services.Types — the service type a connect call is made for.

  Proxies are stored by service name, and a stored one is used whatever type the call
  asks for; the type is looked at only when a proxy is created. An operation whose
  signature two types accept is connected to a service of the wrong one, and the call
  returns true (`reused_proxy_type`). In any sequence of calls every successful connect
  provides the type it was asked for exactly if no call is about to connect a stored
  proxy of another type that accepts the operation (`connects_provide`).
-/

import RttRos2.Services.Service

namespace RttRos2.Services

open RttRos2.Lib

variable {Sig : Type} [DecidableEq Sig]

/-- The type of the proxy stored for the name, in the map that a connect call for the
    operation uses. -/
def storedType (env : Env Sig) (s : St Sig) (operation name : String) : Option (ServiceT Sig) :=
  if (env.getOwnerOperationCaller operation).isSome then (s.clients name).map ClientProxy.type
  else (s.servers name).map ServerProxy.type

/-- A connect call that returns true leaves a proxy of the type it was given. -/
def Provides (env : Env Sig) (s : St Sig) : Ev → Prop
  | .connect operation name type =>
    (connect env s operation name type).1 = .returned true →
      storedType env (connect env s operation name type).2 operation name = env.registry type
  | _ => True

/-- A proxy of the type takes what the owner has under that name. -/
def accepts (env : Env Sig) (operation : String) (type : ServiceT Sig) : Bool :=
  match env.getOwnerOperationCaller operation with
  | some caller => caller.signature = type.signature
  | none => (env.getOwnerOperation operation).any fun operation => (type.connect operation).isSome

/-- The stored proxy is of the requested type, when it is there and can be connected. -/
def Agrees (env : Env Sig) (s : St Sig) : Ev → Prop
  | .connect operation name type =>
    s.node = true → env.validName name = true → ∀ ty ∈ env.registry type,
      ∀ used ∈ storedType env s operation name, accepts env operation used = true → used = ty
  | _ => True

/-- "Empty" and "Trigger" both take an operation of signature `none`. -/
def twoTypes : Env (Option Bool) where
  registry type :=
    if type = "Empty" then some ⟨some true, [none]⟩ else if type = "Trigger" then some ⟨some false, [none]⟩ else none
  split name := [name]
  callers := ⟨Unit, (), fun _ _ => none, fun _ _ => none⟩
  operations := ⟨Unit, (), fun _ _ => none, fun _ name => if name = "a" then some ⟨0, none⟩ else none⟩
  validName _ := true

theorem reused_proxy_type : ¬ Along (step twoTypes) (Provides twoTypes) init
    [.node true, .connect "a" "/service" "Empty", .connect "a" "/service" "Trigger"] := by
  intro h
  have hp := (((h.2 _ rfl).2 _ rfl).1 rfl)
  cases hp

variable {env : Env Sig} {s : St Sig}

section
variable {operation name : String} {ty : ServiceT Sig}

theorem connectClient_provides {caller : Caller Sig} (hc : env.getOwnerOperationCaller operation = some caller) :
    ((connectClient env s name ty caller).1 = .returned true →
      storedType env (connectClient env s name ty caller).2 operation name = some ty) ↔
    (s.node = true → env.validName name = true →
      ∀ used ∈ storedType env s operation name, accepts env operation used = true → used = ty) := by
  have hr := (s.clientProxy name ty).connect_returns_true s.node (env.validName name) caller s.bound
  have ht := (s.clientProxy name ty).connect_type s.node (env.validName name) caller s.bound
  simp only [storedType, accepts, connectClient, hc, Option.isSome_some, if_true, Function.update_self,
    Option.map_some, hr, ht]
  unfold St.clientProxy
  cases s.clients name with
  | none => simp [ClientProxy.create]
  | some p => simp

theorem connectServer_provides {o : Operation Sig} (hc : env.getOwnerOperationCaller operation = none)
    (ho : env.getOwnerOperation operation = some o) :
    ((connectServer env s name ty o).1 = .returned true →
      storedType env (connectServer env s name ty o).2 operation name = some ty) ↔
    (s.node = true → env.validName name = true →
      ∀ used ∈ storedType env s operation name, accepts env operation used = true → used = ty) := by
  have hr := (s.serverProxy name ty).connect_returns_true s.node (env.validName name) o
  have ht := (s.serverProxy name ty).connect_type s.node (env.validName name) o
  simp only [storedType, accepts, connectServer, hc, ho, Option.isSome_none, Bool.false_eq_true, if_false,
    Function.update_self, Option.map_some, Option.any_some, hr, ht]
  unfold St.serverProxy
  cases s.servers name with
  | none => simp [ServerProxy.create]
  | some p => simp

end

theorem provides_iff (e : Ev) : Provides env s e ↔ Agrees env s e := by
  cases e with
  | connect operation name type =>
    simp only [Provides, Agrees]
    obtain ⟨hn, he⟩ | ⟨ty, caller, ht, hc, he⟩ | ⟨ty, o, ht, hc, ho, he⟩ := connect_cases env s operation name type <;>
      rw [he]
    · rcases hn with hn | ⟨hc, ho⟩
      · simp [hn]
      · simp [accepts, hc, ho]
    · simpa [ht] using connectClient_provides hc
    · simpa [ht] using connectServer_provides hc ho
  | disconnect | disconnectAll | request | node => exact Iff.rfl

theorem connects_provide (s : St Sig) (es : List Ev) :
    Along (step env) (Provides env) s es ↔ Along (step env) (Agrees env) s es :=
  along_congr (fun _ e => provides_iff e) s es

end RttRos2.Services
