/-
  RttRos2.Params.Store — properties stored into parameters (`storeProperty`), and loaded
  again.

  RTT's `update` makes a parameter value of the property with the typekit's conversion for
  its type: an `int` and a `float` are widened. For other types it may fail or throw, which
  is reported. Then it is `setParameter`.

  - `store_exact`: success and exceptions are those of `set_parameter`, once the property is
    converted. On success the parameter holds what the property holds; otherwise no parameter
    changed.
  - `configuration_restored`: properties, but floats, stored into parameters of different
    names, and loaded again after anything that leaves these parameters alone, in this thread
    and in others, are what they were.
-/

import RttRos2.Params.Load

namespace RttRos2.Params

open RttRos2.Lib RosParamService

variable {σ D : Type} {N : Node σ D} {s t : σ}

/-! ## The conversions -/

def boolToParameterValue : Bool → ParameterValue D := .bool

def intToParameterValue (i : Int32) : ParameterValue D := .integer i.toInt64

def int64ToParameterValue : Int64 → ParameterValue D := .integer

def doubleToParameterValue : D → ParameterValue D := .double

def stringToParameterValue : String → ParameterValue D := .string

def byteArrayToParameterValue : List UInt8 → ParameterValue D := .byteArray

def boolArrayToParameterValue : List Bool → ParameterValue D := .boolArray

def intArrayToParameterValue (l : List Int32) : ParameterValue D := .integerArray (l.map Int32.toInt64)

def int64ArrayToParameterValue : List Int64 → ParameterValue D := .integerArray

def doubleArrayToParameterValue : List D → ParameterValue D := .doubleArray

def stringArrayToParameterValue : List String → ParameterValue D := .stringArray

/-- `rclcpp::ParameterValue(float_value)` casts it. -/
def floatToParameterValue {F : Type} (toDouble : F → D) (x : F) : ParameterValue D := .double (toDouble x)

def floatArrayToParameterValue {F : Type} (toDouble : F → D) (l : List F) : ParameterValue D :=
  .doubleArray (l.map toDouble)

/-- `ParameterValueTypeInfo::installTypeInfoObject`: the conversion of each type. -/
def toParameterValue : (type : PropertyType) → type.Value D → ParameterValue D
  | .bool => boolToParameterValue
  | .int => intToParameterValue
  | .int64 => int64ToParameterValue
  | .double => doubleToParameterValue
  | .string => stringToParameterValue
  | .byteArray => byteArrayToParameterValue
  | .boolArray => boolArrayToParameterValue
  | .intArray => intArrayToParameterValue
  | .int64Array => int64ArrayToParameterValue
  | .doubleArray => doubleArrayToParameterValue
  | .stringArray => stringArrayToParameterValue

def Property.parameterValue (prop : Property D) : ParameterValue D := toParameterValue prop.type prop.value

theorem convert_toParameterValue (type : PropertyType) (x : type.Value D) :
    convert type (toParameterValue type x) = some x := by
  cases type with
  | int => exact congrArg some (Int32.toInt32_toInt64 x)
  | intArray =>
    show some ((x.map Int32.toInt64).map Int64.toInt32) = some x
    rw [List.map_map, show Int64.toInt32 ∘ Int32.toInt64 = id from funext Int32.toInt32_toInt64, List.map_id]
  | _ => rfl

theorem datum_parameterValue (prop : Property D) : prop.parameterValue.datum = some prop.datum := by
  obtain ⟨type, x⟩ := prop
  cases type with
  | int => exact congrArg (fun i => some (Datum.integer i)) (Int32.toInt_toInt64 x)
  | intArray =>
    show some (Datum.integers ((x.map Int32.toInt64).map Int64.toInt)) = some (Datum.integers (x.map Int32.toInt))
    rw [List.map_map, show Int64.toInt ∘ Int32.toInt64 = Int32.toInt from funext Int32.toInt_toInt64]
  | _ => rfl

theorem getType_parameterValue (prop : Property D) : prop.parameterValue.getType ≠ .notSet := by
  obtain ⟨type, x⟩ := prop
  cases type <;> exact fun h => by cases h

/-! ### Properties of any type -/

/-- `F` are the floats, `O` what the types hold that the typekit has no conversion for. -/
inductive AnyProperty (O F D : Type) where
  | listed (prop : Property D)
  | float (x : F)
  | floatArray (l : List F)
  | other (x : O)

/-- What `param_vds.update(property_bds)` does: it converts, returns false, or throws. -/
inductive Update (D : Type) where
  | converted (v : ParameterValue D)
  | failed
  | threw

/-- The cast of a float, and RTT's `update` for the types that it converts itself, or not. -/
structure Conversions (O F D : Type) where
  toDouble : F → D
  update : O → Update D

variable {O F : Type}

def Property.update (prop : Property D) : Update D := .converted prop.parameterValue

def AnyProperty.update (c : Conversions O F D) : AnyProperty O F D → Update D
  | .listed prop => prop.update
  | .float x => .converted (floatToParameterValue c.toDouble x)
  | .floatArray l => .converted (floatArrayToParameterValue c.toDouble l)
  | .other x => c.update x

/-- A float is the double that it is cast to. -/
def AnyProperty.datum (c : Conversions O F D) : AnyProperty O F D → Option (Datum D)
  | .listed prop => some prop.datum
  | .float x => some (.double (c.toDouble x))
  | .floatArray l => some (.doubles (l.map c.toDouble))
  | .other x =>
    match c.update x with
    | .converted v => v.datum
    | .failed | .threw => none

theorem AnyProperty.update_datum {c : Conversions O F D} {prop : AnyProperty O F D} {v : ParameterValue D}
    (h : prop.update c = .converted v) : v.datum = prop.datum c := by
  cases prop with
  | listed prop =>
    cases h
    exact datum_parameterValue prop
  | float x | floatArray l =>
    cases h
    rfl
  | other x =>
    have hx : c.update x = .converted v := h
    simp only [datum, hx]

/-! ## Storing -/

/-- `RosParamService::storeProperty`, of an owner with these properties. -/
def RosParamService.storeProperty {P : Type} (update : P → Update D) (node : Bool) (properties : String → Option P)
    (propertyName paramName : String) : M D (Except Exception Bool) :=
  match properties propertyName with
  | none => pure (.ok false)
  | some prop =>
    match update prop with
    | .converted v => setParameter node paramName v
    | .failed | .threw => pure (.ok false)

/-- It calls `set_parameter` with this value, which answers `r`. -/
def Asks (N : Node σ D) (s : σ) (c : Conversions O F D) (node : Bool) (properties : String → Option (AnyProperty O F D))
    (propertyName paramName : String) (r : Except Exception Bool) : Prop :=
  node = true ∧ ∃ prop v, properties propertyName = some prop ∧ prop.update c = .converted v ∧
    (N.setParameter s paramName v).1 = r

/-- What is answered follows from what `set_parameter` answers. On success the parameter holds
    what the property holds, and no other changed; otherwise none did. -/
structure Stores (N : Node σ D) (s : σ) (c : Conversions O F D) (node : Bool)
    (properties : String → Option (AnyProperty O F D)) (propertyName paramName : String)
    (out : Except Exception Bool × σ) : Prop where
  true_iff : out.1 = .ok true ↔ Asks N s c node properties propertyName paramName (.ok true)
  error_iff : ∀ e, out.1 = .error e ↔
    e ≠ .parameterNotDeclared ∧ Asks N s c node properties propertyName paramName (.error e)
  success : out.1 = .ok true → ∃ prop, properties propertyName = some prop ∧
    (N.value out.2 paramName).datum = prop.datum c ∧
    ∀ other, other ≠ paramName → N.parameters out.2 other = N.parameters s other
  failure : out.1 ≠ .ok true → N.parameters out.2 = N.parameters s

theorem updated_ok_true_iff {r : Except Exception Bool} : updated r = .ok true ↔ r = .ok true := by
  constructor
  · exact updated_true
  · rintro rfl
    rfl

theorem updated_error_iff {r : Except Exception Bool} {e : Exception} :
    updated r = .error e ↔ e ≠ .parameterNotDeclared ∧ r = .error e := by
  constructor
  · intro h
    unfold updated at h
    split at h
    · cases h
    · cases h
    · rename_i hne
      cases h
      exact ⟨fun he => hne (he ▸ rfl), rfl⟩
  · rintro ⟨hne, rfl⟩
    exact updated_error hne

theorem store_exact (N : Node σ D) (hN : N.Documented) (s : σ) (c : Conversions O F D) (node : Bool)
    (properties : String → Option (AnyProperty O F D)) (propertyName paramName : String) :
    Stores N s c node properties propertyName paramName
      ((storeProperty (AnyProperty.update c) node properties propertyName paramName).eval N.sem s) := by
  have hfalse : (∀ r, ¬ Asks N s c node properties propertyName paramName r) →
      Stores N s c node properties propertyName paramName (.ok false, s) := by
    intro hasks
    refine ⟨iff_of_false (fun h => ?_) (hasks _), fun e => iff_of_false (fun h => ?_) fun h => hasks _ h.2,
      fun h => ?_, fun _ => rfl⟩ <;> cases h
  unfold storeProperty
  cases hprop : properties propertyName with
  | none =>
    refine hfalse fun r ⟨_, prop, v, hp, _⟩ => ?_
    rw [hprop] at hp
    cases hp
  | some prop =>
    cases hupdate : prop.update c with
    | failed | threw =>
      simp only [hupdate]
      refine hfalse fun r ⟨_, prop', v, hp, hv, _⟩ => ?_
      rw [hprop] at hp
      cases hp
      rw [hupdate] at hv
      cases hv
    | converted v =>
      have hasks : ∀ r, Asks N s c node properties propertyName paramName r ↔
          node = true ∧ (N.setParameter s paramName v).1 = r := by
        intro r
        simp only [Asks, hprop, Option.some.injEq]
        constructor
        · rintro ⟨hnode, prop', v', rfl, hv, hr⟩
          rw [hupdate] at hv
          cases hv
          exact ⟨hnode, hr⟩
        · rintro ⟨hnode, hr⟩
          exact ⟨hnode, prop, v, rfl, hupdate, hr⟩
      simp only [hupdate]
      cases node with
      | false => exact hfalse fun r h => absurd ((hasks r).mp h).1 (by decide)
      | true =>
        have heval : (setParameter true paramName v).eval N.sem s =
          (updated (N.setParameter s paramName v).1, (N.setParameter s paramName v).2) := rfl
        rw [heval]
        refine ⟨?_, fun e => ?_, fun h => ?_, fun h => ?_⟩
        · rw [updated_ok_true_iff, hasks, and_iff_right rfl]
        · rw [updated_error_iff, hasks, and_iff_right rfl]
        · obtain ⟨hvalue, hother⟩ := hN.set_stores s paramName v (updated_true h)
          refine ⟨prop, hprop, ?_, hother⟩
          show (N.value _ paramName).datum = _
          rw [hvalue, AnyProperty.update_datum hupdate]
        · exact hN.set_unchanged s paramName v fun hr => h (updated_ok_true_iff.mpr hr)

/-- No other type is converted. -/
def noOther : Conversions Unit Int Int := ⟨id, fun _ => .failed⟩

/-- `Params.speed`, and a property that is not converted. -/
def speedAndOther (name : String) : Option (AnyProperty Unit Int Int) :=
  if name = "other" then some (.other ()) else (speed name).map .listed

theorem store_exact_speed :
    ((storeProperty (AnyProperty.update noOther) true speedAndOther "other" "speed").eval (Table.node Int).sem large).1 =
      .ok false ∧
    ((storeProperty (AnyProperty.update noOther) true speedAndOther "speed" "speed").eval (Table.node Int).sem large).1 =
      .ok true ∧
    Stores (Table.node Int) large noOther true speedAndOther "speed" "speed"
      ((storeProperty (AnyProperty.update noOther) true speedAndOther "speed" "speed").eval (Table.node Int).sem large) :=
  ⟨rfl, rfl, store_exact (Table.node Int) Table.documented large noOther true speedAndOther "speed" "speed"⟩

/-! ## Storing and loading -/

/-- The call writes none of these parameters. -/
def Leaves (params : List String) : Call D → Prop
  | .hasParameter _ | .getParameter _ => True
  | .declareParameter name _ | .setParameter name _ => name ∉ params

/-- Other threads leave these parameters alone. -/
def Node.leaving (N : Node σ D) (params : List String) : Setting (Call D) Call.Res σ where
  sem := N.sem
  rely s t := ∀ q ∈ params, N.value t q = N.value s q
  ok _ _ := True
  rely_refl _ _ _ := rfl
  rely_trans h h' q hq := (h' q hq).trans (h q hq)

/-- Properties stored one after the other, until one cannot be. -/
def storeAll (properties : Properties D) : List (String × String) → M D Bool
  | [] => pure true
  | (propertyName, paramName) :: rest => do
    match ← storeProperty Property.update true properties propertyName paramName with
    | .ok true => storeAll properties rest
    | _ => pure false

/-- And loaded. -/
def loadAll : List (String × String) → Properties D → M D (Bool × Properties D)
  | [], properties => pure (true, properties)
  | (propertyName, paramName) :: rest, properties => do
    match ← loadProperty true (some properties) propertyName paramName with
    | (true, some properties) => loadAll rest properties
    | _ => pure (false, properties)

variable {params : List String} {properties : Properties D}

theorem leaves_call (hN : N.Documented) {c : Call D} (h : Leaves params c) (s : σ) :
    ∀ q ∈ params, N.value (N.sem c s).2 q = N.value s q := by
  intro q hq
  cases c with
  | hasParameter name | getParameter name => rfl
  | declareParameter name v =>
    have hne : q ≠ name := fun he => h (he ▸ hq)
    show N.value (N.declareParameter s name v).2 q = _
    unfold Node.value
    cases hr : (N.declareParameter s name v).1 with
    | error e => rw [hN.declare_unchanged s name v e hr]
    | ok r => rw [hN.declare_stores s name v r hr, Function.update_of_ne hne]
  | setParameter name v =>
    have hne : q ≠ name := fun he => h (he ▸ hq)
    show N.value (N.setParameter s name v).2 q = _
    unfold Node.value
    by_cases hr : (N.setParameter s name v).1 = .ok true
    · rw [(hN.set_stores s name v hr).2 q hne]
    · rw [hN.set_unchanged s name v hr]

/-- A program that writes none of them leaves them as they were. -/
theorem wp_leaves {α : Type} {kept : List String} (hN : N.Documented) (hkept : kept ⊆ params) {m : M D α}
    (hm : m.Only (Leaves kept)) (s : σ) :
    wp (N.leaving params) m (fun _ t => ∀ q ∈ kept, N.value t q = N.value s q) s := by
  induction m generalizing s with
  | ret a => exact fun t ht q hq => ht q (hkept hq)
  | call c k ih =>
    intro t ht _
    refine wp_mono (ih _ (hm.2 _) _) fun _ u hu q hq => ?_
    calc N.value u q = N.value (N.sem c t).2 q := hu q hq
      _ = N.value t q := leaves_call hN hm.1 t q hq
      _ = N.value s q := ht q (hkept hq)

/-! ### One property -/

theorem only_storeProperty {propertyName paramName : String} (h : paramName ∉ params) :
    (storeProperty Property.update true properties propertyName paramName).Only (Leaves params) := by
  unfold storeProperty
  split
  · trivial
  · exact only_perform h fun _ => trivial

/-- The parameter holds the property. -/
def Holds (N : Node σ D) (properties : Properties D) (s : σ) (pair : String × String) : Prop :=
  ∃ prop, properties pair.1 = some prop ∧ N.value s pair.2 = prop.parameterValue

theorem wp_storeProperty (hN : N.Documented) {propertyName paramName : String} (hparam : paramName ∈ params) :
    wp (N.leaving params) (storeProperty Property.update true properties propertyName paramName)
      (fun r t => r = .ok true → Holds N properties t (propertyName, paramName)) s := by
  unfold storeProperty
  cases hprop : properties propertyName with
  | none =>
    intro t _ h
    cases h
  | some prop =>
    intro t _ _ u hu h
    have hset := hN.set_stores t paramName prop.parameterValue (updated_true h)
    exact ⟨prop, hprop, (hu paramName hparam).trans hset.1⟩

theorem loadValue_parameterValue {properties : Properties D} {propertyName : String} {prop old : Property D}
    (hold : properties propertyName = some old) (htype : old.type = prop.type) :
    loadValue (some properties) propertyName prop.parameterValue =
      (true, some (Function.update properties propertyName (some prop))) := by
  obtain ⟨type, x⟩ := prop
  obtain rfl : old.type = type := htype
  rw [loadValue, if_neg (getType_parameterValue _)]
  simp only [updateProperty, hold, Property.parameterValue, convert_toParameterValue]

/-! ### A configuration -/

theorem only_storeAll {pairs : List (String × String)} (h : ∀ pair ∈ pairs, pair.2 ∉ params) :
    (storeAll properties pairs).Only (Leaves params) := by
  induction pairs with
  | nil => trivial
  | cons pair rest ih =>
    refine only_bind (only_storeProperty (h pair (.head _))) fun r => ?_
    split
    · exact ih fun pair hp => h pair (.tail _ hp)
    · trivial

theorem wp_storeAll (hN : N.Documented) {pairs : List (String × String)} (hnodup : (pairs.map Prod.snd).Nodup)
    (hparams : ∀ pair ∈ pairs, pair.2 ∈ params) (s : σ) :
    wp (N.leaving params) (storeAll properties pairs)
      (fun r t => r = true → ∀ pair ∈ pairs, Holds N properties t pair) s := by
  induction pairs generalizing s with
  | nil => exact fun t _ _ => List.forall_mem_nil _
  | cons pair rest ih =>
    obtain ⟨propertyName, paramName⟩ := pair
    obtain ⟨hnot, hnodup⟩ := List.nodup_cons.mp hnodup
    have hparam := hparams _ (.head _)
    refine wp_bind (wp_mono (wp_storeProperty hN hparam) fun r t ht => ?_)
    split
    · -- the rest is stored into other parameters
      have hkept : (storeAll properties rest).Only (Leaves [paramName]) := only_storeAll fun pair hp hq =>
        hnot (List.mem_map.mpr ⟨pair, hp, List.mem_singleton.mp hq⟩)
      have hrest := ih hnodup (fun pair hp => hparams pair (.tail _ hp)) t
      refine wp_mono (wp_and hrest (wp_leaves hN (by simpa using hparam) hkept t)) fun r u hu hr => ?_
      obtain ⟨prop, hprop, hvalue⟩ := ht rfl
      refine List.forall_mem_cons.mpr ⟨⟨prop, hprop, ?_⟩, hu.1 hr⟩
      exact (hu.2 paramName (List.mem_singleton.mpr rfl)).trans hvalue
    · intro u _ h
      cases h

/-- The properties of the list, the others as they are. -/
def restored (properties current : Properties D) (pairs : List (String × String)) : Properties D :=
  fun name => if name ∈ pairs.map Prod.fst then properties name else current name

theorem restored_cons (properties current : Properties D) (pair : String × String) (pairs : List (String × String)) :
    restored properties (Function.update current pair.1 (properties pair.1)) pairs =
      restored properties current (pair :: pairs) := by
  funext name
  by_cases hname : name = pair.1
  · subst hname
    simp [restored]
  · simp only [restored, Function.update_of_ne hname, List.map_cons, List.mem_cons, hname, false_or]

/-- The properties are of the types of those that were stored. -/
def SameTypes (properties current : Properties D) (pairs : List (String × String)) : Prop :=
  ∀ pair ∈ pairs, (current pair.1).map Property.type = (properties pair.1).map Property.type

theorem wp_loadProperty {pair : String × String} (hparam : pair.2 ∈ params) {current : Properties D}
    (htype : (current pair.1).map Property.type = (properties pair.1).map Property.type)
    (h : Holds N properties s pair) :
    wp (N.leaving params) (loadProperty true (some current) pair.1 pair.2)
      (fun r t => r = (true, some (Function.update current pair.1 (properties pair.1))) ∧
        ∀ q ∈ params, N.value t q = N.value s q) s := by
  obtain ⟨prop, hprop, hvalue⟩ := h
  rw [hprop] at htype ⊢
  obtain ⟨old, hold, htype⟩ := Option.map_eq_some_iff.mp htype
  intro t ht _ u hu
  have hread : N.value t pair.2 = prop.parameterValue := (ht pair.2 hparam).trans hvalue
  refine ⟨?_, fun q hq => (hu q hq).trans (ht q hq)⟩
  show loadValue (some current) pair.1 (N.value t pair.2) = _
  rw [hread, loadValue_parameterValue hold htype]

theorem wp_loadAll {pairs : List (String × String)} (hparams : ∀ pair ∈ pairs, pair.2 ∈ params)
    {current : Properties D} (htypes : SameTypes properties current pairs)
    (h : ∀ pair ∈ pairs, Holds N properties s pair) :
    wp (N.leaving params) (loadAll pairs current) (fun r _ => r = (true, restored properties current pairs)) s := by
  induction pairs generalizing s current with
  | nil => exact fun _ _ => rfl
  | cons pair rest ih =>
    have hparam := hparams pair (.head _)
    refine wp_bind (wp_mono (wp_loadProperty hparam (htypes pair (.head _)) (h pair (.head _))) fun r t hr => ?_)
    obtain ⟨rfl, ht⟩ := hr
    rw [← restored_cons]
    refine ih (fun pair hp => hparams pair (.tail _ hp)) (fun other hp => ?_) fun other hp => ?_
    · -- the property just loaded has the type of the one stored
      by_cases hname : other.1 = pair.1
      · rw [hname, Function.update_self]
      · rw [Function.update_of_ne hname]
        exact htypes other (.tail _ hp)
    · obtain ⟨prop, hprop, hvalue⟩ := h other (.tail _ hp)
      exact ⟨prop, hprop, (ht other.2 (hparams other (.tail _ hp))).trans hvalue⟩

theorem configuration_restored (N : Node σ D) (hN : N.Documented) (s : σ) (properties current : Properties D)
    (pairs : List (String × String)) (hparams : (pairs.map Prod.snd).Nodup)
    (htypes : SameTypes properties current pairs) {α : Type} (others : M D α)
    (hothers : others.Only (Leaves (pairs.map Prod.snd))) :
    wp (N.leaving (pairs.map Prod.snd))
      (do let stored ← storeAll properties pairs
          let _ ← others
          let loaded ← loadAll pairs current
          pure (stored, loaded))
      (fun r _ => r.1 = true → r.2 = (true, restored properties current pairs)) s := by
  have hmem : ∀ pair ∈ pairs, pair.2 ∈ pairs.map Prod.snd := fun pair hp => List.mem_map_of_mem hp
  refine wp_bind (wp_mono (wp_storeAll hN hparams hmem s) fun stored t ht => ?_)
  refine wp_bind (wp_mono (wp_leaves hN (List.Subset.refl _) hothers t) fun _ u hu => ?_)
  cases stored with
  | false =>
    refine wp_bind (wp_trivial fun loaded v _ _ h => ?_)
    cases h
  | true =>
    have hholds : ∀ pair ∈ pairs, Holds N properties u pair := by
      intro pair hp
      obtain ⟨prop, hprop, hvalue⟩ := ht rfl pair hp
      exact ⟨prop, hprop, (hu pair.2 (hmem pair hp)).trans hvalue⟩
    refine wp_bind (wp_mono (wp_loadAll hmem htypes hholds) fun loaded v hv => ?_)
    exact fun _ _ _ => hv

/-- The speed is 9 when it is loaded again. -/
def faster : Properties Int := fun name => if name = "speed" then some ⟨.int, 9⟩ else none

theorem configuration_restored_speed :
    ((storeAll speed [("speed", "speed")]).eval (Table.node Int).sem large).1 = true ∧
    wp ((Table.node Int).leaving ["speed"])
      (do let stored ← storeAll speed [("speed", "speed")]
          let _ ← Call.set "rate" (.integer 2)
          let loaded ← loadAll [("speed", "speed")] faster
          pure (stored, loaded))
      (fun r _ => r.1 = true → r.2 = (true, restored speed faster [("speed", "speed")])) large :=
  ⟨rfl, configuration_restored (Table.node Int) Table.documented large speed faster [("speed", "speed")] (by decide)
    (fun pair hp => by rw [List.mem_singleton.mp hp]; rfl) (Call.set "rate" (.integer 2))
    ⟨show "rate" ∉ ["speed"] by decide, fun _ => trivial⟩⟩

end RttRos2.Params
