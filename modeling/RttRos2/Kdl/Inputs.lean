/-
  RttRos2.Kdl.Inputs — a composition that succeeds should have used its whole input.

  `composeProperty` of a frame looks at what the composers of its parts return. Those of a
  segment, a chain, a joint array and a Jacobian do not: a component that cannot be read
  stays at its default, and the result is true (`unreadable_is_default`). A segment also
  leaves out the joints and frames behind the first, a Jacobian what is behind the last
  full row.

  `input_used_iff`: a container is read from its whole input exactly when the bags that the
  composer accepts (`Accepted`: the right type name, and items that are there and ready)
  hold nothing that cannot be read and nothing that is left out, at any depth (`Whole`).
-/

import RttRos2.Kdl.Arrays
import RttRos2.Kdl.Chain

namespace RttRos2.Kdl

open RttRos2.Lib

variable {D T : Type}

/-- Where `compose` succeeds, its result was read from all of the bag. -/
def UsesInput (Used : PropertyBag D → T → Prop) (compose : PropertyBag D → T → Bool × T) (bag : PropertyBag D)
    (target : T) : Prop :=
  (compose bag target).1 = true → Used bag (compose bag target).2

theorem usesInput_iff {Used : PropertyBag D → T → Prop} {compose : PropertyBag D → T → Bool × T}
    {bag : PropertyBag D} {composed : Option T} {Accepted Whole : Prop} (hcompose : compose bag = put composed)
    (haccepted : composed.isSome ↔ Accepted) (hwhole : ∀ out, composed = some out → (Used bag out ↔ Whole))
    (target : T) : UsesInput Used compose bag target ↔ (Accepted → Whole) := by
  unfold UsesInput
  rw [hcompose, ← haccepted]
  cases hc : composed with
  | none => simp
  | some out => simp [hwhole out hc]

/-! ## Segment -/

theorem Joint.composeProperty_fst [Zero D] [One D] (bag : PropertyBag D) (joint : Joint D) :
    (composeProperty bag joint).1 = true ↔ (read bag).isSome := by
  rw [composeProperty_eq_put]
  cases read bag <;> simp

/-- The bag has a vector `p` and a rotation `M`. -/
def Frame.Readable (kdl : Library D) (bag : PropertyBag D) : Prop := ∃ p M, parts kdl bag = some (some p, some M)

theorem Frame.composeProperty_fst (kdl : Library D) (bag : PropertyBag D) (f : Frame D) :
    (composeProperty kdl bag f).1 = true ↔ Readable kdl bag := by
  rw [composeProperty_eq_fillParts]
  constructor
  · intro h
    obtain ⟨p, M, hparts, -⟩ := fillParts_eq_true_iff.mp (Prod.ext h rfl)
    exact ⟨p, M, hparts⟩
  · rintro ⟨p, M, hparts⟩
    rw [fillParts_eq_true_iff.mpr ⟨p, M, hparts, rfl⟩]

/-- The bags of that name. A lookup finds the first. -/
def PropertyBag.bags (bag : PropertyBag D) (name : String) : List (PropertyBag D) :=
  bag.properties.filterMap fun p => if p.name = name then p.value.asBag else none

theorem PropertyBag.head?_bags (bag : PropertyBag D) (name : String) :
    (bag.bags name).head? = bag.getPropertyType Value.asBag name := List.head?_filterMap

theorem PropertyBag.isSome_of_bags {bag b : PropertyBag D} {name : String} (h : bag.bags name = [b]) :
    (bag.getPropertyType Value.asBag name).isSome := by
  rw [← bag.head?_bags name, h]
  rfl

/-- Where there is one bag of a name, it is the one that is found. -/
theorem PropertyBag.exists_bags_iff {bag found : PropertyBag D} {name : String} {P : PropertyBag D → Prop}
    (h : bag.getPropertyType Value.asBag name = some found) :
    (∃ b, bag.bags name = [b] ∧ P b) ↔ bag.bags name = [found] ∧ P found := by
  have hhead : (bag.bags name).head? = some found := (bag.head?_bags name).trans h
  constructor
  · rintro ⟨b, hb, hP⟩
    rw [hb] at hhead
    cases hhead
    exact ⟨hb, hP⟩
  · exact fun hfound => ⟨found, hfound⟩

namespace Segment

/-- The bag has one joint and one frame, and they are those of the segment. -/
def Used [Zero D] [One D] (kdl : Library D) (bag : PropertyBag D) (segment : Segment D) : Prop :=
  (∃ joint, bag.bags "joint" = [joint] ∧
    Joint.composeProperty joint (Joint.ofType .none) = (true, segment.joint)) ∧
  ∃ frame, bag.bags "frame" = [frame] ∧
    Frame.composeProperty kdl frame Frame.identity = (true, segment.frameToTip)

def Accepted (bag : PropertyBag D) : Prop :=
  bag.type = "KDL.Segment" ∧ (bag.getPropertyType Value.asBag "joint").isSome ∧
    (bag.getPropertyType Value.asBag "frame").isSome

/-- One joint and one frame, which can be read. -/
def Whole (kdl : Library D) (bag : PropertyBag D) : Prop :=
  bag.type = "KDL.Segment" ∧ (∃ joint, bag.bags "joint" = [joint] ∧ (Joint.read joint).isSome) ∧
    ∃ frame, bag.bags "frame" = [frame] ∧ Frame.Readable kdl frame

variable {kdl : Library D} {bag : PropertyBag D} {segment : Segment D}

theorem Whole.accepted (h : Whole kdl bag) : Accepted bag := by
  obtain ⟨htype, ⟨joint, hjoint, -⟩, ⟨frame, hframe, -⟩⟩ := h
  exact ⟨htype, PropertyBag.isSome_of_bags hjoint, PropertyBag.isSome_of_bags hframe⟩

variable [Zero D] [One D]

theorem isSome_composed : (composed kdl bag).isSome ↔ Accepted bag := by
  unfold composed Accepted
  split
  · rename_i htype
    cases bag.getPropertyType Value.asBag "joint" <;> cases bag.getPropertyType Value.asBag "frame" <;> simp [htype]
  · rename_i htype
    simp [htype]

theorem used_iff (h : composed kdl bag = some segment) : Used kdl bag segment ↔ Whole kdl bag := by
  unfold composed at h
  split at h
  · rename_i htype
    obtain ⟨joint, hjoint, h⟩ := Option.bind_eq_some_iff.mp h
    obtain ⟨frame, hframe, h⟩ := Option.bind_eq_some_iff.mp h
    obtain rfl := Option.some.inj h
    unfold Used Whole
    rw [PropertyBag.exists_bags_iff hjoint, PropertyBag.exists_bags_iff hframe, PropertyBag.exists_bags_iff hjoint,
      PropertyBag.exists_bags_iff hframe, and_iff_right htype]
    simp [Prod.ext_iff, Joint.composeProperty_fst, Frame.composeProperty_fst]
  · cases h

end Segment

/-! ## Chain -/

namespace Chain

variable [Zero D] [One D] {kdl : Library D}

/-- Every item is a bag of a segment that is read, from all of it, as the segment at its place. -/
def Used (kdl : Library D) (bag : PropertyBag D) (chain : Chain D) : Prop :=
  List.Forall₂ (fun item segment => ∃ b, item.value = .bag b ∧
    Segment.composeProperty kdl b Segment.default = (true, segment) ∧ Segment.Used kdl b segment) bag.properties chain

def Accepted (bag : PropertyBag D) : Prop := bag.type = "KDL.Chain" ∧ ∀ item ∈ bag.properties, item.value.ready = true

def Whole (kdl : Library D) (bag : PropertyBag D) : Prop :=
  ∀ item ∈ bag.properties, ∃ b, item.value = .bag b ∧ Segment.Whole kdl b

/-- What is added to the chain for an item. -/
def segmentOf (kdl : Library D) (item : Property (Value D)) : Segment D :=
  (composeType (Segment.composeProperty kdl) item.value Segment.default).2

theorem composeSegments_eq (kdl : Library D) (items : List (Property (Value D))) (chainNew : Chain D) :
    composeSegments kdl items chainNew =
      if ∀ item ∈ items, item.value.ready = true then some (chainNew ++ items.map (segmentOf kdl)) else none := by
  induction items generalizing chainNew with
  | nil => simp [composeSegments]
  | cons item items ih =>
    simp only [composeSegments, ih]
    by_cases h : item.value.ready = true <;> simp [h, segmentOf]

/-- A segment is read from all of its bag when the bag holds nothing that cannot be read. -/
theorem segmentOf_used_iff (item : Property (Value D)) :
    (∃ b, item.value = .bag b ∧ Segment.composeProperty kdl b Segment.default = (true, segmentOf kdl item) ∧
      Segment.Used kdl b (segmentOf kdl item)) ↔ ∃ b, item.value = .bag b ∧ Segment.Whole kdl b := by
  refine exists_congr fun b => and_congr_right fun hb => ?_
  have hof : segmentOf kdl item = (Segment.composeProperty kdl b Segment.default).2 := by
    simp [segmentOf, hb, composeType, Value.asBag]
  rw [hof, Segment.composeProperty_eq_put]
  constructor
  · rintro ⟨htrue, hused⟩
    exact (Segment.used_iff (put_eq_true_iff.mp htrue)).mp hused
  · intro hwhole
    obtain ⟨segment, hsegment⟩ := Option.isSome_iff_exists.mp (Segment.isSome_composed.mpr hwhole.accepted)
    rw [hsegment]
    exact ⟨rfl, (Segment.used_iff hsegment).mpr hwhole⟩

theorem isSome_composed {bag : PropertyBag D} : (composed kdl bag).isSome ↔ Accepted bag := by
  simp only [composed, composeSegments_eq, Accepted]
  split
  · rename_i htype
    split
    · rename_i hready
      exact iff_of_true rfl ⟨htype, hready⟩
    · rename_i hready
      exact iff_of_false Bool.false_ne_true fun h => hready h.2
  · rename_i htype
    simp [htype]

theorem used_iff {bag : PropertyBag D} {chain : Chain D} (h : composed kdl bag = some chain) :
    Used kdl bag chain ↔ Whole kdl bag := by
  unfold composed at h
  rw [composeSegments_eq] at h
  split at h
  · split at h
    · obtain rfl := Option.some.inj h
      unfold Used Whole
      rw [List.nil_append, List.forall₂_map_right_iff, List.forall₂_same]
      exact forall₂_congr fun item _ => segmentOf_used_iff item
    · cases h
  · cases h

end Chain

/-! ## The elements of an array -/

/-- Only doubles. -/
def Doubles (items : List (Property (Value D))) : Prop := ∀ item ∈ items, ∃ d, item.value = .double d

section
variable {items : List (Property (Value D))} {k : Nat}

section
variable [Zero D]

theorem isSome_element_iff :
    ((items[k]?).bind composeElement).isSome ↔ ∃ item, items[k]? = some item ∧ item.value.ready = true := by
  rcases items[k]? with _ | item
  · simp
  · by_cases h : item.value.ready = true <;> simp [composeElement, h]

/-- An element is used when it is a double. -/
theorem element_used_iff {d : D} (h : (items[k]?).bind composeElement = some d) :
    (∃ item, items[k]? = some item ∧ composeDouble item.value 0 = (true, d)) ↔
      ∃ item, items[k]? = some item ∧ ∃ d', item.value = .double d' := by
  refine exists_congr fun item => and_congr_right fun hitem => ?_
  rw [hitem, Option.bind_some] at h
  unfold composeElement at h
  split at h
  · rw [← Option.some.inj h]
    cases item.value <;> simp [composeDouble, Value.asDouble]
  · cases h

end

/-- The elements `i` are at the places below `n`. -/
structure Places {I : Type} (place : I → Nat) (n : Nat) : Prop where
  lt : ∀ i, place i < n
  exists_index : ∀ k, k < n → ∃ i, place i = k

variable {I : Type} {place : I → Nat} {n : Nat}

theorem Places.forall_item_iff (h : Places place n) (hn : n ≤ items.length) (P : Property (Value D) → Prop) :
    (∀ i, ∃ item, items[place i]? = some item ∧ P item) ↔ ∀ item ∈ items.take n, P item := by
  constructor
  · intro hall item hitem
    obtain ⟨k, hk, hget⟩ := List.mem_iff_getElem.mp hitem
    rw [List.length_take, Nat.min_eq_left hn] at hk
    obtain ⟨i, rfl⟩ := h.exists_index k hk
    obtain ⟨item', hitem', hP⟩ := hall i
    rw [List.getElem_take] at hget
    rw [List.getElem?_eq_getElem (Nat.lt_of_lt_of_le hk hn), hget] at hitem'
    cases hitem'
    exact hP
  · intro hall i
    have hi := h.lt i
    refine ⟨items[place i], List.getElem?_eq_getElem _, hall _ ?_⟩
    exact List.mem_iff_getElem.mpr ⟨place i, by rw [List.length_take]; omega, List.getElem_take⟩

variable [Zero D] [DecidableEq I] {is : List I} {data out : I → D}

/-- A loop over the elements goes to the end when the items are ready. -/
theorem Places.isSome_fillEach_iff (h : Places place n) (hn : n ≤ items.length) (hall : ∀ i, i ∈ is) :
    (fillEach (fun i => (items[place i]?).bind composeElement) is data).isSome ↔
      ∀ item ∈ items.take n, item.value.ready = true := by
  rw [Lib.isSome_fillEach_iff hall, ← h.forall_item_iff hn]
  exact forall_congr' fun i => isSome_element_iff

/-- It uses them when they are doubles. -/
theorem Places.used_iff (h : Places place n) (hn : n ≤ items.length) (hall : ∀ i, i ∈ is)
    (hout : fillEach (fun i => (items[place i]?).bind composeElement) is data = some out) :
    (∀ i, ∃ item, items[place i]? = some item ∧ composeDouble item.value 0 = (true, out i)) ↔
      Doubles (items.take n) := by
  have hread := (fillEach_eq_some_iff hall).mp hout
  unfold Doubles
  rw [← h.forall_item_iff hn]
  exact forall_congr' fun i => element_used_iff (hread i)

end

/-! ## Joint array -/

namespace JntArray

def Accepted (bag : PropertyBag D) : Prop :=
  bag.type = "KDL.JntArray" ∧ ∀ item ∈ bag.properties, item.value.ready = true

theorem places (n : Nat) : Places (fun i : Fin n => i.val) n := ⟨fun i => i.isLt, fun k hk => ⟨⟨k, hk⟩, rfl⟩⟩

variable [Zero D] {bag : PropertyBag D}

def Used (bag : PropertyBag D) (jntarray : JntArray D) : Prop :=
  bag.properties.length = jntarray.rows ∧ ∀ i : Fin jntarray.rows, ∃ item, bag.properties[i.val]? = some item ∧
    composeDouble item.value 0 = (true, jntarray.data i)

theorem isSome_composed : (composed bag).isSome ↔ Accepted bag := by
  unfold composed Accepted
  split
  · rename_i htype
    rw [Option.isSome_map]
    refine ((places _).isSome_fillEach_iff (Nat.le_refl _) List.mem_finRange).trans ?_
    rw [List.take_length, and_iff_right htype]
  · rename_i htype
    simp [htype]

theorem used_iff {jntarray : JntArray D} (h : composed bag = some jntarray) :
    Used bag jntarray ↔ Doubles bag.properties := by
  unfold composed at h
  split at h
  · obtain ⟨data, hdata, h⟩ := Option.map_eq_some_iff.mp h
    subst h
    refine (and_iff_right rfl).trans (((places _).used_iff (Nat.le_refl _) List.mem_finRange hdata).trans ?_)
    rw [List.take_length]
  · cases h

end JntArray

/-! ## Jacobian -/

namespace Jacobian

def Accepted (bag : PropertyBag D) : Prop :=
  bag.type = "KDL.Jacobian" ∧
    ∀ item ∈ bag.properties.take (6 * (bag.properties.length / 6)), item.value.ready = true

def Whole (bag : PropertyBag D) : Prop := bag.properties.length % 6 = 0 ∧ Doubles bag.properties

theorem places (n : Nat) : Places (fun ij : Fin 6 × Fin n => n * ij.1.val + ij.2.val) (6 * n) where
  lt ij := by
    rw [Nat.add_comm]
    exact (finProdFinEquiv ij).isLt
  exists_index k hk := by
    have hplace := congrArg Fin.val (finProdFinEquiv.apply_symm_apply (⟨k, hk⟩ : Fin (6 * n)))
    exact ⟨_, (Nat.add_comm _ _).trans hplace⟩

variable [Zero D] {bag : PropertyBag D}

def Used (bag : PropertyBag D) (jacobian : Jacobian D) : Prop :=
  bag.properties.length = 6 * jacobian.columns ∧ ∀ ij : Fin 6 × Fin jacobian.columns,
    ∃ item, bag.properties[jacobian.columns * ij.1.val + ij.2.val]? = some item ∧
      composeDouble item.value 0 = (true, jacobian.data ij)

theorem isSome_composed : (composed bag).isSome ↔ Accepted bag := by
  unfold composed Accepted
  split
  · rename_i htype
    rw [Option.isSome_map]
    refine ((places _).isSome_fillEach_iff (Nat.mul_div_le _ 6) mem_indices).trans ?_
    rw [and_iff_right htype]
  · rename_i htype
    simp [htype]

theorem used_iff {jacobian : Jacobian D} (h : composed bag = some jacobian) : Used bag jacobian ↔ Whole bag := by
  unfold composed at h
  split at h
  · obtain ⟨data, hdata, h⟩ := Option.map_eq_some_iff.mp h
    subst h
    have hlength : bag.properties.length = 6 * (bag.properties.length / 6) ↔ bag.properties.length % 6 = 0 := by omega
    refine and_congr hlength ((places _).used_iff (Nat.mul_div_le _ 6) mem_indices hdata) |>.trans ?_
    refine and_congr_right fun hmod => ?_
    rw [List.take_of_length_le (by omega)]
  · cases h

end Jacobian

/-- What is written for a segment with a RotAxis joint and for the second segment of a chain, a joint array with a
    string in it, and seven elements. -/
theorem unreadable_is_default :
    let rotAxis := (Chain.segment .rotAxis 1).decomposeProperty Chain.translations PropertyBag.empty
    let second := (Chain.segment .rotZ 2).decomposeProperty Chain.translations
      ((Chain.segment .rotX 1).decomposeProperty Chain.translations PropertyBag.empty)
    let mixed : PropertyBag Int := ⟨"KDL.JntArray", [⟨"Element0", "", .double 4⟩, ⟨"Element1", "", .string "5"⟩]⟩
    let seven : PropertyBag Int := ⟨"KDL.Jacobian", List.replicate 7 ⟨"", "", .double 4⟩⟩
    Segment.composeProperty Chain.translations rotAxis Segment.default = (true, Chain.segment .none 1) ∧
      ¬ UsesInput (Segment.Used Chain.translations) (Segment.composeProperty Chain.translations) rotAxis
        Segment.default ∧
      Segment.composeProperty Chain.translations second Segment.default = (true, Chain.segment .rotX 1) ∧
      ¬ UsesInput (Segment.Used Chain.translations) (Segment.composeProperty Chain.translations) second
        Segment.default ∧
      ¬ UsesInput JntArray.Used JntArray.composeProperty mixed ⟨0, fun _ => 0⟩ ∧
      ¬ UsesInput Jacobian.Used Jacobian.composeProperty seven ⟨0, fun _ => 0⟩ := by
  refine ⟨rfl, fun h => ?_, rfl, fun h => ?_, fun h => ?_, fun h => ?_⟩
  · obtain ⟨⟨joint, hj, hjoint⟩, -⟩ := h rfl
    cases hj
    cases hjoint
  · -- two joints
    obtain ⟨⟨joint, hj, -⟩, -⟩ := h rfl
    cases hj
  · obtain ⟨-, h⟩ := h rfl
    obtain ⟨item, hitem, hd⟩ := h (1 : Fin 2)
    cases hitem
    cases hd
  · obtain ⟨hlength, -⟩ := h rfl
    cases hlength

theorem input_used_iff [Zero D] [One D] (kdl : Library D) (bag : PropertyBag D) :
    (∀ target, UsesInput (Segment.Used kdl) (Segment.composeProperty kdl) bag target ↔
      (Segment.Accepted bag → Segment.Whole kdl bag)) ∧
    (∀ target, UsesInput (Chain.Used kdl) (Chain.composeProperty kdl) bag target ↔
      (Chain.Accepted bag → Chain.Whole kdl bag)) ∧
    (∀ target, UsesInput JntArray.Used JntArray.composeProperty bag target ↔
      (JntArray.Accepted bag → Doubles bag.properties)) ∧
    ∀ target, UsesInput Jacobian.Used Jacobian.composeProperty bag target ↔
      (Jacobian.Accepted bag → Jacobian.Whole bag) := by
  refine ⟨?_, ?_, ?_, ?_⟩
  · exact usesInput_iff (Segment.composeProperty_eq_put kdl bag) Segment.isSome_composed fun _ => Segment.used_iff
  · exact usesInput_iff (Chain.composeProperty_eq_put kdl bag) Chain.isSome_composed fun _ => Chain.used_iff
  · exact usesInput_iff (JntArray.composeProperty_eq_put bag) JntArray.isSome_composed fun _ => JntArray.used_iff
  · exact usesInput_iff (Jacobian.composeProperty_eq_put bag) Jacobian.isSome_composed fun _ => Jacobian.used_iff

end RttRos2.Kdl
