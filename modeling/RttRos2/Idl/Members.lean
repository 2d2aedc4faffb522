/-
  RttRos2.Idl.Members — which lookups of a member go wrong.

  A name that the table lists is looked up as intended: the part is built at the offset of
  the first member of that name, with its TypeInfo (`getMember_listed`). For any other name
  `std::find_if` returns the end of the table, which `getMember` takes for a member
  (`getMember_absent`): the empty table has no lookup that works, and a table with one
  member none but its own (`absent_name_is_read`). The lookup is what it should be if and
  only if there is no table, or the name is listed, and its array size fits an int
  (`lookup_total_iff`).
-/

import RttRos2.Idl.Introspection

namespace RttRos2.Idl

variable {TI : Type} {types : Types TI} {ms : MessageMembers} {m : MessageMember} {item : Item} {copy p : Nat}
  {name : String}

/-! ## The type of a member -/

inductive ElementType where
  | primitive (t : ValueT)
  | message (name : String)

inductive Shape where
  | single
  /-- A dynamic or bounded array. -/
  | sequence
  | array

namespace MessageMember

def shape (m : MessageMember) : Shape :=
  if !m.isArray then .single
  else if m.arraySize = 0 ∨ m.isUpperBound then .sequence
  else .array

/-- What the field is declared with. A wide character is known as a `uint16_t`. -/
def elementType (m : MessageMember) : Option ElementType :=
  match m.typeId with
  | .float => some (.primitive .float)
  | .double => some (.primitive .double)
  | .longDouble => some (.primitive .longDouble)
  | .char => some (.primitive .char)
  | .wchar | .uint16 => some (.primitive .uint16)
  | .boolean => some (.primitive .bool)
  | .octet | .uint8 => some (.primitive .uint8)
  | .int8 => some (.primitive .int8)
  | .int16 => some (.primitive .int16)
  | .uint32 => some (.primitive .uint32)
  | .int32 => some (.primitive .int32)
  | .uint64 => some (.primitive .uint64)
  | .int64 => some (.primitive .int64)
  | .string => some (.primitive .string)
  | .wstring => some (.primitive .u16string)
  | .message => m.members.map fun n => .message n.typeName
  | .unknown _ => none

end MessageMember

/-- The TypeInfo registered for single values, sequences or arrays of the type. -/
def Types.of (types : Types TI) : ElementType → Shape → Option TI
  | .primitive t, .single => types.getTypeInfo (.value t)
  | .primitive t, .sequence => types.getTypeInfo (.vector t)
  | .primitive t, .array => types.getTypeInfo (.carray t)
  | .message name, .single => types.type name
  | .message name, .sequence => types.type (name ++ "[]")
  | .message name, .array => types.type (name ++ "[c]")

/-- The TypeInfo of a member, `none` when the type repository does not know it. -/
def MessageMember.typeInfo (types : Types TI) (m : MessageMember) : Option TI :=
  m.elementType.bind fun t => types.of t m.shape

theorem findTypeInfoByValueType_eq (t : ValueT) :
    findTypeInfoByValueType types t m = types.of (.primitive t) m.shape := by
  unfold findTypeInfoByValueType MessageMember.shape
  by_cases ha : m.isArray = true <;> by_cases hs : m.arraySize = 0 <;> by_cases hb : m.isUpperBound = true <;>
    simp [ha, hs, hb, Types.of]

theorem findTypeInfoByName_eq (name : String) :
    findTypeInfoByName types name m = types.of (.message name) m.shape := by
  unfold findTypeInfoByName MessageMember.shape
  by_cases ha : m.isArray = true <;> by_cases hs : m.arraySize = 0 <;> by_cases hb : m.isUpperBound = true <;>
    simp [ha, hs, hb, Types.of]

theorem findTypeInfo_eq (types : Types TI) (m : MessageMember) : findTypeInfo types m = m.typeInfo types := by
  unfold findTypeInfo MessageMember.typeInfo MessageMember.elementType
  cases m.typeId with
  | message =>
    cases m.members with
    | none => rfl
    | some n => exact findTypeInfoByName_eq n.typeName
  | unknown id => rfl
  | _ => exact findTypeInfoByValueType_eq _

/-! ## One lookup -/

/-- The first member of that name. -/
def member (ms : MessageMembers) (name : String) : Option MessageMember := ms.find? fun m => m.name = name

theorem member_none_iff : member ms name = none ↔ name ∉ getMemberNames (some ms) := by
  simp [member, getMemberNames]

/-- Where `findMessageMember` points: at the first member of that name, if there is one. -/
theorem getElem_findIdx (ms : MessageMembers) (name : String) :
    ms[ms.findIdx fun m => m.name = name]? = member ms name := List.find?_eq_getElem?_findIdx.symm

theorem getMember_listed {ti : TI} (hm : member ms name = some m) (hti : m.typeInfo types = some ti)
    (hp : item.rawPointer copy = some p) :
    getMember types (some ms) item copy name = .part ti (p + m.offset) (toInt m.arraySize) item := by
  simp only [getMember, findMessageMember, Option.map_some, Option.getD_some, getElem_findIdx, hm, findTypeInfo_eq,
    hti, hp]

theorem getMember_absent (hm : member ms name = none) : getMember types (some ms) item copy name = .undefined := by
  simp only [getMember, findMessageMember, Option.map_some, Option.getD_some, getElem_findIdx, hm]

theorem toInt_eq_iff (n : Nat) : toInt n = n ↔ n < 2 ^ 31 := by
  unfold toInt
  rw [Int.bmod_eq_iff (by decide)]
  omega

/-! ## All lookups -/

/-- What the lookup of a name should do: a member or null, nothing else. -/
structure Total (types : Types TI) (members : Option MessageMembers) (item : Item) (copy p : Nat) (name : String) :
    Prop where
  find : findMessageMember members name = (members.getD []).findIdx? fun m => m.name = name
  null : getMember types members item copy name = .null ↔ name ∉ getMemberNames members
  part : ∀ m, member (members.getD []) name = some m → ∃ ti, m.typeInfo types = some ti ∧
    getMember types members item copy name = .part ti (p + m.offset) m.arraySize item

/-- A repository that knows every type. -/
def everyType : Types (CppType ⊕ String) := ⟨fun t => some (.inl t), fun name => some (.inr name)⟩

def double (name : String) (offset : Nat) : MessageMember := ⟨name, .double, none, false, 0, false, offset⟩

/-- geometry_msgs/msg/Point -/
def point : MessageMembers := [double "x" 0, double "y" 8, double "z" 16]

theorem point_known : ∀ m ∈ point, (m.typeInfo everyType).isSome := by
  intro m hm
  simp only [point, List.mem_cons, List.not_mem_nil, or_false] at hm
  rcases hm with rfl | rfl | rfl <;> rfl

/-- A point has no "w"; the member behind the last one is read. -/
theorem absent_name_is_read :
    getMember everyType (some point) (.assignable 4096) 0 "w" = .undefined ∧
      ¬ Total everyType (some point) (.assignable 4096) 0 4096 "w" := by
  have hread : getMember everyType (some point) (.assignable 4096) 0 "w" = .undefined := rfl
  refine ⟨hread, fun h => ?_⟩
  have hnull := h.null.mpr (by decide)
  rw [hread] at hnull
  cases hnull

/-- There is no table, or the name is listed and its array size is an int. -/
def Works (members : Option MessageMembers) (name : String) : Prop :=
  ∀ ms, members = some ms → ∃ m, member ms name = some m ∧ m.arraySize < 2 ^ 31

theorem lookup_total_iff (types : Types TI) (members : Option MessageMembers) (item : Item) (copy p : Nat)
    (name : String) (hitem : item.rawPointer copy = some p)
    (hknown : ∀ m ∈ members.getD [], (m.typeInfo types).isSome) :
    Total types members item copy p name ↔ Works members name := by
  cases members with
  | none =>
    constructor
    · intro _ ms hms
      cases hms
    · intro _
      refine ⟨rfl, ?_, ?_⟩
      · simp [getMember, findMessageMember, getMemberNames]
      · intro m hm
        cases hm
  | some ms =>
    have hworks : Works (some ms) name ↔ ∃ m, member ms name = some m ∧ m.arraySize < 2 ^ 31 := by
      simp [Works]
    rw [hworks]
    cases hm : member ms name with
    | none =>
      have hnull := member_none_iff.mp hm
      constructor
      · intro h
        have := h.null.mpr hnull
        rw [getMember_absent hm] at this
        cases this
      · rintro ⟨m, hm, -⟩
        cases hm
    | some m =>
      have hmem : m ∈ ms := List.mem_of_find?_eq_some hm
      obtain ⟨ti, hti⟩ := Option.isSome_iff_exists.mp (hknown m hmem)
      have hpart : getMember types (some ms) item copy name = .part ti (p + m.offset) (toInt m.arraySize) item :=
        getMember_listed hm hti hitem
      constructor
      · intro h
        refine ⟨m, rfl, (toInt_eq_iff _).mp ?_⟩
        obtain ⟨ti', -, hp⟩ := h.part m hm
        rw [hpart, Result.part.injEq] at hp
        exact hp.2.2.1
      · rintro ⟨m', hm', hsize⟩
        cases hm'
        rw [(toInt_eq_iff _).mpr hsize] at hpart
        refine ⟨?_, ?_, ?_⟩
        · have hlt : (ms.findIdx fun m => m.name = name) < ms.length :=
            List.findIdx_lt_length_of_exists ⟨m, hmem, by simpa using List.find?_some hm⟩
          exact (List.findIdx?_eq_some_iff_findIdx_eq.mpr ⟨hlt, rfl⟩).symm
        · have hname : name ∈ getMemberNames (some ms) := by
            by_contra hn
            rw [member_none_iff.mpr hn] at hm
            cases hm
          simp [hpart, hname]
        · intro m' hm'
          cases hm.symm.trans hm'
          exact ⟨ti, hti, hpart⟩

theorem lookup_total_iff_point : Total everyType (some point) (.assignable 4096) 0 4096 "y" := by
  refine (lookup_total_iff everyType (some point) (.assignable 4096) 0 4096 "y" rfl point_known).mpr ?_
  intro ms hms
  cases hms
  exact ⟨double "y" 8, rfl, by decide⟩

end RttRos2.Idl
