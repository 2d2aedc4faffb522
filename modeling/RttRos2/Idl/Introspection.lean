/-
  RttRos2.Idl.Introspection — the members of introspected messages
  (RosIntrospectionTypeInfo.hpp).

  A message type comes with a table of member descriptors. `getMember` looks a name up in
  it, finds the TypeInfo of the member and has it build a part at the member's address.
  A pointer into the table is the index it points at; reading one past the end, or a null
  data source, is `undefined`. RTT's type repository is a parameter.
-/

import Mathlib.Data.List.Basic
import Mathlib.Algebra.Ring.Int.Defs
import Mathlib.Algebra.Ring.Nat

namespace RttRos2.Idl

/-- `type_id_` -/
inductive TypeId where
  | float
  | double
  | longDouble
  | char
  | wchar
  | boolean
  | octet
  | uint8
  | int8
  | uint16
  | int16
  | uint32
  | int32
  | uint64
  | int64
  | string
  | wstring
  | message
  | unknown (id : Nat)
  deriving DecidableEq, Repr

/-- The `message_namespace_` and `message_name_` of a message type. -/
structure MessageName where
  messageNamespace : String
  messageName : String

structure MessageMember where
  name : String
  typeId : TypeId
  /-- `members_`, the type support of a member that is a message. -/
  members : Option MessageName
  isArray : Bool
  arraySize : Nat
  isUpperBound : Bool
  offset : Nat

/-- `members_[0]` to `members_[member_count_ - 1]` -/
abbrev MessageMembers := List MessageMember

/-- The C++ types of single values; `unsigned char` is `uint8_t`. -/
inductive ValueT where
  | float
  | double
  | longDouble
  | char
  | bool
  | uint8
  | int8
  | uint16
  | int16
  | uint32
  | int32
  | uint64
  | int64
  | string
  | u16string
  deriving DecidableEq, Repr

inductive CppType where
  | value (t : ValueT)
  | vector (t : ValueT)
  | carray (t : ValueT)
  deriving DecidableEq, Repr

/-- RTT's type repository; `TI` are the TypeInfo objects. -/
structure Types (TI : Type) where
  getTypeInfo : CppType → Option TI
  type : String → Option TI

variable {TI : Type}

/-! ## The TypeInfo of a member -/

def findTypeInfoByValueType (types : Types TI) (t : ValueT) (m : MessageMember) : Option TI :=
  if m.isArray then
    if m.arraySize = 0 then types.getTypeInfo (.vector t) -- dynamic array
    else if !m.isUpperBound then types.getTypeInfo (.carray t) -- fixed-size array
    else types.getTypeInfo (.vector t) -- bounded array
  else types.getTypeInfo (.value t)

def findTypeInfoByName (types : Types TI) (name : String) (m : MessageMember) : Option TI :=
  if m.isArray then
    if m.arraySize = 0 then types.type (name ++ "[]")
    else if !m.isUpperBound then types.type (name ++ "[c]")
    else types.type (name ++ "[]")
  else types.type name

/-- `std::regex_replace` of "::" by "/". -/
def replaceSeparators : List Char → List Char
  | ':' :: ':' :: rest => '/' :: replaceSeparators rest
  | c :: rest => c :: replaceSeparators rest
  | [] => []

def MessageName.typeName (n : MessageName) : String :=
  "/" ++ String.ofList (replaceSeparators n.messageNamespace.toList) ++ "/" ++ n.messageName

def findTypeInfo (types : Types TI) (m : MessageMember) : Option TI :=
  match m.typeId with
  | .float => findTypeInfoByValueType types .float m
  | .double => findTypeInfoByValueType types .double m
  | .longDouble => findTypeInfoByValueType types .longDouble m
  | .char => findTypeInfoByValueType types .char m
  | .wchar => findTypeInfoByValueType types .uint16 m
  | .boolean => findTypeInfoByValueType types .bool m
  | .octet => findTypeInfoByValueType types .uint8 m
  | .uint8 => findTypeInfoByValueType types .uint8 m
  | .int8 => findTypeInfoByValueType types .int8 m
  | .uint16 => findTypeInfoByValueType types .uint16 m
  | .int16 => findTypeInfoByValueType types .int16 m
  | .uint32 => findTypeInfoByValueType types .uint32 m
  | .int32 => findTypeInfoByValueType types .int32 m
  | .uint64 => findTypeInfoByValueType types .uint64 m
  | .int64 => findTypeInfoByValueType types .int64 m
  | .string => findTypeInfoByValueType types .string m
  | .wstring => findTypeInfoByValueType types .u16string m
  | .message =>
    match m.members with
    | some n => findTypeInfoByName types n.typeName m
    | none => none
  | .unknown _ => none

/-! ## The lookup -/

/-- `none` is `nullptr`. `std::find_if` returns the end of the table when it finds nothing. -/
def findMessageMember (members : Option MessageMembers) (name : String) : Option Nat :=
  members.map (List.findIdx fun m => m.name = name)

def getMemberNames (members : Option MessageMembers) : List String :=
  match members with
  | none => []
  | some ms => ms.map (·.name)

/-- The data source of which a member is asked for. -/
inductive Item where
  /-- An `AssignableDataSource<T>`, with its `getRawPointer()`. -/
  | assignable (rawPointer : Nat)
  /-- A `DataSource<T>` that cannot be assigned. -/
  | value
  /-- Not a data source of T. -/
  | other
  deriving DecidableEq, Repr

/-- `adata->getRawPointer()`; `copy` is where a copy of the value is made. -/
def Item.rawPointer (copy : Nat) : Item → Option Nat
  | .assignable p => some p
  | .value => some copy
  | .other => none

inductive Result (TI : Type) where
  | null
  /-- `ti->buildPart(address, size, parent)` -/
  | part (ti : TI) (address : Nat) (size : Int) (parent : Item)
  | undefined
  deriving DecidableEq

/-- `static_cast<int>` of a `std::size_t`. -/
def toInt (n : Nat) : Int := (n : Int).bmod (2 ^ 32)

def getMember (types : Types TI) (members : Option MessageMembers) (item : Item) (copy : Nat) (name : String) :
    Result TI :=
  match findMessageMember members name with
  | none => .null
  | some i =>
    match (members.getD [])[i]? with
    | none => .undefined -- the end of the table
    | some m =>
      match findTypeInfo types m with
      | none => .null
      | some ti =>
        match item.rawPointer copy with
        | none => .undefined
        | some p => .part ti (p + m.offset) (toInt m.arraySize) item

end RttRos2.Idl
