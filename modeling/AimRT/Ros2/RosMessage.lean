import AimRT.Lib.Storing
import AimRT.Util.Context

/-!
# ROS messages

A message is described by its members, each with a name, a type and a shape: a single value, an array of a
fixed size, or a sequence with or without a bound.  The type is a basic one or another message.
`MessageMembers` is this description, and `Val` the messages that it describes.

The converters from JSON and from YAML are the same program over what they use of a parsed document
(`Document`).
-/

namespace AimRT.Ros2

open AimRT.Lib AimRT.Util

/-! ### Descriptions -/

/-- The `type_id_` of a member that is no message. -/
inductive TypeId where
  | float
  | double
  | longDouble
  | char
  | wchar
  | boolean
  | octet
  | uint8
  | int8
  | uint16
  | int16
  | uint32
  | int32
  | uint64
  | int64
  | string
  | wstring
  deriving DecidableEq, Repr

/-- `TypeMappingCpp<RosTypeId>::CppType`; a floating-point number is known by its bits. -/
def TypeId.CppType : TypeId → Type
  | float => UInt32
  | double => UInt64
  | longDouble => BitVec 128
  | char => UInt8
  | wchar => UInt16
  | boolean => Bool
  | octet => UInt8
  | uint8 => UInt8
  | int8 => Int8
  | uint16 => UInt16
  | int16 => Int16
  | uint32 => UInt32
  | int32 => Int32
  | uint64 => UInt64
  | int64 => Int64
  | string => Bytes
  | wstring => List UInt16

/-- `CppType{}`. -/
def TypeId.zero : (typeId : TypeId) → typeId.CppType
  | float => (0 : UInt32)
  | double => (0 : UInt64)
  | longDouble => (0 : BitVec 128)
  | char => (0 : UInt8)
  | wchar => (0 : UInt16)
  | boolean => false
  | octet => (0 : UInt8)
  | uint8 => (0 : UInt8)
  | int8 => (0 : Int8)
  | uint16 => (0 : UInt16)
  | int16 => (0 : Int16)
  | uint32 => (0 : UInt32)
  | int32 => (0 : Int32)
  | uint64 => (0 : UInt64)
  | int64 => (0 : Int64)
  | string => ([] : Bytes)
  | wstring => ([] : List UInt16)

/-- What `is_array_`, `array_size_` and `is_upper_bound_` tell of a member: an array of size 0 is a
sequence. -/
inductive Shape where
  | single
  | array (n : ℕ+)
  | sequence
  | bounded (n : ℕ)
  deriving DecidableEq

namespace Shape

def isArray : Shape → Bool
  | single => false
  | _ => true

def arraySize : Shape → ℕ
  | array n => n
  | bounded n => n
  | _ => 0

def isUpperBound : Shape → Bool
  | bounded _ => true
  | _ => false

/-- The storage of a member: a C array or a `std::vector` unless it is single. -/
def Of (T : Type) : Shape → Type
  | single => T
  | _ => List T

end Shape

/-- `MessageMembers`, one member after the other; `nested` is a member of `ROS_TYPE_MESSAGE`. -/
inductive MessageMembers : Type
  | nil
  | basic (name : String) (typeId : TypeId) (shape : Shape) (rest : MessageMembers)
  | nested (name : String) (members : MessageMembers) (shape : Shape) (rest : MessageMembers)

namespace MessageMembers

/-- The messages of a description. -/
def Val : MessageMembers → Type
  | nil => Unit
  | basic _ typeId shape rest => shape.Of typeId.CppType × rest.Val
  | nested _ members shape rest => shape.Of members.Val × rest.Val

/-- The message with zeros, and with nothing in the sequences. -/
def zeros : (members : MessageMembers) → members.Val
  | nil => ()
  | basic _ typeId .single rest => (typeId.zero, rest.zeros)
  | basic _ typeId (.array n) rest => (List.replicate n typeId.zero, rest.zeros)
  | basic _ typeId .sequence rest => (([] : List typeId.CppType), rest.zeros)
  | basic _ typeId (.bounded _) rest => (([] : List typeId.CppType), rest.zeros)
  | nested _ members .single rest => (members.zeros, rest.zeros)
  | nested _ members (.array n) rest => (List.replicate n members.zeros, rest.zeros)
  | nested _ members .sequence rest => (([] : List members.Val), rest.zeros)
  | nested _ members (.bounded _) rest => (([] : List members.Val), rest.zeros)

end MessageMembers

/-- The messages that the generated constructors make. -/
abbrev Defaults := ∀ members : MessageMembers, members.Val

/-! ### Documents -/

/-- What the converters use of a `Json::Value` or a `YAML::Node`; `none` is an exception. -/
structure Document (D : Type) where
  isMember : D → String → Option Bool
  member : D → String → D
  isArray : D → Bool
  size : D → ℕ
  item : D → ℕ → Option D
  /-- `GetJsonValue` or `GetYamlValue`. -/
  value : (typeId : TypeId) → D → Option typeId.CppType
  /-- What `WriteSequenceMemberItem` reads. -/
  sequenceItem : (typeId : TypeId) → D → Option typeId.CppType

/-! ### The converters -/

section Convert

variable {D T : Type} (doc : Document D)

/-- `WriteMemberItem`. -/
def writeMemberItem (typeId : TypeId) (d : D) : Storing typeId.CppType :=
  match doc.value typeId d with
  | none => .fail
  | some x => .put x

/-- `WriteSequenceMemberItem`. -/
def writeSequenceMemberItem (typeId : TypeId) (d : D) : Storing (List typeId.CppType) :=
  match doc.sequenceItem typeId d with
  | none => .fail
  | some x => .modify (· ++ [x])

/-- A use of `d[i]`. -/
def withItem (d : D) (i : ℕ) (f : D → Storing T) : Storing T :=
  match doc.item d i with
  | none => .fail
  | some e => f e

/-- `WriteSequence`. -/
def writeSequence (typeId : TypeId) (shape : Shape) (d : D) : Storing (List typeId.CppType) :=
  if shape.isUpperBound && doc.size d > shape.arraySize then .fail
  else .each (fun i => withItem doc d i (writeSequenceMemberItem doc typeId)) (List.range (doc.size d))

/-- `WriteMember`. -/
def writeMember (typeId : TypeId) (d : D) : (shape : Shape) → Storing (shape.Of typeId.CppType)
  | .single => writeMemberItem doc typeId d
  | .array n =>
    if doc.isArray d && n = doc.size d then
      .each (fun i => withItem doc d i fun e =>
        .element i n typeId.zero (writeMemberItem doc typeId e))
        (List.range n)
    else .fail
  | .sequence => if doc.isArray d then writeSequence doc typeId .sequence d else .fail
  | .bounded n => if doc.isArray d then writeSequence doc typeId (.bounded n) d else .fail

/-- `resize`; new elements are made by the default constructor. -/
def resize (n : ℕ) (default : T) (l : List T) : List T :=
  l.take n ++ List.replicate (n - l.length) default

/-- `WriteMemberSequenceNested`. -/
def writeMemberSequenceNested (default : T) (convert : D → Storing T) (shape : Shape) (d : D) :
    Storing (List T) :=
  if shape.isUpperBound && doc.size d > shape.arraySize then .fail
  else (Storing.modify (resize (doc.size d) default)).andThen
    (.each (fun i => withItem doc d i fun e => .element i (doc.size d) default (convert e))
      (List.range (doc.size d)))

/-- `WriteMemberNested`. -/
def writeMemberNested (default : T) (convert : D → Storing T) (d : D) : (shape : Shape) → Storing (shape.Of T)
  | .single => convert d
  | .array n =>
    .each (fun i => withItem doc d i fun e => .element i n default (convert e)) (List.range (doc.size d))
  | .sequence => if doc.isArray d then writeMemberSequenceNested doc default convert .sequence d else .fail
  | .bounded n => if doc.isArray d then writeMemberSequenceNested doc default convert (.bounded n) d else .fail

/-- The members that are not there are skipped. -/
def ifMember (root : D) (name : String) (f : D → Storing T) : Storing T :=
  match doc.isMember root name with
  | none => .fail
  | some false => .skip
  | some true => f (doc.member root name)

variable (defaults : Defaults)

/-- `JsonToMessageImpl` and `YamlToMessageImpl`. -/
def toMessageImpl : (members : MessageMembers) → D → Storing members.Val
  | .nil, _ => .skip
  | .basic name typeId shape rest, root =>
    (Storing.onFst (ifMember doc root name fun d =>
      if typeId = .wstring then .fail else writeMember doc typeId d shape)).andThen
      (.onSnd (toMessageImpl rest root))
  | .nested name members shape rest, root =>
    (Storing.onFst (ifMember doc root name fun d =>
      writeMemberNested doc (defaults members) (toMessageImpl members) d shape)).andThen
      (.onSnd (toMessageImpl rest root))

end Convert

/-! ### Texts -/

/-- `JsonToMessage` and `YamlToMessage`: `parse` refuses a text with an error or an exception, and nothing is
written then. -/
def toMessage {Text D : Type} (parse : Text → Option D) (doc : Document D) (defaults : Defaults)
    (members : MessageMembers) (text : Text) : Storing members.Val :=
  match parse text with
  | none => .fail
  | some root => toMessageImpl doc defaults members root

end AimRT.Ros2
