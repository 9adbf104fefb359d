import AimRT.Ros2.RosMessage

/-!
# ROS messages and JSON

`JsonToMessage` reads a document by `isMember`, `size` and the conversions of the JSON library, and
`MessageToJson` makes one.  The library is a parameter: `JsonCpp` has the functions of a `Json::Value` and of the
reader, `JsonWriter` those of the writer, and `Json` is what a `Json::Value` holds.
-/

namespace AimRT.Ros2

open AimRT.Lib AimRT.Util

/-! ### The library -/

/-- The functions of `Json::Value` and `Json::Reader`; `none` is an exception. -/
structure JsonCpp (J : Type) where
  isMember : J → String → Option Bool
  member : J → String → J
  isArray : J → Bool
  size : J → ℕ
  item : J → ℕ → Option J
  isBool : J → Bool
  isUInt : J → Bool
  asBool : J → Option Bool
  asInt : J → Option Int32
  asUInt : J → Option UInt32
  asInt64 : J → Option Int64
  asUInt64 : J → Option UInt64
  asFloat : J → Option UInt32
  asDouble : J → Option UInt64
  asString : J → Option Bytes
  /-- `Reader::parse`; `none` also where it returns false. -/
  parse : Bytes → Option J

/-! ### From JSON -/

section Read

variable {J : Type} (lib : JsonCpp J)

/-- `GetJsonValue`, for the types that `WriteMemberItem` takes; a `long double` has no specialisation. -/
def getJsonValue : (typeId : TypeId) → J → Option typeId.CppType
  | .float, j => lib.asFloat j
  | .double, j => lib.asDouble j
  | .longDouble, _ => some (TypeId.zero .longDouble)
  | .char, j => (lib.asUInt j).map UInt32.toUInt8
  | .wchar, j => (lib.asUInt j).map UInt32.toUInt16
  | .boolean, j => lib.asBool j
  | .octet, j => (lib.asUInt j).map UInt32.toUInt8
  | .uint8, j => (lib.asUInt j).map UInt32.toUInt8
  | .int8, j => (lib.asInt j).map Int32.toInt8
  | .uint16, j => (lib.asUInt j).map UInt32.toUInt16
  | .int16, j => (lib.asInt j).map Int32.toInt16
  | .uint32, j => lib.asUInt j
  | .int32, j => lib.asInt j
  | .uint64, j => lib.asUInt64 j
  | .int64, j => lib.asInt64 j
  | .string, j => lib.asString j
  | .wstring, _ => none

/-- What the specialisations of `WriteSequenceMemberItem` read. -/
def jsonSequenceItem (typeId : TypeId) (j : J) : Option typeId.CppType :=
  match typeId with
  | .boolean => if lib.isBool j then getJsonValue lib .boolean j else none
  | .octet => if lib.isUInt j then getJsonValue lib .octet j else none
  | .wstring => none
  | typeId => getJsonValue lib typeId j

def jsonDocument : Document J where
  isMember := lib.isMember
  member := lib.member
  isArray := lib.isArray
  size := lib.size
  item := lib.item
  value := getJsonValue lib
  sequenceItem := jsonSequenceItem lib

/-- `JsonToMessage`. -/
def jsonToMessage (defaults : Defaults) (members : MessageMembers) (text : Bytes) : Storing members.Val :=
  toMessage lib.parse (jsonDocument lib) defaults members text

end Read

/-! ### Documents -/

/-- What a `Json::Value` holds.  The fields of an object are in any order, with one for a name. -/
inductive Json where
  | null
  | bool (b : Bool)
  | int (z : ℤ)
  | real (bits : UInt64)
  | string (s : Bytes)
  | array (items : List Json)
  | object (fields : List (String × Json))

namespace Json

/-- `node[name]`. -/
def get (name : String) : Json → Json
  | object fields => (fields.lookup name).getD null
  | _ => null

def setField (name : String) (x : Json) : List (String × Json) → List (String × Json)
  | [] => [(name, x)]
  | p :: fields => if p.1 = name then (name, x) :: fields else p :: setField name x fields

/-- `node[name] = x`, which makes an object of a null value. -/
def set (node : Json) (name : String) (x : Json) : Json :=
  match node with
  | object fields => object (setField name x fields)
  | _ => object [(name, x)]

end Json

/-! ### To JSON -/

/-- What `MessageToJson` uses of the library. -/
structure JsonWriter where
  /-- A `double` with the value of the `float`. -/
  ofFloat : UInt32 → UInt64
  /-- `FastWriter::write`. -/
  write : Json → Bytes

section Write

variable (writer : JsonWriter)

/-- `BasicValueToJson`; `MemberToJsonArrayItem` appends the same values.  Of a `long double` the first eight
bytes are read as a `double`. -/
def basicValueToJson : (typeId : TypeId) → typeId.CppType → Option Json
  | .float, (x : UInt32) => some (.real (writer.ofFloat x))
  | .double, (x : UInt64) => some (.real x)
  | .longDouble, (x : BitVec 128) => some (.real (UInt64.ofBitVec (x.truncate 64)))
  | .char, (x : UInt8) => some (.int x.toNat)
  | .wchar, (x : UInt16) => some (.int x.toNat)
  | .boolean, (x : Bool) => some (.bool x)
  | .octet, (x : UInt8) => some (.int x.toNat)
  | .uint8, (x : UInt8) => some (.int x.toNat)
  | .int8, (x : Int8) => some (.int x.toInt)
  | .uint16, (x : UInt16) => some (.int x.toNat)
  | .int16, (x : Int16) => some (.int x.toInt)
  | .uint32, (x : UInt32) => some (.int x.toNat)
  | .int32, (x : Int32) => some (.int x.toInt)
  | .uint64, (x : UInt64) => some (.int x.toNat)
  | .int64, (x : Int64) => some (.int x.toInt)
  | .string, (x : Bytes) => some (.string x)
  | .wstring, (_ : List UInt16) => none

/-- `FixedArrayToJson` and `DynamicArrayToJson`: one value after the other is appended. -/
def arrayToJson {T : Type} (convert : T → Option Json) (l : List T) : Option Json :=
  (l.mapM convert).map .array

/-- `MemberToJson` of a member that is no message. -/
def memberToJson (typeId : TypeId) : (shape : Shape) → shape.Of typeId.CppType → Option Json
  | .single, x => basicValueToJson writer typeId x
  | .array _, l => arrayToJson (basicValueToJson writer typeId) l
  | .sequence, l => arrayToJson (basicValueToJson writer typeId) l
  | .bounded _, l => arrayToJson (basicValueToJson writer typeId) l

/-- `MemberToJson` of a member that is a message; the messages of an array are made from a null value. -/
def memberToJsonNested {T : Type} (convert : T → Json → Option Json) :
    (shape : Shape) → shape.Of T → Json → Option Json
  | .single, x, node => convert x node
  | .array _, l, _ => arrayToJson (convert · .null) l
  | .sequence, l, _ => arrayToJson (convert · .null) l
  | .bounded _, l, _ => arrayToJson (convert · .null) l

/-- `MessageToJsonImpl`. -/
def messageToJsonImpl : (members : MessageMembers) → members.Val → Json → Option Json
  | .nil, _, node => some node
  | .basic name typeId shape rest, (x, xs), node =>
    match memberToJson writer typeId shape x with
    | none => none
    | some j => messageToJsonImpl rest xs (node.set name j)
  | .nested name members shape rest, (x, xs), node =>
    match memberToJsonNested (messageToJsonImpl members) shape x (node.get name) with
    | none => none
    | some j => messageToJsonImpl rest xs (node.set name j)

/-- `MessageToJson`; `none` where it returns false. -/
def messageToJson (members : MessageMembers) (message : members.Val) : Option Bytes :=
  (messageToJsonImpl writer members message .null).map writer.write

end Write

/-! ### A library for one text -/

/-- The functions on what there is in the documents of messages, with a reader that knows one text. -/
def plainJson (text : Bytes) (root : Json) : JsonCpp Json where
  isMember
    | .object fields, name => some (fields.any (·.1 = name))
    | .null, _ => some false
    | _, _ => none
  member j name := j.get name
  isArray
    | .array _ => true
    | _ => false
  size
    | .array items => items.length
    | .object fields => fields.length
    | _ => 0
  item
    | .array items, i => some (items[i]?.getD .null)
    | .null, _ => some .null
    | _, _ => none
  isBool
    | .bool _ => true
    | _ => false
  isUInt
    | .int z => 0 ≤ z && z < 2 ^ 32
    | _ => false
  asBool
    | .bool b => some b
    | .int z => some (z ≠ 0)
    | .null => some false
    | _ => none
  asInt
    | .int z => if -2 ^ 31 ≤ z ∧ z < 2 ^ 31 then some (Int32.ofInt z) else none
    | .bool b => some (if b then 1 else 0)
    | .null => some 0
    | _ => none
  asUInt
    | .int z => if 0 ≤ z ∧ z < 2 ^ 32 then some (UInt32.ofNat z.toNat) else none
    | .bool b => some (if b then 1 else 0)
    | .null => some 0
    | _ => none
  asInt64
    | .int z => if -2 ^ 63 ≤ z ∧ z < 2 ^ 63 then some (Int64.ofInt z) else none
    | .bool b => some (if b then 1 else 0)
    | .null => some 0
    | _ => none
  asUInt64
    | .int z => if 0 ≤ z ∧ z < 2 ^ 64 then some (UInt64.ofNat z.toNat) else none
    | .bool b => some (if b then 1 else 0)
    | .null => some 0
    | _ => none
  asFloat _ := none
  asDouble
    | .real bits => some bits
    | _ => none
  asString
    | .string s => some s
    | .null => some []
    | _ => none
  parse t := if t = text then some root else none

end AimRT.Ros2
