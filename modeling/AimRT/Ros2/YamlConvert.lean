import AimRT.Ros2.ConvertInside
import AimRT.Ros2.JsonConvert

/-!
# ROS messages and YAML

`YamlToMessage` is `JsonToMessage` over a `YAML::Node`, with one way of reading a value.  What is proved about
the conversion of a document holds of both.
-/

namespace AimRT.Ros2

open AimRT.Lib AimRT.Util

/-- The functions of `YAML::Node`; `none` is an exception. -/
structure YamlCpp (Y : Type) where
  /-- `root[name]`, and whether it is defined. -/
  isDefined : Y → String → Option Bool
  member : Y → String → Y
  isSequence : Y → Bool
  size : Y → ℕ
  item : Y → ℕ → Option Y
  as : (typeId : TypeId) → Y → Option typeId.CppType
  /-- `YAML::Load`. -/
  load : Bytes → Option Y

section Read

variable {Y : Type} (lib : YamlCpp Y)

/-- `GetYamlValue`; a `long double` has no specialisation. -/
def getYamlValue (typeId : TypeId) (y : Y) : Option typeId.CppType :=
  match typeId with
  | .longDouble => some (TypeId.zero .longDouble)
  | .wstring => some (TypeId.zero .wstring)
  | typeId => lib.as typeId y

def yamlDocument : Document Y where
  isMember := lib.isDefined
  member := lib.member
  isArray := lib.isSequence
  size := lib.size
  item := lib.item
  value := getYamlValue lib
  sequenceItem := getYamlValue lib

/-- `YamlToMessage`. -/
def yamlToMessage (defaults : Defaults) (members : MessageMembers) (text : Bytes) : Storing members.Val :=
  toMessage lib.load (yamlDocument lib) defaults members text

end Read

/-! ### Both conversions inside the message -/

/-- **When the conversions are safe.**  `JsonToMessage` and `YamlToMessage` write inside the message and refuse
what does not fit exactly when, in front of the first piece of the document that a check refuses, nothing is
written for the elements that a fixed array of messages has too many, and something is refused at all where the
size of such an array is wrong. -/
theorem conversions_sound_iff (defaults : Defaults) (members : MessageMembers) (text : Bytes)
    (message : members.Val) :
    (∀ (J : Type) (lib : JsonCpp J),
      ((∀ w ∈ (jsonToMessage lib defaults members text message).writes, w.inside = true) ∧
        (¬FitsText lib.parse (jsonDocument lib) members text →
          (jsonToMessage lib defaults members text message).ok = false)) ↔
        Piece.Sound (textPieces lib.parse (jsonDocument lib) members text)) ∧
      ∀ (Y : Type) (lib : YamlCpp Y),
        ((∀ w ∈ (yamlToMessage lib defaults members text message).writes, w.inside = true) ∧
          (¬FitsText lib.load (yamlDocument lib) members text →
            (yamlToMessage lib defaults members text message).ok = false)) ↔
          Piece.Sound (textPieces lib.load (yamlDocument lib) members text) :=
  ⟨fun _ _ => toMessage_sound_iff defaults members text message,
    fun _ _ => toMessage_sound_iff defaults members text message⟩

/-- A message with two points. -/
def twoPoints : MessageMembers := .nested "pts" (.basic "x" .int32 .single .nil) (.array 2) .nil

/-- What `{"pts":[{"x":1},{"x":2},{"x":3}]}` is. -/
def threePoints : Json :=
  .object [("pts", .array [.object [("x", .int 1)], .object [("x", .int 2)], .object [("x", .int 3)]])]

/-- The third of two points is written and the document is taken. -/
theorem not_conversions_sound :
    ¬∀ (defaults : Defaults) (members : MessageMembers) (text : Bytes) (message : members.Val) (J : Type)
      (lib : JsonCpp J),
      (∀ w ∈ (jsonToMessage lib defaults members text message).writes, w.inside = true) ∧
        (¬FitsText lib.parse (jsonDocument lib) members text →
          (jsonToMessage lib defaults members text message).ok = false) := by
  intro h
  let text : Bytes := ascii "\x7b\"pts\":[\x7b\"x\":1\x7d,\x7b\"x\":2\x7d,\x7b\"x\":3\x7d]\x7d"
  let zeros : ∀ members : MessageMembers, members.Val := MessageMembers.zeros
  have hwrites := (h zeros twoPoints text (zeros twoPoints) Json (plainJson text threePoints)).1
  exact absurd (hwrites [(2, 2)] (by decide)) (by decide)

end AimRT.Ros2
