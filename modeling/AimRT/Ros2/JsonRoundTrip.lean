import AimRT.Ros2.JsonConvert
import AimRT.Ros2.MessageMerge

/-!
# The round trip through JSON

`MessageToJson` makes a document that has every value of the message (`hasValues_toJson`), so that the target
becomes the merged message.  The writer and the reader of the library do not keep all documents: a string may be
changed on the way (`transcode`), and a document that is nested too deeply is not read.
-/

namespace AimRT.Ros2

open AimRT.Lib AimRT.Util

/-! ### What the library does -/

namespace Json

mutual

/-- The document with its strings changed. -/
def mapStrings (f : Bytes → Bytes) : Json → Json
  | null => null
  | bool b => bool b
  | int z => int z
  | real bits => real bits
  | string s => string (f s)
  | array items => array (mapStringsItems f items)
  | object fields => object (mapStringsFields f fields)

def mapStringsItems (f : Bytes → Bytes) : List Json → List Json
  | [] => []
  | j :: items => j.mapStrings f :: mapStringsItems f items

def mapStringsFields (f : Bytes → Bytes) : List (String × Json) → List (String × Json)
  | [] => []
  | (name, j) :: fields => (name, j.mapStrings f) :: mapStringsFields f fields

end

mutual

/-- How many values of the document hold each other. -/
def depth : Json → ℕ
  | array items => 1 + depthItems items
  | object fields => 1 + depthFields fields
  | _ => 1

def depthItems : List Json → ℕ
  | [] => 0
  | j :: items => max j.depth (depthItems items)

def depthFields : List (String × Json) → ℕ
  | [] => 0
  | (_, j) :: fields => max j.depth (depthFields fields)

end

theorem mapStringsItems_eq (f : Bytes → Bytes) (items : List Json) :
    mapStringsItems f items = items.map (mapStrings f) := by
  induction items with
  | nil => rfl
  | cons j items ih => rw [mapStringsItems, ih, List.map_cons]

/-- The document of the fields, which is null when there are none. -/
def ofFields : List (String × Json) → Json
  | [] => null
  | fields => object fields

end Json

/-- What is documented of the functions of a `Json::Value`. -/
structure JsonCpp.Lawful (lib : JsonCpp Json) : Prop where
  isMember : ∀ fields name, lib.isMember (.object fields) name = some (fields.any (·.1 = name))
  member : ∀ fields name, lib.member (.object fields) name = (Json.object fields).get name
  isArray : ∀ items, lib.isArray (.array items) = true
  size : ∀ items, lib.size (.array items) = items.length
  item : ∀ (items : List Json) (i : ℕ) (hi : i < items.length), lib.item (.array items) i = some items[i]
  isBool : ∀ b, lib.isBool (.bool b) = true
  isUInt : ∀ u : UInt32, lib.isUInt (.int u.toNat) = true
  asBool : ∀ b, lib.asBool (.bool b) = some b
  asInt : ∀ i : Int32, lib.asInt (.int i.toInt) = some i
  asUInt : ∀ u : UInt32, lib.asUInt (.int u.toNat) = some u
  asInt64 : ∀ i : Int64, lib.asInt64 (.int i.toInt) = some i
  asUInt64 : ∀ u : UInt64, lib.asUInt64 (.int u.toNat) = some u
  asString : ∀ s, lib.asString (.string s) = some s

/-- What the reader makes of a document that the writer has written: the strings are as `transcode` leaves them,
and what is nested deeper than `stackLimit` is refused. -/
def ReadsBack (lib : JsonCpp Json) (writer : JsonWriter) (transcode : Bytes → Bytes) (stackLimit : ℕ)
    (j : Json) : Prop :=
  lib.parse (writer.write j) = if j.depth ≤ stackLimit then some (j.mapStrings transcode) else none

/-! ### Descriptions -/

namespace MessageMembers

def names : MessageMembers → List String
  | nil => []
  | basic name _ _ rest => name :: rest.names
  | nested name _ _ rest => name :: rest.names

/-- The members of a message have names of their own. -/
def Named : MessageMembers → Prop
  | nil => True
  | basic name _ _ rest => name ∉ rest.names ∧ rest.Named
  | nested name members _ rest => members.Named ∧ name ∉ rest.names ∧ rest.Named

end MessageMembers

/-- No floating-point number and no wide string. -/
def TypeId.Plain (typeId : TypeId) : Prop := typeId ∉ [TypeId.float, .double, .longDouble, .wstring]

def MessageMembers.Plain : MessageMembers → Prop
  | nil => True
  | basic _ typeId _ rest => typeId.Plain ∧ rest.Plain
  | nested _ members _ rest => members.Plain ∧ rest.Plain

/-! ### The document of a message -/

section ToJson

variable (writer : JsonWriter)

def itemToJson (typeId : TypeId) (x : typeId.CppType) : Json := (basicValueToJson writer typeId x).getD .null

def Shape.toJson {T : Type} (f : T → Json) : (shape : Shape) → shape.Of T → Json
  | single, x => f x
  | array _, (l : List T) => .array (l.map f)
  | sequence, (l : List T) => .array (l.map f)
  | bounded _, (l : List T) => .array (l.map f)

/-- The fields of the document, one for each member. -/
def fieldsToJson : (members : MessageMembers) → members.Val → List (String × Json)
  | .nil, _ => []
  | .basic name typeId shape rest, (x, xs) =>
    (name, shape.toJson (itemToJson writer typeId) x) :: fieldsToJson rest xs
  | .nested name members shape rest, (x, xs) =>
    (name, shape.toJson (fun y => .ofFields (fieldsToJson members y)) x) :: fieldsToJson rest xs

variable {writer}

theorem basicValueToJson_eq {typeId : TypeId} (h : typeId.Plain) (x : typeId.CppType) :
    basicValueToJson writer typeId x = some (itemToJson writer typeId x) := by
  cases typeId with
  | wstring => simp [TypeId.Plain] at h
  | _ => rfl

theorem arrayToJson_eq {T : Type} {convert : T → Option Json} {f : T → Json} (h : ∀ x, convert x = some (f x))
    (l : List T) : arrayToJson convert l = some (.array (l.map f)) := by
  have hmap : l.mapM convert = some (l.map f) := by
    induction l with
    | nil => rfl
    | cons x l ih => simp [List.mapM_cons, h, ih]
  simp [arrayToJson, hmap]

theorem memberToJson_eq {typeId : TypeId} (h : typeId.Plain) (shape : Shape) (x : shape.Of typeId.CppType) :
    memberToJson writer typeId shape x = some (shape.toJson (itemToJson writer typeId) x) := by
  cases shape with
  | single => exact basicValueToJson_eq h x
  | array n => exact arrayToJson_eq (basicValueToJson_eq h) x
  | sequence => exact arrayToJson_eq (basicValueToJson_eq h) x
  | bounded n => exact arrayToJson_eq (basicValueToJson_eq h) x

theorem memberToJsonNested_eq {T : Type} {convert : T → Json → Option Json} {f : T → Json}
    (h : ∀ x, convert x .null = some (f x)) (shape : Shape) (x : shape.Of T) :
    memberToJsonNested convert shape x .null = some (shape.toJson f x) := by
  cases shape with
  | single => exact h x
  | array n => exact arrayToJson_eq h x
  | sequence => exact arrayToJson_eq h x
  | bounded n => exact arrayToJson_eq h x

theorem get_ofFields_of_not_mem {name : String} {fields : List (String × Json)}
    (h : name ∉ fields.map Prod.fst) : Json.get name (.ofFields fields) = .null := by
  have hlookup : fields.lookup name = none := by
    rw [List.lookup_eq_none_iff]
    intro p hp
    have hne : name ≠ p.1 := fun e => h (e ▸ List.mem_map_of_mem hp)
    simpa using hne
  cases fields with
  | nil => rfl
  | cons p fields => simp [Json.ofFields, Json.get, hlookup]

theorem setField_of_not_mem {name : String} {fields : List (String × Json)} (x : Json)
    (h : name ∉ fields.map Prod.fst) : Json.setField name x fields = fields ++ [(name, x)] := by
  induction fields with
  | nil => rfl
  | cons p fields ih =>
    rw [List.map_cons, List.mem_cons, not_or] at h
    rw [Json.setField, if_neg (Ne.symm h.1), ih h.2, List.cons_append]

theorem set_ofFields_of_not_mem {name : String} {fields : List (String × Json)} (x : Json)
    (h : name ∉ fields.map Prod.fst) : (Json.ofFields fields).set name x = .ofFields (fields ++ [(name, x)]) := by
  cases fields with
  | nil => rfl
  | cons p fields => exact congrArg Json.object (setField_of_not_mem x h)

theorem not_mem_append_names {rest : MessageMembers} {name : String} {fields : List (String × Json)} {j : Json}
    (hname : name ∉ rest.names) (hfields : ∀ n ∈ rest.names, n ∉ fields.map Prod.fst) :
    ∀ n ∈ rest.names, n ∉ (fields ++ [(name, j)]).map Prod.fst := by
  intro n hn
  simp only [List.map_append, List.map_cons, List.map_nil, List.mem_append, List.mem_singleton, not_or]
  exact ⟨hfields n hn, fun e => hname (e ▸ hn)⟩

theorem not_mem_no_fields (members : MessageMembers) :
    ∀ n ∈ members.names, n ∉ ([] : List (String × Json)).map Prod.fst := by
  simp

/-- The members are added to the fields that are there. -/
theorem messageToJsonImpl_eq {members : MessageMembers} (hplain : members.Plain) (hnamed : members.Named)
    (v : members.Val) {fields : List (String × Json)} (hfields : ∀ n ∈ members.names, n ∉ fields.map Prod.fst) :
    messageToJsonImpl writer members v (.ofFields fields) =
      some (.ofFields (fields ++ fieldsToJson writer members v)) := by
  induction members generalizing fields with
  | nil => simp [messageToJsonImpl, fieldsToJson]
  | basic name typeId shape rest ih =>
    obtain ⟨x, xs⟩ := v
    rw [MessageMembers.names, List.forall_mem_cons] at hfields
    rw [messageToJsonImpl, memberToJson_eq hplain.1]
    simp only
    rw [set_ofFields_of_not_mem _ hfields.1, ih hplain.2 hnamed.2 xs (not_mem_append_names hnamed.1 hfields.2),
      fieldsToJson, List.append_assoc, List.singleton_append]
  | nested name members shape rest ihmembers ihrest =>
    obtain ⟨x, xs⟩ := v
    rw [MessageMembers.names, List.forall_mem_cons] at hfields
    have hmembers : ∀ y, messageToJsonImpl writer members y .null =
        some (.ofFields (fieldsToJson writer members y)) :=
      fun y => ihmembers hplain.1 hnamed.1 y (not_mem_no_fields members)
    rw [messageToJsonImpl, get_ofFields_of_not_mem hfields.1, memberToJsonNested_eq hmembers]
    simp only
    rw [set_ofFields_of_not_mem _ hfields.1,
      ihrest hplain.2 hnamed.2.2 xs (not_mem_append_names hnamed.2.1 hfields.2), fieldsToJson, List.append_assoc,
      List.singleton_append]

end ToJson

/-! ### Its strings and its depth -/

def Shape.nesting {T : Type} (f : T → ℕ) : (shape : Shape) → shape.Of T → ℕ
  | single, x => f x
  | array _, (l : List T) => 1 + l.foldr (fun x n => max (f x) n) 0
  | sequence, (l : List T) => 1 + l.foldr (fun x n => max (f x) n) 0
  | bounded _, (l : List T) => 1 + l.foldr (fun x n => max (f x) n) 0

/-- How many values hold each other in the members of a message. -/
def memberNesting : (members : MessageMembers) → members.Val → ℕ
  | .nil, _ => 0
  | .basic _ _ shape rest, (x, xs) => max (shape.nesting (fun _ => 1) x) (memberNesting rest xs)
  | .nested _ members shape rest, (x, xs) =>
    max (shape.nesting (fun y => 1 + memberNesting members y) x) (memberNesting rest xs)

section Transcode

variable {writer : JsonWriter} (f : Bytes → Bytes)

theorem mapStrings_ofFields (fields : List (String × Json)) :
    (Json.ofFields fields).mapStrings f = .ofFields (Json.mapStringsFields f fields) := by
  cases fields with
  | nil => rfl
  | cons p fields => rfl

theorem depth_ofFields (fields : List (String × Json)) :
    (Json.ofFields fields).depth = 1 + Json.depthFields fields := by
  cases fields with
  | nil => rfl
  | cons p fields => rfl

theorem mapStrings_itemToJson {typeId : TypeId} (h : typeId.Plain) (x : typeId.CppType) :
    (itemToJson writer typeId x).mapStrings f = itemToJson writer typeId (typeId.mapString f x) := by
  cases typeId with
  | wstring => simp [TypeId.Plain] at h
  | _ => rfl

theorem depth_itemToJson {typeId : TypeId} (x : typeId.CppType) : (itemToJson writer typeId x).depth = 1 := by
  cases typeId <;> rfl

theorem mapStrings_toJson {T : Type} {g : T → Json} {m : T → T} (h : ∀ y, (g y).mapStrings f = g (m y))
    (shape : Shape) (x : shape.Of T) : (shape.toJson g x).mapStrings f = shape.toJson g (shape.map m x) := by
  have hitems : ∀ l : List T, (Json.array (l.map g)).mapStrings f = .array ((l.map m).map g) := by
    intro l
    rw [Json.mapStrings, Json.mapStringsItems_eq, List.map_map, List.map_map]
    exact congrArg Json.array (List.map_congr_left fun y _ => h y)
  cases shape with
  | single => exact h x
  | array n => exact hitems x
  | sequence => exact hitems x
  | bounded n => exact hitems x

theorem depth_toJson {T : Type} {g : T → Json} {d : T → ℕ} (h : ∀ y, (g y).depth = d y) (shape : Shape)
    (x : shape.Of T) : (shape.toJson g x).depth = shape.nesting d x := by
  have hitems : ∀ l : List T, (Json.array (l.map g)).depth = 1 + l.foldr (fun x n => max (d x) n) 0 := by
    intro l
    rw [Json.depth]
    induction l with
    | nil => rfl
    | cons y l ih =>
      rw [List.map_cons, Json.depthItems, h, List.foldr_cons, Nat.add_left_cancel ih]
  cases shape with
  | single => exact h x
  | array n => exact hitems x
  | sequence => exact hitems x
  | bounded n => exact hitems x

theorem mapStringsFields_fieldsToJson {members : MessageMembers} (hplain : members.Plain) (v : members.Val) :
    Json.mapStringsFields f (fieldsToJson writer members v) =
      fieldsToJson writer members (mapStrings f members v) := by
  induction members with
  | nil => rfl
  | basic name typeId shape rest ih =>
    obtain ⟨x, xs⟩ := v
    rw [fieldsToJson, Json.mapStringsFields, ih hplain.2, mapStrings_toJson f (mapStrings_itemToJson f hplain.1)]
    rfl
  | nested name members shape rest ihmembers ihrest =>
    obtain ⟨x, xs⟩ := v
    have hmembers : ∀ y, (Json.ofFields (fieldsToJson writer members y)).mapStrings f =
        .ofFields (fieldsToJson writer members (mapStrings f members y)) := by
      intro y
      rw [mapStrings_ofFields, ihmembers hplain.1]
    rw [fieldsToJson, Json.mapStringsFields, ihrest hplain.2,
      mapStrings_toJson f (g := fun y => .ofFields (fieldsToJson writer members y)) hmembers]
    rfl

theorem depthFields_fieldsToJson (members : MessageMembers) (v : members.Val) :
    Json.depthFields (fieldsToJson writer members v) = memberNesting members v := by
  induction members with
  | nil => rfl
  | basic name typeId shape rest ih =>
    obtain ⟨x, xs⟩ := v
    rw [fieldsToJson, Json.depthFields, ih, depth_toJson depth_itemToJson]
    rfl
  | nested name members shape rest ihmembers ihrest =>
    obtain ⟨x, xs⟩ := v
    have hmembers : ∀ y, (Json.ofFields (fieldsToJson writer members y)).depth = 1 + memberNesting members y := by
      intro y
      rw [depth_ofFields, ihmembers]
    rw [fieldsToJson, Json.depthFields, ihrest,
      depth_toJson (g := fun y => .ofFields (fieldsToJson writer members y)) hmembers]
    rfl

end Transcode

/-! ### It has every value -/

section HasValues

variable {lib : JsonCpp Json} {writer : JsonWriter}

theorem getJsonValue_itemToJson (hlib : lib.Lawful) {typeId : TypeId} (h : typeId.Plain) (x : typeId.CppType) :
    getJsonValue lib typeId (itemToJson writer typeId x) = some x := by
  have hbyte : ∀ u : UInt8, (lib.asUInt (.int u.toNat)).map UInt32.toUInt8 = some u := by
    intro u
    rw [← UInt8.toNat_toUInt32, hlib.asUInt]
    simp
  have hword : ∀ u : UInt16, (lib.asUInt (.int u.toNat)).map UInt32.toUInt16 = some u := by
    intro u
    rw [← UInt16.toNat_toUInt32, hlib.asUInt]
    simp
  have hint8 : ∀ i : Int8, (lib.asInt (.int i.toInt)).map Int32.toInt8 = some i := by
    intro i
    rw [← Int8.toInt_toInt32, hlib.asInt]
    simp
  have hint16 : ∀ i : Int16, (lib.asInt (.int i.toInt)).map Int32.toInt16 = some i := by
    intro i
    rw [← Int16.toInt_toInt32, hlib.asInt]
    simp
  cases typeId with
  | float => simp [TypeId.Plain] at h
  | double => simp [TypeId.Plain] at h
  | longDouble => simp [TypeId.Plain] at h
  | wstring => simp [TypeId.Plain] at h
  | char => exact hbyte x
  | octet => exact hbyte x
  | uint8 => exact hbyte x
  | wchar => exact hword x
  | uint16 => exact hword x
  | int8 => exact hint8 x
  | int16 => exact hint16 x
  | boolean => exact hlib.asBool x
  | uint32 => exact hlib.asUInt x
  | int32 => exact hlib.asInt x
  | uint64 => exact hlib.asUInt64 x
  | int64 => exact hlib.asInt64 x
  | string => exact hlib.asString x

theorem jsonSequenceItem_itemToJson (hlib : lib.Lawful) {typeId : TypeId} (h : typeId.Plain)
    (x : typeId.CppType) : jsonSequenceItem lib typeId (itemToJson writer typeId x) = some x := by
  have hvalue : getJsonValue lib typeId (itemToJson writer typeId x) = some x := getJsonValue_itemToJson hlib h x
  cases typeId with
  | wstring => simp [TypeId.Plain] at h
  | boolean => exact (if_pos (hlib.isBool x)).trans hvalue
  | octet =>
    change UInt8 at x
    have hbyte : lib.isUInt (.int x.toNat) = true := by
      rw [← hlib.isUInt x.toUInt32, UInt8.toNat_toUInt32]
    exact (if_pos hbyte).trans hvalue
  | _ => exact hvalue

theorem hasElements_toJson (hlib : lib.Lawful) {T : Type} {g : T → Json} {item elem : T → Json → Prop}
    (hitem : ∀ y, item y (g y)) (helem : ∀ y, elem y (g y)) (shape : Shape) (x : shape.Of T) :
    HasElements (jsonDocument lib) item elem shape x (shape.toJson g x) := by
  have harray : ∀ l : List T, ∀ P : T → Json → Prop, (∀ y, P y (g y)) →
      lib.isArray (.array (l.map g)) = true ∧ lib.size (.array (l.map g)) = l.length ∧
        ∀ i (hi : i < l.length), ∃ e, lib.item (.array (l.map g)) i = some e ∧ P l[i] e := by
    intro l P hP
    refine ⟨hlib.isArray _, by rw [hlib.size, List.length_map], fun i hi => ⟨g l[i], ?_, hP _⟩⟩
    rw [hlib.item _ _ (by simpa using hi), List.getElem_map]
  cases shape with
  | single => exact hitem x
  | array n => exact harray x item hitem
  | sequence => exact harray x elem helem
  | bounded n => exact harray x elem helem

theorem isMember_ofFields (hlib : lib.Lawful) (fields rest : List (String × Json)) (name : String) (j : Json) :
    lib.isMember (.ofFields (fields ++ (name, j) :: rest)) name = some true := by
  cases fields <;> simp [Json.ofFields, hlib.isMember]

theorem member_ofFields (hlib : lib.Lawful) {fields : List (String × Json)} (rest : List (String × Json))
    {name : String} (j : Json) (h : name ∉ fields.map Prod.fst) :
    lib.member (.ofFields (fields ++ (name, j) :: rest)) name = j := by
  have hlookup : (fields ++ (name, j) :: rest).lookup name = some j := by
    have hnone : fields.lookup name = none := by
      rw [List.lookup_eq_none_iff]
      intro p hp
      have hne : name ≠ p.1 := fun e => h (e ▸ List.mem_map_of_mem hp)
      simpa using hne
    rw [List.lookup_append, hnone]
    simp
  have hobject : Json.ofFields (fields ++ (name, j) :: rest) = .object (fields ++ (name, j) :: rest) := by
    cases fields <;> rfl
  rw [hobject, hlib.member, Json.get, hlookup, Option.getD_some]

/-- **The document of a message has every value of it.** -/
theorem hasValues_toJson (hlib : lib.Lawful) {members : MessageMembers} (hplain : members.Plain)
    (hnamed : members.Named) (v : members.Val) {fields : List (String × Json)}
    (hfields : ∀ n ∈ members.names, n ∉ fields.map Prod.fst) :
    HasValues (jsonDocument lib) members v (.ofFields (fields ++ fieldsToJson writer members v)) := by
  induction members generalizing fields with
  | nil => trivial
  | basic name typeId shape rest ih =>
    obtain ⟨x, xs⟩ := v
    rw [MessageMembers.names, List.forall_mem_cons] at hfields
    refine ⟨⟨?_, isMember_ofFields hlib _ _ _ _, ?_⟩, ?_⟩
    · rintro rfl
      exact hplain.1 (by simp)
    · have hmember := member_ofFields hlib (fieldsToJson writer rest xs)
        (shape.toJson (itemToJson writer typeId) x) hfields.1
      have helements : HasElements (jsonDocument lib) (fun y e => getJsonValue lib typeId e = some y)
          (fun y e => jsonSequenceItem lib typeId e = some y) shape x
          (shape.toJson (itemToJson writer typeId) x) :=
        hasElements_toJson hlib (getJsonValue_itemToJson hlib hplain.1)
          (jsonSequenceItem_itemToJson hlib hplain.1) shape x
      rw [← hmember] at helements
      exact helements
    · have hrest : HasValues (jsonDocument lib) rest xs (.ofFields (fields ++
          [(name, shape.toJson (itemToJson writer typeId) x)] ++ fieldsToJson writer rest xs)) :=
        ih hplain.2 hnamed.2 xs (not_mem_append_names hnamed.1 hfields.2)
      rw [List.append_assoc] at hrest
      exact hrest
  | nested name members shape rest ihmembers ihrest =>
    obtain ⟨x, xs⟩ := v
    rw [MessageMembers.names, List.forall_mem_cons] at hfields
    refine ⟨⟨isMember_ofFields hlib _ _ _ _, ?_⟩, ?_⟩
    · have hmember := member_ofFields hlib (fieldsToJson writer rest xs)
        (shape.toJson (fun y => .ofFields (fieldsToJson writer members y)) x) hfields.1
      have hmembers : ∀ y, HasValues (jsonDocument lib) members y (.ofFields (fieldsToJson writer members y)) :=
        fun y => ihmembers hplain.1 hnamed.1 y (not_mem_no_fields members)
      have helements := hasElements_toJson hlib hmembers hmembers shape x
      rw [← hmember] at helements
      exact helements
    · have hrest : HasValues (jsonDocument lib) rest xs (.ofFields (fields ++
          [(name, shape.toJson (fun y => .ofFields (fieldsToJson writer members y)) x)] ++
            fieldsToJson writer rest xs)) :=
        ihrest hplain.2 hnamed.2.2 xs (not_mem_append_names hnamed.2.1 hfields.2)
      rw [List.append_assoc] at hrest
      exact hrest

end HasValues

/-! ### The round trip -/

section RoundTrip

variable {lib : JsonCpp Json} {writer : JsonWriter}

variable (lib writer) in
/-- `MessageToJson` gives a text, and `JsonToMessage` makes the message of it. -/
def RoundTrips (defaults : ∀ members : MessageMembers, Message members) {members : MessageMembers}
    (message target : Message members) : Prop :=
  ∃ text, messageToJson writer members message.val = some text ∧
    (jsonToMessage lib (fun m => (defaults m).val) members text).Gives target.val message.val

/-- **When the round trip succeeds**: the strings of the message are kept by the writer and the reader, its
document is not nested too deeply, and the sequences of a basic type that it is written over are empty. -/
theorem json_round_trip_iff {transcode : Bytes → Bytes} {stackLimit : ℕ} (hlib : lib.Lawful)
    (defaults : ∀ members : MessageMembers, Message members) {members : MessageMembers} (hnamed : members.Named)
    (hplain : members.Plain) (message target : Message members)
    (hread : ∀ j, messageToJsonImpl writer members message.val .null = some j →
      ReadsBack lib writer transcode stackLimit j) :
    RoundTrips lib writer defaults message target ↔
      mapStrings transcode members message.val = message.val ∧
        1 + memberNesting members message.val ≤ stackLimit ∧
        Fresh (fun m => (defaults m).val) members message.val target.val := by
  obtain ⟨v, hv⟩ := message
  obtain ⟨t, ht⟩ := target
  have hjson : messageToJsonImpl writer members v .null = some (.ofFields (fieldsToJson writer members v)) :=
    messageToJsonImpl_eq hplain hnamed v (not_mem_no_fields members)
  have hparse := hread _ hjson
  rw [ReadsBack, depth_ofFields, depthFields_fieldsToJson, mapStrings_ofFields,
    mapStringsFields_fieldsToJson transcode hplain] at hparse
  have htext : ∀ text, messageToJson writer members v = some text ↔
      writer.write (.ofFields (fieldsToJson writer members v)) = text := by
    intro text
    rw [messageToJson, hjson, Option.map_some, Option.some.injEq]
  simp only [RoundTrips, htext, exists_eq_left']
  by_cases hdepth : 1 + memberNesting members v ≤ stackLimit
  · rw [if_pos hdepth] at hparse
    have hhas : HasValues (jsonDocument lib) members (mapStrings transcode members v)
        (.ofFields (fieldsToJson writer members (mapStrings transcode members v))) :=
      hasValues_toJson hlib hplain hnamed _ (not_mem_no_fields members)
    have hgives := toMessageImpl_gives (fun m => (defaults m).wf) members (wf_mapStrings transcode members hv) ht
      hhas
    have hmerge := merge_eq_iff (fun m => (defaults m).wf) transcode members hv ht
    unfold jsonToMessage toMessage
    rw [hparse]
    constructor
    · intro hback
      obtain ⟨hstrings, hfresh⟩ := hmerge.1 (hgives.value.symm.trans hback.value)
      exact ⟨hstrings, hdepth, hfresh⟩
    · rintro ⟨hstrings, -, hfresh⟩
      exact ⟨hgives.ok, hgives.value.trans (hmerge.2 ⟨hstrings, hfresh⟩)⟩
  · rw [if_neg hdepth] at hparse
    refine iff_of_false ?_ fun h => hdepth h.2.1
    intro hback
    have hok := hback.ok
    unfold jsonToMessage toMessage at hok
    rw [hparse] at hok
    exact absurd hok (by simp [Storing.fail])

end RoundTrip

/-! ### One sequence -/

theorem wf_zeros (members : MessageMembers) : members.Wf members.zeros := by
  induction members with
  | nil => trivial
  | basic name typeId shape rest ih =>
    cases shape with
    | single => exact ⟨trivial, ih⟩
    | array n => exact ⟨⟨List.length_replicate, fun _ _ => trivial⟩, ih⟩
    | sequence => exact ⟨fun _ _ => trivial, ih⟩
    | bounded n => exact ⟨⟨Nat.zero_le n, fun _ _ => trivial⟩, ih⟩
  | nested name members shape rest ihmembers ihrest =>
    cases shape with
    | single => exact ⟨ihmembers, ihrest⟩
    | array n => exact ⟨⟨List.length_replicate, fun x hx => List.eq_of_mem_replicate hx ▸ ihmembers⟩, ihrest⟩
    | sequence => exact ⟨fun x hx => absurd hx List.not_mem_nil, ihrest⟩
    | bounded n => exact ⟨⟨Nat.zero_le n, fun x hx => absurd hx List.not_mem_nil⟩, ihrest⟩

theorem plainJson_lawful (text : Bytes) (root : Json) : (plainJson text root).Lawful where
  isMember _ _ := rfl
  member _ _ := rfl
  isArray _ := rfl
  size _ := rfl
  item items i hi := by simp [plainJson, hi]
  isBool _ := rfl
  isUInt u := by
    have hlt := u.toNat_lt
    simp [plainJson]
    omega
  asBool _ := rfl
  asInt i := by
    have hle := i.le_toInt
    have hlt := i.toInt_lt
    simp [plainJson]
    omega
  asUInt u := by
    have hlt := u.toNat_lt
    simp [plainJson]
    omega
  asInt64 i := by
    have hle := i.le_toInt
    have hlt := i.toInt_lt
    simp [plainJson]
    omega
  asUInt64 u := by
    have hlt := u.toNat_lt
    simp [plainJson]
    omega
  asString _ := rfl

/-- A message with one sequence. -/
def numbers : MessageMembers := .basic "xs" .int32 .sequence .nil

def numbersMessage (xs : List Int32) : Message numbers where
  val := (xs, ())
  wf := ⟨fun _ _ => trivial, trivial⟩

/-- `{"xs":[1]}`. -/
def oneNumber : Bytes := ascii "\x7b\"xs\":[1]\x7d\n"

theorem json_round_trip_numbers :
    (plainJson oneNumber (.object [("xs", .array [.int 1])])).Lawful ∧ numbers.Named ∧ numbers.Plain ∧
      RoundTrips (plainJson oneNumber (.object [("xs", .array [.int 1])])) ⟨fun _ => 0, fun _ => oneNumber⟩
        (fun m => ⟨m.zeros, wf_zeros m⟩) (numbersMessage [1]) (numbersMessage []) := by
  have hlib := plainJson_lawful oneNumber (.object [("xs", .array [.int 1])])
  have hnamed : numbers.Named := ⟨by simp [MessageMembers.names], trivial⟩
  have hplain : numbers.Plain := ⟨by simp [TypeId.Plain], trivial⟩
  refine ⟨hlib, hnamed, hplain, ?_⟩
  have hread : ∀ j, messageToJsonImpl ⟨fun _ => 0, fun _ => oneNumber⟩ numbers (numbersMessage [1]).val .null =
      some j → ReadsBack (plainJson oneNumber (.object [("xs", .array [.int 1])])) ⟨fun _ => 0, fun _ => oneNumber⟩
        id 1000 j := by
    intro j hj
    obtain rfl : Json.object [("xs", .array [.int 1])] = j := Option.some.inj hj
    rfl
  exact (json_round_trip_iff hlib _ hnamed hplain _ _ hread).2 ⟨rfl, by decide, rfl, trivial⟩

/-- The sequence of the target keeps what it has. -/
theorem not_json_round_trip :
    ¬∀ (lib : JsonCpp Json) (writer : JsonWriter) (defaults : ∀ members : MessageMembers, Message members)
      (members : MessageMembers) (message target : Message members),
      lib.Lawful → members.Named → members.Plain →
      (∀ j, messageToJsonImpl writer members message.val .null = some j → lib.parse (writer.write j) = some j) →
      RoundTrips lib writer defaults message target := by
  intro h
  obtain ⟨text, htext, hgives⟩ := h (plainJson oneNumber (.object [("xs", .array [.int 1])]))
    ⟨fun _ => 0, fun _ => oneNumber⟩ (fun m => ⟨m.zeros, wf_zeros m⟩) numbers (numbersMessage [1])
    (numbersMessage [7]) (plainJson_lawful _ _) ⟨by simp [MessageMembers.names], trivial⟩
    ⟨by simp [TypeId.Plain], trivial⟩ fun j hj => by
      obtain rfl : Json.object [("xs", .array [.int 1])] = j := Option.some.inj hj
      rfl
  obtain rfl : oneNumber = text := Option.some.inj htext
  have hvalue : (([7, 1] : List Int32), ()) = ([1], ()) := hgives.value
  exact absurd hvalue (by decide)

end AimRT.Ros2
