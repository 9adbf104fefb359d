import AimRT.Ros2.RosMessage

/-!
# Conversions inside the message

A document is cut into the pieces that its conversion goes through: the values that it has for elements and
members, and what is wrong with it.  The conversion follows them (`toMessageImpl_follows`), whatever the
message held before, and the document fits when they are right (`fits_iff`).  All checks are made but one:
the size of a fixed array of messages is not looked at, so that its pieces are lax or beyond.
-/

namespace AimRT.Ros2

open AimRT.Lib

/-! ### What fits -/

section Fits

variable {D : Type} (doc : Document D)

/-- The document has a value for every element of an array or a sequence, as many as there may be. -/
def FitsShape (item : D → Prop) (elem : D → Prop) (d : D) : Shape → Prop
  | .single => item d
  | .array n => doc.isArray d = true ∧ doc.size d = n ∧ ∀ i : ℕ, i < n → ∃ e, doc.item d i = some e ∧ item e
  | .sequence => doc.isArray d = true ∧ ∀ i < doc.size d, ∃ e, doc.item d i = some e ∧ elem e
  | .bounded n => doc.isArray d = true ∧ doc.size d ≤ n ∧
      ∀ i < doc.size d, ∃ e, doc.item d i = some e ∧ elem e

/-- **A document fits a description**: the values that it has for members are such as the members hold. -/
def Fits : MessageMembers → D → Prop
  | .nil, _ => True
  | .basic name typeId shape rest, root =>
    (doc.isMember root name = some false ∨ doc.isMember root name = some true ∧ typeId ≠ .wstring ∧
      FitsShape doc (fun e => (doc.value typeId e).isSome) (fun e => (doc.sequenceItem typeId e).isSome)
        (doc.member root name) shape) ∧ Fits rest root
  | .nested name members shape rest, root =>
    (doc.isMember root name = some false ∨ doc.isMember root name = some true ∧
      FitsShape doc (Fits members) (Fits members) (doc.member root name) shape) ∧ Fits rest root

end Fits

/-! ### The pieces of a document -/

section Pieces

variable {D : Type} (doc : Document D)

open Piece

def valuePieces {X : Type} : Option X → List Piece
  | none => [refused]
  | some _ => [inside]

/-- The pieces of the element `i`. -/
def itemPieces (d : D) (pieces : ℕ → D → List Piece) (i : ℕ) : List Piece :=
  match doc.item d i with
  | none => [refused]
  | some e => pieces i e

/-- The pieces of a member that is no message: an array has to have the size of the member, and a sequence
as many elements as the bound at the most. -/
def memberPieces (typeId : TypeId) (d : D) : Shape → List Piece
  | .single => valuePieces (doc.value typeId d)
  | .array n =>
    if doc.isArray d && n = doc.size d then
      (List.range n).flatMap (itemPieces doc d fun _ e => valuePieces (doc.value typeId e))
    else [refused]
  | shape =>
    if doc.isArray d && !(shape.isUpperBound && doc.size d > shape.arraySize) then
      (List.range (doc.size d)).flatMap (itemPieces doc d fun _ e => valuePieces (doc.sequenceItem typeId e))
    else [refused]

/-- The pieces of a member that is a message.  The size of an array is not looked at, and what it has too
many is beyond. -/
def nestedPieces (pieces : D → List Piece) (d : D) : Shape → List Piece
  | .single => pieces d
  | .array n =>
    (if doc.isArray d && n = doc.size d then [] else [lax]) ++
      (List.range (doc.size d)).flatMap
        (itemPieces doc d fun i e => if i < n then pieces e else (pieces e).map out)
  | shape =>
    if doc.isArray d && !(shape.isUpperBound && doc.size d > shape.arraySize) then
      inside :: (List.range (doc.size d)).flatMap (itemPieces doc d fun _ e => pieces e)
    else [refused]

def ifMemberPieces (root : D) (name : String) (pieces : D → List Piece) : List Piece :=
  match doc.isMember root name with
  | none => [refused]
  | some false => []
  | some true => pieces (doc.member root name)

/-- **The pieces of a document** under a description. -/
def pieces : MessageMembers → D → List Piece
  | .nil, _ => []
  | .basic name typeId shape rest, root =>
    ifMemberPieces doc root name (fun d =>
      if typeId = .wstring then [refused] else memberPieces doc typeId d shape) ++ pieces rest root
  | .nested name members shape rest, root =>
    ifMemberPieces doc root name (fun d => nestedPieces doc (pieces members) d shape) ++ pieces rest root

end Pieces

/-! ### A document goes through its pieces -/

section Follows

variable {D T : Type} {doc : Document D}

open Piece Storing

theorem writeMemberItem_follows (typeId : TypeId) (d : D) :
    (writeMemberItem doc typeId d).Follows (valuePieces (doc.value typeId d)) := by
  unfold writeMemberItem
  cases doc.value typeId d with
  | none => exact fail_follows
  | some x => exact put_follows x

theorem writeSequenceMemberItem_follows (typeId : TypeId) (d : D) :
    (writeSequenceMemberItem doc typeId d).Follows (valuePieces (doc.sequenceItem typeId d)) := by
  unfold writeSequenceMemberItem
  cases doc.sequenceItem typeId d with
  | none => exact fail_follows
  | some x => exact modify_follows _

theorem withItem_follows {d : D} {i : ℕ} {f : D → Storing T} {ps : ℕ → D → List Piece}
    (hf : ∀ e, (f e).Follows (ps i e)) : (withItem doc d i f).Follows (itemPieces doc d ps i) := by
  unfold withItem itemPieces
  cases doc.item d i with
  | none => exact fail_follows
  | some e => exact hf e

theorem ifMember_follows {root : D} {name : String} {f : D → Storing T} {ps : D → List Piece}
    (hf : ∀ d, (f d).Follows (ps d)) : (ifMember doc root name f).Follows (ifMemberPieces doc root name ps) := by
  unfold ifMember ifMemberPieces
  match doc.isMember root name with
  | none => exact fail_follows
  | some false => exact skip_follows
  | some true => exact hf _

/-- An element that there is. -/
theorem element_follows {i n : ℕ} (hi : i < n) {default : T} {f : Storing T} {ps : List Piece} (hf : f.Follows ps) :
    (element i n default f).Follows ps := by
  have helement : (element i n default f).Follows (if i < n then ps else ps.map out) := hf.element
  rwa [if_pos hi] at helement

/-- The checks of a sequence. -/
theorem sequence_follows {d : D} {shape : Shape} {f : Storing T} {ps : List Piece} (hf : f.Follows ps) :
    (if doc.isArray d then (if shape.isUpperBound && doc.size d > shape.arraySize then .fail else f)
      else .fail : Storing T).Follows
      (if doc.isArray d && !(shape.isUpperBound && doc.size d > shape.arraySize) then ps else [refused]) := by
  cases doc.isArray d with
  | false => simpa using fail_follows
  | true =>
    cases hbound : shape.isUpperBound && decide (doc.size d > shape.arraySize) with
    | true => simpa using fail_follows
    | false => simpa using hf

theorem writeMember_follows (typeId : TypeId) (d : D) (shape : Shape) :
    (writeMember doc typeId d shape).Follows (memberPieces doc typeId d shape) := by
  have heach : (Storing.each (fun i => withItem doc d i (writeSequenceMemberItem doc typeId))
      (List.range (doc.size d))).Follows ((List.range (doc.size d)).flatMap
        (itemPieces doc d fun _ e => valuePieces (doc.sequenceItem typeId e))) :=
    .each fun i _ => withItem_follows fun e => writeSequenceMemberItem_follows typeId e
  cases shape with
  | single => exact writeMemberItem_follows typeId d
  | array n =>
    simp only [writeMember, memberPieces]
    split
    · refine .each fun i hi => withItem_follows fun e => ?_
      exact element_follows (List.mem_range.1 hi) (writeMemberItem_follows typeId e)
    · exact fail_follows
  | sequence => exact sequence_follows heach
  | bounded n => exact sequence_follows heach

theorem writeMemberNested_follows {default : T} {convert : D → Storing T} {ps : D → List Piece}
    (hconvert : ∀ e, (convert e).Follows (ps e)) (d : D) (shape : Shape) :
    (writeMemberNested doc default convert d shape).Follows (nestedPieces doc ps d shape) := by
  have hseq : ((Storing.modify (resize (doc.size d) default)).andThen
      (.each (fun i => withItem doc d i fun e => .element i (doc.size d) default (convert e))
        (List.range (doc.size d)))).Follows
      (inside :: (List.range (doc.size d)).flatMap (itemPieces doc d fun _ e => ps e)) := by
    refine (modify_follows _).andThen (.each fun i hi => withItem_follows fun e => ?_)
    exact element_follows (List.mem_range.1 hi) (hconvert e)
  cases shape with
  | single => exact hconvert d
  | array n =>
    have heach : (writeMemberNested doc default convert d (.array n)).Follows
        ((List.range (doc.size d)).flatMap
          (itemPieces doc d fun i e => if i < n then ps e else (ps e).map out)) :=
      .each fun i _ => withItem_follows fun e => (hconvert e).element
    -- the size of the array is not looked at
    by_cases hsize : (doc.isArray d && (n : ℕ) = doc.size d) = true
    · simpa only [nestedPieces, if_pos hsize, List.nil_append] using heach
    · simpa only [nestedPieces, if_neg hsize, List.singleton_append] using heach.lax_cons
  | sequence => exact sequence_follows hseq
  | bounded n => exact sequence_follows hseq

/-- **The conversion goes through the pieces of the document.** -/
theorem toMessageImpl_follows (defaults : Defaults) (members : MessageMembers) (root : D) :
    (toMessageImpl doc defaults members root).Follows (pieces doc members root) := by
  induction members generalizing root with
  | nil => exact skip_follows
  | basic name typeId shape rest ih =>
    refine Follows.andThen (Follows.onFst (ifMember_follows fun d => ?_)) (Follows.onSnd (ih root))
    split
    · exact fail_follows
    · exact writeMember_follows typeId d shape
  | nested name members shape rest ihmembers ihrest =>
    refine Follows.andThen (Follows.onFst (ifMember_follows fun d => ?_)) (Follows.onSnd (ihrest root))
    exact writeMemberNested_follows ihmembers d shape

end Follows

/-! ### A document fits when its pieces are right -/

section Right

variable {D : Type} {doc : Document D}

open Piece

theorem right_valuePieces {X : Type} {x : Option X} : Right (valuePieces x) ↔ x.isSome = true := by
  cases x <;> simp [valuePieces]

theorem right_itemPieces {d : D} {ps : ℕ → D → List Piece} {i : ℕ} :
    Right (itemPieces doc d ps i) ↔ ∃ e, doc.item d i = some e ∧ Right (ps i e) := by
  unfold itemPieces
  cases doc.item d i <;> simp

theorem right_ifMemberPieces {root : D} {name : String} {ps : D → List Piece} :
    Right (ifMemberPieces doc root name ps) ↔
      doc.isMember root name = some false ∨
        doc.isMember root name = some true ∧ Right (ps (doc.member root name)) := by
  unfold ifMemberPieces
  match doc.isMember root name with
  | none => simp
  | some false => simp
  | some true => simp

theorem right_if {p : Prop} [Decidable p] {ps : List Piece} :
    Right (if p then ps else [refused]) ↔ p ∧ Right ps := by
  split <;> simp [*]

theorem right_memberPieces (typeId : TypeId) (d : D) (shape : Shape) :
    Right (memberPieces doc typeId d shape) ↔
      FitsShape doc (fun e => (doc.value typeId e).isSome) (fun e => (doc.sequenceItem typeId e).isSome)
        d shape := by
  cases shape with
  | single => exact right_valuePieces
  | array n =>
    simp only [memberPieces, FitsShape, right_if, right_flatMap, right_itemPieces, right_valuePieces,
      List.mem_range, Bool.and_eq_true, decide_eq_true_eq, and_assoc, eq_comm (a := doc.size d)]
  | sequence =>
    simp [memberPieces, FitsShape, right_if, right_itemPieces, right_valuePieces, Shape.isUpperBound]
  | bounded n =>
    simp [memberPieces, FitsShape, right_if, right_itemPieces, right_valuePieces, Shape.isUpperBound,
      Shape.arraySize, and_assoc]

theorem right_nestedPieces {ps : D → List Piece} {fits : D → Prop} (hps : ∀ e, fits e ↔ Right (ps e)) (d : D)
    (shape : Shape) : Right (nestedPieces doc ps d shape) ↔ FitsShape doc fits fits d shape := by
  cases shape with
  | single => exact (hps d).symm
  | array n =>
    by_cases hsize : (doc.isArray d && (n : ℕ) = doc.size d) = true
    · simp only [nestedPieces, if_pos hsize]
      rw [Bool.and_eq_true, decide_eq_true_eq] at hsize
      simp only [List.nil_append, right_flatMap, List.mem_range, right_itemPieces, ← hsize.2, FitsShape,
        hsize.1, true_and]
      refine forall₂_congr fun i hi => ?_
      simp only [if_pos hi, hps]
    · have hnot : ¬FitsShape doc fits fits d (.array n) := by
        rintro ⟨harray, hn, -⟩
        simp [harray, hn] at hsize
      simp only [nestedPieces, if_neg hsize, hnot, right_append, not_right_lax, false_and]
  | sequence => simp [nestedPieces, FitsShape, right_if, right_itemPieces, Shape.isUpperBound, hps]
  | bounded n =>
    simp [nestedPieces, FitsShape, right_if, right_itemPieces, Shape.isUpperBound, Shape.arraySize, hps,
      and_assoc]

theorem fits_iff (members : MessageMembers) (root : D) :
    Fits doc members root ↔ Right (pieces doc members root) := by
  induction members generalizing root with
  | nil => simp [Fits, pieces]
  | basic name typeId shape rest ih =>
    rw [Fits, pieces, right_append, right_ifMemberPieces, ih]
    by_cases hw : typeId = .wstring <;> simp [hw, right_memberPieces]
  | nested name members shape rest ihmembers ihrest =>
    rw [Fits, pieces, right_append, right_ifMemberPieces, ihrest, right_nestedPieces ihmembers]

end Right

/-! ### Texts -/

section Text

variable {Text D : Type} (parse : Text → Option D) (doc : Document D)

open Piece

/-- The text is one of a document that fits. -/
def FitsText (members : MessageMembers) (text : Text) : Prop :=
  ∃ root, parse text = some root ∧ Fits doc members root

/-- The pieces of a text. -/
def textPieces (members : MessageMembers) (text : Text) : List Piece :=
  match parse text with
  | none => [refused]
  | some root => pieces doc members root

variable {parse doc}

/-- **When a conversion is safe**: it writes inside the message and refuses what does not fit if and only if
no array of messages makes it go beyond, or is taken without being right, before something else is refused. -/
theorem toMessage_sound_iff (defaults : Defaults) (members : MessageMembers) (text : Text)
    (message : members.Val) :
    ((∀ w ∈ (toMessage parse doc defaults members text message).writes, w.inside = true) ∧
      (¬FitsText parse doc members text → (toMessage parse doc defaults members text message).ok = false)) ↔
      Sound (textPieces parse doc members text) := by
  have hfollows : (toMessage parse doc defaults members text).Follows (textPieces parse doc members text) := by
    unfold toMessage textPieces
    cases parse text with
    | none => exact Storing.fail_follows
    | some root => exact toMessageImpl_follows defaults members root
  refine hfollows.sound_iff ?_ message
  unfold FitsText textPieces
  cases parse text with
  | none => simp
  | some root => simp [fits_iff]

end Text

end AimRT.Ros2
