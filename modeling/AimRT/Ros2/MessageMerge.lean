import AimRT.Ros2.RosMessage

/-!
# What a message becomes

A document that has every value of a message `w` (`HasValues`) turns a message `t` into `merge w t`: elements and
arrays are overwritten, sequences of messages get the size of those in `w`, but sequences of a basic type keep
what they have in front.  So `merge w t` is `w` when these are empty in `t`, as far as they are reached
(`Fresh`).
-/

namespace AimRT.Ros2

open AimRT.Lib AimRT.Util

/-! ### Messages -/

namespace Shape

/-- What holds of the elements, with as many of them as there may be. -/
def Holds {T : Type} (P : T → Prop) : (shape : Shape) → shape.Of T → Prop
  | single, x => P x
  | array n, (l : List T) => l.length = n ∧ ∀ x ∈ l, P x
  | sequence, (l : List T) => ∀ x ∈ l, P x
  | bounded n, (l : List T) => l.length ≤ n ∧ ∀ x ∈ l, P x

end Shape

/-- The arrays of the message have their sizes, and the bounded sequences are in their bounds. -/
def MessageMembers.Wf : (members : MessageMembers) → members.Val → Prop
  | nil, _ => True
  | basic _ _ shape rest, (x, xs) => shape.Holds (fun _ => True) x ∧ rest.Wf xs
  | nested _ members shape rest, (x, xs) => shape.Holds members.Wf x ∧ rest.Wf xs

/-- The messages of a C++ type. -/
structure Message (members : MessageMembers) where
  val : members.Val
  wf : members.Wf val

/-! ### A document with every value -/

section HasValues

variable {D T : Type} (doc : Document D)

/-- The document has the elements. -/
def HasElements (item elem : T → D → Prop) : (shape : Shape) → shape.Of T → D → Prop
  | .single, x, d => item x d
  | .array _, (l : List T), d => doc.isArray d = true ∧ doc.size d = l.length ∧
      ∀ i (hi : i < l.length), ∃ e, doc.item d i = some e ∧ item l[i] e
  | .sequence, (l : List T), d => doc.isArray d = true ∧ doc.size d = l.length ∧
      ∀ i (hi : i < l.length), ∃ e, doc.item d i = some e ∧ elem l[i] e
  | .bounded _, (l : List T), d => doc.isArray d = true ∧ doc.size d = l.length ∧
      ∀ i (hi : i < l.length), ∃ e, doc.item d i = some e ∧ elem l[i] e

/-- The document has every value of the message. -/
def HasValues : (members : MessageMembers) → members.Val → D → Prop
  | .nil, _, _ => True
  | .basic name typeId shape rest, (x, xs), root =>
    (typeId ≠ .wstring ∧ doc.isMember root name = some true ∧
      HasElements doc (fun y e => doc.value typeId e = some y) (fun y e => doc.sequenceItem typeId e = some y)
        shape x (doc.member root name)) ∧ HasValues rest xs root
  | .nested name members shape rest, (x, xs), root =>
    (doc.isMember root name = some true ∧
      HasElements doc (HasValues members) (HasValues members) shape x (doc.member root name)) ∧
      HasValues rest xs root

end HasValues

/-! ### The message that comes out -/

section Merge

variable {T : Type} (defaults : Defaults)

/-- What is written over a member of a basic type. -/
def Shape.put : (shape : Shape) → shape.Of T → shape.Of T → shape.Of T
  | single, w, _ => w
  | array _, w, _ => w
  | sequence, (w : List T), (t : List T) => t ++ w
  | bounded _, (w : List T), (t : List T) => t ++ w

/-- What is written over a member that is a message. -/
def Shape.mergeWith (default : T) (f : T → T → T) : (shape : Shape) → shape.Of T → shape.Of T → shape.Of T
  | single, w, t => f w t
  | array _, w, t => List.zipWith f w t
  | sequence, (w : List T), t => List.zipWith f w (resize w.length default t)
  | bounded _, (w : List T), t => List.zipWith f w (resize w.length default t)

/-- The message `w` over the message `t`. -/
def merge : (members : MessageMembers) → members.Val → members.Val → members.Val
  | .nil, _, _ => ()
  | .basic _ _ shape rest, (w, ws), (t, ts) => (shape.put w t, merge rest ws ts)
  | .nested _ members shape rest, (w, ws), (t, ts) =>
    (shape.mergeWith (defaults members) (merge members) w t, merge rest ws ts)

/-- The target has nothing where something is appended. -/
def Shape.Empty : (shape : Shape) → shape.Of T → Prop
  | single, _ => True
  | array _, _ => True
  | sequence, t => t = ([] : List T)
  | bounded _, t => t = ([] : List T)

/-- What holds of the elements and of those that they are written over. -/
def Shape.Over (default : T) (P : T → T → Prop) : (shape : Shape) → shape.Of T → shape.Of T → Prop
  | single, w, t => P w t
  | array _, w, t => List.Forall₂ P w t
  | sequence, (w : List T), t => List.Forall₂ P w (resize w.length default t)
  | bounded _, (w : List T), t => List.Forall₂ P w (resize w.length default t)

/-- **The sequences of a basic type are empty** in the target, as far as the message `w` is written over it. -/
def Fresh : (members : MessageMembers) → members.Val → members.Val → Prop
  | .nil, _, _ => True
  | .basic _ _ shape rest, (_, ws), (t, ts) => shape.Empty t ∧ Fresh rest ws ts
  | .nested _ members shape rest, (w, ws), (t, ts) =>
    shape.Over (defaults members) (Fresh members) w t ∧ Fresh rest ws ts

end Merge

/-! ### The conversion gives the merged message -/

section Gives

variable {D T : Type} {doc : Document D}

open Storing

theorem length_resize (n : ℕ) (default : T) (l : List T) : (resize n default l).length = n := by
  simp only [resize, List.length_append, List.length_take, List.length_replicate]
  omega

theorem mem_resize {n : ℕ} {default x : T} {l : List T} (h : x ∈ resize n default l) : x ∈ l ∨ x = default := by
  rcases List.mem_append.1 h with h | h
  · exact Or.inl (List.mem_of_mem_take h)
  · exact Or.inr (List.eq_of_mem_replicate h)

theorem withItem_of_some {d e : D} {i : ℕ} (h : doc.item d i = some e) (f : D → Storing T) :
    withItem doc d i f = f e := by
  simp [withItem, h]

/-- The elements of a document one after the other. -/
theorem each_item_gives {d : D} {n : ℕ} {beyond : T} {convert : D → Storing T} {l r : List T}
    (hlen : r.length = l.length)
    (hitem : ∀ i (hl : i < l.length) (hr : i < r.length), ∃ e, doc.item d i = some e ∧
      (convert e).Gives l[i] r[i]) :
    (each (fun i => withItem doc d i fun e => element i n beyond (convert e)) (List.range l.length)).Gives l r := by
  have hcongr : each (fun i => withItem doc d i fun e => element i n beyond (convert e)) (List.range l.length) =
      each (fun i => element i n beyond (withItem doc d i convert)) (List.range l.length) := by
    refine each_congr fun i hi => ?_
    rw [List.mem_range] at hi
    obtain ⟨e, he, -⟩ := hitem i hi (by omega)
    rw [withItem_of_some he, withItem_of_some he]
  rw [hcongr]
  refine each_element_gives hlen fun i hl hr => ?_
  obtain ⟨e, he, hgives⟩ := hitem i hl hr
  rwa [withItem_of_some he]

theorem Shape.not_tooLarge (shape : Shape) {n : ℕ} (h : shape.isUpperBound = true → n ≤ shape.arraySize) :
    (shape.isUpperBound && n > shape.arraySize) = false := by
  cases hupper : shape.isUpperBound with
  | false => rfl
  | true =>
    have hle := h hupper
    simp only [Bool.true_and, decide_eq_false_iff_not]
    omega

theorem writeSequence_gives {typeId : TypeId} {shape : Shape} {d : D} {w : List typeId.CppType}
    (hsize : doc.size d = w.length) (hbound : shape.isUpperBound = true → w.length ≤ shape.arraySize)
    (hitem : ∀ i (hi : i < w.length), ∃ e, doc.item d i = some e ∧ doc.sequenceItem typeId e = some w[i])
    (t : List typeId.CppType) : (writeSequence doc typeId shape d).Gives t (t ++ w) := by
  have hcheck : (shape.isUpperBound && doc.size d > shape.arraySize) = false :=
    shape.not_tooLarge (hsize ▸ hbound)
  have hcongr : each (fun i => withItem doc d i (writeSequenceMemberItem doc typeId)) (List.range w.length) =
      each (fun i => modify (· ++ [w[i]?.getD typeId.zero])) (List.range w.length) := by
    refine each_congr fun i hi => ?_
    rw [List.mem_range] at hi
    obtain ⟨e, he, hvalue⟩ := hitem i hi
    rw [withItem_of_some he]
    simp [writeSequenceMemberItem, hvalue, hi]
  have hmap : (List.range w.length).map (fun i => w[i]?.getD typeId.zero) = w := by
    refine List.ext_getElem (by simp) fun i hi hw => ?_
    simp [hw]
  rw [writeSequence, hcheck, hsize, hcongr]
  have hgives := each_append_gives (fun i => w[i]?.getD typeId.zero) (List.range w.length) t
  rwa [hmap] at hgives

theorem writeMember_gives {typeId : TypeId} {shape : Shape} {d : D} {w t : shape.Of typeId.CppType}
    (hw : shape.Holds (fun _ => True) w) (ht : shape.Holds (fun _ => True) t)
    (hhas : HasElements doc (fun y e => doc.value typeId e = some y)
      (fun y e => doc.sequenceItem typeId e = some y) shape w d) :
    (writeMember doc typeId d shape).Gives t (shape.put w t) := by
  cases shape with
  | single =>
    have hvalue : doc.value typeId d = some w := hhas
    rw [writeMember, writeMemberItem, hvalue]
    exact put_gives w t
  | array n =>
    obtain ⟨harray, hsize, hitem⟩ := hhas
    change List typeId.CppType at w t
    have hlen : t.length = n := ht.1
    have hlenw : w.length = n := hw.1
    have hcheck : (doc.isArray d && (n : ℕ) = doc.size d) = true := by simp [harray, hsize, hlenw]
    rw [writeMember, if_pos hcheck, ← hlen]
    refine each_item_gives (hlenw.trans hlen.symm) fun i hl hr => ?_
    obtain ⟨e, he, hvalue⟩ := hitem i hr
    refine ⟨e, he, ?_⟩
    rw [writeMemberItem, hvalue]
    exact put_gives _ _
  | sequence =>
    obtain ⟨harray, hsize, hitem⟩ := hhas
    have hwrite : writeMember doc typeId d .sequence = writeSequence doc typeId .sequence d := if_pos harray
    rw [hwrite]
    exact writeSequence_gives hsize (fun h => absurd h (by simp [Shape.isUpperBound])) hitem t
  | bounded n =>
    obtain ⟨harray, hsize, hitem⟩ := hhas
    have hwrite : writeMember doc typeId d (.bounded n) = writeSequence doc typeId (.bounded n) d :=
      if_pos harray
    rw [hwrite]
    have hbound : (Shape.bounded n).isUpperBound = true → List.length w ≤ (Shape.bounded n).arraySize :=
      fun _ => hw.1
    exact writeSequence_gives hsize hbound hitem t

theorem writeMemberSequenceNested_gives {shape : Shape} {d : D} {default : T} {convert : D → Storing T}
    {f : T → T → T} {w t : List T} (hsize : doc.size d = w.length)
    (hbound : shape.isUpperBound = true → w.length ≤ shape.arraySize)
    (hitem : ∀ i (hi : i < w.length), ∃ e, doc.item d i = some e ∧
      ∀ y, y ∈ t ∨ y = default → (convert e).Gives y (f w[i] y)) :
    (writeMemberSequenceNested doc default convert shape d).Gives t
      (List.zipWith f w (resize w.length default t)) := by
  have hcheck : (shape.isUpperBound && doc.size d > shape.arraySize) = false :=
    shape.not_tooLarge (hsize ▸ hbound)
  have hlen : (resize w.length default t).length = w.length := length_resize _ _ _
  rw [writeMemberSequenceNested, hcheck, hsize]
  refine (modify_gives _ t).andThen ?_
  have heach : (each (fun i => withItem doc d i fun e => element i w.length default (convert e))
      (List.range (resize w.length default t).length)).Gives (resize w.length default t)
      (List.zipWith f w (resize w.length default t)) := by
    refine each_item_gives (by simp [hlen]) fun i hl hr => ?_
    obtain ⟨e, he, hgives⟩ := hitem i (by omega)
    refine ⟨e, he, ?_⟩
    rw [List.getElem_zipWith]
    exact hgives _ (mem_resize (List.getElem_mem hl))
  rwa [hlen] at heach

theorem writeMemberNested_gives {shape : Shape} {d : D} {default : T} {convert : D → Storing T} {P : T → Prop}
    {item : T → D → Prop} {f : T → T → T} {w t : shape.Of T} (hdefault : P default) (hw : shape.Holds P w)
    (ht : shape.Holds P t)
    (hconvert : ∀ x y e, P x → P y → item x e → (convert e).Gives y (f x y))
    (hhas : HasElements doc item item shape w d) :
    (writeMemberNested doc default convert d shape).Gives t (shape.mergeWith default f w t) := by
  cases shape with
  | single => exact hconvert w t d hw ht hhas
  | array n =>
    obtain ⟨harray, hsize, hitem⟩ := hhas
    change List T at w t
    have hlen : t.length = n := ht.1
    have hlenw : w.length = n := hw.1
    rw [writeMemberNested, hsize, hlenw, ← hlen]
    refine each_item_gives (by simp [Shape.mergeWith, hlen, hlenw]) fun i hl hr => ?_
    have hi : i < w.length := by omega
    obtain ⟨e, he, hxe⟩ := hitem i hi
    refine ⟨e, he, ?_⟩
    have hgives := hconvert _ _ e (hw.2 _ (List.getElem_mem hi)) (ht.2 _ (List.getElem_mem hl)) hxe
    rwa [← List.getElem_zipWith (f := f) (h := hr)] at hgives
  | sequence =>
    obtain ⟨harray, hsize, hitem⟩ := hhas
    have hwrite : writeMemberNested doc default convert d .sequence =
        writeMemberSequenceNested doc default convert .sequence d := if_pos harray
    rw [hwrite]
    refine writeMemberSequenceNested_gives hsize (fun h => absurd h (by simp [Shape.isUpperBound])) fun i hi => ?_
    obtain ⟨e, he, hxe⟩ := hitem i hi
    refine ⟨e, he, fun y hy => hconvert _ _ e (hw _ (List.getElem_mem hi)) ?_ hxe⟩
    rcases hy with hy | rfl
    · exact ht y hy
    · exact hdefault
  | bounded n =>
    obtain ⟨harray, hsize, hitem⟩ := hhas
    have hwrite : writeMemberNested doc default convert d (.bounded n) =
        writeMemberSequenceNested doc default convert (.bounded n) d := if_pos harray
    rw [hwrite]
    refine writeMemberSequenceNested_gives hsize (fun _ => hw.1) fun i hi => ?_
    obtain ⟨e, he, hxe⟩ := hitem i hi
    refine ⟨e, he, fun y hy => hconvert _ _ e (hw.2 _ (List.getElem_mem hi)) ?_ hxe⟩
    rcases hy with hy | rfl
    · exact ht.2 y hy
    · exact hdefault

theorem ifMember_of_mem {root : D} {name : String} (h : doc.isMember root name = some true)
    (f : D → Storing T) : ifMember doc root name f = f (doc.member root name) := by
  simp [ifMember, h]

/-- **What a document with every value makes of a message.** -/
theorem toMessageImpl_gives {defaults : Defaults}
    (hdefaults : ∀ members : MessageMembers, members.Wf (defaults members)) (members : MessageMembers) {root : D}
    {w t : members.Val} (hw : members.Wf w) (ht : members.Wf t)
    (hhas : HasValues doc members w root) :
    (toMessageImpl doc defaults members root).Gives t (merge defaults members w t) := by
  induction members generalizing root with
  | nil => exact skip_gives _
  | basic name typeId shape rest ih =>
    obtain ⟨⟨hstring, hmember, hvalues⟩, hrest⟩ := hhas
    have hfirst : (ifMember doc root name fun d =>
        if typeId = .wstring then .fail else writeMember doc typeId d shape).Gives t.1 (shape.put w.1 t.1) := by
      rw [ifMember_of_mem hmember, if_neg hstring]
      exact writeMember_gives hw.1 ht.1 hvalues
    exact (hfirst.onFst t.2).andThen ((ih hw.2 ht.2 hrest).onSnd _)
  | nested name members shape rest ihmembers ihrest =>
    obtain ⟨⟨hmember, hvalues⟩, hrest⟩ := hhas
    have hfirst : (ifMember doc root name fun d =>
        writeMemberNested doc (defaults members) (toMessageImpl doc defaults members) d shape).Gives t.1
        (shape.mergeWith (defaults members) (merge defaults members) w.1 t.1) := by
      rw [ifMember_of_mem hmember]
      exact writeMemberNested_gives (hdefaults members) hw.1 ht.1
        (fun x y e hx hy hxe => ihmembers hx hy hxe) hvalues
    exact (hfirst.onFst t.2).andThen ((ihrest hw.2 ht.2 hrest).onSnd _)

end Gives

/-! ### When the message is the one in the document -/

def TypeId.mapString (f : Bytes → Bytes) : (typeId : TypeId) → typeId.CppType → typeId.CppType
  | .string, (s : Bytes) => f s
  | _, x => x

def Shape.map {S T : Type} (f : S → T) : (shape : Shape) → shape.Of S → shape.Of T
  | single, x => f x
  | array _, (l : List S) => l.map f
  | sequence, (l : List S) => l.map f
  | bounded _, (l : List S) => l.map f

/-- The message with its strings changed. -/
def mapStrings (f : Bytes → Bytes) : (members : MessageMembers) → members.Val → members.Val
  | .nil, _ => ()
  | .basic _ typeId shape rest, (x, xs) => (shape.map (typeId.mapString f) x, mapStrings f rest xs)
  | .nested _ members shape rest, (x, xs) => (shape.map (mapStrings f members) x, mapStrings f rest xs)

section Fresh

variable {T : Type}

theorem Shape.Holds.map {P : T → Prop} {f : T → T} (h : ∀ x, P x → P (f x)) {shape : Shape} {x : shape.Of T}
    (hx : shape.Holds P x) : shape.Holds P (shape.map f x) := by
  cases shape with
  | single => exact h _ hx
  | array n => exact ⟨(List.length_map f).trans hx.1, List.forall_mem_map.2 fun y hy => h y (hx.2 y hy)⟩
  | sequence => exact List.forall_mem_map.2 fun y hy => h y (hx y hy)
  | bounded n =>
    exact ⟨(List.length_map f).le.trans hx.1, List.forall_mem_map.2 fun y hy => h y (hx.2 y hy)⟩

theorem wf_mapStrings (f : Bytes → Bytes) (members : MessageMembers) {v : members.Val} (hv : members.Wf v) :
    members.Wf (mapStrings f members v) := by
  induction members with
  | nil => exact hv
  | basic name typeId shape rest ih => exact ⟨hv.1.map fun _ _ => trivial, ih hv.2⟩
  | nested name members shape rest ihmembers ihrest => exact ⟨hv.1.map fun _ h => ihmembers h, ihrest hv.2⟩

theorem append_map_eq_iff (f : T → T) (l t : List T) : t ++ l.map f = l ↔ l.map f = l ∧ t = [] := by
  constructor
  · intro h
    have hlen := congrArg List.length h
    have ht : t = [] := List.length_eq_zero_iff.1 (by simp only [List.length_append, List.length_map] at hlen; omega)
    subst ht
    exact ⟨h, rfl⟩
  · rintro ⟨h, rfl⟩
    exact h

theorem Shape.put_map_eq_iff (f : T → T) {shape : Shape} (v t : shape.Of T) :
    shape.put (shape.map f v) t = v ↔ shape.map f v = v ∧ shape.Empty t := by
  cases shape with
  | single => exact (and_iff_left trivial).symm
  | array n => exact (and_iff_left trivial).symm
  | sequence => exact append_map_eq_iff f v t
  | bounded n => exact append_map_eq_iff f v t

theorem zipWith_map_eq_iff {f : T → T → T} {m : T → T} {P : T → T → Prop} {l t : List T}
    (hlen : t.length = l.length) (h : ∀ x ∈ l, ∀ y ∈ t, f (m x) y = x ↔ m x = x ∧ P x y) :
    List.zipWith f (l.map m) t = l ↔ l.map m = l ∧ List.Forall₂ P l t := by
  induction l generalizing t with
  | nil =>
    rw [List.length_nil, List.length_eq_zero_iff] at hlen
    simp [hlen]
  | cons x l ih =>
    obtain ⟨y, t, rfl⟩ := List.exists_cons_of_length_eq_add_one hlen
    have hx := h x (by simp) y (by simp)
    have hl := ih (t := t) (by simpa using hlen) fun x' hx' y' hy' =>
      h x' (List.mem_cons_of_mem _ hx') y' (List.mem_cons_of_mem _ hy')
    simp only [List.map_cons, List.zipWith_cons_cons, List.cons.injEq, List.forall₂_cons, hx, hl]
    tauto

theorem Shape.mergeWith_map_eq_iff {default : T} {f : T → T → T} {m : T → T} {P : T → T → Prop} {Q : T → Prop}
    {shape : Shape} {v t : shape.Of T} (hdefault : Q default) (hv : shape.Holds Q v) (ht : shape.Holds Q t)
    (h : ∀ x y, Q x → Q y → (f (m x) y = x ↔ m x = x ∧ P x y)) :
    shape.mergeWith default f (shape.map m v) t = v ↔ shape.map m v = v ∧ shape.Over default P v t := by
  have hsequence : ∀ l s : List T, (∀ x ∈ l, Q x) → (∀ y ∈ s, Q y) →
      (List.zipWith f (l.map m) (resize (l.map m).length default s) = l ↔
        l.map m = l ∧ List.Forall₂ P l (resize l.length default s)) := by
    intro l s hl hs
    rw [List.length_map]
    refine zipWith_map_eq_iff (length_resize _ _ _) fun x hx y hy => h x y (hl x hx) ?_
    rcases mem_resize hy with hy | rfl
    · exact hs y hy
    · exact hdefault
  cases shape with
  | single => exact h v t hv ht
  | array n =>
    refine zipWith_map_eq_iff (ht.1.trans hv.1.symm) fun x hx y hy => ?_
    exact h x y (hv.2 x hx) (ht.2 y hy)
  | sequence => exact hsequence v t hv ht
  | bounded n => exact hsequence v t hv.2 ht.2

theorem pair_eq_iff {S : Type} {a a' x : S} {b b' y : T} {p q : Prop} (ha : a' = x ↔ a = x ∧ p)
    (hb : b' = y ↔ b = y ∧ q) : (a', b') = (x, y) ↔ (a, b) = (x, y) ∧ p ∧ q := by
  rw [Prod.mk.injEq, Prod.mk.injEq, ha, hb]
  tauto

/-- **When the merged message is the message of the document.** -/
theorem merge_eq_iff {defaults : Defaults} (hdefaults : ∀ members : MessageMembers, members.Wf (defaults members))
    (f : Bytes → Bytes) (members : MessageMembers) {v t : members.Val} (hv : members.Wf v) (ht : members.Wf t) :
    merge defaults members (mapStrings f members v) t = v ↔
      mapStrings f members v = v ∧ Fresh defaults members v t := by
  induction members with
  | nil => exact iff_of_true rfl ⟨rfl, trivial⟩
  | basic name typeId shape rest ih =>
    obtain ⟨x, xs⟩ := v
    obtain ⟨y, ys⟩ := t
    exact pair_eq_iff (Shape.put_map_eq_iff (typeId.mapString f) x y) (ih hv.2 ht.2)
  | nested name members shape rest ihmembers ihrest =>
    obtain ⟨x, xs⟩ := v
    obtain ⟨y, ys⟩ := t
    have hfirst := Shape.mergeWith_map_eq_iff (f := merge defaults members) (P := Fresh defaults members)
      (hdefaults members) hv.1 ht.1 fun x y hx hy => ihmembers hx hy
    exact pair_eq_iff hfirst (ihrest hv.2 ht.2)

end Fresh

end AimRT.Ros2
