import AimRT.Lib.LittleEndian

/-!
# Lexical normal forms of paths

The components of a path between its slashes, and what is left of them when `.` is dropped and `..`
takes the component in front of it away.  A path whose new components are none of them `..` stays
inside what it goes on from.
-/

namespace AimRT.Lib.LexicalPath

def slash : UInt8 := 47

def dotDot : Bytes := [46, 46]

def components : Bytes → List Bytes
  | [] => [[]]
  | b :: s =>
    if b = slash then [] :: components s
    else (b :: (components s).headD []) :: (components s).tail

theorem components_cons (b : UInt8) (s : Bytes) : components (b :: s) =
    if b = slash then [] :: components s else (b :: (components s).headD []) :: (components s).tail := rfl

/-- One more component behind those of `stack`, the last of which comes first. -/
def enter (absolute : Bool) (stack : List Bytes) (component : Bytes) : List Bytes :=
  if component = [] ∨ component = [46] then stack
  else if component = dotDot then
    match stack with
    | [] => if absolute then [] else [dotDot]
    | top :: stack => if top = dotDot then dotDot :: top :: stack else stack
  else component :: stack

/-- The components of the normal form, the last one first. -/
def normal (path : Bytes) : List Bytes :=
  (components path).foldl (enter (path.head? = some slash)) []

/-- The normal form of `path` goes on from the normal form of `root`. -/
def Inside (root path : Bytes) : Prop := normal root <:+ normal path

variable {s path rest : Bytes}

theorem components_ne_nil : ∀ s : Bytes, components s ≠ []
  | [] => List.cons_ne_nil _ _
  | b :: s => by
    rw [components_cons]
    split <;> exact List.cons_ne_nil _ _

theorem components_append_slash (s rest : Bytes) :
    components (s ++ slash :: rest) = components s ++ components rest := by
  induction s with
  | nil => rfl
  | cons b s ih =>
    rw [List.cons_append, components_cons, components_cons]
    split
    · rw [ih]
      rfl
    · obtain ⟨c, cs, hcs⟩ := List.exists_cons_of_ne_nil (components_ne_nil s)
      rw [ih, hcs]
      rfl

theorem infix_of_mem_components {c : Bytes} (h : c ∈ components s) : c <:+: s := by
  have hfirst : ∀ s : Bytes, (components s).headD [] <+: s := by
    intro s
    induction s with
    | nil => exact List.nil_prefix
    | cons b s ih =>
      rw [components_cons]
      split
      · exact List.nil_prefix
      · exact List.cons_prefix_cons.2 ⟨rfl, ih⟩
  induction s with
  | nil =>
    obtain rfl := List.mem_singleton.1 h
    exact List.nil_infix
  | cons b s ih =>
    rw [components_cons] at h
    split at h
    · rcases List.mem_cons.1 h with rfl | h
      · exact List.nil_infix
      · exact List.infix_cons (ih h)
    · rcases List.mem_cons.1 h with rfl | h
      · exact (List.cons_prefix_cons.2 ⟨rfl, hfirst s⟩).isInfix
      · exact List.infix_cons (ih (List.mem_of_mem_tail h))

/-- Components other than `..` take nothing away. -/
theorem suffix_foldl_enter (absolute : Bool) {cs : List Bytes} (h : dotDot ∉ cs)
    (stack : List Bytes) : stack <:+ cs.foldl (enter absolute) stack := by
  induction cs generalizing stack with
  | nil => exact List.suffix_rfl
  | cons c cs ih =>
    obtain ⟨hc, hcs⟩ := not_or.1 (mt List.mem_cons.2 h)
    refine List.IsSuffix.trans ?_ (ih hcs _)
    unfold enter
    rw [if_neg (Ne.symm hc)]
    split
    · exact List.suffix_rfl
    · exact List.suffix_cons c stack

/-- What goes on from a root with a slash, and without `..`, stays inside. -/
theorem inside_append_slash (root : Bytes) (h : dotDot ∉ components rest) :
    Inside root (root ++ slash :: rest) := by
  cases root with
  | nil => exact List.nil_suffix
  | cons b root =>
    unfold Inside normal
    rw [components_append_slash, List.foldl_append]
    exact suffix_foldl_enter _ h _

/-- A slash at the end does not change the normal form. -/
theorem normal_append_slash {root : Bytes} (h : root ≠ []) : normal (root ++ [slash]) = normal root := by
  obtain ⟨b, root, rfl⟩ := List.exists_cons_of_ne_nil h
  unfold normal
  rw [components_append_slash, List.foldl_append]
  rfl

end AimRT.Lib.LexicalPath
