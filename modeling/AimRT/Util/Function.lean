import AimRT.Lib.Holding
import AimRT.Lib.Run

/-!
# Functions across the C interface

`aimrt::util::Function` keeps a callable behind the C struct `aimrt_function_base_t`: a small one lies in the buffer of
the struct, and a large one is allocated and the buffer has the pointer to it.  The operations of the struct call the
callable, relocate it to another buffer and destroy it.  A `Function` is empty when it has no operations.

A small callable that is relocated is made anew in the other buffer and destroyed in the first one.  What was in the
buffer of a `Function` that has become empty stays there, and nobody looks at it.

* `allHold_sound_iff`: in a run of operations on any number of `Function`s, each that is not empty has a callable of its
  own that is alive, and every callable that is alive is some `Function`'s, at all times, exactly if no empty `Function`
  is called and no callable throws while it is made for an assignment;
* `run_refines_cells`: in such a run the `Function`s are cells from which values are moved, and what is called are the values
  that were put into them.
-/

namespace AimRT.Util

open AimRT.Lib

/-! ### The operations -/

/-- The two operate structs that `ConstructorImpl` makes: for a callable in the buffer, and for one that is allocated. -/
inductive FunctionOps where
  | inBuffer
  | allocated
  deriving DecidableEq, Repr

/-- `aimrt_function_base_t`.  A callable is told by a number; `objectBuf` is the one that is in the buffer, or to which
the pointer in the buffer leads, if there is one or was. -/
structure FunctionBase where
  objectBuf : Option ℕ
  ops : Option FunctionOps
  deriving DecidableEq, Repr

/-- The `Function`s, by their addresses, and the callables that are alive, with their values. -/
structure Functions (V : Type) where
  bases : ℕ → Option FunctionBase
  callables : ℕ → Option V
  next : ℕ
  /-- The values of the callables that were called. -/
  calls : List V
  /-- A callable that is not alive was called, moved or destroyed. -/
  fault : Bool

/-- What a `Function` is made from: a null pointer or an empty `std::function`, a callable, or one that throws while it
is copied or allocated. -/
inductive Action (V : Type) where
  | null
  | made (ops : FunctionOps) (v : V)
  | throws (ops : FunctionOps)

namespace Functions

variable {V : Type}

def init : Functions V := ⟨fun _ => none, fun _ => none, 0, [], false⟩

def setBase (s : Functions V) (f : ℕ) (b : Option FunctionBase) : Functions V :=
  { s with bases := Function.update s.bases f b }

/-- The callable of a buffer, if it is alive. -/
def find (s : Functions V) (objectBuf : Option ℕ) : Option (ℕ × V) := do
  let c ← objectBuf
  let v ← s.callables c
  return (c, v)

/-- A callable is made. -/
def create (s : Functions V) (v : V) : Functions V :=
  { s with callables := Function.update s.callables s.next (some v), next := s.next + 1 }

def erase (s : Functions V) (c : ℕ) : Functions V := { s with callables := Function.update s.callables c none }

def invoker (s : Functions V) (objectBuf : Option ℕ) : Functions V :=
  match s.find objectBuf with
  | some (_, v) => { s with calls := s.calls ++ [v] }
  | none => { s with fault := true }

def destroyer (s : Functions V) (objectBuf : Option ℕ) : Functions V :=
  match s.find objectBuf with
  | some (c, _) => s.erase c
  | none => { s with fault := true }

/-- What is in the buffer to which the callable of another buffer is relocated. -/
def relocator (s : Functions V) (ops : FunctionOps) (objectBuf : Option ℕ) : Option ℕ × Functions V :=
  match ops with
  | .allocated => (objectBuf, s)
  | .inBuffer =>
    match s.find objectBuf with
    | some (c, v) => (some s.next, (s.create v).erase c)
    | none => (none, { s with fault := true })

/-- `~Function`, for the base `b`. -/
def destruct (s : Functions V) (b : FunctionBase) : Functions V :=
  match b.ops with
  | some _ => s.destroyer b.objectBuf
  | none => s

/-- `Function(Function&&)` and `Function(aimrt_function_base_t*)`, at `f` from the base `b` at `g`. -/
def takeFrom (s : Functions V) (f g : ℕ) (b : FunctionBase) : Functions V :=
  let s := s.setBase g (some { b with ops := none })
  match b.ops with
  | some ops =>
    let (objectBuf, s) := s.relocator ops b.objectBuf
    s.setBase f (some ⟨objectBuf, some ops⟩)
  | none => s.setBase f (some ⟨none, none⟩)

/-- `ConstructorImpl` at `f`. -/
def constructorImpl (s : Functions V) (f : ℕ) (ops : FunctionOps) (v : V) : Functions V :=
  (s.create v).setBase f (some ⟨some s.next, some ops⟩)

end Functions

inductive FunctionOp (V : Type) where
  /-- `Function()` and `Function(nullptr)`. -/
  | construct (f : ℕ)
  | fromAction (f : ℕ) (action : Action V)
  | fromFunction (f g : ℕ)
  /-- From the native handle of another one, or from a null pointer. -/
  | fromHandle (f : ℕ) (handle : Option ℕ)
  | assignFunction (f g : ℕ)
  | assignAction (f : ℕ) (action : Action V)
  | assignNull (f : ℕ)
  | call (f : ℕ)
  | destroy (f : ℕ)

namespace Functions

variable {V : Type}

/-- An operation on a `Function` that is not there is not made, nor a construction where there is one. -/
def step (s : Functions V) : FunctionOp V → Functions V
  | .construct f =>
    match s.bases f with
    | none => s.setBase f (some ⟨none, none⟩)
    | some _ => s
  | .fromAction f action =>
    match s.bases f, action with
    | none, .null => s.setBase f (some ⟨none, none⟩)
    | none, .made ops v => s.constructorImpl f ops v
    | none, .throws _ => s
    | some _, _ => s
  | .fromFunction f g =>
    match s.bases f, s.bases g with
    | none, some b => s.takeFrom f g b
    | _, _ => s
  | .fromHandle f none =>
    match s.bases f with
    | none => s.setBase f (some ⟨none, none⟩)
    | some _ => s
  | .fromHandle f (some g) =>
    match s.bases f, s.bases g with
    | none, some b => s.takeFrom f g b
    | _, _ => s
  | .assignFunction f g =>
    match s.bases f, s.bases g with
    | some a, some b => if f = g then s else (s.destruct a).takeFrom f g b
    | _, _ => s
  | .assignAction f action =>
    match s.bases f, action with
    | some a, .null => (s.destruct a).setBase f (some ⟨none, none⟩)
    | some a, .made ops v => (s.destruct a).constructorImpl f ops v
    -- the operations are written before the callable is made, and the struct keeps them
    | some a, .throws ops =>
      (s.destruct a).setBase f (some ⟨if ops = .allocated then a.objectBuf else none, some ops⟩)
    | none, _ => s
  | .assignNull f =>
    match s.bases f with
    | some a => (s.destruct a).setBase f (some { a with ops := none })
    | none => s
  | .call f =>
    match s.bases f with
    | some a => s.invoker (a.ops.bind fun _ => a.objectBuf)
    | none => s
  | .destroy f =>
    match s.bases f with
    | some a => (s.destruct a).setBase f none
    | none => s

/-- An assignment that throws leaves the operations of the callable that was not made. -/
theorem step_assignAction_throws {s : Functions V} {f : ℕ} {a : FunctionBase} (ha : s.bases f = some a)
    (ops : FunctionOps) : s.step (.assignAction f (.throws ops)) =
      (s.destruct a).setBase f (some ⟨if ops = .allocated then a.objectBuf else none, some ops⟩) := by
  simp [step, ha]

/-! ### Who has which callable -/

/-- The callable of a base that has operations. -/
def callable (b : Option FunctionBase) : Option ℕ := b.bind fun b => b.ops.bind fun _ => b.objectBuf

def held (s : Functions V) (f : ℕ) : Option ℕ := callable (s.bases f)

/-- Nothing dead was touched, a `Function` with operations has a callable, and each callable that is alive belongs to
just one. -/
structure Sound (s : Functions V) : Prop where
  fault : s.fault = false
  full : ∀ {f b}, s.bases f = some b → b.ops.isSome → b.objectBuf.isSome
  owns : Owns s.held s.callables

structure Inv (s : Functions V) : Prop extends Sound s where
  fresh : ∀ {c}, s.next ≤ c → s.callables c = none

/-- An assignment does not throw, and an empty `Function` is not called. -/
def Meets (s : Functions V) : FunctionOp V → Prop
  | .assignAction f (.throws _) => s.bases f = none
  | .call f => ∀ b ∈ s.bases f, b.ops ≠ none
  | _ => True

end Functions

/-! ### Cells -/

/-- What `Function`s are for: cells that are there or not, and have a value or none. -/
structure FunctionCells (V : Type) where
  cells : ℕ → Option (Option V)
  calls : List V

namespace FunctionCells

variable {V : Type}

def init : FunctionCells V := ⟨fun _ => none, []⟩

def set (s : FunctionCells V) (f : ℕ) (x : Option (Option V)) : FunctionCells V :=
  { s with cells := Function.update s.cells f x }

/-- A cell that is there gets another value, or none. -/
def assign (s : FunctionCells V) (f : ℕ) (x : Option V) : FunctionCells V :=
  match s.cells f with
  | some _ => s.set f (some x)
  | none => s

/-- A cell is made. -/
def make (s : FunctionCells V) (f : ℕ) (x : Option V) : FunctionCells V :=
  match s.cells f with
  | none => s.set f (some x)
  | some _ => s

def step (s : FunctionCells V) : FunctionOp V → FunctionCells V
  | .construct f => s.make f none
  | .fromAction f .null => s.make f none
  | .fromAction f (.made _ v) => s.make f (some v)
  | .fromAction _ (.throws _) => s
  | .fromHandle f none => s.make f none
  -- the value is taken out of the cell `g`
  | .fromFunction f g | .fromHandle f (some g) =>
    match s.cells f, s.cells g with
    | none, some x => (s.set g (some none)).set f (some x)
    | _, _ => s
  | .assignFunction f g =>
    match s.cells f, s.cells g with
    | some _, some x => if f = g then s else (s.set g (some none)).set f (some x)
    | _, _ => s
  | .assignAction f .null => s.assign f none
  | .assignAction f (.made _ v) => s.assign f (some v)
  | .assignAction _ (.throws _) => s
  | .assignNull f => s.assign f none
  | .call f =>
    match s.cells f with
    | some (some v) => { s with calls := s.calls ++ [v] }
    | _ => s
  | .destroy f => s.set f none

theorem step_call {s : FunctionCells V} {f : ℕ} {v : V} (hf : s.cells f = some (some v)) :
    s.step (.call f) = { s with calls := s.calls ++ [v] } := by
  simp [step, hf]

end FunctionCells

namespace Functions

variable {V : Type} {s : Functions V} {f g c : ℕ} {a b : FunctionBase} {v : V}

/-- The cells that `Function`s are. -/
def toCells (s : Functions V) : FunctionCells V :=
  ⟨fun f => (s.bases f).map fun _ => contents s.held s.callables f, s.calls⟩

@[simp] theorem setBase_bases (s : Functions V) (f : ℕ) (x : Option FunctionBase) :
    (s.setBase f x).bases = Function.update s.bases f x := rfl

@[simp] theorem setBase_callables (s : Functions V) (f : ℕ) (x : Option FunctionBase) :
    (s.setBase f x).callables = s.callables := rfl

@[simp] theorem setBase_calls (s : Functions V) (f : ℕ) (x : Option FunctionBase) : (s.setBase f x).calls = s.calls :=
  rfl

theorem held_eq (s : Functions V) : s.held = fun f => callable (s.bases f) := rfl

@[simp] theorem held_setBase (s : Functions V) (f : ℕ) (x : Option FunctionBase) :
    (s.setBase f x).held = Function.update s.held f (callable x) := by
  rw [held_eq, held_eq, setBase_bases]
  exact Function.comp_update callable s.bases f x

/-- What the cells are when one `Function` has changed. -/
theorem toCells_eq_set {s' : Functions V} {x : Option FunctionBase} {y : Option V}
    (hbases : s'.bases = Function.update s.bases f x)
    (hcontents : contents s'.held s'.callables = Function.update (contents s.held s.callables) f y)
    (hcalls : s'.calls = s.calls) : s'.toCells = s.toCells.set f (x.map fun _ => y) := by
  unfold toCells FunctionCells.set
  rw [hbases, hcontents, hcalls]
  congr 1
  funext g
  rcases eq_or_ne g f with rfl | hne
  · rw [Function.update_self, Function.update_self, Function.update_self]
  · rw [Function.update_of_ne hne, Function.update_of_ne hne, Function.update_of_ne hne]

theorem held_eq_some_iff : s.held f = some c ↔ ∃ b, s.bases f = some b ∧ b.ops.isSome ∧ b.objectBuf = some c := by
  unfold held callable
  rw [Option.bind_eq_some_iff]
  refine exists_congr fun b => and_congr_right fun _ => ?_
  cases b.ops <;> simp

theorem Inv.find_eq (h : Inv s) (hb : s.bases f = some b) {ops : FunctionOps} (hops : b.ops = some ops) :
    ∃ c v, b.objectBuf = some c ∧ s.held f = some c ∧ s.callables c = some v ∧ s.find b.objectBuf = some (c, v) := by
  have hsome : b.ops.isSome := by rw [hops]; rfl
  obtain ⟨c, hc⟩ := Option.isSome_iff_exists.1 (h.full hb hsome)
  have hheld : s.held f = some c := held_eq_some_iff.2 ⟨b, hb, hsome, hc⟩
  obtain ⟨v, hv⟩ := h.owns.exists_live hheld
  refine ⟨c, v, hc, hheld, hv, ?_⟩
  rw [hc]
  simp [find, hv]

/-! ### One operation -/

/-- A place that holds nothing becomes an empty `Function`, or none. -/
theorem Inv.setEmpty (h : Inv s) (hf : s.held f = none) {x : Option FunctionBase} (hx : ∀ b ∈ x, b.ops = none) :
    Inv (s.setBase f x) ∧ (s.setBase f x).toCells = s.toCells.set f (x.map fun _ => none) := by
  have hcallable : callable x = none := by
    cases x with
    | none => rfl
    | some b => simp [callable, hx b rfl]
  have hheld : (s.setBase f x).held = s.held := by rw [held_setBase, hcallable, ← hf, Function.update_eq_self]
  refine ⟨⟨⟨h.fault, fun {g b} hb hops => ?_, hheld.symm ▸ h.owns⟩, h.fresh⟩, toCells_eq_set rfl ?_ rfl⟩
  · rcases update_eq_some hb with ⟨rfl, heq⟩ | ⟨-, hb⟩
    · rw [hx b heq] at hops
      cases hops
    · exact h.full hb hops
  · have hnone : contents s.held s.callables f = none := by rw [contents, hf, Option.bind_none]
    rw [hheld, setBase_callables, ← hnone, Function.update_eq_self]

/-- `~Function`, with what becomes of the place. -/
theorem Inv.destruct (h : Inv s) (ha : s.bases f = some a) {x : Option FunctionBase} (hx : ∀ b ∈ x, b.ops = none) :
    Inv ((s.destruct a).setBase f x) ∧
      ((s.destruct a).setBase f x).toCells = s.toCells.set f (x.map fun _ => none) := by
  unfold Functions.destruct
  cases hops : a.ops with
  | none => exact h.setEmpty (by simp [held, callable, ha, hops]) hx
  | some ops =>
    obtain ⟨c, v, -, hheld, hv, hfind⟩ := h.find_eq ha hops
    have hcallable : callable x = none := by
      cases x with
      | none => rfl
      | some b => simp [callable, hx b rfl]
    have heq : s.destroyer a.objectBuf = s.erase c := by rw [destroyer, hfind]
    have hheld' : ((s.erase c).setBase f x).held = Function.update s.held f none := by
      rw [held_setBase, hcallable]
      rfl
    simp only [heq]
    refine ⟨⟨⟨h.fault, fun {g b} hb hops => ?_, ?_⟩, fun {d} hd => ?_⟩, toCells_eq_set rfl ?_ rfl⟩
    · rcases update_eq_some hb with ⟨rfl, heq⟩ | ⟨-, hb⟩
      · rw [hx b heq] at hops
        cases hops
      · exact h.full hb hops
    · rw [hheld']
      exact h.owns.drop hheld
    · show Function.update s.callables c none d = none
      rcases eq_or_ne d c with rfl | hne
      · exact Function.update_self ..
      · rw [Function.update_of_ne hne]
        exact h.fresh hd
    · rw [hheld']
      exact contents_drop h.owns hheld

/-- `ConstructorImpl`, where nothing is held. -/
theorem Inv.constructorImpl (h : Inv s) (hf : s.held f = none) (ops : FunctionOps) (v : V) :
    Inv (s.constructorImpl f ops v) ∧ (s.constructorImpl f ops v).toCells = s.toCells.set f (some (some v)) := by
  have hnext := h.fresh le_rfl
  have hheld : (s.constructorImpl f ops v).held = Function.update s.held f (some s.next) := held_setBase ..
  refine ⟨⟨⟨h.fault, fun {g b} hb hops => ?_, ?_⟩, fun {d} hd => ?_⟩,
    toCells_eq_set (x := some ⟨some s.next, some ops⟩) (y := some v) rfl ?_ rfl⟩
  · rcases update_eq_some hb with ⟨rfl, heq⟩ | ⟨-, hb⟩
    · rw [← Option.some.inj heq]
      rfl
    · exact h.full hb hops
  · rw [hheld]
    exact h.owns.put hf hnext
  · show Function.update s.callables s.next (some v) d = none
    have hd : s.next + 1 ≤ d := hd
    rw [Function.update_of_ne (by omega)]
    exact h.fresh (by omega)
  · rw [hheld]
    exact contents_put h.owns hnext

theorem contents_update_none (held : ℕ → Option ℕ) (live : ℕ → Option V) (g : ℕ) :
    contents (Function.update held g none) live = Function.update (contents held live) g none := by
  funext k
  rcases eq_or_ne k g with rfl | hne
  · rw [contents, Function.update_self, Function.update_self, Option.bind_none]
  · rw [contents, Function.update_of_ne hne, Function.update_of_ne hne, contents]

/-- A base that has lost its operations and one that has got a callable: the `Function`s with operations have callables
still. -/
theorem Inv.full_update (h : Inv s) {x y : FunctionBase} (hx : x.ops = none) (hy : y.objectBuf.isSome) {k : ℕ}
    (hb : Function.update (Function.update s.bases g (some x)) f (some y) k = some b) (hops : b.ops.isSome) :
    b.objectBuf.isSome := by
  rcases update_eq_some hb with ⟨-, heq⟩ | ⟨-, hb⟩
  · rwa [← Option.some.inj heq]
  · rcases update_eq_some hb with ⟨-, heq⟩ | ⟨-, hb⟩
    · rw [← Option.some.inj heq, hx] at hops
      cases hops
    · exact h.full hb hops

/-- A `Function` that is made from another one. -/
theorem Inv.takeFrom (h : Inv s) (hf : s.held f = none) (hb : s.bases g = some b) (hne : f ≠ g) :
    Inv (s.takeFrom f g b) ∧
      (s.takeFrom f g b).toCells =
        (s.toCells.set g (some none)).set f (some (contents s.held s.callables g)) := by
  have hheldg : (s.setBase g (some { b with ops := none })).held = Function.update s.held g none := held_setBase ..
  have hcells : (s.setBase g (some { b with ops := none })).toCells = s.toCells.set g (some none) :=
    toCells_eq_set (x := some _) rfl (by rw [hheldg]; exact contents_update_none ..) rfl
  unfold Functions.takeFrom
  cases hops : b.ops with
  | none =>
    have hg : s.held g = none := by simp [held, callable, hb, hops]
    obtain ⟨hinv, -⟩ := h.setEmpty hg (x := some { b with ops := none }) (by rintro _ ⟨rfl⟩; rfl)
    have hf' : (s.setBase g (some { b with ops := none })).held f = none := by
      rw [hheldg, Function.update_of_ne hne, hf]
    obtain ⟨hinv', hcells'⟩ := hinv.setEmpty hf' (x := some ⟨none, none⟩) (by rintro _ ⟨rfl⟩; rfl)
    refine ⟨hinv', hcells'.trans ?_⟩
    rw [hcells, contents, hg, Option.bind_none, Option.map_some]
  | some ops =>
    obtain ⟨c, v, hc, hheld, hv, hfind⟩ := h.find_eq hb hops
    have hf' : Function.update s.held g none f = none := by rw [Function.update_of_ne hne, hf]
    cases ops with
    | allocated =>
      have hheld' : ((s.setBase g (some { b with ops := none })).setBase f (some ⟨b.objectBuf, some .allocated⟩)).held =
          Function.update (Function.update s.held g none) f (some c) := by
        rw [held_setBase, hheldg, ← hc]
        rfl
      refine ⟨⟨⟨h.fault, fun {k x} hx hxops => ?_, ?_⟩, h.fresh⟩, ?_⟩
      · exact h.full_update rfl (by rw [hc]; rfl) hx hxops
      · show Owns (Functions.held (Functions.setBase _ _ _)) _
        rw [hheld']
        exact h.owns.move hheld hf
      · rw [← hcells]
        refine toCells_eq_set (x := some _) rfl ?_ rfl
        show contents (Functions.held (Functions.setBase _ _ _)) _ = _
        rw [hheld', hheldg, setBase_callables, contents_update_none]
        exact contents_move hheld
    | inBuffer =>
      have hfresh := h.fresh le_rfl
      have hnext : s.next ≠ c := fun heq => by
        rw [← heq, hfresh] at hv
        cases hv
      have hreloc : (s.setBase g (some { b with ops := none })).relocator .inBuffer b.objectBuf =
          (some s.next, ((s.setBase g (some { b with ops := none })).create v).erase c) := by
        have hfind' : (s.setBase g (some { b with ops := none })).find b.objectBuf = some (c, v) := hfind
        simp only [relocator, hfind']
        rfl
      simp only [hreloc]
      generalize hs : (((s.setBase g (some { b with ops := none })).create v).erase c).setBase f
        (some ⟨some s.next, some .inBuffer⟩) = s'
      have hheld' : s'.held = Function.update (Function.update s.held g none) f (some s.next) := by
        rw [← hs, held_setBase, ← hheldg]
        rfl
      have hlive : s'.callables = Function.update (Function.update s.callables c none) s.next (some v) := by
        rw [← hs, Function.update_comm hnext.symm]
        rfl
      have hdead : Function.update s.callables c none s.next = none := by
        rw [Function.update_of_ne hnext, hfresh]
      subst hs
      refine ⟨⟨⟨h.fault, fun {k x} hx hxops => h.full_update rfl rfl hx hxops, ?_⟩, fun {d} hd => ?_⟩, ?_⟩
      · rw [hheld', hlive]
        exact (h.owns.drop hheld).put hf' hdead
      · have hd : s.next + 1 ≤ d := hd
        rw [hlive, Function.update_of_ne (by omega)]
        rcases eq_or_ne d c with rfl | hdc
        · exact Function.update_self ..
        · rw [Function.update_of_ne hdc]
          exact h.fresh (by omega)
      · rw [← hcells]
        refine toCells_eq_set (x := some _) rfl ?_ rfl
        rw [hheld', hlive, hheldg, setBase_callables, contents_update_none, contents_put (h.owns.drop hheld) hdead,
          contents_drop h.owns hheld, contents_eq hheld, hv]

/-! ### Assignments -/

theorem setBase_setBase (s : Functions V) (f : ℕ) (x y : Option FunctionBase) :
    (s.setBase f x).setBase f y = s.setBase f y := by
  unfold setBase
  rw [Function.update_idem]

theorem setBase_comm (s : Functions V) (hne : f ≠ g) (x y : Option FunctionBase) :
    (s.setBase f x).setBase g y = (s.setBase g y).setBase f x := by
  unfold setBase
  rw [Function.update_comm hne]

theorem relocator_setBase (s : Functions V) (f : ℕ) (x : Option FunctionBase) (ops : FunctionOps)
    (objectBuf : Option ℕ) :
    (s.setBase f x).relocator ops objectBuf =
      ((s.relocator ops objectBuf).1, (s.relocator ops objectBuf).2.setBase f x) := by
  have hfind : (s.setBase f x).find objectBuf = s.find objectBuf := rfl
  cases ops with
  | allocated => rfl
  | inBuffer =>
    simp only [relocator, hfind]
    cases s.find objectBuf <;> rfl

theorem constructorImpl_setBase (s : Functions V) (f : ℕ) (x : Option FunctionBase) (ops : FunctionOps) (v : V) :
    (s.setBase f x).constructorImpl f ops v = s.constructorImpl f ops v :=
  setBase_setBase (s.create v) f x _

theorem takeFrom_setBase (s : Functions V) (hne : f ≠ g) (x : Option FunctionBase) (b : FunctionBase) :
    (s.setBase f x).takeFrom f g b = s.takeFrom f g b := by
  unfold Functions.takeFrom
  cases b.ops with
  | none =>
    simp only [setBase_comm s hne]
    exact setBase_setBase _ f x _
  | some ops =>
    simp only [setBase_comm s hne, relocator_setBase]
    exact setBase_setBase _ f x _

end Functions

namespace FunctionCells

variable {V : Type} {f g : ℕ}

theorem set_set (s : FunctionCells V) (f : ℕ) (x y : Option (Option V)) : (s.set f x).set f y = s.set f y := by
  unfold set
  rw [Function.update_idem]

theorem set_comm (s : FunctionCells V) (hne : f ≠ g) (x y : Option (Option V)) :
    (s.set f x).set g y = (s.set g y).set f x := by
  unfold set
  rw [Function.update_comm hne]

theorem set_eq_self (s : FunctionCells V) {x : Option (Option V)} (h : s.cells f = x) : s.set f x = s := by
  unfold set
  rw [← h, Function.update_eq_self]

end FunctionCells

namespace Functions

variable {V : Type} {s : Functions V} {f g c : ℕ} {a b : FunctionBase} {v : V}

theorem toCells_of_none (h : s.bases f = none) : s.toCells.cells f = none := by
  show (s.bases f).map _ = none
  rw [h]
  rfl

theorem toCells_of_some (h : s.bases f = some a) :
    s.toCells.cells f = some (contents s.held s.callables f) := by
  show (s.bases f).map _ = _
  rw [h]
  rfl

theorem held_of_none (h : s.bases f = none) : s.held f = none := by
  rw [held, h]
  rfl

theorem Inv.assignAction (h : Inv s) (ha : s.bases f = some a) (ops : FunctionOps) (v : V) :
    Inv ((s.destruct a).constructorImpl f ops v) ∧
      ((s.destruct a).constructorImpl f ops v).toCells = s.toCells.set f (some (some v)) := by
  obtain ⟨hinv, hcells⟩ := h.destruct ha (x := none) (by rintro _ ⟨⟩)
  obtain ⟨hinv', hcells'⟩ := hinv.constructorImpl (held_of_none (Function.update_self ..)) ops v
  rw [constructorImpl_setBase] at hinv' hcells'
  refine ⟨hinv', hcells'.trans ?_⟩
  rw [hcells, FunctionCells.set_set]

theorem Inv.assignFunction (h : Inv s) (ha : s.bases f = some a) (hb : s.bases g = some b) (hne : f ≠ g) :
    Inv ((s.destruct a).takeFrom f g b) ∧
      ((s.destruct a).takeFrom f g b).toCells =
        (s.toCells.set g (some none)).set f (some (contents s.held s.callables g)) := by
  obtain ⟨hinv, hcells⟩ := h.destruct ha (x := none) (by rintro _ ⟨⟩)
  have hbases : (s.destruct a).bases = s.bases := by
    unfold Functions.destruct destroyer
    cases a.ops with
    | none => rfl
    | some ops => cases s.find a.objectBuf <;> rfl
  have hb' : ((s.destruct a).setBase f none).bases g = some b := by
    rw [setBase_bases, Function.update_of_ne hne.symm, hbases, hb]
  -- the other cell is as it was
  have hsame := toCells_of_some hb'
  rw [hcells] at hsame
  have hcontents : contents ((s.destruct a).setBase f none).held ((s.destruct a).setBase f none).callables g =
      contents s.held s.callables g := by
    have hcell : (s.toCells.set f none).cells g = s.toCells.cells g := Function.update_of_ne hne.symm ..
    rw [Option.map_none, hcell, toCells_of_some hb] at hsame
    exact (Option.some.inj hsame).symm
  obtain ⟨hinv', hcells'⟩ := hinv.takeFrom (held_of_none (Function.update_self ..)) hb' hne
  rw [takeFrom_setBase _ hne] at hinv' hcells'
  refine ⟨hinv', hcells'.trans ?_⟩
  rw [hcontents, hcells, Option.map_none, FunctionCells.set_comm _ hne, FunctionCells.set_set]

/-! ### Runs -/

/-- A new empty `Function`. -/
theorem Inv.make (h : Inv s) (hf : s.bases f = none) :
    Inv (s.setBase f (some ⟨none, none⟩)) ∧
      (s.setBase f (some ⟨none, none⟩)).toCells = s.toCells.set f (some none) :=
  h.setEmpty (held_of_none hf) (by rintro _ ⟨rfl⟩; rfl)

/-- A `Function` that is made from another one, if there is one to make it from. -/
theorem Inv.step_fromFunction (h : Inv s) (f g : ℕ) :
    Inv (s.step (.fromFunction f g)) ∧
      (s.step (.fromFunction f g)).toCells = s.toCells.step (.fromFunction f g) := by
  cases hf : s.bases f with
  | some a => simpa [Functions.step, FunctionCells.step, toCells_of_some hf, hf] using h
  | none =>
    cases hg : s.bases g with
    | none => simpa [Functions.step, FunctionCells.step, toCells_of_none hf, toCells_of_none hg, hf, hg] using h
    | some b =>
      have hne : f ≠ g := fun heq => by
        rw [heq, hg] at hf
        cases hf
      simpa [Functions.step, FunctionCells.step, toCells_of_none hf, toCells_of_some hg, hf, hg] using
        h.takeFrom (held_of_none hf) hg hne

theorem Inv.step_assignFunction (h : Inv s) (f g : ℕ) :
    Inv (s.step (.assignFunction f g)) ∧
      (s.step (.assignFunction f g)).toCells = s.toCells.step (.assignFunction f g) := by
  cases hf : s.bases f with
  | none => simpa [Functions.step, FunctionCells.step, toCells_of_none hf, hf] using h
  | some a =>
    cases hg : s.bases g with
    | none => simpa [Functions.step, FunctionCells.step, toCells_of_some hf, toCells_of_none hg, hf, hg] using h
    | some b =>
      rcases eq_or_ne f g with rfl | hne
      · simpa [Functions.step, FunctionCells.step, toCells_of_some hf, hf] using h
      · simpa [Functions.step, FunctionCells.step, toCells_of_some hf, toCells_of_some hg, hf, hg, hne] using
          h.assignFunction hf hg hne

/-- A call runs the value of the cell. -/
theorem Inv.step_call (h : Inv s) (hop : s.Meets (.call f)) :
    Inv (s.step (.call f)) ∧ (s.step (.call f)).toCells = s.toCells.step (.call f) := by
  cases hf : s.bases f with
  | none => simpa [Functions.step, FunctionCells.step, toCells_of_none hf, hf] using h
  | some a =>
    obtain ⟨ops, hops⟩ := Option.ne_none_iff_exists'.1 (hop a hf)
    obtain ⟨c, v, -, hheld, hv, hfind⟩ := h.find_eq hf hops
    have hstep : s.step (.call f) = { s with calls := s.calls ++ [v] } := by
      simp [Functions.step, hf, hops, invoker, hfind]
    have hcell : s.toCells.cells f = some (some v) := by rw [toCells_of_some hf, contents_eq hheld, hv]
    rw [hstep]
    refine ⟨⟨⟨h.fault, h.full, h.owns⟩, h.fresh⟩, ?_⟩
    rw [FunctionCells.step_call hcell]
    rfl

/-- **One operation** that meets the condition is one of the cells. -/
theorem Inv.step (h : Inv s) {op : FunctionOp V} (hop : s.Meets op) :
    Inv (s.step op) ∧ (s.step op).toCells = s.toCells.step op := by
  cases op with
  | construct f =>
    cases hf : s.bases f with
    | none => simpa [Functions.step, FunctionCells.step, FunctionCells.make, toCells_of_none hf, hf] using h.make hf
    | some a => simpa [Functions.step, FunctionCells.step, FunctionCells.make, toCells_of_some hf, hf] using h
  | fromAction f action =>
    cases hf : s.bases f with
    | none =>
      cases action with
      | null => simpa [Functions.step, FunctionCells.step, FunctionCells.make, toCells_of_none hf, hf] using h.make hf
      | made ops v =>
        simpa [Functions.step, FunctionCells.step, FunctionCells.make, toCells_of_none hf, hf] using
          h.constructorImpl (held_of_none hf) ops v
      | throws ops => simpa [Functions.step, FunctionCells.step, hf] using h
    | some a =>
      cases action <;>
        simpa [Functions.step, FunctionCells.step, FunctionCells.make, toCells_of_some hf, hf] using h
  | fromFunction f g => exact h.step_fromFunction f g
  | fromHandle f handle =>
    cases handle with
    | some g => exact h.step_fromFunction f g
    | none =>
      cases hf : s.bases f with
      | none => simpa [Functions.step, FunctionCells.step, FunctionCells.make, toCells_of_none hf, hf] using h.make hf
      | some a => simpa [Functions.step, FunctionCells.step, FunctionCells.make, toCells_of_some hf, hf] using h
  | assignFunction f g => exact h.step_assignFunction f g
  | assignAction f action =>
    cases hf : s.bases f with
    | none => cases action <;> simpa [Functions.step, FunctionCells.step, FunctionCells.assign, toCells_of_none hf, hf] using h
    | some a =>
      cases action with
      | null =>
        simpa [Functions.step, FunctionCells.step, FunctionCells.assign, toCells_of_some hf, hf] using
          h.destruct hf (x := some ⟨none, none⟩) (by rintro _ ⟨rfl⟩; rfl)
      | made ops v =>
        simpa [Functions.step, FunctionCells.step, FunctionCells.assign, toCells_of_some hf, hf] using
          h.assignAction hf ops v
      | throws ops =>
        have hnone : s.bases f = none := hop
        rw [hf] at hnone
        cases hnone
  | assignNull f =>
    cases hf : s.bases f with
    | none => simpa [Functions.step, FunctionCells.step, FunctionCells.assign, toCells_of_none hf, hf] using h
    | some a =>
      simpa [Functions.step, FunctionCells.step, FunctionCells.assign, toCells_of_some hf, hf] using
        h.destruct hf (x := some { a with ops := none }) (by rintro _ ⟨rfl⟩; rfl)
  | call f => exact h.step_call hop
  | destroy f =>
    cases hf : s.bases f with
    | none =>
      have hself : s.toCells.step (.destroy f) = s.toCells := FunctionCells.set_eq_self _ (toCells_of_none hf)
      rw [hself]
      simpa [Functions.step, hf] using h
    | some a =>
      simpa [Functions.step, FunctionCells.step, hf] using h.destruct hf (x := none) (by rintro _ ⟨⟩)

/-! ### What goes wrong -/

/-- After an assignment that has thrown there are operations without a callable. -/
theorem Inv.not_sound_throws (h : Inv s) (ha : s.bases f = some a) (ops : FunctionOps) :
    ¬ Sound (s.step (.assignAction f (.throws ops))) := by
  intro hsound
  rw [step_assignAction_throws ha] at hsound
  have hbase : ((s.destruct a).setBase f (some ⟨if ops = .allocated then a.objectBuf else none, some ops⟩)).bases f =
      some ⟨if ops = .allocated then a.objectBuf else none, some ops⟩ := Function.update_self ..
  obtain ⟨c, hc⟩ := Option.isSome_iff_exists.1 (hsound.full hbase rfl)
  have hallocated : ops = .allocated := by
    by_contra hne
    rw [if_neg hne] at hc
    cases hc
  rw [if_pos hallocated] at hc
  have hheld := held_eq_some_iff.2 ⟨_, hbase, rfl, by rw [if_pos hallocated, hc]⟩
  cases hops : a.ops with
  | some ops' =>
    -- the callable of the pointer that is left in the buffer has been destroyed
    obtain ⟨c', v, hc', -, -, hfind⟩ := h.find_eq ha hops
    obtain rfl := Option.some.inj (hc'.symm.trans hc)
    have hdead : (s.destruct a).callables c' = none := by
      rw [Functions.destruct, hops]
      simp only [destroyer, hfind]
      exact Function.update_self ..
    have halive := hsound.owns.alive hheld
    rw [setBase_callables, hdead] at halive
    cases halive
  | none =>
    -- it belongs to another `Function`, or to none
    have hdestruct : s.destruct a = s := by rw [Functions.destruct, hops]
    rw [hdestruct] at hsound hheld
    obtain ⟨g, hg⟩ := h.owns.owned (hsound.owns.alive hheld)
    have hne : g ≠ f := fun heq => by
      rw [heq] at hg
      simp [held, callable, ha, hops] at hg
    refine hne (hsound.owns.distinct ?_ hheld)
    rw [held_setBase, Function.update_of_ne hne, hg]

theorem Inv.meets_of_sound (h : Inv s) {op : FunctionOp V} (hsound : Sound (s.step op)) : s.Meets op := by
  cases op with
  | assignAction f action =>
    cases action with
    | null => trivial
    | made ops v => trivial
    | throws ops =>
      by_contra hne
      obtain ⟨a, ha⟩ := Option.ne_none_iff_exists'.1 hne
      exact h.not_sound_throws ha ops hsound
  | call f =>
    intro a ha hops
    have hfault : (s.step (.call f)).fault = true := by
      simp [Functions.step, Option.mem_def.1 ha, hops, invoker, find]
    rw [hsound.fault] at hfault
    cases hfault
  | _ => trivial

theorem inv_init : Inv (init : Functions V) :=
  ⟨⟨rfl, (fun hb => by cases hb), Owns.empty⟩, fun _ => rfl⟩

/-- **Each callable has one owner, and each `Function` with operations a callable**, in every run, exactly if no
assignment throws and no empty `Function` is called. -/
theorem allHold_sound_iff (ops : List (FunctionOp V)) :
    Run.AllHold step Sound (init : Functions V) ops ↔ Run.AllMeet step Meets init ops := by
  have hstep : ∀ {s : Functions V}, Inv s → ∀ {op}, s.Meets op → Inv (s.step op) := fun h _ hop => (h.step hop).1
  exact Run.allHold_iff_allMeet Inv Inv.toSound hstep Inv.meets_of_sound inv_init ops

theorem run_toCells (h : Inv s) {ops : List (FunctionOp V)} (hops : Run.AllMeet step Meets s ops) :
    (ops.foldl step s).toCells = ops.foldl FunctionCells.step s.toCells := by
  induction ops generalizing s with
  | nil => rfl
  | cons op ops ih =>
    obtain ⟨hinv, hcells⟩ := h.step hops.1
    rw [List.foldl_cons, List.foldl_cons, ← hcells]
    exact ih hinv hops.2

/-- **`Function`s are cells**: what is called is what was put into them, wherever it has been moved. -/
theorem run_refines_cells (ops : List (FunctionOp V)) (hops : Run.AllMeet step Meets init ops) :
    (ops.foldl step init).toCells = ops.foldl FunctionCells.step FunctionCells.init :=
  run_toCells inv_init hops

theorem run_refines_moves : ([.fromAction 0 (.made .inBuffer 7), .fromFunction 1 0, .assignFunction 0 1, .call 0].foldl
      step (init : Functions ℕ)).toCells.calls = [7] := by
  rw [run_refines_cells]
  · decide
  · refine ⟨trivial, trivial, trivial, fun b hb => ?_, trivial⟩
    simp [Functions.step, init, constructorImpl, takeFrom, create, relocator, find, destruct, setBase, erase] at hb
    rw [← hb]
    exact Option.some_ne_none _

end Functions

end AimRT.Util
