import Mathlib.Tactic

/-!
# Conversions into storage

A conversion writes into storage that has a value already, and may fail on its way.  What it writes is known
by the positions on the way there, each with the number of elements that there are: a write is inside when
all positions are.

`Follows f ps` says that the list `ps` of pieces tells all about the writes of `f` and its end, for any value
of the storage: `f` goes through the pieces up to the first one that is refused.
-/

namespace AimRT.Lib

/-- A write, by the positions on the way to it and the sizes there. -/
abbrev Write := List (ℕ × ℕ)

def Write.inside (w : Write) : Bool := w.all fun p => p.1 < p.2

/-- What a conversion leaves in the storage, what it wrote, and whether it came to its end. -/
structure Stored (T : Type) where
  value : T
  writes : List Write
  ok : Bool

abbrev Storing (T : Type) := T → Stored T

namespace Storing

variable {S T : Type}

def skip : Storing T := fun v => ⟨v, [], true⟩

def fail : Storing T := fun v => ⟨v, [], false⟩

/-- Overwrites the storage. -/
def put (x : T) : Storing T := fun _ => ⟨x, [[]], true⟩

def modify (f : T → T) : Storing T := fun v => ⟨f v, [[]], true⟩

def andThen (f g : Storing T) : Storing T := fun v =>
  if (f v).ok then
    ⟨(g (f v).value).value, (f v).writes ++ (g (f v).value).writes, (g (f v).value).ok⟩
  else f v

def onFst (f : Storing S) : Storing (S × T) := fun v =>
  ⟨((f v.1).value, v.2), (f v.1).writes, (f v.1).ok⟩

def onSnd (f : Storing T) : Storing (S × T) := fun v =>
  ⟨(v.1, (f v.2).value), (f v.2).writes, (f v.2).ok⟩

/-- A conversion into the element `i` of `n`; where there is none, the writes go to what lies `beyond`. -/
def element (i n : ℕ) (beyond : T) (f : Storing T) : Storing (List T) := fun l =>
  let s := f ((l[i]?).getD beyond)
  ⟨l.set i s.value, s.writes.map ((i, n) :: ·), s.ok⟩

/-- A loop. -/
def each (f : ℕ → Storing T) : List ℕ → Storing T
  | [] => skip
  | i :: is => (f i).andThen (each f is)

end Storing

/-! ### Pieces -/

/-- A piece of what is converted: it is written inside or beyond the storage, it is taken without being
right, or it is refused. -/
inductive Piece where
  | inside
  | beyond
  | lax
  | refused
  deriving DecidableEq, Repr

namespace Piece

/-- The write of a piece. -/
def write : Piece → Option Bool
  | inside => some true
  | beyond => some false
  | _ => none

/-- The piece of an element that there is not. -/
def out : Piece → Piece
  | inside => beyond
  | p => p

/-- The pieces in front of the first that is refused. -/
def done (ps : List Piece) : List Piece := ps.takeWhile (· ≠ refused)

variable {ps qs : List Piece}

theorem done_append_of_mem (h : refused ∈ ps) : done (ps ++ qs) = done ps := by
  induction ps with
  | nil => cases h
  | cons p ps ih =>
    by_cases hp : p = refused
    · simp [done, hp]
    · have hps : refused ∈ ps := (List.mem_cons.1 h).resolve_left (Ne.symm hp)
      have hps := ih hps
      simp only [done, ne_eq, decide_not] at hps ⊢
      simp [hp, hps]

theorem done_append_of_not_mem (h : refused ∉ ps) : done (ps ++ qs) = ps ++ done qs := by
  induction ps with
  | nil => rfl
  | cons p ps ih =>
    rw [List.mem_cons, not_or] at h
    have hps := ih h.2
    simp only [done, ne_eq, decide_not] at hps ⊢
    simp [Ne.symm h.1, hps]

theorem done_of_not_mem (h : refused ∉ ps) : done ps = ps := by
  have happend : done (ps ++ []) = ps ++ done [] := done_append_of_not_mem h
  simpa [done] using happend

theorem done_map_out (ps : List Piece) : done (ps.map out) = (done ps).map out := by
  induction ps with
  | nil => rfl
  | cons p ps ih =>
    simp only [done, ne_eq, decide_not] at ih ⊢
    cases p <;> simp [out, ih]

theorem refused_mem_map_out : refused ∈ ps.map out ↔ refused ∈ ps := by
  constructor
  · intro h
    obtain ⟨p, hp, e⟩ := List.mem_map.1 h
    cases p <;> simp [out] at e
    exact hp
  · exact fun h => List.mem_map.2 ⟨refused, h, rfl⟩

/-- Everything is as it should be. -/
def Right (ps : List Piece) : Prop := lax ∉ ps ∧ refused ∉ ps

@[simp] theorem right_nil : Right [] := by simp [Right]

@[simp] theorem not_right_refused : ¬Right [refused] := by simp [Right]

@[simp] theorem not_right_lax : ¬Right [lax] := by simp [Right]

@[simp] theorem right_append : Right (ps ++ qs) ↔ Right ps ∧ Right qs := by
  simp only [Right, List.mem_append, not_or]
  tauto

@[simp] theorem right_inside_cons : Right (inside :: ps) ↔ Right ps := by simp [Right]

@[simp] theorem right_flatMap {is : List ℕ} {f : ℕ → List Piece} :
    Right (is.flatMap f) ↔ ∀ i ∈ is, Right (f i) := by
  induction is with
  | nil => simp
  | cons i is ih => rw [List.flatMap_cons, right_append, ih, List.forall_mem_cons]

/-- Everything is converted inside: what is taken without being right comes with something that is refused,
and in front of this nothing is written beyond. -/
def Sound (ps : List Piece) : Prop := (lax ∈ ps → refused ∈ ps) ∧ beyond ∉ done ps

instance (ps : List Piece) : Decidable (Sound ps) := by unfold Sound; infer_instance

end Piece

/-! ### What a conversion goes through -/

namespace Storing

open Piece

variable {S T : Type} {f g : Storing T} {ps qs : List Piece}

/-- The pieces tell all about the writes and the end of the conversion. -/
structure Follows (f : Storing T) (ps : List Piece) : Prop where
  ok : ∀ v, (f v).ok = true ↔ refused ∉ ps
  writes : ∀ v, (f v).writes.map Write.inside = (done ps).filterMap Piece.write

theorem skip_follows : (skip : Storing T).Follows [] := ⟨fun _ => by simp [skip], fun _ => rfl⟩

theorem fail_follows : (fail : Storing T).Follows [refused] := ⟨fun _ => by simp [fail], fun _ => rfl⟩

theorem modify_follows (h : T → T) : (modify h).Follows [inside] := ⟨fun _ => by simp [modify], fun _ => rfl⟩

/-- What is taken without being right leaves no trace. -/
theorem Follows.lax_cons (hf : f.Follows ps) : f.Follows (lax :: ps) := by
  refine ⟨fun v => ?_, fun v => ?_⟩
  · simp [hf.ok v]
  · have hdone : done (lax :: ps) = lax :: done ps := by simp [done]
    rw [hf.writes v, hdone]
    rfl

theorem put_follows (x : T) : (put x).Follows [inside] := ⟨fun _ => by simp [put], fun _ => rfl⟩

theorem Follows.andThen (hf : f.Follows ps) (hg : g.Follows qs) : (f.andThen g).Follows (ps ++ qs) := by
  refine ⟨fun v => ?_, fun v => ?_⟩
  · by_cases hok : (f v).ok = true
    · simp [Storing.andThen, hok, hg.ok, (hf.ok v).1 hok]
    · have hps : refused ∈ ps := not_not.1 fun h => hok ((hf.ok v).2 h)
      simp [Storing.andThen, hok, hps]
  · by_cases hok : (f v).ok = true
    · have hps := (hf.ok v).1 hok
      have hwrites := hf.writes v
      rw [done_of_not_mem hps] at hwrites
      rw [done_append_of_not_mem hps, List.filterMap_append, ← hwrites, ← hg.writes (f v).value]
      simp [Storing.andThen, hok]
    · have hps : refused ∈ ps := not_not.1 fun h => hok ((hf.ok v).2 h)
      rw [done_append_of_mem hps, ← hf.writes v]
      simp [Storing.andThen, hok]

theorem Follows.onFst (hf : f.Follows ps) : (f.onFst : Storing (T × S)).Follows ps :=
  ⟨fun v => hf.ok v.1, fun v => hf.writes v.1⟩

theorem Follows.onSnd (hf : f.Follows ps) : (f.onSnd : Storing (S × T)).Follows ps :=
  ⟨fun v => hf.ok v.2, fun v => hf.writes v.2⟩

theorem Follows.each {f : ℕ → Storing T} {ps : ℕ → List Piece} {is : List ℕ}
    (hf : ∀ i ∈ is, (f i).Follows (ps i)) : (each f is).Follows (is.flatMap ps) := by
  induction is with
  | nil => exact skip_follows
  | cons i is ih =>
    rw [List.forall_mem_cons] at hf
    rw [List.flatMap_cons]
    exact hf.1.andThen (ih hf.2)

theorem write_out (p : Piece) : p.out.write = p.write.map fun _ => false := by cases p <;> rfl

theorem Follows.element {i n : ℕ} {beyond : T} (hf : f.Follows ps) :
    (element i n beyond f).Follows (if i < n then ps else ps.map out) := by
  refine ⟨fun l => ?_, fun l => ?_⟩
  · refine (hf.ok _).trans ?_
    split
    · rfl
    · rw [refused_mem_map_out]
  · have hwrites := hf.writes ((l[i]?).getD beyond)
    have hinside : ∀ w : Write, Write.inside ((i, n) :: w) = (decide (i < n) && w.inside) := fun w => rfl
    simp only [Storing.element, List.map_map, Function.comp_def, hinside]
    split
    next hi => simpa [hi] using hwrites
    next hi =>
      rw [done_map_out, List.filterMap_map]
      have hmap := congrArg (List.map fun _ => false) hwrites
      rw [List.map_map, List.map_filterMap] at hmap
      simpa [hi, Function.comp_def, write_out] using hmap

/-- **When a conversion stays inside and refuses what does not fit.** -/
theorem Follows.sound_iff (hf : f.Follows ps) {Fits : Prop} (hfits : Fits ↔ Right ps) (v : T) :
    ((∀ w ∈ (f v).writes, w.inside = true) ∧ (¬Fits → (f v).ok = false)) ↔ Sound ps := by
  have hwrites : (∀ w ∈ (f v).writes, w.inside = true) ↔ beyond ∉ done ps := by
    have hmap : (∀ w ∈ (f v).writes, w.inside = true) ↔ false ∉ (f v).writes.map Write.inside := by
      simp
    rw [hmap, hf.writes v, List.mem_filterMap, not_exists]
    constructor
    · exact fun h hbeyond => h beyond ⟨hbeyond, rfl⟩
    · rintro h p ⟨hp, e⟩
      cases p <;> simp [Piece.write] at e
      exact h hp
  have hok : (f v).ok = false ↔ refused ∈ ps := by
    rw [← Bool.not_eq_true, hf.ok v, not_not]
  rw [hwrites, hok, hfits, Sound, Right]
  tauto

/-! ### What a conversion gives -/

/-- From the value `v` the conversion comes to its end with `r`. -/
structure Gives (f : Storing T) (v r : T) : Prop where
  ok : (f v).ok = true
  value : (f v).value = r

theorem skip_gives (v : T) : (skip : Storing T).Gives v v := ⟨rfl, rfl⟩

theorem put_gives (x v : T) : (put x).Gives v x := ⟨rfl, rfl⟩

theorem modify_gives (h : T → T) (v : T) : (modify h).Gives v (h v) := ⟨rfl, rfl⟩

theorem Gives.andThen {u v w : T} (hf : f.Gives u v) (hg : g.Gives v w) : (f.andThen g).Gives u w := by
  constructor
  · simp [Storing.andThen, hf.ok, hf.value, hg.ok]
  · simp [Storing.andThen, hf.ok, hf.value, hg.value]

theorem Gives.onFst {v r : T} (hf : f.Gives v r) (s : S) : (f.onFst : Storing (T × S)).Gives (v, s) (r, s) :=
  ⟨hf.ok, by simp [Storing.onFst, hf.value]⟩

theorem Gives.onSnd {v r : T} (hf : f.Gives v r) (s : S) : (f.onSnd : Storing (S × T)).Gives (s, v) (s, r) :=
  ⟨hf.ok, by simp [Storing.onSnd, hf.value]⟩

theorem each_congr {f g : ℕ → Storing T} {is : List ℕ} (h : ∀ i ∈ is, f i = g i) : each f is = each g is := by
  induction is with
  | nil => rfl
  | cons i is ih =>
    rw [List.forall_mem_cons] at h
    rw [each, each, h.1, ih h.2]

/-- A loop that appends. -/
theorem each_append_gives (x : ℕ → T) (is : List ℕ) (l : List T) :
    (each (fun i => modify (· ++ [x i])) is).Gives l (l ++ is.map x) := by
  induction is generalizing l with
  | nil =>
    rw [List.map_nil, List.append_nil]
    exact skip_gives l
  | cons i is ih =>
    have hrest := ih (l ++ [x i])
    rw [List.append_assoc] at hrest
    exact (modify_gives _ l).andThen hrest

/-- A loop over the elements; the induction is on those that are left. -/
theorem each_element_gives {n : ℕ} {beyond : T} {f : ℕ → Storing T} {l r : List T} (hlen : r.length = l.length)
    (hf : ∀ i (hl : i < l.length) (hr : i < r.length), (f i).Gives l[i] r[i]) :
    (each (fun i => element i n beyond (f i)) (List.range l.length)).Gives l r := by
  have hall : ∀ m k, k + m = l.length → (each (fun i => element i n beyond (f i)) (List.range' k m)).Gives
      (r.take k ++ l.drop k) r := by
    intro m
    induction m with
    | zero =>
      intro k hk
      have hnone : r.take k ++ l.drop k = r := by
        rw [List.take_of_length_le (by omega), List.drop_of_length_le (by omega), List.append_nil]
      rw [hnone]
      exact skip_gives r
    | succ m ih =>
      intro k hk
      have hl : k < l.length := by omega
      have hr : k < r.length := by omega
      have hget : (r.take k ++ l.drop k)[k]? = some l[k] := by
        rw [List.getElem?_append_right (by simp), List.length_take, Nat.min_eq_left (by omega), Nat.sub_self,
          List.getElem?_drop]
        simp
      have hset : (r.take k ++ l.drop k).set k r[k] = r.take (k + 1) ++ l.drop (k + 1) := by
        rw [List.set_append_right _ _ (by simp), List.length_take, Nat.min_eq_left (by omega), Nat.sub_self,
          List.drop_eq_getElem_cons hl, List.set_cons_zero, List.take_succ_eq_append_getElem hr, List.append_assoc]
        rfl
      have hk' := hf k hl hr
      have helement : (element k n beyond (f k)).Gives (r.take k ++ l.drop k)
          (r.take (k + 1) ++ l.drop (k + 1)) := by
        constructor
        · simp [element, hget, hk'.ok]
        · simp [element, hget, hk'.value, hset]
      exact helement.andThen (ih (k + 1) (by omega))
  have hzero := hall l.length 0 (by omega)
  rw [← List.range_eq_range'] at hzero
  simpa using hzero

end Storing

end AimRT.Lib
