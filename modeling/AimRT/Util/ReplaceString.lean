import AimRT.Lib.InPlace
import AimRT.Lib.LittleEndian
import AimRT.Lib.StringView

/-!
# Replacing in place

`ReplaceString` searches for all occurrences of `ov` first and then edits the string where it stands: texts of the same
length are overwritten, for a shorter one the pieces between the occurrences are moved to the front, and for a longer
one the string is made longer and the pieces are moved to the back, the last one first.

The new size is a product and a sum of `size_t`, which wrap round: a result of `2 ^ 64` bytes and more is written into a
string that is too short for it.
-/

namespace AimRT.Util

open AimRT.Lib AimRT.Lib.StringView AimRT.Lib.InPlace

/-! ### The code -/

/-- The search: every occurrence behind the one before. -/
def findPositions (str ov : Bytes) (hov : ov ≠ []) (pos : ℕ) : List ℕ :=
  match _hfind : find str ov pos with
  | none => []
  | some i => i :: findPositions str ov hov (i + ov.length)
termination_by str.length - pos
decreasing_by
  obtain ⟨hle, hoccurs, -⟩ := find_eq_some.1 _hfind
  have hlen := hoccurs.length_le
  have hpos := List.length_pos_iff.2 hov
  omega

/-- A difference of sizes, or a pointer that goes back; no value where it would wrap round. -/
def subSize (a b : ℕ) : Option ℕ := if b ≤ a then some (a - b) else none

/-- `vec_pos[ii + 1] - vec_pos[ii] - old_len`. -/
def copyLength (vecPos : List ℕ) (oldLen ii : ℕ) : Option ℕ := do
  subSize (← subSize (← vecPos[ii + 1]?) (← vecPos[ii]?)) oldLen

/-- The string is as long as before. -/
def replaceEqual (nv : Bytes) (vecPos : List ℕ) (str : Cells UInt8) : Option (Cells UInt8) :=
  (List.range vecPos.length).foldlM (fun str ii => do write str (← vecPos[ii]?) nv) str

/-- A round of the loop for a shorter text, with `p` and the string. -/
def shrinkStep (nv : Bytes) (oldLen : ℕ) (vecPos : List ℕ) (st : ℕ × Cells UInt8) (ii : ℕ) :
    Option (ℕ × Cells UInt8) := do
  let (p, str) := st
  let str ← write str p nv
  let p := p + nv.length
  let cplen ← copyLength vecPos oldLen ii
  let str ← move str p ((← vecPos[ii]?) + oldLen) cplen
  return (p + cplen, str)

def replaceShrinking (nv : Bytes) (oldLen : ℕ) (vecPos : List ℕ) (str : Cells UInt8) : Option (Cells UInt8) := do
  let p ← vecPos[0]?
  let vecLen := vecPos.length
  let vecPos := vecPos ++ [str.length]
  let (p, str) ← (List.range vecLen).foldlM (shrinkStep nv oldLen vecPos) (p, str)
  return resize str p

/-- A round of the loop for a longer text. -/
def growStep (nv : Bytes) (oldLen : ℕ) (vecPos : List ℕ) (st : ℕ × Cells UInt8) (ii : ℕ) :
    Option (ℕ × Cells UInt8) := do
  let (p, str) := st
  let cplen ← copyLength vecPos oldLen ii
  let p ← subSize p cplen
  let str ← move str p ((← vecPos[ii]?) + oldLen) cplen
  let p ← subSize p nv.length
  let str ← write str p nv
  return (p, str)

/-- The index goes down to 0; the next one is no longer below the number of positions. -/
def replaceGrowing (nv : Bytes) (oldLen : ℕ) (vecPos : List ℕ) (str : Cells UInt8) : Option (Cells UInt8) := do
  let diff := nv.length - oldLen
  let vecLen := vecPos.length
  let vecPos := vecPos ++ [str.length]
  let str := resize str ((str.length + diff * vecLen) % 2 ^ 64)
  let p := str.length
  let (_, str) ← (List.range vecLen).reverse.foldlM (growStep nv oldLen vecPos) (p, str)
  return str

theorem ne_nil_of_not_empty {str ov : Bytes} (h : ¬(str = [] ∨ ov = [])) : ov ≠ [] := fun hov => h (.inr hov)

/-- `ReplaceString`; no value where a copy leaves the string, or reads something else than the original string. -/
def replaceString (str ov nv : Bytes) : Option Bytes :=
  if h : str = [] ∨ ov = [] then some str
  else
    let vecPos := findPositions str ov (ne_nil_of_not_empty h) 0
    if vecPos.length = 0 then some str
    else if ov.length = nv.length then (replaceEqual nv vecPos (original str)).map text
    else if ov.length > nv.length then (replaceShrinking nv ov.length vecPos (original str)).map text
    else (replaceGrowing nv ov.length vecPos (original str)).map text

/-! ### What it is for -/

/-- Every occurrence of `ov`, from left to right and without overlaps, is replaced. -/
def replaceAll (ov nv : Bytes) : Bytes → Bytes := scan ov (nv ++ ·) List.cons []

/-- The number of these occurrences. -/
def occurrences (ov : Bytes) : Bytes → ℕ := scan ov (· + 1) (fun _ n => n) 0

variable {str ov nv : Bytes} {a i j : ℕ}

theorem replaceAll_occurs (h : Occurs ov str i) (hov : ov ≠ []) :
    replaceAll ov nv (str.drop i) = nv ++ replaceAll ov nv (str.drop (i + ov.length)) := scan_occurs h hov

theorem replaceAll_findOrEnd (ha : a ≤ str.length) : replaceAll ov nv (str.drop a) =
    between str a (findOrEnd str ov a) ++ replaceAll ov nv (str.drop (findOrEnd str ov a)) := by
  rw [replaceAll, scan_findOrEnd ha]
  exact List.foldr_cons_eq_append'

theorem occurrences_occurs (h : Occurs ov str i) (hov : ov ≠ []) :
    occurrences ov (str.drop i) = occurrences ov (str.drop (i + ov.length)) + 1 := scan_occurs h hov

theorem occurrences_findOrEnd (ha : a ≤ str.length) :
    occurrences ov (str.drop a) = occurrences ov (str.drop (findOrEnd str ov a)) := by
  rw [occurrences, scan_findOrEnd ha, List.foldr_const]
  exact congrFun (Function.iterate_id _) _

/-! ### The positions -/

/-- The positions that are found from `a` on; the last one is followed by the end of the string. -/
def place (str ov : Bytes) (a : ℕ) : ℕ → ℕ
  | 0 => findOrEnd str ov a
  | i + 1 => place str ov (findOrEnd str ov a + ov.length) i

theorem place_succ (str ov : Bytes) (a i : ℕ) :
    place str ov a (i + 1) = findOrEnd str ov (place str ov a i + ov.length) := by
  induction i generalizing a with
  | zero => rfl
  | succ i ih => exact ih (findOrEnd str ov a + ov.length)

section Positions

variable (hov : ov ≠ [])

theorem findPositions_none (h : find str ov a = none) : findPositions str ov hov a = [] := by
  rw [findPositions]
  split
  · rfl
  next i hi => rw [h] at hi; cases hi

theorem findPositions_some (h : find str ov a = some i) :
    findPositions str ov hov a = i :: findPositions str ov hov (i + ov.length) := by
  rw [findPositions]
  split
  next hi => rw [h] at hi; cases hi
  next j hj =>
    rw [h] at hj
    obtain rfl := Option.some.inj hj
    rfl

/-- What the loops read from `vec_pos`. -/
theorem findPositions_getElem? (hi : i ≤ (findPositions str ov hov a).length) :
    (findPositions str ov hov a ++ [str.length])[i]? = some (place str ov a i) := by
  induction i generalizing a with
  | zero =>
    rw [place]
    cases hfind : find str ov a with
    | none => rw [findPositions_none hov hfind, findOrEnd, hfind]; rfl
    | some j => rw [findPositions_some hov hfind, findOrEnd_of_find hfind]; rfl
  | succ i ih =>
    cases hfind : find str ov a with
    | none =>
      rw [findPositions_none hov hfind] at hi
      exact absurd hi (Nat.not_succ_le_zero i)
    | some j =>
      rw [findPositions_some hov hfind] at hi ⊢
      rw [List.cons_append, List.getElem?_cons_succ, place, findOrEnd_of_find hfind]
      exact ih (Nat.le_of_succ_le_succ hi)

theorem occurs_place (hi : i < (findPositions str ov hov a).length) : Occurs ov str (place str ov a i) := by
  induction i generalizing a with
  | zero =>
    cases hfind : find str ov a with
    | none =>
      rw [findPositions_none hov hfind] at hi
      exact absurd hi (Nat.not_lt_zero 0)
    | some j =>
      rw [place, findOrEnd_of_find hfind]
      exact (find_eq_some.1 hfind).2.1
  | succ i ih =>
    cases hfind : find str ov a with
    | none =>
      rw [findPositions_none hov hfind] at hi
      exact absurd hi (Nat.not_lt_zero _)
    | some j =>
      rw [findPositions_some hov hfind] at hi
      rw [place, findOrEnd_of_find hfind]
      exact ih (Nat.lt_of_succ_lt_succ hi)

theorem place_length : place str ov a (findPositions str ov hov a).length = str.length := by
  have hget : (findPositions str ov hov a ++ [str.length])[(findPositions str ov hov a).length]? = _ :=
    findPositions_getElem? hov le_rfl
  rw [List.getElem?_append_right le_rfl, Nat.sub_self] at hget
  exact (Option.some.inj hget).symm

theorem length_findPositions (ha : a ≤ str.length) :
    (findPositions str ov hov a).length = occurrences ov (str.drop a) := by
  induction hn : str.length - a using Nat.strong_induction_on generalizing a with
  | _ n ih =>
    rw [occurrences_findOrEnd ha]
    cases hfind : find str ov a with
    | none =>
      rw [findPositions_none hov hfind, findOrEnd, hfind, Option.getD_none, List.drop_length, occurrences, scan]
      rfl
    | some i =>
      obtain ⟨hle, hoccurs, -⟩ := find_eq_some.1 hfind
      have hlen := hoccurs.length_le
      have hpos := List.length_pos_iff.2 hov
      rw [findPositions_some hov hfind, findOrEnd_of_find hfind, occurrences_occurs hoccurs hov, List.length_cons,
        ih _ (by omega) hlen rfl]

/-- What is to stand from a position on. -/
theorem replaceAll_place (hi : i < (findPositions str ov hov 0).length) :
    replaceAll ov nv (str.drop (place str ov 0 i)) = nv ++
      ((str.drop (place str ov 0 i + ov.length)).take (place str ov 0 (i + 1) - (place str ov 0 i + ov.length)) ++
        replaceAll ov nv (str.drop (place str ov 0 (i + 1)))) := by
  have hoccurs := occurs_place hov hi
  have hlen := hoccurs.length_le
  rw [replaceAll_occurs hoccurs hov, replaceAll_findOrEnd hlen, between_of_le (le_findOrEnd hlen), place_succ]

theorem place_le (hi : i < (findPositions str ov hov 0).length) :
    place str ov 0 i + ov.length ≤ place str ov 0 (i + 1) := by
  rw [place_succ]
  exact le_findOrEnd (occurs_place hov hi).length_le

theorem place_le_length (str ov : Bytes) (a i : ℕ) : place str ov a i ≤ str.length := by
  cases i with
  | zero => exact findOrEnd_le str ov a
  | succ i =>
    rw [place_succ]
    exact findOrEnd_le str ov _

theorem copyLength_eq (hi : i < (findPositions str ov hov 0).length) :
    copyLength (findPositions str ov hov 0 ++ [str.length]) ov.length i =
      some (place str ov 0 (i + 1) - (place str ov 0 i + ov.length)) := by
  have hle := place_le hov hi
  have hfirst : subSize (place str ov 0 (i + 1)) (place str ov 0 i) =
      some (place str ov 0 (i + 1) - place str ov 0 i) := if_pos (by omega)
  have hsecond : subSize (place str ov 0 (i + 1) - place str ov 0 i) ov.length =
      some (place str ov 0 (i + 1) - place str ov 0 i - ov.length) := if_pos (by omega)
  rw [copyLength, findPositions_getElem? hov (Nat.succ_le_of_lt hi), findPositions_getElem? hov hi.le]
  simp only [Option.bind_eq_bind, Option.bind_some, hfirst, hsecond, Nat.sub_sub]

theorem findPositions_getElem?_of_lt (hi : i < (findPositions str ov hov a).length) :
    (findPositions str ov hov a)[i]? = some (place str ov a i) := by
  rw [← findPositions_getElem? hov hi.le, List.getElem?_append_left hi]

/-- In front of the first position all stays. -/
theorem take_place_append (str ov nv : Bytes) :
    str.take (place str ov 0 0) ++ replaceAll ov nv (str.drop (place str ov 0 0)) = replaceAll ov nv str := by
  have hfirst : replaceAll ov nv (str.drop 0) = _ := replaceAll_findOrEnd (Nat.zero_le str.length)
  rw [between_of_le (Nat.zero_le _), List.drop_zero, Nat.sub_zero] at hfirst
  exact hfirst.symm

theorem replaceAll_place_length :
    replaceAll ov nv (str.drop (place str ov 0 (findPositions str ov hov 0).length)) = [] := by
  rw [place_length, List.drop_length, replaceAll, scan]

/-! ### To the front -/

/-- Before a round of the first two loops: all is done up to `p`, and from the next position on all is as it was. -/
structure Replaced (str ov nv : Bytes) (i p : ℕ) (c : Cells UInt8) : Prop where
  shift : p + i * (ov.length - nv.length) = place str ov 0 i
  done : ∃ t, Front str c p (place str ov 0 i) t ∧
    t ++ replaceAll ov nv (str.drop (place str ov 0 i)) = replaceAll ov nv str

variable {p : ℕ} {c : Cells UInt8}

theorem replaced_start (str ov nv : Bytes) : Replaced str ov nv 0 (place str ov 0 0) (original str) where
  shift := by rw [Nat.zero_mul, Nat.add_zero]
  done := ⟨_, Front.start (place_le_length str ov 0 0), take_place_append str ov nv⟩

/-- The string up to `p` is the result when there is no position left. -/
theorem Replaced.take_eq (h : Replaced str ov nv (findPositions str ov hov 0).length p c) :
    p ≤ c.length ∧ text (c.take p) = replaceAll ov nv str := by
  obtain ⟨t, hfront, ht⟩ := h.done
  have hle := hfront.le
  have hend := hfront.le_length
  have hlen := hfront.length_eq
  rw [replaceAll_place_length, List.append_nil] at ht
  exact ⟨by omega, hfront.front.trans ht⟩

/-- A text is written over an occurrence that is as long as it. -/
theorem Replaced.overwrite (hlen : ov.length = nv.length) (hi : i < (findPositions str ov hov 0).length)
    (h : Replaced str ov nv i (place str ov 0 i) c) :
    ∃ c', write c (place str ov 0 i) nv = some c' ∧ Replaced str ov nv (i + 1) (place str ov 0 (i + 1)) c' := by
  obtain ⟨t, hfront, ht⟩ := h.done
  have hle := place_le hov hi
  have hend := place_le_length str ov 0 (i + 1)
  obtain ⟨c', hwrite, hfront'⟩ := (hfront.mono (Nat.le_add_right _ ov.length) (by omega)).write nv (by omega)
  rw [← hlen] at hfront'
  have hkeep := hfront'.keep (place str ov 0 (i + 1) - (place str ov 0 i + ov.length)) (by omega)
  rw [Nat.add_sub_of_le hle] at hkeep
  refine ⟨c', hwrite, ⟨by rw [hlen, Nat.sub_self, Nat.mul_zero, Nat.add_zero], _, hkeep, ?_⟩⟩
  rw [replaceAll_place hov hi] at ht
  rw [← ht, List.append_assoc, List.append_assoc]

/-- A shorter text is written, and the piece behind the occurrence is moved to it. -/
theorem Replaced.shrink (hlen : nv.length ≤ ov.length) (hi : i < (findPositions str ov hov 0).length)
    (h : Replaced str ov nv i p c) :
    ∃ st, shrinkStep nv ov.length (findPositions str ov hov 0 ++ [str.length]) (p, c) i = some st ∧
      Replaced str ov nv (i + 1) st.1 st.2 := by
  obtain ⟨t, hfront, ht⟩ := h.done
  have hshift := h.shift
  have hle := place_le hov hi
  have hend := place_le_length str ov 0 (i + 1)
  have hmul : (i + 1) * (ov.length - nv.length) = i * (ov.length - nv.length) + (ov.length - nv.length) :=
    Nat.succ_mul _ _
  obtain ⟨c₁, hwrite, hfront₁⟩ := (hfront.mono (Nat.le_add_right _ ov.length) (by omega)).write nv (by omega)
  obtain ⟨c₂, hmove, hfront₂⟩ :=
    hfront₁.move le_rfl (place str ov 0 (i + 1) - (place str ov 0 i + ov.length)) (by omega)
  rw [Nat.add_sub_of_le hle] at hfront₂
  refine ⟨(_, c₂), ?_, ?_, _, hfront₂, ?_⟩
  · rw [shrinkStep, findPositions_getElem? hov hi.le, copyLength_eq hov hi]
    simp only [Option.bind_eq_bind, Option.bind_some, hwrite, hmove, Option.pure_def]
  · dsimp only
    omega
  · rw [replaceAll_place hov hi] at ht
    rw [← ht, List.append_assoc, List.append_assoc]

theorem replaceEqual_eq (hlen : ov.length = nv.length) :
    (replaceEqual nv (findPositions str ov hov 0) (original str)).map text = some (replaceAll ov nv str) := by
  obtain ⟨c, hloop, hdone⟩ : ∃ c, replaceEqual nv (findPositions str ov hov 0) (original str) = some c ∧
      Replaced str ov nv (findPositions str ov hov 0).length
        (place str ov 0 (findPositions str ov hov 0).length) c := by
    refine foldlM_range (fun i => Replaced str ov nv i (place str ov 0 i)) (fun i hi c hinv => ?_)
      (replaced_start str ov nv)
    rw [findPositions_getElem?_of_lt hov hi]
    exact hinv.overwrite hov hlen hi
  obtain ⟨t, hfront, -⟩ := hdone.done
  have htext := (hdone.take_eq hov).2
  rw [place_length, ← hfront.length_eq, List.take_length] at htext
  rw [hloop, Option.map_some, htext]

theorem replaceShrinking_eq (hlen : nv.length ≤ ov.length) (hpos : 0 < (findPositions str ov hov 0).length) :
    (replaceShrinking nv ov.length (findPositions str ov hov 0) (original str)).map text =
      some (replaceAll ov nv str) := by
  obtain ⟨⟨p, c⟩, hloop, hdone⟩ : ∃ st, (List.range (findPositions str ov hov 0).length).foldlM
      (shrinkStep nv ov.length (findPositions str ov hov 0 ++ [str.length])) (place str ov 0 0, original str) =
        some st ∧
      Replaced str ov nv (findPositions str ov hov 0).length st.1 st.2 :=
    foldlM_range (fun i (st : ℕ × Cells UInt8) => Replaced str ov nv i st.1 st.2)
      (fun i hi st hinv => hinv.shrink hov hlen hi) (replaced_start str ov nv)
  obtain ⟨hp, htext⟩ := hdone.take_eq hov
  have htake := take_resize le_rfl hp
  rw [List.take_of_length_le (by rw [length_resize])] at htake
  rw [replaceShrinking, findPositions_getElem?_of_lt hov hpos, length_original]
  simp only [Option.bind_eq_bind, Option.bind_some, hloop, Option.map_some, Option.pure_def, htake, htext]

/-! ### To the back -/

/-- Behind a round of the third loop: what is to stand from the position on stands from `p` on, and in front of the
position all is as it was. -/
structure Grown (str ov nv : Bytes) (i p : ℕ) (c : Cells UInt8) : Prop where
  shift : p = place str ov 0 i + i * (nv.length - ov.length)
  done : Back str c p (place str ov 0 i) (replaceAll ov nv (str.drop (place str ov 0 i)))

/-- The piece behind the occurrence is moved to the back, and a longer text is written in front of it. -/
theorem Grown.grow (hlen : ov.length ≤ nv.length) (hi : i < (findPositions str ov hov 0).length)
    (h : Grown str ov nv (i + 1) p c) :
    ∃ st, growStep nv ov.length (findPositions str ov hov 0 ++ [str.length]) (p, c) i = some st ∧
      Grown str ov nv i st.1 st.2 := by
  have hle := place_le hov hi
  have hend := place_le_length str ov 0 (i + 1)
  have hmul : (i + 1) * (nv.length - ov.length) = i * (nv.length - ov.length) + (nv.length - ov.length) :=
    Nat.succ_mul _ _
  have hshift := h.shift
  have hback := h.done
  obtain ⟨k, hk⟩ := Nat.exists_eq_add_of_le hle
  -- where the piece is moved to, and where the text is written
  have hpiece : p = place str ov 0 i + i * (nv.length - ov.length) + nv.length + k := by omega
  have hcopy : place str ov 0 (i + 1) - (place str ov 0 i + ov.length) = k := by omega
  rw [hk, hpiece] at hback
  obtain ⟨c₁, hmove, hback₁⟩ := hback.move (by omega)
  obtain ⟨c₂, hwrite, hback₂⟩ := (hback₁.mono (Nat.le_add_right (place str ov 0 i) ov.length)).write (by omega)
  have hsub : subSize p k = some (place str ov 0 i + i * (nv.length - ov.length) + nv.length) := by
    rw [subSize, if_pos (by omega)]
    congr 1
    omega
  have hsub' : subSize (place str ov 0 i + i * (nv.length - ov.length) + nv.length) nv.length =
      some (place str ov 0 i + i * (nv.length - ov.length)) := by
    rw [subSize, if_pos (by omega), Nat.add_sub_cancel]
  refine ⟨(_, c₂), ?_, rfl, ?_⟩
  · rw [growStep, copyLength_eq hov hi, hcopy, findPositions_getElem? hov hi.le]
    simp only [Option.bind_eq_bind, Option.bind_some, hsub, hsub', hmove, hwrite, Option.pure_def]
  · rw [replaceAll_place hov hi, hcopy, hk]
    exact hback₂

/-- The new size, without the wrap-around. -/
theorem replaceGrowing_eq (hlen : ov.length ≤ nv.length)
    (hsize : str.length + (nv.length - ov.length) * (findPositions str ov hov 0).length < 2 ^ 64) :
    (replaceGrowing nv ov.length (findPositions str ov hov 0) (original str)).map text =
      some (replaceAll ov nv str) := by
  generalize hn : str.length + (nv.length - ov.length) * (findPositions str ov hov 0).length = n at hsize
  have hstart : Grown str ov nv (findPositions str ov hov 0).length n (resize (original str) n) := by
    refine ⟨by rw [place_length, Nat.mul_comm, hn], ?_⟩
    rw [replaceAll_place_length, place_length]
    exact Back.start (by omega)
  obtain ⟨⟨p, c⟩, hloop, hdone⟩ : ∃ st, (List.range (findPositions str ov hov 0).length).reverse.foldlM
      (growStep nv ov.length (findPositions str ov hov 0 ++ [str.length])) (n, resize (original str) n) = some st ∧
      Grown str ov nv 0 st.1 st.2 :=
    foldlM_range_reverse (fun i (st : ℕ × Cells UInt8) => Grown str ov nv i st.1 st.2)
      (fun i hi st hinv => hinv.grow hov hlen hi) hstart
  have htext : text c = replaceAll ov nv str := by
    have hshift := hdone.shift
    have hback := hdone.done
    dsimp only at hshift hback
    rw [Nat.zero_mul, Nat.add_zero] at hshift
    rw [← List.take_append_drop (place str ov 0 0) c, text_append, hback.front, text_original, ← hshift, hback.back,
      hshift]
    exact take_place_append str ov nv
  rw [replaceGrowing, length_original, hn]
  simp only [Nat.mod_eq_of_lt hsize, length_resize, Option.bind_eq_bind, hloop, Option.bind_some, Option.pure_def,
    Option.map_some, htext]

/-- No round changes the size of the string. -/
theorem growStep_length {oldLen ii : ℕ} {vecPos : List ℕ} {st st' : ℕ × Cells UInt8}
    (h : growStep nv oldLen vecPos st ii = some st') : st'.2.length = st.2.length := by
  simp only [growStep, Option.bind_eq_bind, Option.bind_eq_some_iff, Option.pure_def, Option.some.injEq] at h
  obtain ⟨cplen, -, p₁, -, pos, -, c₁, hmove, p₂, -, c₂, hwrite, rfl⟩ := h
  exact (write_eq_some hwrite).1.trans (move_length hmove)

theorem replaceGrowing_length {oldLen : ℕ} {vecPos : List ℕ} {c' : Cells UInt8}
    (h : replaceGrowing nv oldLen vecPos c = some c') :
    c'.length = (c.length + (nv.length - oldLen) * vecPos.length) % 2 ^ 64 := by
  simp only [replaceGrowing, Option.bind_eq_bind, Option.bind_eq_some_iff, Option.pure_def, Option.some.injEq] at h
  obtain ⟨st, hloop, rfl⟩ := h
  have hkeeps := foldlM_keeps (fun st i st' hstep (hst : st.2.length = _) => (growStep_length hstep).trans hst)
    hloop rfl
  rw [hkeeps, length_resize]

end Positions

/-! ### The result -/

theorem length_replaceAll (ov nv str : Bytes) :
    (replaceAll ov nv str).length + occurrences ov str * ov.length = str.length + occurrences ov str * nv.length := by
  induction hn : str.length using Nat.strong_induction_on generalizing str with
  | _ n ih =>
    cases str with
    | nil =>
      rw [replaceAll, occurrences, scan, scan, ← hn]
      simp
    | cons b s =>
      rw [replaceAll, occurrences, scan, scan]
      by_cases h : ov ≠ [] ∧ ov <+: b :: s
      · have hpos := List.length_pos_iff.2 h.1
        have hle := h.2.length_le
        have hrest := ih _ (by rw [List.length_drop]; omega) ((b :: s).drop ov.length) rfl
        rw [if_pos h, if_pos h, List.length_append, Nat.succ_mul, Nat.succ_mul]
        rw [List.length_drop, replaceAll, occurrences] at hrest
        omega
      · have hrest := ih s.length (by rw [← hn]; exact Nat.lt_succ_self _) s rfl
        rw [if_neg h, if_neg h, List.length_cons]
        rw [replaceAll, occurrences] at hrest
        rw [List.length_cons] at hn
        omega

theorem occurrences_nil (str : Bytes) : occurrences [] str = 0 := by
  induction str with
  | nil => rw [occurrences, scan]
  | cons b s ih =>
    rw [occurrences, scan, if_neg fun h => h.1 rfl]
    exact ih

/-- Where nothing is to be replaced. -/
theorem replaceAll_of_occurrences_eq_zero (h : occurrences ov str = 0) : replaceAll ov nv str = str := by
  induction str with
  | nil => rw [replaceAll, scan]
  | cons b s ih =>
    rw [occurrences, scan] at h
    rw [replaceAll, scan]
    by_cases hov : ov ≠ [] ∧ ov <+: b :: s
    · rw [if_pos hov] at h
      cases h
    · rw [if_neg hov] at h ⊢
      exact congrArg _ (ih h)

/-- The size of the result, for a text that is longer. -/
theorem length_replaceAll_of_le (str : Bytes) (hlen : ov.length ≤ nv.length) :
    (replaceAll ov nv str).length = str.length + (nv.length - ov.length) * occurrences ov str := by
  have hsum := length_replaceAll ov nv str
  have hmul : occurrences ov str * nv.length =
      occurrences ov str * ov.length + (nv.length - ov.length) * occurrences ov str := by
    rw [Nat.mul_comm (nv.length - ov.length), ← Nat.mul_add, Nat.add_sub_of_le hlen]
  omega

theorem replaceString_of_occurrences_eq_zero (h : occurrences ov str = 0) :
    replaceString str ov nv = some (replaceAll ov nv str) := by
  rw [replaceAll_of_occurrences_eq_zero h, replaceString]
  by_cases hempty : str = [] ∨ ov = []
  · exact dif_pos hempty
  · rw [dif_neg hempty]
    refine if_pos ?_
    rw [length_findPositions _ (Nat.zero_le _), List.drop_zero, h]

/-- What the function does where there is something to be replaced. -/
theorem replaceString_of_ne_zero (nv : Bytes) (h : occurrences ov str ≠ 0) : ∃ hov : ov ≠ [],
    (findPositions str ov hov 0).length = occurrences ov str ∧ replaceString str ov nv =
      if ov.length = nv.length then (replaceEqual nv (findPositions str ov hov 0) (original str)).map text
      else if ov.length > nv.length then
        (replaceShrinking nv ov.length (findPositions str ov hov 0) (original str)).map text
      else (replaceGrowing nv ov.length (findPositions str ov hov 0) (original str)).map text := by
  have hov : ov ≠ [] := fun hov => h (hov ▸ occurrences_nil str)
  have hstr : str ≠ [] := by
    rintro rfl
    rw [occurrences, scan] at h
    exact h rfl
  have hcount := length_findPositions hov (Nat.zero_le str.length)
  rw [List.drop_zero] at hcount
  refine ⟨hov, hcount, ?_⟩
  rw [replaceString, dif_neg (by simp [hov, hstr]), if_neg (by rw [hcount]; exact h)]

/-- The result fits its size. -/
theorem replaceString_of_fits
    (h : nv.length ≤ ov.length ∨ str.length + occurrences ov str * (nv.length - ov.length) < 2 ^ 64) :
    replaceString str ov nv = some (replaceAll ov nv str) := by
  by_cases hzero : occurrences ov str = 0
  · exact replaceString_of_occurrences_eq_zero hzero
  · obtain ⟨hov, hcount, heq⟩ := replaceString_of_ne_zero nv hzero
    rw [heq]
    split_ifs with hequal hless
    · exact replaceEqual_eq hov hequal
    · exact replaceShrinking_eq hov hless.le (by omega)
    · refine replaceGrowing_eq hov (by omega) ?_
      rw [hcount, Nat.mul_comm]
      exact h.resolve_left (by omega)

/-- A size that wraps round is not that of the result. -/
theorem replaceString_of_overflow (hzero : occurrences ov str ≠ 0) (hlen : ov.length < nv.length)
    (hsize : 2 ^ 64 ≤ str.length + occurrences ov str * (nv.length - ov.length)) :
    replaceString str ov nv ≠ some (replaceAll ov nv str) := by
  obtain ⟨hov, hcount, heq⟩ := replaceString_of_ne_zero nv hzero
  rw [heq, if_neg (by omega), if_neg (by omega)]
  intro hsome
  obtain ⟨c, hc, htext⟩ := Option.map_eq_some_iff.1 hsome
  have hresult := length_replaceAll_of_le str hlen.le
  have hlength := replaceGrowing_length hc
  rw [← htext, length_text, hlength, Nat.mul_comm] at hresult
  have hmod := Nat.mod_lt ((original str).length + (findPositions str ov hov 0).length * (nv.length - ov.length))
    (Nat.two_pow_pos 64)
  rw [Nat.mul_comm (nv.length - ov.length)] at hresult
  omega

/-- **Replacing in place** gives the string with every occurrence replaced, by copies that stay inside the string and
read only what is still as it was, exactly when the size of the result does not wrap round. -/
theorem replaceString_eq_iff (str ov nv : Bytes) :
    replaceString str ov nv = some (replaceAll ov nv str) ↔ occurrences ov str = 0 ∨ nv.length ≤ ov.length ∨
      str.length + occurrences ov str * (nv.length - ov.length) < 2 ^ 64 := by
  constructor
  · intro h
    by_contra hcontra
    rw [not_or, not_or] at hcontra
    exact replaceString_of_overflow hcontra.1 (by omega) (by omega) h
  · rintro (hzero | hfits)
    · exact replaceString_of_occurrences_eq_zero hzero
    · exact replaceString_of_fits hfits

theorem occurrences_replicate (n : ℕ) (b : UInt8) : occurrences [b] (List.replicate n b) = n := by
  induction n with
  | zero => rw [List.replicate_zero, occurrences, scan]
  | succ n ih =>
    have hprefix : [b] <+: b :: List.replicate n b := ⟨List.replicate n b, rfl⟩
    rw [List.replicate_succ, occurrences, scan, if_pos ⟨List.cons_ne_nil _ _, hprefix⟩]
    exact congrArg (· + 1) ih

/-- A string of `2 ^ 32` letters, each of which is replaced by `2 ^ 32 + 1` ones. -/
theorem not_replaceString_eq : ¬ ∀ str ov nv : Bytes, str.length < 2 ^ 64 → ov.length < 2 ^ 64 → nv.length < 2 ^ 64 →
    replaceString str ov nv = some (replaceAll ov nv str) := by
  intro h
  have hcount := occurrences_replicate (2 ^ 32) 97
  have hresult := h (List.replicate (2 ^ 32) 97) [97] (List.replicate (2 ^ 32 + 1) 98)
    (by rw [List.length_replicate]; decide) (by decide) (by rw [List.length_replicate]; decide)
  refine replaceString_of_overflow ?_ ?_ ?_ hresult
  all_goals
    simp only [hcount, List.length_replicate, List.length_singleton]
    decide

end AimRT.Util
