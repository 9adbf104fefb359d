import Mathlib.Tactic

/-!
# Places in fragments

A list that lies in parts, one behind the other, and a place in it: the number of a part and an offset in that part.
`rest` is what is behind a place.  A proper place is at the start of a part or inside one; it is behind the last element
only where all the parts from it on are empty.
-/

namespace AimRT.Lib.Fragments

variable {A : Type} {parts : List (List A)} {part : List A} {i j : ℕ}

def rest (parts : List (List A)) (i j : ℕ) : List A := (parts.drop i).flatten.drop j

/-- At the start of a part or inside one. -/
def Proper (parts : List (List A)) (i j : ℕ) : Prop := j = 0 ∨ ∃ part, parts[i]? = some part ∧ j < part.length

theorem rest_start (parts : List (List A)) : rest parts 0 0 = parts.flatten := rfl

theorem rest_add (parts : List (List A)) (i j n : ℕ) : rest parts i (j + n) = (rest parts i j).drop n :=
  List.drop_drop.symm

/-- The rest of a part, and the parts behind it. -/
theorem rest_eq (hpart : parts[i]? = some part) (hj : j ≤ part.length) :
    rest parts i j = part.drop j ++ rest parts (i + 1) 0 := by
  obtain ⟨hi, rfl⟩ := List.getElem?_eq_some_iff.1 hpart
  rw [rest, List.drop_eq_getElem_cons hi, List.flatten_cons, List.drop_append_of_le_length hj]
  rfl

theorem rest_end (hpart : parts[i]? = some part) : rest parts i part.length = rest parts (i + 1) 0 := by
  rw [rest_eq hpart le_rfl, List.drop_length, List.nil_append]

/-- A piece of a part is the front of what is behind its place. -/
theorem take_rest (hpart : parts[i]? = some part) {n : ℕ} (hn : j + n ≤ part.length) :
    (part.drop j).take n = (rest parts i j).take n ∧ n ≤ (rest parts i j).length := by
  have hlen : n ≤ (part.drop j).length := by
    rw [List.length_drop]
    omega
  rw [rest_eq hpart (by omega), List.take_append_of_le_length hlen, List.length_append]
  exact ⟨rfl, by omega⟩

/-- No element of the rest: the parts from the place on are empty. -/
theorem eq_nil_of_rest (hproper : Proper parts i j) (hrest : rest parts i j = []) {k : ℕ} (hk : i ≤ k)
    (hpart : parts[k]? = some part) : part = [] := by
  rcases hproper with rfl | ⟨part', hpart', hj⟩
  · have hmem : part ∈ parts.drop i := by
      refine List.mem_of_getElem? (i := k - i) ?_
      rw [List.getElem?_drop, Nat.add_sub_cancel' hk, hpart]
    exact List.flatten_eq_nil_iff.1 hrest part hmem
  · rw [rest_eq hpart' hj.le, List.append_eq_nil_iff, List.drop_eq_nil_iff] at hrest
    omega

/-- Something is left: a part from the place on is not empty. -/
theorem exists_of_rest (hrest : rest parts i j ≠ []) :
    i < parts.length ∧ ∃ k, i ≤ k ∧ ∃ part, parts[k]? = some part ∧ part ≠ [] := by
  have hflat : (parts.drop i).flatten ≠ [] := fun hnil => hrest (by rw [rest, hnil, List.drop_nil])
  obtain ⟨part, hmem, hne⟩ : ∃ part ∈ parts.drop i, part ≠ [] := by
    by_contra hall
    refine hflat (List.flatten_eq_nil_iff.2 fun part hmem => ?_)
    by_contra hne
    exact hall ⟨part, hmem, hne⟩
  obtain ⟨k, hk⟩ := List.mem_iff_getElem?.1 hmem
  rw [List.getElem?_drop] at hk
  have hlt := (List.getElem?_eq_some_iff.1 hk).1
  exact ⟨by omega, i + k, by omega, part, hk, hne⟩

end AimRT.Lib.Fragments
