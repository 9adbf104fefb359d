import Mathlib.Tactic

/-!
# The edit distance

How many elements must be inserted, deleted or replaced to make one list of another one.  An alignment goes through both
lists from the front and says what becomes of each element; `editDist` is the recursion that finds the cheapest alignment,
where equal elements are always kept.

**Main result.** `isLeast_editDist`: `editDist xs ys` is the least number of edits, made anywhere and in any order, that lead
from `xs` to `ys`.
-/

namespace AimRT.Lib.EditDistance

variable {A : Type} {xs ys zs : List A} {m n : ℕ}

/-- One element is inserted, deleted or replaced. -/
inductive Edit : List A → List A → Prop
  | insert (front : List A) (y : A) (rest : List A) : Edit (front ++ rest) (front ++ y :: rest)
  | delete (front : List A) (x : A) (rest : List A) : Edit (front ++ x :: rest) (front ++ rest)
  | replace (front : List A) (x y : A) (rest : List A) : Edit (front ++ x :: rest) (front ++ y :: rest)

/-- One edit after the other. -/
inductive Edits : ℕ → List A → List A → Prop
  | refl (xs : List A) : Edits 0 xs xs
  | step {n : ℕ} {xs ys zs : List A} : Edits n xs ys → Edit ys zs → Edits (n + 1) xs zs

/-- What becomes of the elements, from the front to the end, with at most so many edits. -/
inductive Align : ℕ → List A → List A → Prop
  | nil (n : ℕ) : Align n [] []
  | keep {n : ℕ} {xs ys : List A} (x : A) : Align n xs ys → Align n (x :: xs) (x :: ys)
  | replace {n : ℕ} {xs ys : List A} (x y : A) : Align n xs ys → Align (n + 1) (x :: xs) (y :: ys)
  | delete {n : ℕ} {xs ys : List A} (x : A) : Align n xs ys → Align (n + 1) (x :: xs) ys
  | insert {n : ℕ} {xs ys : List A} (y : A) : Align n xs ys → Align (n + 1) xs (y :: ys)

/-! ### Edits -/

theorem Edit.cons (x : A) (h : Edit xs ys) : Edit (x :: xs) (x :: ys) := by
  cases h with
  | insert front y rest => exact .insert (x :: front) y rest
  | delete front y rest => exact .delete (x :: front) y rest
  | replace front y z rest => exact .replace (x :: front) y z rest

theorem Edits.cons (x : A) (h : Edits n xs ys) : Edits n (x :: xs) (x :: ys) := by
  induction h with
  | refl xs => exact .refl _
  | step _ hedit ih => exact .step ih (hedit.cons x)

theorem Edit.reverse (h : Edit xs ys) : Edit xs.reverse ys.reverse := by
  cases h with
  | insert front y rest => simpa using Edit.insert rest.reverse y front.reverse
  | delete front x rest => simpa using Edit.delete rest.reverse x front.reverse
  | replace front x y rest => simpa using Edit.replace rest.reverse x y front.reverse

theorem Edits.reverse (h : Edits n xs ys) : Edits n xs.reverse ys.reverse := by
  induction h with
  | refl xs => exact .refl _
  | step _ hedit ih => exact .step ih hedit.reverse

theorem edits_reverse_iff : Edits n xs.reverse ys.reverse ↔ Edits n xs ys :=
  ⟨fun h => by simpa using h.reverse, Edits.reverse⟩

/-! ### Alignments -/

theorem Align.refl (n : ℕ) : ∀ xs : List A, Align n xs xs
  | [] => .nil n
  | x :: xs => .keep x (Align.refl n xs)

theorem Align.mono (h : Align m xs ys) (hle : m ≤ n) : Align n xs ys := by
  induction h generalizing n with
  | nil m => exact .nil n
  | keep x _ ih => exact .keep x (ih hle)
  | replace x y _ ih =>
    obtain ⟨k, rfl⟩ := Nat.exists_eq_add_of_le' (Nat.one_le_of_lt hle)
    exact .replace x y (ih (by omega))
  | delete x _ ih =>
    obtain ⟨k, rfl⟩ := Nat.exists_eq_add_of_le' (Nat.one_le_of_lt hle)
    exact .delete x (ih (by omega))
  | insert y _ ih =>
    obtain ⟨k, rfl⟩ := Nat.exists_eq_add_of_le' (Nat.one_le_of_lt hle)
    exact .insert y (ih (by omega))

/-- The alignment where everything is inserted. -/
theorem align_nil_left (h : ys.length ≤ n) : Align n [] ys := by
  induction ys generalizing n with
  | nil => exact .nil n
  | cons y ys ih =>
    obtain ⟨k, rfl⟩ := Nat.exists_eq_add_of_le' (Nat.one_le_of_lt h)
    exact .insert y (ih (by simpa using h))

/-- The alignment where everything is deleted. -/
theorem align_nil_right (h : xs.length ≤ n) : Align n xs [] := by
  induction xs generalizing n with
  | nil => exact .nil n
  | cons x xs ih =>
    obtain ⟨k, rfl⟩ := Nat.exists_eq_add_of_le' (Nat.one_le_of_lt h)
    exact .delete x (ih (by simpa using h))

theorem Align.length_le (h : Align n xs ys) : ys.length ≤ xs.length + n ∧ xs.length ≤ ys.length + n := by
  induction h with
  | nil n => simp
  | keep x _ ih => simpa [Nat.add_right_comm] using ih
  | replace x y _ ih => simp only [List.length_cons]; omega
  | delete x _ ih => simp only [List.length_cons]; omega
  | insert y _ ih => simp only [List.length_cons]; omega

theorem Align.edits (h : Align n xs ys) : ∃ k ≤ n, Edits k xs ys := by
  induction h with
  | nil n => exact ⟨0, n.zero_le, .refl _⟩
  | keep x _ ih =>
    obtain ⟨k, hk, hedits⟩ := ih
    exact ⟨k, hk, hedits.cons x⟩
  | replace x y _ ih =>
    obtain ⟨k, hk, hedits⟩ := ih
    exact ⟨k + 1, by omega, .step (hedits.cons x) (.replace [] x y _)⟩
  | delete x _ ih =>
    obtain ⟨k, hk, hedits⟩ := ih
    exact ⟨k + 1, by omega, .step (hedits.cons x) (.delete [] x _)⟩
  | insert y _ ih =>
    obtain ⟨k, hk, hedits⟩ := ih
    exact ⟨k + 1, by omega, .step hedits (.insert [] y _)⟩

/-! ### One edit behind an alignment -/

/-- The edit is one at the front, unless both lists go on behind an element that it leaves alone. -/
theorem Edit.cases_cons {y : A} (h : Edit (y :: ys) zs) :
    (∃ z, zs = z :: y :: ys) ∨ zs = ys ∨ (∃ z, zs = z :: ys) ∨ ∃ zs', zs = y :: zs' ∧ Edit ys zs' := by
  generalize heq : y :: ys = l at h
  cases h with
  | insert front z rest =>
    cases front with
    | nil => exact .inl ⟨z, by simp⟩
    | cons y' front =>
      obtain ⟨rfl, rfl⟩ := List.cons.inj heq
      exact .inr (.inr (.inr ⟨_, rfl, .insert front z rest⟩))
  | delete front x rest =>
    cases front with
    | nil =>
      obtain ⟨rfl, rfl⟩ := List.cons.inj heq
      exact .inr (.inl rfl)
    | cons y' front =>
      obtain ⟨rfl, rfl⟩ := List.cons.inj heq
      exact .inr (.inr (.inr ⟨_, rfl, .delete front x rest⟩))
  | replace front x z rest =>
    cases front with
    | nil =>
      obtain ⟨rfl, rfl⟩ := List.cons.inj heq
      exact .inr (.inr (.inl ⟨z, rfl⟩))
    | cons y' front =>
      obtain ⟨rfl, rfl⟩ := List.cons.inj heq
      exact .inr (.inr (.inr ⟨_, rfl, .replace front x z rest⟩))

theorem Edit.of_nil (h : Edit [] zs) : ∃ z, zs = [z] := by
  generalize heq : ([] : List A) = l at h
  cases h with
  | insert front z rest =>
    obtain ⟨rfl, rfl⟩ := List.append_eq_nil_iff.1 heq.symm
    exact ⟨z, rfl⟩
  | delete front x rest => simp at heq
  | replace front x y rest => simp at heq

/-- What one list has at its front need not be made. -/
theorem Align.tail_right {y : A} (h : Align n xs (y :: ys)) : Align (n + 1) xs ys := by
  generalize heq : y :: ys = l at h
  induction h with
  | nil n => cases heq
  | keep x h _ =>
    obtain ⟨rfl, rfl⟩ := List.cons.inj heq
    exact .delete _ h
  | replace x z h _ =>
    obtain ⟨rfl, rfl⟩ := List.cons.inj heq
    exact .delete _ (h.mono (by omega))
  | delete x _ ih => exact .delete x (ih heq)
  | insert z h _ =>
    obtain ⟨rfl, rfl⟩ := List.cons.inj heq
    exact h.mono (by omega)

theorem Align.tail_left {x : A} (h : Align n (x :: xs) ys) : Align (n + 1) xs ys := by
  generalize heq : x :: xs = l at h
  induction h with
  | nil n => cases heq
  | keep z h _ =>
    obtain ⟨rfl, rfl⟩ := List.cons.inj heq
    exact .insert _ h
  | replace z y h _ =>
    obtain ⟨rfl, rfl⟩ := List.cons.inj heq
    exact .insert _ (h.mono (by omega))
  | delete z h _ =>
    obtain ⟨rfl, rfl⟩ := List.cons.inj heq
    exact h.mono (by omega)
  | insert y _ ih => exact .insert y (ih heq)

/-- The front of the second list is another one. -/
theorem Align.replace_right {y z : A} (h : Align n xs (y :: ys)) : Align (n + 1) xs (z :: ys) := by
  generalize heq : y :: ys = l at h
  induction h with
  | nil n => cases heq
  | keep x h _ =>
    obtain ⟨rfl, rfl⟩ := List.cons.inj heq
    exact .replace _ z h
  | replace x w h _ =>
    obtain ⟨rfl, rfl⟩ := List.cons.inj heq
    exact .replace x z (h.mono (by omega))
  | delete x _ ih => exact .delete x (ih heq)
  | insert w h _ =>
    obtain ⟨rfl, rfl⟩ := List.cons.inj heq
    exact .insert z (h.mono (by omega))

theorem Align.edit (h : Align n xs ys) (hedit : Edit ys zs) : Align (n + 1) xs zs := by
  induction h generalizing zs with
  | nil n =>
    obtain ⟨z, rfl⟩ := hedit.of_nil
    exact .insert z (.nil n)
  | keep x h ih =>
    rcases hedit.cases_cons with ⟨z, rfl⟩ | rfl | ⟨z, rfl⟩ | ⟨zs, rfl, htail⟩
    · exact .insert z (.keep x h)
    · exact .delete x h
    · exact .replace x z h
    · exact .keep x (ih htail)
  | replace x y h ih =>
    rcases hedit.cases_cons with ⟨z, rfl⟩ | rfl | ⟨z, rfl⟩ | ⟨zs, rfl, htail⟩
    · exact .insert z (.replace x y h)
    · exact (Align.replace x y h).tail_right
    · exact (Align.replace x y h).replace_right
    · exact .replace x y (ih htail)
  | delete x _ ih => exact .delete x (ih hedit)
  | insert y h ih =>
    rcases hedit.cases_cons with ⟨z, rfl⟩ | rfl | ⟨z, rfl⟩ | ⟨zs, rfl, htail⟩
    · exact .insert z (.insert y h)
    · exact h.mono (by omega)
    · exact (Align.insert y h).replace_right
    · exact .insert y (ih htail)

theorem Edits.align (h : Edits n xs ys) : Align n xs ys := by
  induction h with
  | refl xs => exact .refl 0 xs
  | step _ hedit ih => exact ih.edit hedit

/-- An element that both lists have at their front can be kept. -/
theorem Align.of_cons_cons {x : A} (h : Align n (x :: xs) (x :: ys)) : Align n xs ys := by
  cases h with
  | keep x h => exact h
  | replace x y h => exact h.mono (by omega)
  | delete x h => exact h.tail_right
  | insert y h => exact h.tail_left

/-! ### The distance -/

variable [DecidableEq A]

/-- The recursion on the elements at the front, where equal ones are kept. -/
def editDist : List A → List A → ℕ
  | [], ys => ys.length
  | x :: xs, [] => (x :: xs).length
  | x :: xs, y :: ys =>
    if x = y then editDist xs ys else min (min (editDist xs (y :: ys)) (editDist (x :: xs) ys)) (editDist xs ys) + 1
termination_by xs ys => xs.length + ys.length

theorem align_editDist (xs ys : List A) : Align (editDist xs ys) xs ys := by
  induction xs, ys using editDist.induct with
  | case1 ys => exact align_nil_left (by rw [editDist])
  | case2 x xs => exact align_nil_right (by rw [editDist])
  | case3 xs x ys ih =>
    rw [editDist, if_pos rfl]
    exact .keep x ih
  | case4 x xs y ys hne ihdel ihins ihrep =>
    rw [editDist, if_neg hne]
    rcases min_choice (min (editDist xs (y :: ys)) (editDist (x :: xs) ys)) (editDist xs ys) with hmin | hmin
    · rw [hmin]
      rcases min_choice (editDist xs (y :: ys)) (editDist (x :: xs) ys) with hmin | hmin
      · rw [hmin]
        exact .delete x ihdel
      · rw [hmin]
        exact .insert y ihins
    · rw [hmin]
      exact .replace x y ihrep

theorem editDist_le (h : Align n xs ys) : editDist xs ys ≤ n := by
  induction xs, ys using editDist.induct generalizing n with
  | case1 ys =>
    rw [editDist]
    simpa using h.length_le.1
  | case2 x xs =>
    rw [editDist]
    simpa using h.length_le.2
  | case3 xs x ys ih =>
    rw [editDist, if_pos rfl]
    exact ih h.of_cons_cons
  | case4 x xs y ys hne ihdel ihins ihrep =>
    rw [editDist, if_neg hne]
    cases h with
    | keep x h => exact absurd rfl hne
    | replace x y h => exact Nat.succ_le_succ ((min_le_right _ _).trans (ihrep h))
    | delete x h => exact Nat.succ_le_succ (((min_le_left _ _).trans (min_le_left _ _)).trans (ihdel h))
    | insert y h => exact Nat.succ_le_succ (((min_le_left _ _).trans (min_le_right _ _)).trans (ihins h))

/-- **Main result.** -/
theorem isLeast_editDist (xs ys : List A) : IsLeast {n | Edits n xs ys} (editDist xs ys) := by
  have hlower : ∀ {k}, Edits k xs ys → editDist xs ys ≤ k := fun hk => editDist_le hk.align
  refine ⟨?_, fun n hn => hlower hn⟩
  obtain ⟨k, hk, hedits⟩ := (align_editDist xs ys).edits
  obtain rfl : k = editDist xs ys := le_antisymm hk (hlower hedits)
  exact hedits

theorem editDist_reverse (xs ys : List A) : editDist xs.reverse ys.reverse = editDist xs ys := by
  have h := isLeast_editDist xs.reverse ys.reverse
  simp only [edits_reverse_iff] at h
  exact h.unique (isLeast_editDist xs ys)

end AimRT.Lib.EditDistance
