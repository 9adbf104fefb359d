import AimRT.Lib.Splitting

/-!
# Positions in a text

Where a text stands in another one: the first place from a position on (`find`), or the last one up to it (`rfind`); and
the text between two positions.  The text up to the next occurrence of a separator ends at `findOrEnd`, and what stands
behind the last one starts at `startBehind`.
-/

namespace AimRT.Lib.StringView

variable {A : Type} {s t : List A} {a b c i j k pos : ℕ}

/-- `t` stands in `s` at the position `i`. -/
def Occurs (t s : List A) (i : ℕ) : Prop := i ≤ s.length ∧ t <+: s.drop i

instance [DecidableEq A] (t s : List A) : DecidablePred (Occurs t s) := fun _ => inferInstanceAs (Decidable (_ ∧ _))

theorem Occurs.length_le (h : Occurs t s i) : i + t.length ≤ s.length := by
  have hlen := h.2.length_le
  rw [List.length_drop] at hlen
  have hle := h.1
  omega

theorem Occurs.subset (h : Occurs t s i) : t ⊆ s := fun _ hx => List.drop_subset i s (h.2.subset hx)

theorem occurs_of_append (l r : List A) (h : s = l ++ t ++ r) : Occurs t s l.length := by
  subst h
  refine ⟨by rw [List.append_assoc, List.length_append]; omega, ?_⟩
  rw [List.append_assoc, List.drop_left]
  exact List.prefix_append t r

theorem Occurs.exists_append (h : Occurs t s i) : ∃ r, s = s.take i ++ t ++ r := by
  obtain ⟨-, r, hr⟩ := h
  exact ⟨r, by rw [List.append_assoc, hr, List.take_append_drop]⟩

/-! ### The text between two positions -/

/-- `s.substr(start, stop - start)`: the difference wraps around where `stop` lies in front of `start`, and what is
taken is the rest of the text. -/
def between (s : List A) (start stop : ℕ) : List A :=
  if start ≤ stop then (s.drop start).take (stop - start) else s.drop start

theorem between_of_le (h : a ≤ b) : between s a b = (s.drop a).take (b - a) := if_pos h

theorem length_between (hab : a ≤ b) (hb : b ≤ s.length) : (between s a b).length = b - a := by
  rw [between_of_le hab, List.length_take, List.length_drop]
  omega

@[simp] theorem between_self (s : List A) (a : ℕ) : between s a a = [] := by
  rw [between_of_le le_rfl, Nat.sub_self, List.take_zero]

theorem between_length (s : List A) (a : ℕ) : between s a s.length = s.drop a := by
  unfold between
  split_ifs with h
  · rw [List.take_of_length_le (by rw [List.length_drop])]
  · rfl

theorem between_append (hab : a ≤ b) (hbc : b ≤ c) : between s a c = between s a b ++ between s b c := by
  have hdrop : s.drop b = (s.drop a).drop (b - a) := by
    rw [List.drop_drop]
    congr 1
    omega
  rw [between_of_le (hab.trans hbc), between_of_le hab, between_of_le hbc, hdrop, ← List.take_add]
  congr 1
  omega

theorem Occurs.between_eq (h : Occurs t s i) : between s i (i + t.length) = t := by
  rw [between_of_le (Nat.le_add_right _ _), Nat.add_sub_cancel_left]
  exact (List.prefix_iff_eq_take.1 h.2).symm

/-- What stands around an occurrence. -/
theorem Occurs.between_split (h : Occurs t s i) (ha : a ≤ i) (hb : i + t.length ≤ b) :
    between s a b = between s a i ++ t ++ between s (i + t.length) b := by
  rw [between_append (ha.trans (Nat.le_add_right _ _)) hb, between_append ha (Nat.le_add_right _ _), h.between_eq]

/-- An occurrence in a piece is one in the text. -/
theorem occurs_of_between {l r : List A} (hab : a ≤ b) (ha : a ≤ s.length) (h : between s a b = l ++ t ++ r) :
    Occurs t s (a + l.length) := by
  have hdrop : s.drop a = l ++ t ++ (r ++ (s.drop a).drop (b - a)) := by
    rw [between_of_le hab] at h
    rw [← List.append_assoc, ← h, List.take_append_drop]
  obtain ⟨hle, hprefix⟩ := occurs_of_append _ _ hdrop
  rw [List.length_drop] at hle
  rw [List.drop_drop] at hprefix
  exact ⟨by omega, hprefix⟩

/-- The occurrences in a piece of the text. -/
theorem occurs_between_iff (hab : a ≤ b) (hb : b ≤ s.length) :
    Occurs t (between s a b) i ↔ Occurs t s (a + i) ∧ a + i + t.length ≤ b := by
  have hlen := length_between hab hb
  constructor
  · intro h
    have hle := h.length_le
    obtain ⟨r, hsplit⟩ := h.exists_append
    have hi : ((between s a b).take i).length = i := by
      rw [List.length_take]
      omega
    have hoccurs := occurs_of_between hab (hab.trans hb) hsplit
    rw [hi] at hoccurs
    exact ⟨hoccurs, by omega⟩
  · rintro ⟨h, hle⟩
    have hsplit := h.between_split (Nat.le_add_right a i) hle
    have hi : (between s a (a + i)).length = i := by
      rw [length_between (Nat.le_add_right a i) h.1, Nat.add_sub_cancel_left]
    have hoccurs := occurs_of_append _ _ hsplit
    rwa [hi] at hoccurs

theorem take_between (h : a + i ≤ b) : (between s a b).take i = between s a (a + i) := by
  rw [between_of_le (by omega), between_of_le (Nat.le_add_right a i), List.take_take]
  congr 1
  omega

theorem drop_between (h : a + i ≤ b) : (between s a b).drop i = between s (a + i) b := by
  rw [between_of_le (by omega), between_of_le h, List.drop_take, List.drop_drop]
  congr 1
  omega

theorem between_subset (hab : a ≤ b) (hbc : b ≤ c) {x : A} (hx : x ∈ between s b c) : x ∈ between s a c := by
  rw [between_append hab hbc]
  exact List.mem_append_right _ hx

/-! ### One letter -/

theorem occurs_singleton_iff {x : A} : Occurs [x] s i ↔ s[i]? = some x := by
  constructor
  · rintro ⟨-, r, hr⟩
    rw [← List.head?_drop, ← hr]
    rfl
  · intro h
    rw [← List.head?_drop] at h
    obtain ⟨r, hr⟩ := List.head?_eq_some_iff.1 h
    refine ⟨Nat.le_of_not_lt fun hlt => ?_, r, hr.symm⟩
    rw [List.drop_eq_nil_of_le (Nat.le_of_lt hlt)] at hr
    cases hr

theorem mem_between_of_occurs {x : A} (h : Occurs [x] s i) (ha : a ≤ i) (hb : i < b) : x ∈ between s a b := by
  rw [h.between_split ha hb]
  simp

/-! ### Occurrences that do not overlap -/

/-- The beginning of the text, or a position behind an occurrence of `t`. -/
def Bound (t s : List A) (a : ℕ) : Prop := a = 0 ∨ ∃ p, Occurs t s p ∧ a = p + t.length

theorem Bound.le (h : Bound t s a) : a ≤ s.length := by
  rcases h with rfl | ⟨p, hp, rfl⟩
  · exact Nat.zero_le _
  · exact hp.length_le

/-- The occurrences of two texts do not overlap. -/
def Apart (k t s : List A) : Prop :=
  ∀ i j, Occurs k s i → Occurs t s j → i + k.length ≤ j ∨ j + t.length ≤ i

theorem not_occurs_singleton {x : A} (h : x ∉ t) (i : ℕ) : ¬Occurs [x] t i := fun hi =>
  h (hi.subset (List.mem_singleton_self x))

theorem apart_singleton {x : A} (h : x ∉ t) (s : List A) : Apart t [x] s := by
  intro i j hi hj
  by_contra hcontra
  rw [List.length_singleton, not_or] at hcontra
  have hmem : x ∈ between s i (i + t.length) := mem_between_of_occurs hj (by omega) (by omega)
  rw [hi.between_eq] at hmem
  exact h hmem

/-- No two occurrences of `t` overlap. -/
def Separate (t s : List A) : Prop := ∀ i j, Occurs t s i → Occurs t s j → i < j → i + t.length ≤ j

theorem separate_singleton (x : A) (s : List A) : Separate [x] s := fun _ _ _ _ hlt => hlt

/-! ### The search -/

section Find

variable [DecidableEq A]

/-- `s.find(t, pos)`. -/
def find (s t : List A) (pos : ℕ) : Option ℕ := (List.range' pos (s.length + 1 - pos)).find? fun i => Occurs t s i

theorem find_eq_some :
    find s t pos = some i ↔ pos ≤ i ∧ Occurs t s i ∧ ∀ j, pos ≤ j → j < i → ¬Occurs t s j := by
  rw [find, List.find?_range'_eq_some, List.mem_range'_1]
  simp only [decide_eq_true_eq, Bool.not_eq_true', decide_eq_false_iff_not]
  constructor
  · rintro ⟨hi, ⟨hpos, -⟩, hfirst⟩
    exact ⟨hpos, hi, hfirst⟩
  · rintro ⟨hpos, hi, hfirst⟩
    have hle := hi.1
    exact ⟨hi, ⟨hpos, by omega⟩, hfirst⟩

theorem find_eq_none : find s t pos = none ↔ ∀ i, pos ≤ i → ¬Occurs t s i := by
  rw [find, List.find?_range'_eq_none]
  simp only [Bool.not_eq_true', decide_eq_false_iff_not]
  constructor
  · intro h i hpos hi
    have hle := hi.1
    exact h i hpos (by omega) hi
  · intro h i hpos _
    exact h i hpos

/-- `s.rfind(t, pos)`. -/
def rfind (s t : List A) : ℕ → Option ℕ
  | 0 => if Occurs t s 0 then some 0 else none
  | pos + 1 => if Occurs t s (pos + 1) then some (pos + 1) else rfind s t pos

theorem rfind_eq_none (h : rfind s t pos = none) (hj : j ≤ pos) : ¬Occurs t s j := by
  induction pos with
  | zero =>
    obtain rfl := Nat.le_zero.1 hj
    rw [rfind] at h
    split_ifs at h with hoccurs
    exact hoccurs
  | succ pos ih =>
    rw [rfind] at h
    split_ifs at h with hoccurs
    rcases Nat.le_succ_iff.1 hj with hle | rfl
    · exact ih h hle
    · exact hoccurs

theorem rfind_eq_some (h : rfind s t pos = some i) :
    i ≤ pos ∧ Occurs t s i ∧ ∀ j, i < j → j ≤ pos → ¬Occurs t s j := by
  induction pos with
  | zero =>
    rw [rfind] at h
    split_ifs at h with hoccurs
    obtain rfl := Option.some.inj h
    exact ⟨le_rfl, hoccurs, fun j hlt hle => absurd hlt (by omega)⟩
  | succ pos ih =>
    rw [rfind] at h
    split_ifs at h with hoccurs
    · obtain rfl := Option.some.inj h
      exact ⟨le_rfl, hoccurs, fun j hlt hle => absurd hlt (by omega)⟩
    · obtain ⟨hle, hi, hlast⟩ := ih h
      refine ⟨Nat.le_succ_of_le hle, hi, fun j hlt hj => ?_⟩
      rcases Nat.le_succ_iff.1 hj with hle' | rfl
      · exact hlast j hlt hle'
      · exact hoccurs

/-- The search in a piece of the text. -/
theorem find_between_eq_some (hab : a ≤ b) (hb : b ≤ s.length) :
    find (between s a b) t 0 = some i ↔ find s t a = some (a + i) ∧ a + i + t.length ≤ b := by
  rw [find_eq_some, find_eq_some, occurs_between_iff hab hb]
  constructor
  · rintro ⟨-, ⟨hi, hle⟩, hfirst⟩
    refine ⟨⟨Nat.le_add_right a i, hi, fun j hj hlt hoccurs => ?_⟩, hle⟩
    refine hfirst (j - a) (Nat.zero_le _) (by omega) ((occurs_between_iff hab hb).2 ?_)
    rw [Nat.add_sub_of_le hj]
    exact ⟨hoccurs, by omega⟩
  · rintro ⟨⟨-, hi, hfirst⟩, hle⟩
    refine ⟨Nat.zero_le _, ⟨hi, hle⟩, fun j _ hlt hoccurs => ?_⟩
    exact hfirst (a + j) (Nat.le_add_right a j) (by omega) ((occurs_between_iff hab hb).1 hoccurs).1

/-! ### Pieces of a text -/

/-- The next place of `t`, or the end of the text. -/
def findOrEnd (s t : List A) (pos : ℕ) : ℕ := (find s t pos).getD s.length

/-- Behind the last place of `t` up to `pos`, or at the beginning. -/
def startBehind (s t : List A) (pos : ℕ) : ℕ :=
  match rfind s t pos with
  | none => 0
  | some i => i + t.length

theorem findOrEnd_le (s t : List A) (pos : ℕ) : findOrEnd s t pos ≤ s.length := by
  unfold findOrEnd
  cases hfind : find s t pos with
  | none => exact le_rfl
  | some i => exact (find_eq_some.1 hfind).2.1.1

theorem le_findOrEnd (h : pos ≤ s.length) : pos ≤ findOrEnd s t pos := by
  unfold findOrEnd
  cases hfind : find s t pos with
  | none => exact h
  | some i => exact (find_eq_some.1 hfind).1

theorem findOrEnd_le_of_occurs (h : Occurs t s i) (hpos : pos ≤ i) : findOrEnd s t pos ≤ i := by
  unfold findOrEnd
  cases hfind : find s t pos with
  | none => exact absurd h (find_eq_none.1 hfind i hpos)
  | some i' => exact Nat.le_of_not_lt fun hlt => (find_eq_some.1 hfind).2.2 i hpos hlt h

theorem not_occurs_of_lt_findOrEnd (hpos : pos ≤ j) (hj : j < findOrEnd s t pos) : ¬Occurs t s j := fun h =>
  absurd (findOrEnd_le_of_occurs h hpos) (Nat.not_le.2 hj)

/-- The end of a piece before the end of the text is a place of `t`. -/
theorem find_of_findOrEnd_lt (h : findOrEnd s t pos < s.length) : find s t pos = some (findOrEnd s t pos) := by
  unfold findOrEnd at h ⊢
  cases hfind : find s t pos with
  | none =>
    rw [hfind] at h
    exact absurd h (Nat.lt_irrefl _)
  | some i => rfl

theorem findOrEnd_of_find (h : find s t pos = some i) : findOrEnd s t pos = i := by
  rw [findOrEnd, h, Option.getD_some]

/-- Two positions with nothing between them have the same end. -/
theorem findOrEnd_eq_of_not_occurs (hab : a ≤ b) (h : ∀ j, a ≤ j → j < b → ¬Occurs t s j) :
    findOrEnd s t a = findOrEnd s t b := by
  unfold findOrEnd
  cases hfind : find s t b with
  | none =>
    have hnone : find s t a = none := find_eq_none.2 fun i hi =>
      if hlt : i < b then h i hi hlt else find_eq_none.1 hfind i (Nat.not_lt.1 hlt)
    rw [hnone]
  | some i =>
    obtain ⟨hle, hi, hfirst⟩ := find_eq_some.1 hfind
    have hsome : find s t a = some i := find_eq_some.2 ⟨hab.trans hle, hi, fun j hj hji =>
      if hlt : j < b then h j hj hlt else hfirst j (Nat.not_lt.1 hlt) hji⟩
    rw [hsome]

theorem bound_startBehind (s t : List A) (pos : ℕ) : Bound t s (startBehind s t pos) := by
  unfold startBehind
  cases hfind : rfind s t pos with
  | none => exact .inl rfl
  | some i => exact .inr ⟨i, (rfind_eq_some hfind).2.1, rfl⟩

/-- Between the start of a piece and the position stands no `t`. -/
theorem not_occurs_of_startBehind_le (hj : startBehind s t pos ≤ j) (hpos : j ≤ pos) (ht : t ≠ []) :
    ¬Occurs t s j := by
  unfold startBehind at hj
  cases hfind : rfind s t pos with
  | none => exact rfind_eq_none hfind hpos
  | some i =>
    rw [hfind] at hj
    have hlen := List.length_pos_iff.2 ht
    exact (rfind_eq_some hfind).2.2 j (by dsimp only at hj; omega) hpos

theorem Bound.le_startBehind (h : Bound t s a) (ha : a ≤ pos) : a ≤ startBehind s t pos := by
  rcases h with rfl | ⟨p, hp, rfl⟩
  · exact Nat.zero_le _
  · unfold startBehind
    cases hfind : rfind s t pos with
    | none => exact absurd hp (rfind_eq_none hfind (by omega))
    | some i =>
      refine Nat.add_le_add_right (Nat.le_of_not_lt fun hlt => ?_) _
      exact (rfind_eq_some hfind).2.2 p hlt (by omega) hp

theorem Apart.startBehind_le {k : List A} (h : Apart k t s) (hi : Occurs k s i) (hk : k ≠ []) :
    startBehind s t i ≤ i := by
  unfold startBehind
  cases hfind : rfind s t i with
  | none => exact Nat.zero_le _
  | some p =>
    obtain ⟨hle, hp, -⟩ := rfind_eq_some hfind
    have hlen := List.length_pos_iff.2 hk
    rcases h i p hi hp with hbefore | hbehind
    · omega
    · exact hbehind

/-! ### Cutting from the left -/

/-- From the start of a piece to the start of the next one. -/
def Next (t s : List A) (a b : ℕ) : Prop := ∃ j, find s t a = some j ∧ b = j + t.length

/-- The positions at which the pieces start when the text is cut from the left, from the start of a piece on. -/
def CutFrom (t s : List A) (pos : ℕ) : ℕ → Prop := Relation.ReflTransGen (Next t s) pos

def Cut (t s : List A) : ℕ → Prop := CutFrom t s 0

/-- There is another piece behind one that ends before the end of the text. -/
theorem cutFrom_iff (ht : t ≠ []) : CutFrom t s pos a ↔
    a = pos ∨ findOrEnd s t pos < s.length ∧ CutFrom t s (findOrEnd s t pos + t.length) a := by
  have hlen := List.length_pos_iff.2 ht
  constructor
  · intro h
    rcases Relation.ReflTransGen.cases_head h with rfl | ⟨b, ⟨j, hfind, rfl⟩, hrest⟩
    · exact .inl rfl
    · have hlt := (find_eq_some.1 hfind).2.1.length_le
      rw [findOrEnd_of_find hfind]
      exact .inr ⟨by omega, hrest⟩
  · rintro (rfl | ⟨hlt, hrest⟩)
    · exact Relation.ReflTransGen.refl
    · exact Relation.ReflTransGen.head ⟨_, find_of_findOrEnd_lt hlt, rfl⟩ hrest

theorem Cut.bound (h : Cut t s a) : Bound t s a := by
  induction h with
  | refl => exact .inl rfl
  | tail _ hnext _ =>
    obtain ⟨j, hj, rfl⟩ := hnext
    exact .inr ⟨j, (find_eq_some.1 hj).2.1, rfl⟩

/-- Where they do not overlap, the text is cut at all of them. -/
theorem Separate.cut_of_bound (h : Separate t s) (ht : t ≠ []) (ha : Bound t s a) : Cut t s a := by
  rcases ha with rfl | ⟨p, hp, rfl⟩
  · exact Relation.ReflTransGen.refl
  · have hlen := List.length_pos_iff.2 ht
    -- by induction on the distance from a cut in front of it
    suffices hall : ∀ n b, Cut t s b → b ≤ p → p - b = n → Cut t s (p + t.length) from
      hall p 0 Relation.ReflTransGen.refl (Nat.zero_le _) rfl
    intro n
    induction n using Nat.strong_induction_on with
    | _ n ih =>
      intro b hcut hb hn
      cases hfind : find s t b with
      | none => exact absurd hp (find_eq_none.1 hfind p hb)
      | some j =>
        obtain ⟨hle, hj, hfirst⟩ := find_eq_some.1 hfind
        have hnext : Cut t s (j + t.length) := Relation.ReflTransGen.tail hcut ⟨j, hfind, rfl⟩
        rcases lt_trichotomy j p with hlt | rfl | hgt
        · have hsep := h j p hj hp hlt
          exact ih (p - (j + t.length)) (by omega) _ hnext hsep rfl
        · exact hnext
        · exact absurd hp (hfirst p hb hgt)

/-! ### The search for one letter, and for the first occurrence -/

variable {x : A} {u w : List A}

theorem find_singleton_of_notMem (h : x ∉ s.drop pos) : find s [x] pos = none := by
  refine find_eq_none.2 fun i hpos hi => h ?_
  refine List.mem_iff_getElem?.2 ⟨i - pos, ?_⟩
  rw [List.getElem?_drop, Nat.add_sub_of_le hpos]
  exact occurs_singleton_iff.1 hi

theorem find_singleton (h : s.drop pos = u ++ x :: w) (hu : x ∉ u) : find s [x] pos = some (pos + u.length) := by
  have hget : ∀ n, s[pos + n]? = (u ++ x :: w)[n]? := fun n => by rw [← List.getElem?_drop, h]
  refine find_eq_some.2 ⟨Nat.le_add_right _ _, occurs_singleton_iff.2 ?_, fun j hj hlt hoccurs => hu ?_⟩
  · rw [hget, List.getElem?_append_right le_rfl, Nat.sub_self, List.getElem?_cons_zero]
  · have hj' := hget (j - pos)
    rw [Nat.add_sub_of_le hj, occurs_singleton_iff.1 hoccurs, List.getElem?_append_left (by omega)] at hj'
    exact List.mem_of_getElem? hj'.symm

theorem isSome_find_singleton : (find s [x] 0).isSome ↔ x ∈ s := by
  by_cases h : x ∈ s
  · obtain ⟨t, w, hs, ht⟩ := List.eq_append_cons_of_mem h
    have hdrop : s.drop 0 = t ++ x :: w := by rw [List.drop_zero, hs]
    rw [find_singleton hdrop ht]
    simp [h]
  · rw [find_singleton_of_notMem (by rwa [List.drop_zero])]
    simp [h]

/-- What stands behind the last letter of a kind. -/
theorem between_startBehind_singleton (hk : k ≤ s.length) (hnot : ¬Occurs [x] s k) :
    between s (startBehind s [x] k) k = (s.take k).rtakeWhile (· != x) := by
  have hnotMem : ∀ a ≤ k, (∀ j, a ≤ j → j < k → ¬Occurs [x] s j) → x ∉ between s a k := by
    intro a ha hnone hmem
    obtain ⟨l, r, hlr⟩ := List.mem_iff_append.1 hmem
    have hoccurs : Occurs [x] s (a + l.length) := occurs_of_between (r := r) ha (ha.trans hk) (by simpa using hlr)
    have hlen := congrArg List.length hlr
    rw [length_between ha hk, List.length_append, List.length_cons] at hlen
    exact hnone _ (Nat.le_add_right _ _) (by omega) hoccurs
  unfold startBehind
  cases hfind : rfind s [x] k with
  | none =>
    have htake : between s 0 k = s.take k := by
      rw [between_of_le (Nat.zero_le k), List.drop_zero, Nat.sub_zero]
    have hmem := hnotMem 0 (Nat.zero_le k) fun j _ hlt => rfind_eq_none hfind hlt.le
    dsimp only
    rw [htake] at hmem ⊢
    exact (Splitting.rtakeWhile_of_notMem hmem).symm
  | some p =>
    obtain ⟨hle, hp, hlast⟩ := rfind_eq_some hfind
    have hlt : p < k := lt_of_le_of_ne hle fun heq => hnot (heq ▸ hp)
    have hmem := hnotMem (p + 1) hlt fun j hj hjk => hlast j (by omega) hjk.le
    have htake : s.take k = between s 0 p ++ x :: between s (p + 1) k := by
      have hsplit := hp.between_split (Nat.zero_le p) (hlt : p + [x].length ≤ k)
      rw [between_of_le (Nat.zero_le k), List.drop_zero, Nat.sub_zero] at hsplit
      rw [hsplit]
      simp
    dsimp only
    rw [htake, Splitting.rtakeWhile_append_sep, Splitting.rtakeWhile_of_notMem hmem]
    rfl

/-- It is the search for the first occurrence in the rest of the text. -/
theorem find_eq_dropInfix? (hpos : pos ≤ s.length) :
    find s t pos = ((s.drop pos).dropInfix? t).map fun r => pos + r.1.length := by
  have hrest : ∀ i, pos ≤ i → Occurs t s i → ∃ r, s.drop pos = (s.drop pos).take (i - pos) ++ t ++ r := by
    intro i hi hoccurs
    refine Occurs.exists_append ?_
    rw [← between_length, occurs_between_iff hpos le_rfl, Nat.add_sub_of_le hi]
    exact ⟨hoccurs, hoccurs.length_le⟩
  cases hdrop : (s.drop pos).dropInfix? t with
  | none =>
    rw [Option.map_none, find_eq_none]
    intro i hi hoccurs
    obtain ⟨r, hr⟩ := hrest i hi hoccurs
    exact Splitting.dropInfix?_eq_none.1 hdrop ⟨_, r, hr.symm⟩
  | some r =>
    obtain ⟨hsplit, hfirst⟩ := Splitting.dropInfix?_eq_some.1 hdrop
    have hoccurs := occurs_of_append _ _ hsplit
    rw [← between_length, occurs_between_iff hpos le_rfl] at hoccurs
    rw [Option.map_some, find_eq_some]
    refine ⟨Nat.le_add_right _ _, hoccurs.1, fun j hj hlt hoccurs' => ?_⟩
    obtain ⟨r', hr'⟩ := hrest j hj hoccurs'
    have hle := hfirst _ r' hr'
    rw [List.length_take] at hle
    omega

/-! ### Reading from left to right -/

section Scan

variable {B : Type} {found : B → B} {letter : A → B → B} {done : B}

/-- A text is read from its beginning: an occurrence of `t` as a whole where there is one, and else a letter. -/
def scan (t : List A) (found : B → B) (letter : A → B → B) (done : B) : List A → B
  | [] => done
  | x :: s =>
    if t ≠ [] ∧ t <+: x :: s then found (scan t found letter done ((x :: s).drop t.length))
    else letter x (scan t found letter done s)
termination_by s => s.length
decreasing_by
  · rename_i h
    have hpos := List.length_pos_iff.2 h.1
    simp only [List.length_drop, List.length_cons]
    omega
  · simp

theorem scan_occurs (h : Occurs t s i) (ht : t ≠ []) :
    scan t found letter done (s.drop i) = found (scan t found letter done (s.drop (i + t.length))) := by
  cases hdrop : s.drop i with
  | nil => exact absurd (List.prefix_nil.1 (hdrop ▸ h.2)) ht
  | cons x s' => rw [scan, if_pos ⟨ht, hdrop ▸ h.2⟩, ← hdrop, List.drop_drop]

/-- Between two positions without an occurrence all is read letter by letter. -/
theorem scan_between (hb : b ≤ s.length) (hnot : ∀ j, a ≤ j → j < b → ¬Occurs t s j) (hab : a ≤ b) :
    scan t found letter done (s.drop a) = (between s a b).foldr letter (scan t found letter done (s.drop b)) := by
  induction hn : b - a generalizing a with
  | zero =>
    obtain rfl : a = b := by omega
    rw [between_self, List.foldr_nil]
  | succ n ih =>
    have hlt : a < s.length := by omega
    have hnext := ih (a := a + 1) (fun j hj => hnot j (by omega)) (by omega) (by omega)
    have hcons : between s a b = s[a] :: between s (a + 1) b := by
      rw [between_of_le hab, between_of_le (by omega), List.drop_eq_getElem_cons hlt, hn, List.take_succ_cons]
      congr 2
      omega
    have hnot' : ¬t <+: s.drop a := fun h => hnot a le_rfl (by omega) ⟨Nat.le_of_lt hlt, h⟩
    rw [List.drop_eq_getElem_cons hlt] at hnot'
    rw [List.drop_eq_getElem_cons hlt, scan, if_neg fun h => hnot' h.2, hcons, List.foldr_cons, hnext]

theorem scan_findOrEnd (ha : a ≤ s.length) : scan t found letter done (s.drop a) =
    (between s a (findOrEnd s t a)).foldr letter (scan t found letter done (s.drop (findOrEnd s t a))) :=
  scan_between (findOrEnd_le s t a) (fun _ => not_occurs_of_lt_findOrEnd) (le_findOrEnd ha)

end Scan

end Find

end AimRT.Lib.StringView
