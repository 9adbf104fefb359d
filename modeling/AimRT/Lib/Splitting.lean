import Mathlib.Data.List.DropRight
import Mathlib.Tactic

/-!
# Search and separators

The first place where a list occurs in another one (`dropInfix?`), and lists that are split at a separator.  A list
without the separator occurs on one side of it or on the other one.
-/

namespace AimRT.Lib.Splitting

variable {A : Type} {l i p s t w : List A} {sep : A}

/-- An occurrence of a list without the separator is on one side of it. -/
theorem append_sep_eq_append (hi : sep ∉ i) (h : t ++ sep :: w = p ++ i ++ s) :
    (∃ a, t = p ++ i ++ a ∧ s = a ++ sep :: w) ∨ ∃ u, p = t ++ sep :: u ∧ w = u ++ i ++ s := by
  rw [List.append_assoc] at h
  rcases List.append_eq_append_iff.1 h with ⟨u, hp, hw⟩ | ⟨a, ht, hrest⟩
  · cases u with
    | nil =>
      rw [List.append_nil] at hp
      subst hp
      cases i with
      | nil => exact .inl ⟨[], by simp, hw.symm⟩
      | cons x i =>
        obtain ⟨rfl, -⟩ := List.cons.inj hw
        exact absurd List.mem_cons_self hi
    | cons x u =>
      obtain ⟨rfl, hrest⟩ := List.cons.inj hw
      exact .inr ⟨u, hp, hrest.trans (List.append_assoc u i s).symm⟩
  · rcases List.append_eq_append_iff.1 hrest with ⟨b, ha, hs⟩ | ⟨b, hi', hs⟩
    · exact .inl ⟨b, by rw [ht, ha, List.append_assoc], hs⟩
    · cases b with
      | nil => exact .inl ⟨[], by rw [ht, hi']; simp, hs.symm⟩
      | cons x b =>
        obtain ⟨rfl, -⟩ := List.cons.inj hs
        exact absurd (by rw [hi']; simp) hi

theorem exists_last_sep (h : sep ∈ t) : ∃ u v, t = u ++ sep :: v ∧ sep ∉ v := by
  obtain ⟨v, u, hrev, hnot⟩ := List.eq_append_cons_of_mem (List.mem_reverse.2 h)
  refine ⟨u.reverse, v.reverse, ?_, by simpa using hnot⟩
  have ht := congrArg List.reverse hrev
  simpa using ht

variable [BEq A] [LawfulBEq A]

/-! ### The first occurrence -/

theorem dropInfix?_eq_some : l.dropInfix? i = some (p, s) ↔
    l = p ++ i ++ s ∧ ∀ p' s', l = p' ++ i ++ s' → p.length ≤ p'.length := by
  rw [List.dropInfix?_eq_some_iff]
  constructor
  · rintro ⟨⟨i', hl, hi⟩, hfirst⟩
    obtain rfl := eq_of_beq hi
    exact ⟨hl, fun p' s' h => hfirst p' i' s' h BEq.rfl⟩
  · rintro ⟨hl, hfirst⟩
    refine ⟨⟨i, hl, BEq.rfl⟩, fun p' i' s' h hi => ?_⟩
    obtain rfl := eq_of_beq hi
    exact hfirst p' s' h

theorem dropInfix?_eq_none : l.dropInfix? i = none ↔ ¬ i <:+: l := by
  constructor
  · rintro hnone ⟨p, s, rfl⟩
    -- of all occurrences, one is the first
    have hex : ∃ n, ∃ p' s', p ++ i ++ s = p' ++ i ++ s' ∧ p'.length = n := ⟨p.length, p, s, rfl, rfl⟩
    classical
    obtain ⟨p', s', heq, hlen⟩ := Nat.find_spec hex
    have hsome : (p ++ i ++ s).dropInfix? i = some (p', s') := by
      rw [dropInfix?_eq_some]
      refine ⟨heq, fun p'' s'' h => ?_⟩
      rw [hlen]
      exact Nat.find_min' hex ⟨p'', s'', h, rfl⟩
    rw [hnone] at hsome
    cases hsome
  · intro hnot
    rw [Option.eq_none_iff_forall_ne_some]
    rintro ⟨p, s⟩ hsome
    exact hnot ⟨p, s, (dropInfix?_eq_some.1 hsome).1.symm⟩

/-- The first occurrence is before the separator. -/
theorem dropInfix?_append_sep_of_some (hi : sep ∉ i) (h : t.dropInfix? i = some (p, s)) :
    (t ++ sep :: w).dropInfix? i = some (p, s ++ sep :: w) := by
  obtain ⟨rfl, hfirst⟩ := dropInfix?_eq_some.1 h
  rw [dropInfix?_eq_some]
  refine ⟨by simp, fun p' s' heq => ?_⟩
  rcases append_sep_eq_append hi heq with ⟨a, ht, -⟩ | ⟨u, rfl, -⟩
  · exact hfirst p' a ht
  · simp only [List.length_append]
    omega

/-- The first occurrence is behind the separator. -/
theorem dropInfix?_append_sep_of_none (hi : sep ∉ i) (h : t.dropInfix? i = none) :
    (t ++ sep :: w).dropInfix? i = (w.dropInfix? i).map fun r => (t ++ sep :: r.1, r.2) := by
  have hnot := dropInfix?_eq_none.1 h
  cases hw : w.dropInfix? i with
  | none =>
    rw [Option.map_none, dropInfix?_eq_none]
    rintro ⟨p, s, heq⟩
    rcases append_sep_eq_append hi heq.symm with ⟨a, ht, -⟩ | ⟨u, -, hw'⟩
    · exact hnot ⟨p, a, ht.symm⟩
    · exact dropInfix?_eq_none.1 hw ⟨u, s, hw'.symm⟩
  | some r =>
    obtain ⟨rfl, hfirst⟩ := dropInfix?_eq_some.1 hw
    rw [Option.map_some, dropInfix?_eq_some]
    refine ⟨by simp, fun p' s' heq => ?_⟩
    rcases append_sep_eq_append hi heq with ⟨a, ht, -⟩ | ⟨u, rfl, hw'⟩
    · exact absurd ⟨p', a, ht.symm⟩ hnot
    · have hle := hfirst u s' hw'
      simp only [List.length_append, List.length_cons]
      omega

/-! ### Parts -/

theorem splitOn_append_of_notMem (h : sep ∉ t) : (t ++ w).splitOn sep = (w.splitOn sep).modifyHead (t ++ ·) := by
  induction t with
  | nil =>
    obtain ⟨x, xs, hx⟩ := List.exists_cons_of_ne_nil (List.splitOn_ne_nil sep w)
    simp [hx]
  | cons b t ih =>
    rw [List.mem_cons, not_or] at h
    rw [List.cons_append, List.splitOn_cons_eq_if_modifyHead, if_neg (by simpa using Ne.symm h.1), ih h.2]
    obtain ⟨x, xs, hx⟩ := List.exists_cons_of_ne_nil (List.splitOn_ne_nil sep w)
    simp [hx]

theorem takeWhile_append_sep (t w : List A) (sep : A) :
    (t ++ sep :: w).takeWhile (· != sep) = t.takeWhile (· != sep) := by
  induction t with
  | nil => simp
  | cons x t ih => rw [List.cons_append, List.takeWhile_cons, List.takeWhile_cons, ih]

theorem takeWhile_of_notMem (h : sep ∉ t) (w : List A) :
    (t ++ w).takeWhile (· != sep) = t ++ w.takeWhile (· != sep) :=
  List.takeWhile_append_of_pos fun x hx => by simpa using fun heq : x = sep => h (heq ▸ hx)

theorem dropWhile_of_notMem (h : sep ∉ t) (w : List A) :
    (t ++ w).dropWhile (· != sep) = w.dropWhile (· != sep) :=
  List.dropWhile_append_of_pos fun x hx => by simpa using fun heq : x = sep => h (heq ▸ hx)

/-- The first part is what stands before the first separator. -/
theorem splitOn_head (w : List A) (sep : A) :
    w.splitOn sep = w.takeWhile (· != sep) :: (w.splitOn sep).tail := by
  by_cases h : sep ∈ w
  · obtain ⟨t, w', rfl, ht⟩ := List.eq_append_cons_of_mem h
    have htake : (t ++ sep :: w').takeWhile (· != sep) = t := by
      rw [takeWhile_of_notMem ht]
      simp
    rw [List.splitOn_append_cons_self_of_not_mem ht, htake]
    rfl
  · have htake : w.takeWhile (· != sep) = w :=
      List.takeWhile_eq_self_iff.2 fun x hx => by simpa using fun heq : x = sep => h (heq ▸ hx)
    rw [List.splitOn_eq_singleton h, htake]
    rfl

/-- A list without the separator occurs where it occurs in a part. -/
theorem infix_iff_exists_part (hi : sep ∉ i) (t : List A) : i <:+: t ↔ ∃ part ∈ t.splitOn sep, i <:+: part := by
  induction hn : t.length using Nat.strong_induction_on generalizing t with
  | _ n ih =>
    by_cases h : sep ∈ t
    · obtain ⟨t₁, t₂, rfl, ht₁⟩ := List.eq_append_cons_of_mem h
      have hrest := ih t₂.length (by simp at hn; omega) t₂ rfl
      rw [List.splitOn_append_cons_self_of_not_mem ht₁, List.exists_mem_cons_iff, ← hrest]
      constructor
      · rintro ⟨p, s, heq⟩
        rcases append_sep_eq_append hi heq.symm with ⟨a, ht, -⟩ | ⟨u, -, hw⟩
        · exact .inl ⟨p, a, ht.symm⟩
        · exact .inr ⟨u, s, hw.symm⟩
      · rintro (hhead | htail)
        · exact hhead.trans (List.prefix_append _ _).isInfix
        · exact htail.trans ((List.suffix_cons _ _).trans (List.suffix_append _ _)).isInfix
    · simp [List.splitOn_eq_singleton h]

theorem notMem_of_mem_splitOn {b : A} (hne : b ≠ sep) (h : b ∉ t) {part : List A} (hpart : part ∈ t.splitOn sep) :
    b ∉ part := by
  intro hb
  obtain ⟨s, s', rfl⟩ := List.mem_iff_append.1 hb
  obtain ⟨u, v, rfl⟩ := (infix_iff_exists_part (i := [b]) (by simpa using hne.symm) t).2
    ⟨_, hpart, s, s', by simp⟩
  simp at h

/-! ### What stands behind the last separator -/

theorem rtakeWhile_of_notMem (h : sep ∉ w) : w.rtakeWhile (· != sep) = w :=
  List.rtakeWhile_eq_self_iff.2 fun x hx => by simpa using fun heq : x = sep => h (heq ▸ hx)

theorem rtakeWhile_append_sep (t w : List A) (sep : A) :
    (t ++ sep :: w).rtakeWhile (· != sep) = w.rtakeWhile (· != sep) := by
  induction w using List.reverseRecOn with
  | nil => rw [List.rtakeWhile_concat_neg _ _ _ (by simp), List.rtakeWhile_nil]
  | append_singleton w x ih =>
    have hassoc : t ++ sep :: (w ++ [x]) = (t ++ sep :: w) ++ [x] := by simp
    rw [hassoc, List.rtakeWhile_concat, List.rtakeWhile_concat, ih]

theorem rtakeWhile_append_of_notMem (t : List A) (h : sep ∉ w) :
    (t ++ w).rtakeWhile (· != sep) = t.rtakeWhile (· != sep) ++ w := by
  induction w using List.reverseRecOn with
  | nil => simp
  | append_singleton w x ih =>
    have hx : (x != sep) = true := by simpa using fun heq : x = sep => h (by simp [heq])
    rw [← List.append_assoc, List.rtakeWhile_concat_pos (· != sep) _ _ hx, ih fun hmem => h (by simp [hmem]),
      List.append_assoc]

end AimRT.Lib.Splitting
