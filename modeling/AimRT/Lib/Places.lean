import Mathlib.Tactic

/-!
# Places of many threads

The threads or calls of a system, in the order in which they have come, each at a place of its own.  When one of them
goes on to another place, those that are at places of some kind become one less or one more.
-/

namespace AimRT.Lib.Places

variable {P : Type} {l : List P} {i : ℕ} {p q : P}

theorem countP_set (f : P → Bool) (h : l[i]? = some p) :
    (l.set i q).countP f + (if f p then 1 else 0) = l.countP f + if f q then 1 else 0 := by
  obtain ⟨hi, hp⟩ := List.getElem?_eq_some_iff.1 h
  have hold := (List.getElem_cons_eraseIdx_perm hi).countP_eq f
  have hnew := (List.set_perm_cons_eraseIdx hi q).countP_eq f
  rw [List.countP_cons, hp] at hold
  rw [List.countP_cons] at hnew
  omega

theorem count_set [DecidableEq P] (x : P) (h : l[i]? = some p) :
    (l.set i q).count x + (if p = x then 1 else 0) = l.count x + if q = x then 1 else 0 := by
  have hcount := countP_set (q := q) (fun y => y == x) h
  simpa only [List.count, beq_iff_eq] using hcount

/-- Where the two places are alike in what is counted. -/
theorem countP_set_of_eq (f : P → Bool) (h : l[i]? = some p) (heq : f q = f p) :
    (l.set i q).countP f = l.countP f := by
  have hcount := countP_set (q := q) f h
  rw [heq] at hcount
  exact Nat.add_right_cancel hcount

/-- Places that have a weight each. -/
theorem sum_map_set (weight : P → ℕ) (h : l[i]? = some p) :
    ((l.set i q).map weight).sum + weight p = (l.map weight).sum + weight q := by
  obtain ⟨hi, hp⟩ := List.getElem?_eq_some_iff.1 h
  have hold := ((List.getElem_cons_eraseIdx_perm hi).map weight).sum_eq
  have hnew := ((List.set_perm_cons_eraseIdx hi q).map weight).sum_eq
  rw [List.map_cons, List.sum_cons, hp] at hold
  rw [List.map_cons, List.sum_cons] at hnew
  omega

/-- What the places hold, when one of them is left for another. -/
theorem toList_append_filterMap_set_perm {T : Type} (f : P → Option T) (h : l[i]? = some p) :
    ((f p).toList ++ (l.set i q).filterMap f).Perm ((f q).toList ++ l.filterMap f) := by
  obtain ⟨hi, hp⟩ := List.getElem?_eq_some_iff.1 h
  have hcons : ∀ x : P, (x :: l.eraseIdx i).filterMap f = (f x).toList ++ (l.eraseIdx i).filterMap f := fun x => by
    rw [List.filterMap_cons]
    cases f x <;> rfl
  have hold := (List.getElem_cons_eraseIdx_perm hi).filterMap f
  have hnew := (List.set_perm_cons_eraseIdx hi q).filterMap f
  rw [hp, hcons] at hold
  rw [hcons] at hnew
  refine (hnew.append_left _).trans ((List.perm_append_comm_assoc _ _ _).trans ?_)
  exact hold.append_left _

/-- Where the place that is left holds nothing. -/
theorem filterMap_set_perm {T : Type} (f : P → Option T) (h : l[i]? = some p) (hp : f p = none) :
    ((l.set i q).filterMap f).Perm ((f q).toList ++ l.filterMap f) := by
  have hperm := toList_append_filterMap_set_perm (q := q) f h
  rw [hp] at hperm
  exact hperm

/-- What is true of all places. -/
theorem forall_mem_set {Ok : P → Prop} (h : ∀ x ∈ l, Ok x) (hq : Ok q) : ∀ x ∈ l.set i q, Ok x := fun x hx =>
  (List.mem_or_eq_of_mem_set hx).elim (h x) fun heq => heq ▸ hq

/-- A place that comes again is that of another thread, or the new one. -/
theorem mem_of_mem_set {x : P} (hp' : q ≠ x) (h : x ∈ l.set i q) : x ∈ l :=
  (List.mem_or_eq_of_mem_set h).resolve_right (Ne.symm hp')

end AimRT.Lib.Places
