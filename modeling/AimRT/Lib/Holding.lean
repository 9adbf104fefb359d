import Mathlib.Tactic

/-!
# Holders

Places that each hold an object or nothing, and objects that are alive.  The places *own* the objects when what they
hold is alive, no two hold the same object, and every object that is alive is held.  Then whoever gives up an object
can destroy it, and nothing is left when no place holds anything.
-/

namespace AimRT.Lib

variable {I C V : Type} [DecidableEq I] [DecidableEq C]

/-- What is alive is held at just one place. -/
structure Owns (held : I → Option C) (live : C → Option V) : Prop where
  alive : ∀ {i c}, held i = some c → (live c).isSome
  distinct : ∀ {i j c}, held i = some c → held j = some c → i = j
  owned : ∀ {c}, (live c).isSome → ∃ i, held i = some c

omit [DecidableEq C] in
theorem update_eq_some {f : I → Option C} {i k : I} {x : Option C} {d : C} (h : Function.update f i x k = some d) :
    (k = i ∧ x = some d) ∨ (k ≠ i ∧ f k = some d) := by
  rcases eq_or_ne k i with rfl | hne
  · rw [Function.update_self] at h
    exact .inl ⟨rfl, h⟩
  · rw [Function.update_of_ne hne] at h
    exact .inr ⟨hne, h⟩

/-- What is at a place. -/
def contents (held : I → Option C) (live : C → Option V) (i : I) : Option V := (held i).bind live

namespace Owns

variable {held : I → Option C} {live : C → Option V} {i j : I} {c : C} {v : V}

omit [DecidableEq I] [DecidableEq C] in
theorem empty : Owns (fun _ : I => (none : Option C)) (fun _ => (none : Option V)) where
  alive h := by cases h
  distinct h := by cases h
  owned h := by cases h

omit [DecidableEq I] [DecidableEq C] in
theorem exists_live (h : Owns held live) (hi : held i = some c) : ∃ v, live c = some v :=
  Option.isSome_iff_exists.1 (h.alive hi)

omit [DecidableEq I] [DecidableEq C] in
/-- Nothing is alive when nothing is held. -/
theorem eq_none (h : Owns held live) (hnone : ∀ i, held i = none) (c : C) : live c = none := by
  rw [← Option.not_isSome_iff_eq_none]
  intro hc
  obtain ⟨i, hi⟩ := h.owned hc
  rw [hnone i] at hi
  cases hi

/-! ### A new object -/

theorem put (h : Owns held live) (hi : held i = none) (hc : live c = none) :
    Owns (Function.update held i (some c)) (Function.update live c (some v)) := by
  have hother : ∀ {k d}, held k = some d → d ≠ c := fun hk heq => by
    have halive := h.alive hk
    rw [heq, hc] at halive
    cases halive
  refine ⟨fun {k d} hk => ?_, fun {k l d} hk hl => ?_, fun {d} hd => ?_⟩
  · rcases update_eq_some hk with ⟨-, heq⟩ | ⟨-, hk⟩
    · obtain rfl := Option.some.inj heq
      rw [Function.update_self]
      rfl
    · rw [Function.update_of_ne (hother hk)]
      exact h.alive hk
  · rcases update_eq_some hk with ⟨rfl, heq⟩ | ⟨-, hk'⟩ <;> rcases update_eq_some hl with ⟨rfl, heq'⟩ | ⟨-, hl'⟩
    · rfl
    · exact absurd (Option.some.inj heq).symm (hother hl')
    · exact absurd (Option.some.inj heq').symm (hother hk')
    · exact h.distinct hk' hl'
  · rcases eq_or_ne d c with rfl | hne
    · exact ⟨i, Function.update_self i _ held⟩
    · rw [Function.update_of_ne hne] at hd
      obtain ⟨k, hk⟩ := h.owned hd
      have hki : k ≠ i := fun heq => by
        rw [heq, hi] at hk
        cases hk
      exact ⟨k, by rw [Function.update_of_ne hki, hk]⟩

/-! ### An object is destroyed -/

theorem drop (h : Owns held live) (hi : held i = some c) :
    Owns (Function.update held i none) (Function.update live c none) := by
  have hheld : ∀ {k d}, Function.update held i none k = some d → k ≠ i ∧ held k = some d := fun hk => by
    rcases update_eq_some hk with ⟨-, heq⟩ | hk
    · cases heq
    · exact hk
  refine ⟨fun {k d} hk => ?_, fun {k l d} hk hl => ?_, fun {d} hd => ?_⟩
  · obtain ⟨hne, hk⟩ := hheld hk
    have hdc : d ≠ c := fun heq => hne (h.distinct hk (heq ▸ hi))
    rw [Function.update_of_ne hdc]
    exact h.alive hk
  · exact h.distinct (hheld hk).2 (hheld hl).2
  · rcases eq_or_ne d c with rfl | hne
    · rw [Function.update_self] at hd
      cases hd
    · rw [Function.update_of_ne hne] at hd
      obtain ⟨k, hk⟩ := h.owned hd
      have hki : k ≠ i := fun heq => by
        rw [heq, hi] at hk
        exact hne (Option.some.inj hk).symm
      exact ⟨k, by rw [Function.update_of_ne hki, hk]⟩

/-! ### An object changes its place -/

omit [DecidableEq C] in
theorem move (h : Owns held live) (hi : held i = some c) (hj : held j = none) :
    Owns (Function.update (Function.update held i none) j (some c)) live := by
  -- what a place holds then was at `i`, or where it is now
  have hheld : ∀ {k d}, Function.update (Function.update held i none) j (some c) k = some d →
      (k = j ∧ d = c) ∨ (k ≠ j ∧ k ≠ i ∧ held k = some d) := fun hk => by
    rcases update_eq_some hk with ⟨rfl, heq⟩ | ⟨hkj, hk⟩
    · exact .inl ⟨rfl, (Option.some.inj heq).symm⟩
    · rcases update_eq_some hk with ⟨-, heq⟩ | ⟨hki, hk⟩
      · cases heq
      · exact .inr ⟨hkj, hki, hk⟩
  refine ⟨fun {k d} hk => ?_, fun {k l d} hk hl => ?_, fun {d} hd => ?_⟩
  · rcases hheld hk with ⟨rfl, rfl⟩ | ⟨-, -, hk⟩
    · exact h.alive hi
    · exact h.alive hk
  · rcases hheld hk with ⟨rfl, rfl⟩ | ⟨-, hki, hk'⟩ <;> rcases hheld hl with ⟨rfl, hd⟩ | ⟨-, hli, hl'⟩
    · rfl
    · exact absurd (h.distinct hl' hi) hli
    · exact absurd (h.distinct (hd ▸ hk') hi) hki
    · exact h.distinct hk' hl'
  · obtain ⟨k, hk⟩ := h.owned hd
    rcases eq_or_ne k i with rfl | hki
    · exact ⟨j, by rw [Function.update_self, ← hk, hi]⟩
    · have hkj : k ≠ j := fun heq => by
        rw [heq, hj] at hk
        cases hk
      exact ⟨k, by rw [Function.update_of_ne hkj, Function.update_of_ne hki, hk]⟩

end Owns

/-! ### What is at the places -/

section Contents

variable {held : I → Option C} {live : C → Option V} {i j : I} {c : C} {v : V}

omit [DecidableEq I] [DecidableEq C] in
theorem contents_eq (hi : held i = some c) : contents held live i = live c := by
  rw [contents, hi, Option.bind_some]

theorem contents_put (h : Owns held live) (hc : live c = none) :
    contents (Function.update held i (some c)) (Function.update live c (some v)) =
      Function.update (contents held live) i (some v) := by
  funext k
  rcases eq_or_ne k i with rfl | hne
  · rw [Function.update_self, contents_eq (Function.update_self _ _ _), Function.update_self]
  · rw [Function.update_of_ne hne, contents, contents, Function.update_of_ne hne]
    cases hk : held k with
    | none => rfl
    | some d =>
      have hd : d ≠ c := fun heq => by
        have halive := h.alive hk
        rw [heq, hc] at halive
        cases halive
      rw [Option.bind_some, Option.bind_some, Function.update_of_ne hd]

theorem contents_drop (h : Owns held live) (hi : held i = some c) :
    contents (Function.update held i none) (Function.update live c none) =
      Function.update (contents held live) i none := by
  funext k
  rcases eq_or_ne k i with rfl | hne
  · rw [Function.update_self, contents, Function.update_self, Option.bind_none]
  · rw [Function.update_of_ne hne, contents, contents, Function.update_of_ne hne]
    cases hk : held k with
    | none => rfl
    | some d =>
      have hd : d ≠ c := fun heq => hne (h.distinct hk (heq ▸ hi))
      rw [Option.bind_some, Option.bind_some, Function.update_of_ne hd]

omit [DecidableEq C] in
theorem contents_move (hi : held i = some c) :
    contents (Function.update (Function.update held i none) j (some c)) live =
      Function.update (Function.update (contents held live) i none) j (contents held live i) := by
  funext k
  rcases eq_or_ne k j with rfl | hkj
  · rw [Function.update_self, contents_eq (Function.update_self _ _ _), contents_eq hi]
  · rw [Function.update_of_ne hkj, contents, Function.update_of_ne hkj]
    rcases eq_or_ne k i with rfl | hki
    · rw [Function.update_self, Function.update_self, Option.bind_none]
    · rw [Function.update_of_ne hki, Function.update_of_ne hki, contents]

end Contents

end AimRT.Lib
