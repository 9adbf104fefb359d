import Mathlib.Tactic

/-!
# Sequences of checks

When a sequence of steps that may each fail goes through.
-/

namespace AimRT.Lib.Checks

variable {ε S A B : Type}

theorem bind_eq_ok_iff {x : Except ε A} {f : A → Except ε B} {b : B} :
    x >>= f = .ok b ↔ ∃ a, x = .ok a ∧ f a = .ok b := by
  cases x with
  | error e => exact ⟨nofun, fun ⟨_, h, _⟩ => nomatch h⟩
  | ok a => exact ⟨fun h => ⟨a, rfl, h⟩, fun ⟨_, h, hf⟩ => Except.ok.inj h ▸ hf⟩

theorem forM_eq_ok_iff {check : A → Except ε Unit} {l : List A} :
    l.forM check = .ok () ↔ ∀ a ∈ l, check a = .ok () := by
  induction l with
  | nil => exact ⟨fun _ => nofun, fun _ => rfl⟩
  | cons a l ih =>
    show check a >>= (fun _ => l.forM check) = .ok () ↔ _
    rw [bind_eq_ok_iff, List.forall_mem_cons]
    exact ⟨fun ⟨(), ha, hl⟩ => ⟨ha, ih.1 hl⟩, fun ⟨ha, hl⟩ => ⟨(), ha, ih.2 hl⟩⟩

/-- The last step goes on with what the others have left. -/
theorem foldlM_append_singleton_eq_ok_iff {f : S → A → Except ε S} {l : List A} {a : A} {s s' : S} :
    (l ++ [a]).foldlM f s = .ok s' ↔ ∃ t, l.foldlM f s = .ok t ∧ f t a = .ok s' := by
  rw [List.foldlM_append, bind_eq_ok_iff]
  refine exists_congr fun t => and_congr_right fun _ => ?_
  rw [List.foldlM_cons, bind_eq_ok_iff]
  exact ⟨fun ⟨_, h, hs⟩ => Except.ok.inj hs ▸ h, fun h => ⟨_, h, rfl⟩⟩

/-- Each element has been checked behind those before it, the last one behind all the others. -/
theorem forall_getElem?_append_singleton_iff {P : List A → A → Prop} {l : List A} {a : A} :
    (∀ {i : ℕ} {b : A}, (l ++ [a])[i]? = some b → P ((l ++ [a]).take i) b) ↔
      (∀ {i : ℕ} {b : A}, l[i]? = some b → P (l.take i) b) ∧ P l a := by
  constructor
  · intro h
    constructor
    · intro i b hi
      have hlt := (List.getElem?_eq_some_iff.1 hi).1
      have hb := h ((List.getElem?_append_left hlt).trans hi)
      rw [List.take_append_of_le_length hlt.le] at hb
      exact hb
    · have ha := h (List.getElem?_concat_length (l := l) (a := a))
      rw [List.take_left] at ha
      exact ha
  · rintro ⟨hl, ha⟩ i b hi
    rcases Nat.lt_or_ge i l.length with hlt | hge
    · rw [List.getElem?_append_left hlt] at hi
      rw [List.take_append_of_le_length hlt.le]
      exact hl hi
    · rw [List.getElem?_append_right hge, List.getElem?_singleton] at hi
      split_ifs at hi with hzero
      cases hi
      rw [List.take_left' (by omega)]
      exact ha

end AimRT.Lib.Checks
