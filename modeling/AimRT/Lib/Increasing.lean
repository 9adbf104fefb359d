import Mathlib.Data.List.Pairwise
import Mathlib.Tactic

/-!
# Increasing lists

Lists whose elements have increasing ranks: putting one more element in its place, and which elements are left when
all but the last ones are taken.
-/

namespace AimRT.Lib

variable {α : Type} (rank : α → ℕ)

def Increasing (l : List α) : Prop := l.Pairwise fun a b => rank a < rank b

namespace Increasing

variable {rank} {l : List α} {a b : α} {p : α → Bool}

theorem lt_of_mem_dropWhile (h : Increasing rank l) (hp : ∀ b, p b = true ↔ rank b < rank a)
    (hnot : ∀ b ∈ l, rank b ≠ rank a) (hb : b ∈ l.dropWhile p) : rank a < rank b := by
  induction l with
  | nil => cases hb
  | cons c l ih =>
    obtain ⟨hc, htail⟩ := List.pairwise_cons.1 h
    rw [List.dropWhile_cons] at hb
    split at hb
    next => exact ih htail (fun b' hb' => hnot b' (List.mem_cons_of_mem _ hb')) hb
    next hnp =>
      rw [hp, not_lt] at hnp
      have hac : rank a < rank c := lt_of_le_of_ne hnp (Ne.symm (hnot c List.mem_cons_self))
      rcases List.mem_cons.1 hb with rfl | hmem
      · exact hac
      · exact hac.trans (hc b hmem)

/-- An element of a new rank is put in front of those of higher ranks. -/
theorem insert (h : Increasing rank l) (hp : ∀ b, p b = true ↔ rank b < rank a) (hnot : ∀ b ∈ l, rank b ≠ rank a) :
    Increasing rank (l.takeWhile p ++ a :: l.dropWhile p) := by
  have hfront : ∀ b ∈ l.takeWhile p, rank b < rank a := fun b hb =>
    (hp b).1 (List.all_eq_true.1 List.all_takeWhile b hb)
  have hbehind : ∀ b ∈ l.dropWhile p, rank a < rank b := fun b hb => h.lt_of_mem_dropWhile hp hnot hb
  refine List.pairwise_append.2 ⟨?_, List.pairwise_cons.2 ⟨hbehind, ?_⟩, fun b hb c hc => ?_⟩
  · exact List.Pairwise.sublist (List.takeWhile_sublist p) h
  · exact List.Pairwise.sublist (List.dropWhile_sublist p) h
  · rcases List.mem_cons.1 hc with rfl | hc
    · exact hfront b hb
    · exact (hfront b hb).trans (hbehind c hc)

theorem mem_insert : b ∈ l.takeWhile p ++ a :: l.dropWhile p ↔ b = a ∨ b ∈ l := by
  have hsplit : b ∈ l ↔ b ∈ l.takeWhile p ∨ b ∈ l.dropWhile p := by
    rw [← List.mem_append, List.takeWhile_append_dropWhile]
  rw [List.mem_append, List.mem_cons, hsplit]
  exact or_left_comm

theorem nodup (h : Increasing rank l) : l.Nodup := h.imp fun hlt heq => absurd (heq ▸ hlt) (lt_irrefl _)

/-- The elements in front of the last `k` are those with at least `k` elements of higher ranks. -/
theorem mem_take_iff (h : Increasing rank l) (k : ℕ) :
    a ∈ l.take (l.length - k) ↔ a ∈ l ∧ k ≤ (l.filter fun b => rank a < rank b).length := by
  induction l with
  | nil => simp
  | cons c l ih =>
    obtain ⟨hc, htail⟩ := List.pairwise_cons.1 h
    have hlow : ∀ b ∈ l, (c :: l).filter (fun b' => rank b < rank b') = l.filter fun b' => rank b < rank b' := by
      intro b hb
      exact List.filter_cons_of_neg (by simpa using (hc b hb).le)
    have hfirst : (c :: l).filter (fun b' => rank c < rank b') = l := by
      rw [List.filter_cons_of_neg (by simp), List.filter_eq_self]
      exact fun b hb => by simpa using hc b hb
    rw [List.length_cons]
    by_cases hk : k ≤ l.length
    · rw [Nat.succ_sub hk, List.take_succ_cons, List.mem_cons, List.mem_cons]
      constructor
      · rintro (rfl | hmem)
        · exact ⟨.inl rfl, by rwa [hfirst]⟩
        · obtain ⟨hal, hcount⟩ := (ih htail).1 hmem
          exact ⟨.inr hal, by rwa [hlow a hal]⟩
      · rintro ⟨rfl | hal, hcount⟩
        · exact .inl rfl
        · rw [hlow a hal] at hcount
          exact .inr ((ih htail).2 ⟨hal, hcount⟩)
    · have hzero : l.length + 1 - k = 0 := by omega
      rw [hzero, List.take_zero]
      refine iff_of_false List.not_mem_nil ?_
      rintro ⟨hmem, hcount⟩
      rcases List.mem_cons.1 hmem with rfl | hal
      · rw [hfirst] at hcount
        exact hk hcount
      · rw [hlow a hal] at hcount
        exact hk (hcount.trans (List.length_filter_le _ _))

end Increasing

end AimRT.Lib
