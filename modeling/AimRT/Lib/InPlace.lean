import Mathlib.Tactic

/-!
# Editing in place

A list that is edited where it stands.  Every element carries whether it is still what stood there at the beginning, so
that a move can be asked to read nothing else; a copy that would leave the list has no value.

A list that is edited from its front to its back stays as it was from a position on (`Front`), and one that is edited
from its back stays as it was up to a position (`Back`).
-/

namespace AimRT.Lib.InPlace

variable {A : Type}

/-- Elements, and whether they are still as they were. -/
abbrev Cells (A : Type) := List (A × Bool)

def original (s : List A) : Cells A := s.map fun a => (a, true)

def written (s : List A) : Cells A := s.map fun a => (a, false)

def text (c : Cells A) : List A := c.map Prod.fst

/-- A copy from elsewhere to a position. -/
def write (c : Cells A) (pos : ℕ) (data : List A) : Option (Cells A) :=
  if pos + data.length ≤ c.length then some (c.take pos ++ written data ++ c.drop (pos + data.length)) else none

/-- A copy from one position to another one, of elements that are still as they were. -/
def move (c : Cells A) (dst src len : ℕ) : Option (Cells A) :=
  if src + len ≤ c.length ∧ ((c.drop src).take len).all Prod.snd then write c dst (text ((c.drop src).take len))
  else none

/-- Elements are cut off at the end, or new ones are put there. -/
def resize [Inhabited A] (c : Cells A) (n : ℕ) : Cells A :=
  c.take n ++ written (List.replicate (n - c.length) default)

/-! ### Elements -/

@[simp] theorem text_original (s : List A) : text (original s) = s := by
  simp [text, original, Function.comp_def]

@[simp] theorem text_written (s : List A) : text (written s) = s := by
  simp [text, written, Function.comp_def]

@[simp] theorem text_append (c c' : Cells A) : text (c ++ c') = text c ++ text c' := List.map_append

@[simp] theorem length_text (c : Cells A) : (text c).length = c.length := List.length_map _

@[simp] theorem length_original (s : List A) : (original s).length = s.length := List.length_map _

@[simp] theorem length_written (s : List A) : (written s).length = s.length := List.length_map _

theorem original_take (s : List A) (n : ℕ) : original (s.take n) = (original s).take n := List.map_take

theorem original_drop (s : List A) (n : ℕ) : original (s.drop n) = (original s).drop n := List.map_drop

theorem all_original (s : List A) : (original s).all Prod.snd = true := by
  simp [original]

@[simp] theorem length_resize [Inhabited A] (c : Cells A) (n : ℕ) : (resize c n).length = n := by
  simp only [resize, List.length_append, List.length_take, length_written, List.length_replicate]
  omega

theorem take_resize [Inhabited A] {c : Cells A} {n k : ℕ} (hk : k ≤ n) (hlen : k ≤ c.length) :
    (resize c n).take k = c.take k := by
  rw [resize, List.take_append_of_le_length (by rw [List.length_take]; omega), List.take_take, min_eq_left hk]

/-! ### Copies -/

variable {s t data : List A} {c c' : Cells A} {p q src len : ℕ}

/-- What a copy leaves: what stands in front of it, the data, and what stands behind it. -/
theorem write_eq_some (h : write c p data = some c') : c'.length = c.length ∧
    c'.take (p + data.length) = c.take p ++ written data ∧ c'.drop p = written data ++ c.drop (p + data.length) := by
  unfold write at h
  split_ifs at h with hroom
  obtain rfl := Option.some.inj h
  have hfront : (c.take p).length = p := by
    rw [List.length_take]
    omega
  have hboth : (c.take p ++ written data).length = p + data.length := by
    rw [List.length_append, hfront, length_written]
  refine ⟨?_, ?_, ?_⟩
  · rw [List.length_append, hboth, List.length_drop]
    omega
  · rw [← hboth, List.take_left]
  · calc (c.take p ++ written data ++ c.drop (p + data.length)).drop p
        = (c.take p ++ (written data ++ c.drop (p + data.length))).drop (c.take p).length := by
          rw [List.append_assoc, hfront]
      _ = written data ++ c.drop (p + data.length) := List.drop_left

theorem exists_write (h : p + data.length ≤ c.length) : ∃ c', write c p data = some c' := ⟨_, if_pos h⟩

theorem write_drop (h : write c p data = some c') (hq : p + data.length ≤ q) : c'.drop q = c.drop q := by
  obtain ⟨-, -, hdrop⟩ := write_eq_some h
  obtain ⟨k, rfl⟩ := Nat.exists_eq_add_of_le hq
  calc c'.drop (p + data.length + k)
      = ((c'.drop p).drop (written data).length).drop k := by
        rw [length_written, List.drop_drop, List.drop_drop, Nat.add_assoc]
    _ = (c.drop (p + data.length)).drop k := by rw [hdrop, List.drop_left]
    _ = c.drop (p + data.length + k) := List.drop_drop

theorem write_take (h : write c p data = some c') (hq : q ≤ p) (hp : p ≤ c.length) : c'.take q = c.take q := by
  obtain ⟨-, htake, -⟩ := write_eq_some h
  have hmin : min q (p + data.length) = q := by omega
  rw [← hmin, ← List.take_take, htake, List.take_append_of_le_length (by rw [List.length_take]; omega), List.take_take]
  congr 1
  omega

theorem move_eq_write (hlen : src + len ≤ c.length) (h : (c.drop src).take len = original ((s.drop src).take len)) :
    move c p src len = write c p ((s.drop src).take len) := by
  rw [move, h, if_pos ⟨hlen, all_original _⟩, text_original]

theorem move_length (h : move c p src len = some c') : c'.length = c.length := by
  unfold move at h
  split_ifs at h
  exact (write_eq_some h).1

/-! ### From the front -/

/-- `t` stands in front of `p`, and from `q` on all is as it was. -/
structure Front (s : List A) (c : Cells A) (p q : ℕ) (t : List A) : Prop where
  length_eq : c.length = s.length
  le : p ≤ q
  le_length : q ≤ s.length
  front : text (c.take p) = t
  back : c.drop q = original (s.drop q)

theorem Front.start (hp : p ≤ s.length) : Front s (original s) p p (s.take p) where
  length_eq := length_original s
  le := le_rfl
  le_length := hp
  front := by rw [← original_take, text_original]
  back := (original_drop s p).symm

theorem Front.drop (h : Front s c p q t) (hq : q ≤ src) : c.drop src = original (s.drop src) := by
  obtain ⟨k, rfl⟩ := Nat.exists_eq_add_of_le hq
  rw [← List.drop_drop, h.back, ← original_drop, List.drop_drop]

theorem Front.mono (h : Front s c p q t) (hq : q ≤ src) (hsrc : src ≤ s.length) : Front s c p src t :=
  ⟨h.length_eq, h.le.trans hq, hsrc, h.front, h.drop hq⟩

/-- The copy ends before what is as it was. -/
theorem Front.write (h : Front s c p q t) (data : List A) (hroom : p + data.length ≤ q) :
    ∃ c', write c p data = some c' ∧ Front s c' (p + data.length) q (t ++ data) := by
  have hlen := h.length_eq
  have hle := h.le_length
  obtain ⟨c', hc'⟩ : ∃ c', InPlace.write c p data = some c' := exists_write (by omega)
  obtain ⟨hlen', htake, -⟩ := write_eq_some hc'
  refine ⟨c', hc', ⟨hlen'.trans hlen, hroom, hle, ?_, ?_⟩⟩
  · rw [htake, text_append, text_written, h.front]
  · rw [write_drop hc' hroom, h.back]

/-- A piece behind is moved to the front. -/
theorem Front.move (h : Front s c p q t) (hq : q ≤ src) (len : ℕ) (hlen : src + len ≤ s.length) :
    ∃ c', move c p src len = some c' ∧ Front s c' (p + len) (src + len) (t ++ (s.drop src).take len) := by
  have hpiece : ((s.drop src).take len).length = len := by
    rw [List.length_take, List.length_drop]
    omega
  have hsame : (c.drop src).take len = original ((s.drop src).take len) := by
    rw [h.drop hq, ← original_take]
  have hle := h.le
  rw [move_eq_write (by rw [h.length_eq]; exact hlen) hsame]
  have hwrite := (h.mono (by omega : q ≤ src + len) hlen).write ((s.drop src).take len) (by rw [hpiece]; omega)
  rwa [hpiece] at hwrite

/-- What is as it was may stay where it is. -/
theorem Front.keep (h : Front s c p p t) (len : ℕ) (hlen : p + len ≤ s.length) :
    Front s c (p + len) (p + len) (t ++ (s.drop p).take len) where
  length_eq := h.length_eq
  le := le_rfl
  le_length := hlen
  front := by rw [List.take_add, text_append, h.front, h.back, ← original_take, text_original]
  back := h.drop (by omega)

/-! ### From the back -/

/-- `t` stands from `p` on, and up to `q` all is as it was. -/
structure Back (s : List A) (c : Cells A) (p q : ℕ) (t : List A) : Prop where
  le : q ≤ p
  le_length : p ≤ c.length
  front : c.take q = original (s.take q)
  back : text (c.drop p) = t

theorem Back.start [Inhabited A] {n : ℕ} (hn : s.length ≤ n) : Back s (resize (original s) n) n s.length [] where
  le := hn
  le_length := by rw [length_resize]
  front := by rw [take_resize hn (by rw [length_original]), original_take]
  back := by rw [List.drop_eq_nil_of_le (by rw [length_resize])]; rfl

theorem Back.take (h : Back s c p q t) (hq : src ≤ q) : c.take src = original (s.take src) := by
  rw [← min_eq_left hq, ← List.take_take, h.front, ← original_take, List.take_take]

theorem Back.mono (h : Back s c p q t) (hq : src ≤ q) : Back s c p src t :=
  ⟨hq.trans h.le, h.le_length, h.take hq, h.back⟩

/-- The copy begins behind what is as it was. -/
theorem Back.write (h : Back s c (p + data.length) q t) (hq : q ≤ p) :
    ∃ c', write c p data = some c' ∧ Back s c' p q (data ++ t) := by
  have hle := h.le_length
  obtain ⟨c', hc'⟩ : ∃ c', InPlace.write c p data = some c' := exists_write hle
  obtain ⟨hlen', -, hdrop⟩ := write_eq_some hc'
  refine ⟨c', hc', ⟨hq, by omega, ?_, ?_⟩⟩
  · rw [write_take hc' hq (by omega), h.front]
  · rw [hdrop, text_append, text_written, h.back]

/-- A piece in front is moved to the back. -/
theorem Back.move (h : Back s c (p + len) (src + len) t) (hs : src + len ≤ s.length) :
    ∃ c', move c p src len = some c' ∧ Back s c' p src ((s.drop src).take len ++ t) := by
  have hle := h.le
  have hle' := h.le_length
  have hpiece : ((s.drop src).take len).length = len := by
    rw [List.length_take, List.length_drop]
    omega
  have hsame : (c.drop src).take len = original ((s.drop src).take len) := by
    have htake : (c.drop src).take len = (c.take (src + len)).drop src := by
      rw [List.drop_take, Nat.add_sub_cancel_left]
    rw [htake, h.front, ← original_drop, List.drop_take, Nat.add_sub_cancel_left]
  rw [move_eq_write (by omega) hsame]
  have hnext : Back s c (p + len) src t := h.mono (Nat.le_add_right src len)
  rw [← hpiece] at hnext
  exact hnext.write (by omega)

/-! ### Loops over an index -/

section Loops

variable {S : Type} {step : S → ℕ → Option S} {n : ℕ} {st : S} (Inv : ℕ → S → Prop)

theorem foldlM_range (hstep : ∀ i < n, ∀ st, Inv i st → ∃ st', step st i = some st' ∧ Inv (i + 1) st') (h : Inv 0 st) :
    ∃ st', (List.range n).foldlM step st = some st' ∧ Inv n st' := by
  induction n with
  | zero => exact ⟨st, rfl, h⟩
  | succ n ih =>
    obtain ⟨st₁, hloop, hinv⟩ := ih fun i hi => hstep i (by omega)
    obtain ⟨st₂, hlast, hinv'⟩ := hstep n (by omega) st₁ hinv
    refine ⟨st₂, ?_, hinv'⟩
    simp [List.range_succ, List.foldlM_append, hloop, hlast]

theorem foldlM_range_reverse (hstep : ∀ i < n, ∀ st, Inv (i + 1) st → ∃ st', step st i = some st' ∧ Inv i st')
    (h : Inv n st) : ∃ st', (List.range n).reverse.foldlM step st = some st' ∧ Inv 0 st' := by
  induction n generalizing st with
  | zero => exact ⟨st, rfl, h⟩
  | succ n ih =>
    obtain ⟨st₁, hfirst, hinv⟩ := hstep n (by omega) st h
    obtain ⟨st₂, hloop, hinv'⟩ := ih (fun i hi => hstep i (by omega)) hinv
    refine ⟨st₂, ?_, hinv'⟩
    rw [List.range_succ, List.reverse_append, List.reverse_singleton, List.singleton_append, List.foldlM_cons, hfirst]
    exact hloop

/-- What every round keeps, the loop keeps. -/
theorem foldlM_keeps {P : S → Prop} (hstep : ∀ st i st', step st i = some st' → P st → P st') {is : List ℕ} {st' : S}
    (hloop : is.foldlM step st = some st') (h : P st) : P st' := by
  induction is generalizing st with
  | nil =>
    obtain rfl := Option.some.inj hloop
    exact h
  | cons i is ih =>
    rw [List.foldlM_cons, Option.bind_eq_bind, Option.bind_eq_some_iff] at hloop
    obtain ⟨st₁, hfirst, hrest⟩ := hloop
    exact ih hrest (hstep st i st₁ hfirst h)

end Loops

end AimRT.Lib.InPlace
