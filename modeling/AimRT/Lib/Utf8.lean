import AimRT.Lib.LittleEndian

/-!
# Characters of a UTF-8 text

A valid text is the encodings of its characters, one behind the other, with a boundary in front of each of them and at
the end.  Every byte of a character but its first one is a continuation byte, so that a position is a boundary exactly
when no continuation byte stands there.
-/

namespace AimRT.Lib.Utf8

/-- The bytes of a text. -/
def encode (cs : List Char) : Bytes := cs.flatMap String.utf8EncodeChar

def Valid (s : Bytes) : Prop := ∃ cs, s = encode cs

/-- A position between two characters of a text, or at one of its ends. -/
def Boundary (cs : List Char) (i : ℕ) : Prop := ∃ l r, cs = l ++ r ∧ i = (encode l).length

/-- A byte `10xxxxxx`. -/
def isCont (b : UInt8) : Bool := b &&& 0xC0 == 0x80

variable {c : Char} {cs : List Char} {i : ℕ}

@[simp] theorem encode_nil : encode [] = [] := rfl

theorem encode_cons (c : Char) (cs : List Char) : encode (c :: cs) = String.utf8EncodeChar c ++ encode cs :=
  List.flatMap_cons

theorem encode_append (l r : List Char) : encode (l ++ r) = encode l ++ encode r := List.flatMap_append

/-! ### The bytes of a character -/

theorem isCont_ofNat {n : ℕ} (h : n < 256) : isCont (UInt8.ofNat n) = decide (0x80 ≤ n ∧ n < 0xC0) := by
  have hall : ∀ q < 16, ∀ r < 16,
      isCont (UInt8.ofNat (16 * q + r)) = decide (0x80 ≤ 16 * q + r ∧ 16 * q + r < 0xC0) := by
    decide
  have hn := hall (n / 16) (by omega) (n % 16) (by omega)
  rwa [Nat.div_add_mod] at hn

theorem isCont_ofNat_low {n : ℕ} : isCont (UInt8.ofNat (n % 0x40 + 0x80)) = true := by
  rw [isCont_ofNat (by omega)]
  simp only [decide_eq_true_eq]
  omega

theorem isCont_ofNat_first {n : ℕ} (h : n < 256) (hfirst : n < 0x80 ∨ 0xC0 ≤ n) : isCont (UInt8.ofNat n) = false := by
  rw [isCont_ofNat h]
  simp only [decide_eq_false_iff_not]
  omega

/-- The first byte of a character is no continuation byte, and all others are. -/
theorem exists_utf8EncodeChar (c : Char) :
    ∃ b bs, String.utf8EncodeChar c = b :: bs ∧ isCont b = false ∧ ∀ b' ∈ bs, isCont b' = true := by
  unfold String.utf8EncodeChar
  extract_lets v
  split_ifs with h1 h2 h3
  · exact ⟨_, [], rfl, isCont_ofNat_first (by omega) (by omega), nofun⟩
  · refine ⟨_, _, rfl, isCont_ofNat_first (by omega) (by omega), ?_⟩
    simp only [List.mem_cons, List.not_mem_nil, or_false, forall_eq]
    exact isCont_ofNat_low
  · refine ⟨_, _, rfl, isCont_ofNat_first (by omega) (by omega), ?_⟩
    simp only [List.mem_cons, List.not_mem_nil, or_false, forall_eq_or_imp, forall_eq]
    exact ⟨isCont_ofNat_low, isCont_ofNat_low⟩
  · refine ⟨_, _, rfl, isCont_ofNat_first (by omega) (by omega), ?_⟩
    simp only [List.mem_cons, List.not_mem_nil, or_false, forall_eq_or_imp, forall_eq]
    exact ⟨isCont_ofNat_low, isCont_ofNat_low, isCont_ofNat_low⟩

/-! ### Boundaries -/

theorem boundary_zero (cs : List Char) : Boundary cs 0 := ⟨[], cs, rfl, rfl⟩

theorem boundary_length (cs : List Char) : Boundary cs (encode cs).length := ⟨cs, [], (List.append_nil cs).symm, rfl⟩

theorem Boundary.le_length (h : Boundary cs i) : i ≤ (encode cs).length := by
  obtain ⟨l, r, rfl, rfl⟩ := h
  rw [encode_append, List.length_append]
  exact Nat.le_add_right _ _

theorem Boundary.cons (h : Boundary cs i) (c : Char) : Boundary (c :: cs) ((String.utf8EncodeChar c).length + i) := by
  obtain ⟨l, r, rfl, rfl⟩ := h
  refine ⟨c :: l, r, rfl, ?_⟩
  rw [encode_cons, List.length_append]

/-- What is in front of a boundary is a text. -/
theorem Boundary.take (h : Boundary cs i) : Valid ((encode cs).take i) := by
  obtain ⟨l, r, rfl, rfl⟩ := h
  exact ⟨l, by rw [encode_append, List.take_left]⟩

theorem isCont_head? {b : UInt8} (hb : (encode cs).head? = some b) : isCont b = false := by
  cases cs with
  | nil => cases hb
  | cons c cs =>
    obtain ⟨b', bs, hc, hfirst, -⟩ := exists_utf8EncodeChar c
    rw [encode_cons, hc, List.cons_append, List.head?_cons] at hb
    obtain rfl := Option.some.inj hb
    exact hfirst

theorem Boundary.isCont (h : Boundary cs i) {b : UInt8} (hb : (encode cs)[i]? = some b) : isCont b = false := by
  obtain ⟨l, r, rfl, rfl⟩ := h
  rw [encode_append, List.getElem?_append_right le_rfl, Nat.sub_self, ← List.head?_eq_getElem?] at hb
  exact isCont_head? hb

/-- A position where no continuation byte stands is a boundary. -/
theorem boundary_of_not_isCont (hi : i ≤ (encode cs).length)
    (h : ∀ b, (encode cs)[i]? = some b → isCont b = false) : Boundary cs i := by
  induction cs generalizing i with
  | nil =>
    obtain rfl : i = 0 := Nat.le_zero.1 hi
    exact boundary_zero []
  | cons c cs ih =>
    rw [encode_cons, List.length_append] at hi
    rw [encode_cons] at h
    rcases Nat.lt_or_ge i (String.utf8EncodeChar c).length with hlt | hge
    · -- inside the first character: only its first byte is no continuation byte
      cases i with
      | zero => exact boundary_zero _
      | succ i =>
        obtain ⟨b, bs, hc, -, hcont⟩ := exists_utf8EncodeChar c
        rw [hc, List.length_cons] at hlt
        have hget : (String.utf8EncodeChar c ++ encode cs)[i + 1]? = some bs[i] := by
          rw [hc, List.cons_append, List.getElem?_cons_succ, List.getElem?_append_left (by omega),
            List.getElem?_eq_getElem]
        have hfalse := h _ hget
        rw [hcont _ (List.getElem_mem _)] at hfalse
        cases hfalse
    · obtain ⟨k, rfl⟩ := Nat.exists_eq_add_of_le hge
      have hrest : ∀ b, (encode cs)[k]? = some b → Utf8.isCont b = false := by
        intro b hb
        apply h b
        rw [List.getElem?_append_right (Nat.le_add_right _ _), Nat.add_sub_cancel_left, hb]
      exact (ih (by omega) hrest).cons c

end AimRT.Lib.Utf8
