import AimRT.Lib.Utf8

/-!
# Truncation of a UTF-8 text

`SafeUtf8TruncationLength` goes back from the desired length to a byte that is no continuation byte.  In a valid text
this is the last boundary of characters up to there.
-/

namespace AimRT.Util

open AimRT.Lib AimRT.Lib.Utf8

/-- `(utf8_str[pos] & CONT_BYTE_MASK) == CONT_BYTE_FLAG`; no value where it reads behind the text. -/
def isContByte (utf8Str : Bytes) (pos : ℕ) : Option Bool := utf8Str[pos]?.map isCont

/-- The loop that goes back from `truncate_pos`. -/
def truncateBack (utf8Str : Bytes) : ℕ → Option ℕ
  | 0 => some 0
  | truncatePos + 1 => do
    if ← isContByte utf8Str (truncatePos + 1) then truncateBack utf8Str truncatePos
    else return truncatePos + 1

def safeUtf8TruncationLength (utf8Str : Bytes) (actualLength desiredLength : ℕ) : Option ℕ := do
  if desiredLength ≥ actualLength then return actualLength
  if !(← isContByte utf8Str desiredLength) then return desiredLength
  truncateBack utf8Str desiredLength

variable {utf8Str : Bytes} {pos : ℕ}

theorem isContByte_eq {b : UInt8} (h : utf8Str[pos]? = some b) : isContByte utf8Str pos = some (isCont b) := by
  rw [isContByte, h, Option.map_some]

/-- **The loop** ends at the last position up to its start, where no continuation byte stands, or at the front. -/
theorem truncateBack_eq (hpos : pos < utf8Str.length) :
    ∃ r ≤ pos, truncateBack utf8Str pos = some r ∧ (r = 0 ∨ isContByte utf8Str r = some false) ∧
      ∀ j, r < j → j ≤ pos → isContByte utf8Str j = some true := by
  induction pos with
  | zero => exact ⟨0, le_rfl, rfl, .inl rfl, fun j hlt hle => absurd hlt (by omega)⟩
  | succ pos ih =>
    have hbyte := isContByte_eq (List.getElem?_eq_getElem hpos)
    rw [truncateBack]
    cases hcont : isCont utf8Str[pos + 1] with
    | false =>
      rw [hcont] at hbyte
      refine ⟨pos + 1, le_rfl, ?_, .inr hbyte, fun j hlt hle => absurd hlt (by omega)⟩
      rw [hbyte]
      rfl
    | true =>
      rw [hcont] at hbyte
      obtain ⟨r, hle, hback, hr, hskip⟩ := ih (by omega)
      refine ⟨r, by omega, ?_, hr, fun j hlt hj => ?_⟩
      · rw [hbyte]
        exact hback
      · rcases Nat.le_succ_iff.1 hj with hj' | rfl
        · exact hskip j hlt hj'
        · exact hbyte

/-- The function reads inside the text, and ends where the loop does. -/
theorem safeUtf8TruncationLength_eq {desiredLength : ℕ} (h : desiredLength < utf8Str.length) :
    safeUtf8TruncationLength utf8Str utf8Str.length desiredLength = truncateBack utf8Str desiredLength := by
  have hbyte := isContByte_eq (List.getElem?_eq_getElem h)
  rw [safeUtf8TruncationLength, if_neg (by omega), hbyte]
  cases hcont : isCont utf8Str[desiredLength] with
  | false =>
    rw [hcont] at hbyte
    cases desiredLength with
    | zero => rfl
    | succ pos =>
      rw [truncateBack, hbyte]
      rfl
  | true => rfl

/-- The result is a boundary, and there is none between it and the desired length. -/
theorem safeUtf8TruncationLength_boundary (cs : List Char) (desiredLength : ℕ) :
    ∃ r, safeUtf8TruncationLength (encode cs) (encode cs).length desiredLength = some r ∧ Boundary cs r ∧
      r ≤ desiredLength ∧ ∀ i, Boundary cs i → i ≤ desiredLength → i ≤ r := by
  rcases Nat.lt_or_ge desiredLength (encode cs).length with hlt | hge
  · obtain ⟨r, hle, hback, hr, hskip⟩ := truncateBack_eq hlt
    have hbound : Boundary cs r := by
      rcases hr with rfl | hr
      · exact boundary_zero cs
      · apply boundary_of_not_isCont (by omega)
        intro b hb
        rw [isContByte_eq hb] at hr
        exact Option.some.inj hr
    refine ⟨r, by rw [safeUtf8TruncationLength_eq hlt, hback], hbound, hle, fun i hi hid => ?_⟩
    by_contra hcontra
    -- a position behind the result has a continuation byte, and is no boundary
    have hcont := hskip i (by omega) hid
    obtain ⟨b, hb⟩ : ∃ b, (encode cs)[i]? = some b := ⟨_, List.getElem?_eq_getElem (by omega)⟩
    rw [isContByte_eq hb, hi.isCont hb] at hcont
    cases hcont
  · exact ⟨(encode cs).length, if_pos hge, boundary_length cs, hge, fun i hi _ => hi.le_length⟩

/-- **The truncated text**: for every valid text and every desired length, the result is the last boundary of characters
that is not behind the text or the desired length, so that a valid text is left; and no byte behind the text is read. -/
theorem safeUtf8TruncationLength_isGreatest (cs : List Char) (desiredLength : ℕ) :
    ∃ r, safeUtf8TruncationLength (encode cs) (encode cs).length desiredLength = some r ∧
      IsGreatest {i | Boundary cs i ∧ i ≤ min (encode cs).length desiredLength} r ∧ Valid ((encode cs).take r) := by
  obtain ⟨r, hresult, hbound, hle, hgreatest⟩ := safeUtf8TruncationLength_boundary cs desiredLength
  refine ⟨r, hresult, ⟨⟨hbound, le_min hbound.le_length hle⟩, ?_⟩, hbound.take⟩
  rintro i ⟨hi, hmin⟩
  exact hgreatest i hi (hmin.trans (min_le_right _ _))

end AimRT.Util
