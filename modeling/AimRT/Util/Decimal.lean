import AimRT.Util.Context

/-!
# Numbers in decimal

Strings of digits, as `IsDigitStr` tells them and the number functions of the standard library read them, and the
digits of a number.
-/

namespace AimRT.Util

open AimRT.Lib

def isDigit (c : UInt8) : Bool := 48 ≤ c && c ≤ 57

/-- `IsDigitStr`. -/
def isDigitStr (str : Bytes) : Bool := !str.isEmpty && str.all isDigit

/-- The number that digits stand for. -/
def decimalValue (digits : Bytes) : ℕ := digits.foldl (fun n c => 10 * n + (c.toNat - 48)) 0

theorem isDigitStr_iff {str : Bytes} : isDigitStr str = true ↔ str ≠ [] ∧ ∀ c ∈ str, isDigit c = true := by
  simp [isDigitStr]

/-- The characters of `n.repr` are digits. -/
theorem digit_bounds {n : ℕ} {d : Char} (hd : d ∈ Nat.toDigits 10 n) : 48 ≤ d.toNat ∧ d.toNat ≤ 57 := by
  have hdigit := Nat.isDigit_of_mem_toDigits (by decide) (by decide) hd
  simp only [Char.isDigit, ge_iff_le, Bool.and_eq_true, decide_eq_true_eq, UInt32.le_iff_toNat_le] at hdigit
  exact hdigit

theorem isDigit_of_mem_repr {n : ℕ} {c : UInt8} (h : c ∈ ascii n.repr) : isDigit c = true := by
  simp only [ascii, Nat.toList_repr, List.mem_map] at h
  obtain ⟨d, hd, rfl⟩ := h
  obtain ⟨hlow, hhigh⟩ := digit_bounds hd
  simp [isDigit, UInt8.le_iff_toNat_le]
  omega

theorem decimalValue_repr (n : ℕ) : decimalValue (ascii n.repr) = n := by
  have hdigits := Nat.ofDigitChars_ten_toDigits (n := n)
  rw [Nat.ofDigitChars_eq_foldl] at hdigits
  rw [decimalValue, ascii, Nat.toList_repr, List.foldl_map]
  refine (List.foldl_ext _ _ _ fun m d hd => ?_).trans hdigits
  have hlt : d.toNat < 256 := (digit_bounds hd).2.trans_lt (by decide)
  show 10 * m + ((UInt8.ofNat d.toNat).toNat - 48) = _
  rw [UInt8.toNat_ofNat_of_lt' hlt]
  rfl

theorem ascii_repr_ne_nil (n : ℕ) : ascii n.repr ≠ [] := by
  simp [ascii, Nat.toDigits_ne_nil]

theorem isDigitStr_repr (n : ℕ) : isDigitStr (ascii n.repr) = true :=
  isDigitStr_iff.2 ⟨ascii_repr_ne_nil n, fun _ => isDigit_of_mem_repr⟩

end AimRT.Util
