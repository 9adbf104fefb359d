import AimRT.Grpc.GrpcServer
import AimRT.Util.Decimal

/-!
# The timeout of a grpc request

`FormatTimeout` writes the nanoseconds and `ParseTimeout` reads a number with one of six units, from any peer.  What
was formatted is read back.  A string that stands for more nanoseconds than there are is not refused: `stoll` throws, or
the number of nanoseconds overflows.
-/

namespace AimRT.Grpc

open AimRT.Lib AimRT.Util

/-- What a string stands for: digits and a unit, the nanoseconds of as many units. -/
def Denotes (timeoutStr : Bytes) (ns : ℤ) : Prop :=
  ∃ digits unit perUnit, timeoutStr = digits ++ [unit] ∧ isDigitStr digits = true ∧ timeoutUnit unit = some perUnit ∧
    ns = decimalValue digits * perUnit

/-- **The string is read as what it stands for**, or as none where it stands for nothing or for more than
`std::chrono::nanoseconds` holds. -/
def ParsedRight (timeoutStr : Bytes) : Prop :=
  ∃ result, parseTimeout timeoutStr = some result ∧
    match result with
    | some ns => Denotes timeoutStr ns ∧ 0 ≤ ns
    | none => ∀ ns, Denotes timeoutStr ns → 2 ^ 63 ≤ ns

theorem timeoutUnit_pos {unit : UInt8} {perUnit : ℤ} (h : timeoutUnit unit = some perUnit) : 1 ≤ perUnit := by
  unfold timeoutUnit at h
  split_ifs at h <;>
  · have := Option.some.inj h
    omega

theorem isDigitStr_iff_all {digits : Bytes} : isDigitStr digits = true ↔ digits ≠ [] ∧ digits.all isdigit := by
  rw [isDigitStr_iff, List.all_eq_true]
  rfl

/-- A string stands for one number at most. -/
theorem Denotes.unique {timeoutStr : Bytes} {ns ns' : ℤ} (h : Denotes timeoutStr ns) (h' : Denotes timeoutStr ns') :
    ns = ns' := by
  obtain ⟨digits, unit, perUnit, rfl, -, hunit, rfl⟩ := h
  obtain ⟨digits', unit', perUnit', heq, -, hunit', rfl⟩ := h'
  obtain ⟨rfl, hlast⟩ := List.append_inj' heq rfl
  obtain rfl : unit = unit' := by simpa using hlast
  rw [Option.some.inj (hunit.symm.trans hunit')]

theorem Denotes.nonneg {timeoutStr : Bytes} {ns : ℤ} (h : Denotes timeoutStr ns) : 0 ≤ ns := by
  obtain ⟨digits, unit, perUnit, -, -, hunit, rfl⟩ := h
  have := timeoutUnit_pos hunit
  positivity

/-- What `ParseTimeout` makes of digits and a unit. -/
theorem parseTimeout_append {digits : Bytes} {unit : UInt8} {perUnit : ℤ} (hdigits : isDigitStr digits = true)
    (hunit : timeoutUnit unit = some perUnit) :
    parseTimeout (digits ++ [unit]) =
      if decimalValue digits < 2 ^ 63 then some (some (Int.bmod (decimalValue digits * perUnit) (2 ^ 64)))
      else none := by
  have hall := isDigitStr_iff_all.1 hdigits
  simp only [parseTimeout, List.dropLast_concat, List.getLast?_concat, Option.bind_some, hunit, if_pos hall]
  rfl

/-- A string that stands for nothing is refused. -/
theorem parseTimeout_of_not_denotes {timeoutStr : Bytes} (h : ∀ ns, ¬ Denotes timeoutStr ns) :
    parseTimeout timeoutStr = some none := by
  rcases List.eq_nil_or_concat timeoutStr with rfl | ⟨digits, unit, rfl⟩
  · rfl
  · cases hunit : timeoutUnit unit with
    | none => simp [parseTimeout, hunit]
    | some perUnit =>
      have hnot : ¬ (digits ≠ [] ∧ digits.all isdigit) := fun hdigits =>
        h _ ⟨digits, unit, perUnit, by simp, isDigitStr_iff_all.2 hdigits, hunit, rfl⟩
      simp only [parseTimeout, List.concat_eq_append, List.dropLast_concat, List.getLast?_concat, Option.bind_some,
        hunit, if_neg hnot]

/-- A number below `2 ^ 63` is its own remainder, and one that is not is not. -/
theorem bmod_eq_self_iff {v : ℤ} (hv : 0 ≤ v) : Int.bmod v (2 ^ 64) = v ↔ v < 2 ^ 63 := by
  constructor
  · intro h
    have := Int.bmod_lt (x := v) (m := 2 ^ 64) (by norm_num)
    rw [h] at this
    simpa using this
  · intro h
    exact Int.bmod_eq_of_le (by norm_num; omega) (by norm_num; omega)

theorem parsedRight_iff_of_denotes {timeoutStr : Bytes} {ns : ℤ} (h : Denotes timeoutStr ns) :
    ParsedRight timeoutStr ↔ ns < 2 ^ 63 := by
  obtain ⟨digits, unit, perUnit, rfl, hdigits, hunit, rfl⟩ := id h
  have hpos := timeoutUnit_pos hunit
  rw [ParsedRight, parseTimeout_append hdigits hunit]
  constructor
  · rintro ⟨result, hresult, hright⟩
    split_ifs at hresult with hlt
    obtain rfl := Option.some.inj hresult
    exact (bmod_eq_self_iff h.nonneg).1 (hright.1.unique h)
  · intro hfits
    have hlt : (decimalValue digits : ℤ) < 2 ^ 63 := by nlinarith
    refine ⟨_, if_pos (by exact_mod_cast hlt), ?_⟩
    rw [(bmod_eq_self_iff h.nonneg).2 hfits]
    exact ⟨h, h.nonneg⟩

theorem parsedRight_iff (timeoutStr : Bytes) :
    ParsedRight timeoutStr ↔ ∀ ns, Denotes timeoutStr ns → ns < 2 ^ 63 := by
  by_cases h : ∃ ns, Denotes timeoutStr ns
  · obtain ⟨ns, hns⟩ := h
    rw [parsedRight_iff_of_denotes hns]
    exact ⟨fun hlt ns' hns' => hns.unique hns' ▸ hlt, fun hall => hall ns hns⟩
  · have hnot : ∀ ns, ¬ Denotes timeoutStr ns := fun ns hns => h ⟨ns, hns⟩
    exact iff_of_true ⟨none, parseTimeout_of_not_denotes hnot, fun ns hns => absurd hns (hnot ns)⟩
      fun ns hns => absurd hns (hnot ns)

theorem denotes_formatTimeout {t : ℤ} (ht : 0 ≤ t) : Denotes (formatTimeout t) t := by
  obtain ⟨n, rfl⟩ := Int.eq_ofNat_of_zero_le ht
  refine ⟨ascii n.repr, 110, 1, ?_, isDigitStr_repr n, by decide, by rw [decimalValue_repr, mul_one]⟩
  show (n.repr ++ "n").toList.map _ = _
  rw [String.toList_append, List.map_append]
  rfl

theorem parseTimeout_formatTimeout {t : ℤ} (ht : 0 ≤ t) (hfits : t < 2 ^ 63) :
    parseTimeout (formatTimeout t) = some (some t) := by
  obtain ⟨result, hparse, hright⟩ := (parsedRight_iff_of_denotes (denotes_formatTimeout ht)).2 hfits
  cases result with
  | none => exact absurd (hright t (denotes_formatTimeout ht)) (not_le.2 hfits)
  | some ns => rw [hparse, hright.1.unique (denotes_formatTimeout ht)]

/-- **A timeout that was formatted is read back, and a string is read as what it stands for if and only if that is no
more nanoseconds than there are.** -/
theorem timeout_codec_iff (t : ℤ) (timeoutStr : Bytes) :
    (0 ≤ t → t < 2 ^ 63 → parseTimeout (formatTimeout t) = some (some t)) ∧
      (ParsedRight timeoutStr ↔ ∀ ns, Denotes timeoutStr ns → ns < 2 ^ 63) :=
  ⟨parseTimeout_formatTimeout, parsedRight_iff timeoutStr⟩

theorem timeout_codec_five :
    parseTimeout (formatTimeout 5) = some (some 5) ∧
      (ParsedRight (ascii "x") ↔ ∀ ns, Denotes (ascii "x") ns → ns < 2 ^ 63) :=
  ⟨(timeout_codec_iff 5 []).1 (by decide) (by decide), (timeout_codec_iff 0 (ascii "x")).2⟩

/-- `stoll` throws for `2 ^ 63`, and `2 ^ 62` hours are read as none. -/
theorem timeout_overflows :
    (¬ ParsedRight (ascii "9223372036854775808n") ∧ parseTimeout (ascii "9223372036854775808n") = none) ∧
      ¬ ParsedRight (ascii "4611686018427387904H") ∧ parseTimeout (ascii "4611686018427387904H") = some (some 0) := by
  refine ⟨⟨?_, by decide⟩, ?_, by decide⟩
  · rintro ⟨result, hresult, -⟩
    exact absurd hresult (by decide +revert)
  · have hdenotes : Denotes (ascii "4611686018427387904H") (4611686018427387904 * (3600 * 10 ^ 9)) :=
      ⟨ascii "4611686018427387904", 72, 3600 * 10 ^ 9, by decide, by decide, by decide, by decide⟩
    rw [parsedRight_iff_of_denotes hdenotes]
    norm_num

end AimRT.Grpc
