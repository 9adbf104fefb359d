import AimRT.Util.Context

/-!
# Percent encoding

`UrlDecode` and `HttpHeaderDecode` take back what `UrlEncode` and `HttpHeaderEncode` do: a character
that is not kept is a `%` and its two hex digits, in upper or in lower case, and where a `%` has no two
characters behind it the decoders stop.
-/

namespace AimRT.Util

open AimRT.Lib

def fromHex (x : UInt8) : UInt8 :=
  if x ≥ 48 && x ≤ 57 then x - 48
  else if x ≥ 65 && x ≤ 70 then x - 65 + 10
  else if x ≥ 97 && x ≤ 102 then x - 97 + 10
  else 0

/-- The loop of the decoders, with what becomes of a character other than `%`. -/
def percentDecode (plain : UInt8 → UInt8) : Bytes → Bytes
  | [] => []
  | c :: str =>
    if c = 37 then
      match str with
      | x :: y :: str => ((fromHex x <<< 4) ||| fromHex y) :: percentDecode plain str
      | _ => []
    else plain c :: percentDecode plain str

section Decode

variable (plain : UInt8 → UInt8) {c : UInt8} (x y : UInt8) (str : Bytes)

theorem percentDecode_nil : percentDecode plain [] = [] := rfl

theorem percentDecode_percent :
    percentDecode plain (37 :: x :: y :: str) = ((fromHex x <<< 4) ||| fromHex y) :: percentDecode plain str := rfl

theorem percentDecode_of_ne (hc : c ≠ 37) : percentDecode plain (c :: str) = plain c :: percentDecode plain str := by
  rcases str with - | ⟨x, - | ⟨y, str⟩⟩
  · exact if_neg hc
  · exact if_neg hc
  · exact if_neg hc

end Decode

def urlDecode (str : Bytes) : Bytes := percentDecode (fun c => if c = 43 then 32 else c) str

def httpHeaderDecode (str : Bytes) : Bytes := percentDecode id str

/-! ### Both letter cases

The backends ask for upper case. -/

/-- `ToHex`. -/
def toHexOf (up : Bool) (x : UInt8) : UInt8 := if x > 9 then x + (if up then 65 else 97) - 10 else x + 48

/-- A character that is not kept. -/
def escaped (up : Bool) (c : UInt8) : Bytes := [37, toHexOf up (c >>> 4), toHexOf up (c &&& 15)]

/-- `UrlEncode`. -/
def urlEncodeOf (up : Bool) (str : Bytes) : Bytes := str.flatMap fun c =>
  if isalnum c || c = 45 || c = 95 || c = 46 || c = 126 then [c]
  else if c = 32 then [43]
  else escaped up c

/-- `HttpHeaderEncode`. -/
def httpHeaderEncodeOf (up : Bool) (str : Bytes) : Bytes := str.flatMap fun c =>
  if isalnum c || c = 45 then [c] else escaped up c

theorem urlEncodeOf_true : urlEncodeOf true = urlEncode := rfl

/-! ### Decoding takes back encoding -/

theorem forall_uint8 {P : UInt8 → Prop} (h : ∀ n : Fin 256, P (UInt8.ofNat n)) (c : UInt8) : P c := by
  have hc := h ⟨c.toNat, c.toNat_lt⟩
  rwa [UInt8.ofNat_toNat] at hc

theorem fromHex_toHexOf (up : Bool) (c : UInt8) :
    (fromHex (toHexOf up (c >>> 4)) <<< 4) ||| fromHex (toHexOf up (c &&& 15)) = c := by
  revert c
  cases up <;> exact forall_uint8 (by decide +kernel)

theorem percentDecode_escaped (plain : UInt8 → UInt8) (up : Bool) (c : UInt8) (str : Bytes) :
    percentDecode plain (escaped up c ++ str) = c :: percentDecode plain str := by
  rw [escaped, List.cons_append, List.cons_append, List.cons_append, percentDecode_percent, fromHex_toHexOf,
    List.nil_append]

theorem percentDecode_keep {plain : UInt8 → UInt8} {c d : UInt8} (hd : d ≠ 37) (hplain : plain d = c)
    (str : Bytes) : percentDecode plain ([d] ++ str) = c :: percentDecode plain str := by
  rw [List.singleton_append, percentDecode_of_ne plain str hd, hplain]

/-- An encoding by characters is taken back when that of every character is. -/
theorem percentDecode_flatMap {plain : UInt8 → UInt8} {code : UInt8 → Bytes}
    (h : ∀ c str, percentDecode plain (code c ++ str) = c :: percentDecode plain str) (str : Bytes) :
    percentDecode plain (str.flatMap code) = str := by
  induction str with
  | nil => rw [List.flatMap_nil, percentDecode_nil]
  | cons c str ih => rw [List.flatMap_cons, h, ih]

theorem urlDecode_urlEncodeOf (up : Bool) (str : Bytes) : urlDecode (urlEncodeOf up str) = str := by
  refine percentDecode_flatMap (fun c str => ?_) str
  split
  next hkeep =>
    have hc : c ≠ 37 ∧ c ≠ 43 := by
      constructor
      · rintro rfl
        revert hkeep
        decide
      · rintro rfl
        revert hkeep
        decide
    refine percentDecode_keep hc.1 ?_ str
    exact if_neg hc.2
  · split
    next hblank => exact percentDecode_keep (by decide) hblank.symm str
    · exact percentDecode_escaped _ up c str

theorem httpHeaderDecode_encodeOf (up : Bool) (str : Bytes) :
    httpHeaderDecode (httpHeaderEncodeOf up str) = str := by
  refine percentDecode_flatMap (fun c str => ?_) str
  split
  next hkeep =>
    have hc : c ≠ 37 := by
      rintro rfl
      revert hkeep
      decide
    exact percentDecode_keep hc rfl str
  · exact percentDecode_escaped id up c str

theorem urlDecode_urlEncode (str : Bytes) : urlDecode (urlEncode str) = str := urlDecode_urlEncodeOf true str

theorem urlEncode_injective : Function.Injective urlEncode :=
  Function.LeftInverse.injective urlDecode_urlEncode

/-- What stands between the parts of a topic is not in them. -/
theorem slash_not_mem_urlEncode (str : Bytes) : 47 ∉ urlEncode str := by
  have hcode : ∀ c : UInt8, 47 ∉ urlEncode [c] := forall_uint8 (by decide +kernel)
  intro hmem
  obtain ⟨c, -, hc⟩ := List.mem_flatMap.1 hmem
  refine hcode c ?_
  rwa [urlEncode, List.flatMap_singleton]

/-! ### Safe characters -/

/-- Letters, digits, `-`, `_`, `.` and `~` stand for themselves, `+` for a blank; `%` begins an escape. -/
def isUrlSafe (c : UInt8) : Bool :=
  isalnum c || c = 45 || c = 95 || c = 46 || c = 126 || c = 43 || c = 37

/-- Letters, digits and `-` stand for themselves; `%` begins an escape. -/
def isHeaderSafe (c : UInt8) : Bool := isalnum c || c = 45 || c = 37

variable {up : Bool} {str : Bytes} {c d : UInt8}

theorem isHeaderSafe_of_mem_escaped (h : d ∈ escaped up c) : isHeaderSafe d = true := by
  have hall : ∀ c : UInt8, (escaped up c).all isHeaderSafe = true := by
    cases up <;> exact forall_uint8 (by decide +kernel)
  exact List.all_eq_true.1 (hall c) d h

theorem isUrlSafe_of_isHeaderSafe (h : isHeaderSafe c = true) : isUrlSafe c = true := by
  simp only [isHeaderSafe, Bool.or_eq_true] at h
  simp only [isUrlSafe, Bool.or_eq_true]
  tauto

theorem isUrlSafe_of_mem_urlEncodeOf (h : c ∈ urlEncodeOf up str) : isUrlSafe c = true := by
  obtain ⟨b, -, hc⟩ := List.mem_flatMap.1 h
  split at hc
  next hkeep =>
    rw [List.mem_singleton.1 hc, isUrlSafe, hkeep]
    rfl
  · split at hc
    · rw [List.mem_singleton.1 hc]
      decide
    · exact isUrlSafe_of_isHeaderSafe (isHeaderSafe_of_mem_escaped hc)

theorem isHeaderSafe_of_mem_httpHeaderEncodeOf (h : c ∈ httpHeaderEncodeOf up str) : isHeaderSafe c = true := by
  obtain ⟨b, -, hc⟩ := List.mem_flatMap.1 h
  split at hc
  next hkeep =>
    rw [List.mem_singleton.1 hc, isHeaderSafe, hkeep]
    rfl
  · exact isHeaderSafe_of_mem_escaped hc

end AimRT.Util
