import AimRT.Net.HttpNames
import AimRT.Util.Decimal

/-!
# The timeout of an http request

The client writes its timeout in whole seconds into the field `Timeout`, where a meta pair of this name replaces it.
The server reads digits with `atoi`, takes all the seconds there are for anything else, and gives its handle the
nanoseconds.

A timeout below a second is sent as none, an `int` does not hold the seconds of every timeout, and
`std::chrono::nanoseconds` does not hold all the seconds there are.
-/

namespace AimRT.Net

open AimRT.Lib AimRT.Util AimRT.Rpc HttpFields

/-! ### What the server reads -/

def HttpField.timeout : Bytes := ascii "Timeout"

/-- `atoi` of digits: `strtol`, which stays at its bound, and the conversion to `int`. -/
def atoi (digits : Bytes) : ℤ := Int.bmod (min (decimalValue digits) (2 ^ 63 - 1)) (2 ^ 32)

/-- `std::chrono::seconds::max()`. -/
def secondsMax : ℤ := 2 ^ 63 - 1

/-- `handle_timeout` of `GenHttpDispatcherHandle`, in seconds. -/
def handleTimeout (fields : HttpFields) : ℤ :=
  match Fields.find foldName fields HttpField.timeout with
  | none => secondsMax
  | some timeoutStr => if isDigitStr timeoutStr then atoi timeoutStr else secondsMax

/-- The timeout of the context of the service: `handle_timeout` in nanoseconds, of which there are `2 ^ 64`. -/
def storedTimeout (fields : HttpFields) : ℤ := Int.bmod (handleTimeout fields * 10 ^ 9) (2 ^ 64)

/-- `atoi` does not hold the number, or the nanoseconds do not hold the seconds. -/
def Overflows (fields : HttpFields) : Prop :=
  (∃ timeoutStr ∈ Fields.find foldName fields HttpField.timeout,
    isDigitStr timeoutStr = true ∧ 2 ^ 31 ≤ decimalValue timeoutStr) ∨
  ¬ (-2 ^ 63 ≤ handleTimeout fields * 10 ^ 9 ∧ handleTimeout fields * 10 ^ 9 < 2 ^ 63)

/-! ### What is promised -/

/-- The timeout `t` of a client is kept up to its whole seconds, one below a second may be a second. -/
def KeepsTimeout (t stored : ℤ) : Prop :=
  0 < stored ∧ if t < 10 ^ 9 then stored ≤ 10 ^ 9 else stored ≤ t ∧ t < stored + 10 ^ 9

/-- The value of the last meta pair that has the name of the field. -/
def timeoutPair (ctx : Context) : Option Bytes :=
  (ctx.entries.reverse.find? fun e => foldName e.1 = foldName HttpField.timeout).map fun e => httpHeaderEncode e.2

/-- The seconds of the timeout are sent and fit; or those of the meta pair are it. -/
def TimeoutFits (call : UrlCall) : Prop :=
  match timeoutPair call.ctx with
  | none => 10 ^ 9 ≤ call.timeout ∧ call.timeout < 2 ^ 31 * 10 ^ 9
  | some timeoutStr => isDigitStr timeoutStr = true ∧ KeepsTimeout call.timeout (atoi timeoutStr * 10 ^ 9)

/-! ### The field -/

/-- The field that arrives is the last one of those that the client sets. -/
theorem find_timeout_rpcFields (call : UrlCall) (url : Url) (contentType : Bytes) (bodySize : ℕ) :
    Fields.find foldName (rpcFields call url contentType bodySize) HttpField.timeout =
      some ((timeoutPair call.ctx).getD (ascii (toString (httpTimeout call.timeout / 10 ^ 9)))) := by
  have hencode : foldName HttpField.timeout = foldName (httpHeaderEncode HttpField.timeout) := by decide
  have hpair : ∀ e : Σ _ : Bytes, Bytes, foldName (httpHeaderEncode e.1) = foldName HttpField.timeout ↔
      foldName e.1 = foldName HttpField.timeout := fun e => by
    rw [hencode, fold_encode_eq_iff, ← hencode]
  have hedits : Fields.find foldName (rpcFields call url contentType bodySize) HttpField.timeout =
      Fields.find foldName (Fields.setAll foldName [] (httpHead call url ++ httpFields call contentType))
        HttpField.timeout := by
    have hlength : foldName HttpField.timeout ≠ foldName HttpField.contentLength := by decide
    rw [rpcFields, Fields.Edit.find_apply _ (by decide), preparePayload, Fields.applyAll, List.foldl_cons,
      List.foldl_cons, List.foldl_nil, Fields.Edit.find_apply _ (by decide), Fields.Edit.find_apply _ hlength]
  have hcontentType : foldName (ascii "Content-Type") ≠ foldName HttpField.timeout := by decide
  rw [hedits, Fields.find_setAll, httpHead, httpFields, List.reverse_append, List.reverse_cons, List.find?_append,
    List.find?_append, ← List.map_reverse, List.find?_map, timeoutPair]
  simp only [Function.comp_def, hpair]
  cases call.ctx.entries.reverse.find? fun e => foldName e.1 = foldName HttpField.timeout with
  | some e => rfl
  | none =>
    rw [Option.map_none, Option.none_or, List.find?_cons, decide_eq_false hcontentType]
    rfl

theorem find_timeout_receiveFields {target : Bytes} {bodySize : ℕ} {remoteAddr : Bytes} {fields fields' : HttpFields}
    (h : receiveFields target bodySize remoteAddr fields = some fields') :
    Fields.find foldName fields' HttpField.timeout = Fields.find foldName fields HttpField.timeout := by
  unfold receiveFields at h
  split_ifs at h
  rw [← Option.some.inj h, Fields.find_set (by decide)]

/-! ### The numbers -/

theorem bmod_of_small {v : ℤ} (hlow : -2 ^ 63 ≤ v) (hhigh : v < 2 ^ 63) : Int.bmod v (2 ^ 64) = v :=
  Int.bmod_eq_of_le (by norm_num; omega) (by norm_num; omega)

theorem atoi_bounds (digits : Bytes) : -2 ^ 31 ≤ atoi digits ∧ atoi digits < 2 ^ 31 := by
  unfold atoi
  generalize min (decimalValue digits : ℤ) (2 ^ 63 - 1) = v
  have hlow := Int.le_bmod (x := v) (m := 2 ^ 32) (by norm_num)
  have hhigh := Int.bmod_lt (x := v) (m := 2 ^ 32) (by norm_num)
  norm_num at hlow hhigh ⊢
  omega

theorem atoi_of_lt {digits : Bytes} (h : decimalValue digits < 2 ^ 31) : atoi digits = decimalValue digits := by
  rw [atoi, min_eq_left (by omega)]
  exact Int.bmod_eq_of_le (by norm_num) (by norm_num; omega)

/-- The nanoseconds of what `atoi` reads do not overflow. -/
theorem storedTimeout_of_digits {fields : HttpFields} {timeoutStr : Bytes}
    (hfind : Fields.find foldName fields HttpField.timeout = some timeoutStr) (hdigits : isDigitStr timeoutStr = true) :
    handleTimeout fields = atoi timeoutStr ∧ storedTimeout fields = atoi timeoutStr * 10 ^ 9 := by
  have hhandle : handleTimeout fields = atoi timeoutStr := by simp only [handleTimeout, hfind, if_pos hdigits]
  have hbounds := atoi_bounds timeoutStr
  refine ⟨hhandle, ?_⟩
  rw [storedTimeout, hhandle]
  exact bmod_of_small (by omega) (by omega)

/-- All the seconds there are are a second less than none. -/
theorem storedTimeout_of_max {fields : HttpFields} (h : handleTimeout fields = secondsMax) :
    storedTimeout fields = -10 ^ 9 := by
  rw [storedTimeout, h]
  decide

/-! ### Requests -/

theorem keepsTimeout_iff {t : ℤ} (hpos : 0 < t) {n : ℤ} (hn : n = t / 10 ^ 9) :
    KeepsTimeout t (n * 10 ^ 9) ↔ 10 ^ 9 ≤ t := by
  unfold KeepsTimeout
  split_ifs <;> omega

/-- The seconds of a timeout are nanoseconds of less than `2 ^ 63`, so `strtol` holds them; `int` holds those below
`2 ^ 31`, and the others come out by `2 ^ 32` seconds or more short. -/
theorem keepsTimeout_atoi_iff {t : ℤ} (hpos : 0 < t) (hfits : t < 2 ^ 63) {digits : Bytes}
    (hdigits : (decimalValue digits : ℤ) = t / 10 ^ 9) :
    KeepsTimeout t (atoi digits * 10 ^ 9) ↔ 10 ^ 9 ≤ t ∧ t < 2 ^ 31 * 10 ^ 9 := by
  by_cases hint : t < 2 ^ 31 * 10 ^ 9
  · rw [atoi_of_lt (by omega), keepsTimeout_iff hpos hdigits]
    exact (and_iff_left hint).symm
  · refine iff_of_false (fun hkeeps => ?_) fun h => hint h.2
    have hbounds := atoi_bounds digits
    unfold KeepsTimeout at hkeeps
    rw [if_neg (by omega)] at hkeeps
    omega

/-- The timeout of a call that arrives. -/
theorem keepsTimeout_storedTimeout_iff (call : UrlCall) (url : Url) (type target remoteAddr : Bytes) (bodySize : ℕ)
    (hpos : 0 < call.timeout) (hfits : call.timeout < 2 ^ 63) {fields : HttpFields}
    (harrives : receiveFields target bodySize remoteAddr (rpcFields call url type bodySize) = some fields) :
    KeepsTimeout call.timeout (storedTimeout fields) ↔ TimeoutFits call := by
  have hfind := (find_timeout_receiveFields harrives).trans (find_timeout_rpcFields call url type bodySize)
  unfold TimeoutFits
  cases hpair : timeoutPair call.ctx with
  | none =>
    obtain ⟨n, hn⟩ := Int.eq_ofNat_of_zero_le (Int.ediv_nonneg hpos.le (by norm_num : (0 : ℤ) ≤ 10 ^ 9))
    rw [hpair, Option.getD_none, httpTimeout, if_neg (by omega), hn] at hfind
    rw [(storedTimeout_of_digits hfind (isDigitStr_repr n)).2]
    refine keepsTimeout_atoi_iff hpos hfits ?_
    rw [hn]
    exact congrArg Nat.cast (decimalValue_repr n)
  | some timeoutStr =>
    rw [hpair, Option.getD_some] at hfind
    by_cases hdigits : isDigitStr timeoutStr = true
    · rw [(storedTimeout_of_digits hfind hdigits).2]
      exact (and_iff_right hdigits).symm
    · refine iff_of_false (fun hkeeps => ?_) fun h => hdigits h.1
      have hmax : handleTimeout fields = secondsMax := by simp only [handleTimeout, hfind, if_neg hdigits]
      exact absurd hkeeps.1 (by rw [storedTimeout_of_max hmax]; norm_num)

/-- The timeout of any request whose field is digits, or that has none. -/
theorem nonneg_storedTimeout_iff {fields : HttpFields}
    (hdigits : ∀ timeoutStr ∈ Fields.find foldName fields HttpField.timeout, isDigitStr timeoutStr = true) :
    0 ≤ storedTimeout fields ∧ ¬ Overflows fields ↔
      ∃ timeoutStr ∈ Fields.find foldName fields HttpField.timeout, decimalValue timeoutStr < 2 ^ 31 := by
  cases hfind : Fields.find foldName fields HttpField.timeout with
  | none =>
    have hmax : handleTimeout fields = secondsMax := by simp only [handleTimeout, hfind]
    refine iff_of_false (fun h => absurd h.1 (by rw [storedTimeout_of_max hmax]; norm_num)) ?_
    rintro ⟨timeoutStr, htimeout, -⟩
    exact absurd htimeout (by simp)
  | some timeoutStr =>
    have hstr := hdigits timeoutStr hfind
    obtain ⟨hhandle, hstored⟩ := storedTimeout_of_digits hfind hstr
    have hbounds := atoi_bounds timeoutStr
    constructor
    · rintro ⟨-, hnot⟩
      refine ⟨timeoutStr, rfl, not_le.1 fun hlarge => hnot (.inl ⟨timeoutStr, hfind, hstr, hlarge⟩)⟩
    · rintro ⟨timeoutStr', htimeout, hlt⟩
      obtain rfl := Option.some.inj htimeout
      rw [hstored, atoi_of_lt hlt]
      refine ⟨by positivity, ?_⟩
      rintro (⟨timeoutStr', htimeout', -, hlarge⟩ | hrange)
      · obtain rfl := Option.some.inj (hfind.symm.trans htimeout')
        omega
      · rw [hhandle] at hrange
        exact hrange ⟨by omega, by omega⟩

/-- **A timeout is kept if and only if it is a second or more and `int` holds its seconds**, or the meta pair that
replaces it does as well.  **A request with digits or without the field has a timeout that is not negative, and no
overflow, if and only if it has the field with a number that `int` holds.** -/
theorem http_timeout_iff (call : UrlCall) (url : Url) (type target remoteAddr : Bytes) (bodySize : ℕ)
    (fields request : HttpFields) :
    (0 < call.timeout → call.timeout < 2 ^ 63 →
      receiveFields target bodySize remoteAddr (rpcFields call url type bodySize) = some fields →
      (KeepsTimeout call.timeout (storedTimeout fields) ↔ TimeoutFits call)) ∧
    ((∀ timeoutStr ∈ Fields.find foldName request HttpField.timeout, isDigitStr timeoutStr = true) →
      (0 ≤ storedTimeout request ∧ ¬ Overflows request ↔
        ∃ timeoutStr ∈ Fields.find foldName request HttpField.timeout, decimalValue timeoutStr < 2 ^ 31)) :=
  ⟨fun hpos hfits harrives =>
    keepsTimeout_storedTimeout_iff call url type target remoteAddr bodySize hpos hfits harrives,
    nonneg_storedTimeout_iff⟩

/-- The fields of a request for `f` that arrives, with this `Timeout`. -/
def requestFields (timeoutStr : String) : HttpFields :=
  [(ascii "Host", ascii "h"), (ascii "User-Agent", ascii "aimrt"), (ascii "Timeout", ascii timeoutStr),
    (ascii "Content-Type", ascii "application/json"), (ascii "Content-Length", ascii "3"),
    (ascii "Remote-Endpoint", ascii "c")]

def callFor (timeout : ℤ) : UrlCall := ⟨ascii "pb:/f", ∅, timeout⟩

def host80 : Url := ⟨ascii "h", ascii "80", []⟩

/-- Two and a half seconds, and a field of seven. -/
theorem http_timeout_iff_seconds :
    KeepsTimeout 2500000000 (storedTimeout (requestFields "2")) ∧
      0 ≤ storedTimeout (requestFields "7") ∧ ¬ Overflows (requestFields "7") :=
  have htimeout := http_timeout_iff (callFor 2500000000) host80 (ascii "application/json") (ascii "/rpc/f")
    (ascii "c") 3 (requestFields "2") (requestFields "7")
  ⟨(htimeout.1 (by decide) (by decide) (by decide)).2 ⟨by decide, by decide⟩,
    (htimeout.2 (by decide)).2 ⟨ascii "7", by decide, by decide⟩⟩

/-- Half a second is stored as none, and a request without the field gets a negative timeout. -/
theorem http_timeout_lost :
    receiveFields (ascii "/rpc/f") 3 (ascii "c")
        (rpcFields (callFor 500000000) host80 (ascii "application/json") 3) = some (requestFields "0") ∧
      storedTimeout (requestFields "0") = 0 ∧ ¬ KeepsTimeout 500000000 (storedTimeout (requestFields "0")) ∧
      storedTimeout [] = -10 ^ 9 ∧ Overflows [] := by
  have hstored : storedTimeout (requestFields "0") = 0 := by decide
  refine ⟨by decide, hstored, fun h => absurd h.1 (by rw [hstored]; decide), by decide, .inr ?_⟩
  rintro ⟨-, h⟩
  exact absurd h (by decide)

end AimRT.Net
