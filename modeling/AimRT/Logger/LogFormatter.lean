import AimRT.Lib.StringView
import AimRT.Logger.RotatedFileName
import AimRT.Util.Context

/-!
# Patterns of log lines

`LogFormatter` makes a log line from a pattern: `SetPattern` turns the pattern into handlers, one for each field and one
for each text between fields, and `Format` calls them one after the other.

The loop of `SetPattern` puts a text in front of a field only if the character in front of the `%` is no `%` itself.  No
text is lost by that: a `%` with a character behind it always begins a field, so that a text never ends with one, unless
it is the last character of the pattern.
-/

namespace AimRT.Logger

open Lib Lib.StringView Util

/-! ### Log data -/

/-- `aimrt_log_level_t`. -/
inductive LogLevel where
  | trace
  | debug
  | info
  | warn
  | error
  | fatal
  | off
  deriving DecidableEq, Repr

/-- `GetLogLevelName`. -/
def getLogLevelName : LogLevel → Bytes
  | .trace => ascii "Trace"
  | .debug => ascii "Debug"
  | .info => ascii "Info"
  | .warn => ascii "Warn"
  | .error => ascii "Error"
  | .fatal => ascii "Fatal"
  | .off => ascii "Off"

/-- `t` is in nanoseconds; the two names are C strings without their zero, and `logData` has `log_data_size` bytes. -/
structure LogDataWrapper where
  moduleName : Bytes
  threadId : UInt64
  t : Int64
  lvl : LogLevel
  line : UInt32
  fileName : Bytes
  functionName : Bytes
  logData : Bytes
  deriving DecidableEq, Repr

/-! ### Times -/

/-- `struct tm`, as `localtime_r` fills it. -/
structure LocalTm where
  tmYear : Int32
  tmMon : Int32
  tmMday : Int32
  tmHour : Int32
  tmMin : Int32
  tmSec : Int32
  tmWday : Fin 7
  deriving DecidableEq, Repr

/-- `std::chrono::system_clock::to_time_t`. -/
def toTimeT (t : Int64) : Int64 := t / 1000000000

/-- `GetTimestampUs`. -/
def getTimestampUs (t : Int64) : UInt64 := (t / 1000).toUInt64

/-- `%0nu` of a number below `10 ^ n`. -/
def zeroPadded (n k : ℕ) : Bytes := (padded n k).map fun c => UInt8.ofNat c.toNat

def getYearStr (tm : LocalTm) : Bytes := zeroPadded 4 ((tm.tmYear + 1900).toUInt32.toNat % 10000)

def getMonthStr (tm : LocalTm) : Bytes := zeroPadded 2 ((tm.tmMon + 1).toUInt32.toNat % 100)

def getDayStr (tm : LocalTm) : Bytes := zeroPadded 2 (tm.tmMday.toUInt32.toNat % 100)

def getHourStr (tm : LocalTm) : Bytes := zeroPadded 2 (tm.tmHour.toUInt32.toNat % 100)

def getMinuteStr (tm : LocalTm) : Bytes := zeroPadded 2 (tm.tmMin.toUInt32.toNat % 100)

def getSecondStr (tm : LocalTm) : Bytes := zeroPadded 2 (tm.tmSec.toUInt32.toNat % 100)

/-- `%04d-%02d-%02d`. -/
def getDateStr (tm : LocalTm) : Bytes := getYearStr tm ++ ascii "-" ++ getMonthStr tm ++ ascii "-" ++ getDayStr tm

/-- `%02d:%02d:%02d`. -/
def getClockStr (tm : LocalTm) : Bytes :=
  getHourStr tm ++ ascii ":" ++ getMinuteStr tm ++ ascii ":" ++ getSecondStr tm

/-- `%04d-%02d-%02d %02d:%02d:%02d`. -/
def getTimeStr (tm : LocalTm) : Bytes := getDateStr tm ++ ascii " " ++ getClockStr tm

def getWeekDayStr (tm : LocalTm) : Bytes :=
  match tm.tmWday with
  | 0 => ascii "Sunday"
  | 1 => ascii "Monday"
  | 2 => ascii "Tuesday"
  | 3 => ascii "Wednesday"
  | 4 => ascii "Thursday"
  | 5 => ascii "Friday"
  | 6 => ascii "Saturday"

def getWeekDayStrShort (tm : LocalTm) : Bytes :=
  match tm.tmWday with
  | 0 => ascii "Sun"
  | 1 => ascii "Mon"
  | 2 => ascii "Tue"
  | 3 => ascii "Wed"
  | 4 => ascii "Thu"
  | 5 => ascii "Fri"
  | 6 => ascii "Sat"

/-! ### Handlers -/

abbrev FormatHandler := LogDataWrapper → Bytes → Bytes

section Handlers

variable (localtime : Int64 → LocalTm)

def formatTime : FormatHandler := fun data buffer => buffer ++ getTimeStr (localtime (toTimeT data.t))

def formatMicroseconds : FormatHandler := fun data buffer =>
  buffer ++ zeroPadded 6 ((getTimestampUs data.t).toNat % 1000000)

def formatYear : FormatHandler := fun data buffer => buffer ++ getYearStr (localtime (toTimeT data.t))

def formatMonth : FormatHandler := fun data buffer => buffer ++ getMonthStr (localtime (toTimeT data.t))

def formatDay : FormatHandler := fun data buffer => buffer ++ getDayStr (localtime (toTimeT data.t))

def formatHour : FormatHandler := fun data buffer => buffer ++ getHourStr (localtime (toTimeT data.t))

def formatMinute : FormatHandler := fun data buffer => buffer ++ getMinuteStr (localtime (toTimeT data.t))

def formatSecond : FormatHandler := fun data buffer => buffer ++ getSecondStr (localtime (toTimeT data.t))

def formatDate : FormatHandler := fun data buffer => buffer ++ getDateStr (localtime (toTimeT data.t))

def formatClock : FormatHandler := fun data buffer => buffer ++ getClockStr (localtime (toTimeT data.t))

def formatWeekday : FormatHandler := fun data buffer => buffer ++ getWeekDayStr (localtime (toTimeT data.t))

def formatWeekdayShort : FormatHandler := fun data buffer => buffer ++ getWeekDayStrShort (localtime (toTimeT data.t))

def formatLevel : FormatHandler := fun data buffer => buffer ++ getLogLevelName data.lvl

def formatMessage : FormatHandler := fun data buffer => buffer ++ data.logData

def formatThreadId : FormatHandler := fun data buffer => buffer ++ ascii data.threadId.toNat.repr

def formatModule : FormatHandler := fun data buffer => buffer ++ data.moduleName

def formatFile : FormatHandler := fun data buffer => buffer ++ data.fileName

/-- What is behind the last slash: `rv + 1`, or all of it. -/
def formatFileShort : FormatHandler := fun data buffer => buffer ++ data.fileName.rtakeWhile (· != 47)

def formatLine : FormatHandler := fun data buffer => buffer ++ ascii data.line.toNat.repr

def formatFunction : FormatHandler := fun data buffer => buffer ++ data.functionName

/-- The handler of a text between fields. -/
def appendText (text : Bytes) : FormatHandler := fun _ buffer => buffer ++ text

/-- The handler of a character that is no field. -/
def pushBack (c : UInt8) : FormatHandler := fun _ buffer => buffer ++ [c]

/-- The `switch` of `SetPattern`: a handler, and what it adds to the estimated size. -/
def formatSpecifier (c : UInt8) : UInt64 × FormatHandler :=
  match Char.ofNat c.toNat with
  | 'c' => (19, formatTime localtime)
  | 'Y' => (4, formatYear localtime)
  | 'm' => (2, formatMonth localtime)
  | 'd' => (2, formatDay localtime)
  | 'H' => (2, formatHour localtime)
  | 'M' => (2, formatMinute localtime)
  | 'S' => (2, formatSecond localtime)
  | 'D' => (10, formatDate localtime)
  | 'T' => (8, formatClock localtime)
  | 'f' => (6, formatMicroseconds)
  | 'A' => (9, formatWeekday localtime)
  | 'a' => (3, formatWeekdayShort localtime)
  | 'l' => (5, formatLevel)
  | 't' => (10, formatThreadId)
  | 'n' => (32, formatModule)
  | 'G' => (32, formatFileShort)
  | 'g' => (256, formatFile)
  | 'R' => (8, formatLine)
  | 'F' => (32, formatFunction)
  | 'v' => (0, formatMessage)
  | _ => (0, pushBack c)

end Handlers

/-! ### The formatter -/

/-- `estimated_size_` is only what `Format` reserves. -/
structure LogFormatter where
  formatHandlers : List FormatHandler
  estimatedSize : UInt64

namespace LogFormatter

def new : LogFormatter := ⟨[], 0⟩

def emplaceBack (f : LogFormatter) (size : UInt64) (handler : FormatHandler) : LogFormatter where
  formatHandlers := f.formatHandlers ++ [handler]
  estimatedSize := f.estimatedSize + size

def addText (f : LogFormatter) (text : Bytes) : LogFormatter :=
  f.emplaceBack (UInt64.ofNat text.length) (appendText text)

def format (f : LogFormatter) (logDataWrapper : LogDataWrapper) : Bytes :=
  f.formatHandlers.foldl (fun buffer handler => handler logDataWrapper buffer) []

variable (localtime : Int64 → LocalTm)

def addField (f : LogFormatter) (c : UInt8) : LogFormatter :=
  f.emplaceBack (formatSpecifier localtime c).1 (formatSpecifier localtime c).2

/-- The loop of `SetPattern`, with `pos` and `last_text_pos`. -/
def patternLoop (pattern : Bytes) (pos lastTextPos : ℕ) (f : LogFormatter) : LogFormatter × ℕ :=
  if h : pos < pattern.length then
    if hfield : pattern[pos] = 37 ∧ pos + 1 < pattern.length then
      let text := between pattern lastTextPos pos
      let f := if 0 < pos ∧ pattern[pos - 1] ≠ 37 ∧ text ≠ [] then f.addText text else f
      patternLoop pattern (pos + 2) (pos + 2) (f.addField localtime pattern[pos + 1])
    else patternLoop pattern (pos + 1) lastTextPos f
  else (f, lastTextPos)
termination_by pattern.length - pos

/-- The exception of `SetPattern` leaves the formatter as it is. -/
def setPattern (pattern : Bytes) (f : LogFormatter) : Except String LogFormatter :=
  if pattern = [] then throw "Invalid argument: Logger's pattern cannot be empty"
  else
    let (f, lastTextPos) := patternLoop localtime pattern 0 0 { f with formatHandlers := [] }
    if lastTextPos < pattern.length then pure (f.addText (pattern.drop lastTextPos)) else pure f

/-- The formatter after a call of `SetPattern`. -/
def afterPattern (f : LogFormatter) (pattern : Bytes) : LogFormatter := (setPattern localtime pattern f).toOption.getD f

end LogFormatter

/-! ### What a pattern says -/

section Reading

variable (localtime : Int64 → LocalTm) (data : LogDataWrapper)

/-- The field of a character, and the character itself if it is none. -/
def field (c : UInt8) : Bytes :=
  match Char.ofNat c.toNat with
  | 'c' => getTimeStr (localtime (toTimeT data.t))
  | 'Y' => getYearStr (localtime (toTimeT data.t))
  | 'm' => getMonthStr (localtime (toTimeT data.t))
  | 'd' => getDayStr (localtime (toTimeT data.t))
  | 'H' => getHourStr (localtime (toTimeT data.t))
  | 'M' => getMinuteStr (localtime (toTimeT data.t))
  | 'S' => getSecondStr (localtime (toTimeT data.t))
  | 'D' => getDateStr (localtime (toTimeT data.t))
  | 'T' => getClockStr (localtime (toTimeT data.t))
  | 'f' => zeroPadded 6 ((getTimestampUs data.t).toNat % 1000000)
  | 'A' => getWeekDayStr (localtime (toTimeT data.t))
  | 'a' => getWeekDayStrShort (localtime (toTimeT data.t))
  | 'l' => getLogLevelName data.lvl
  | 't' => ascii data.threadId.toNat.repr
  | 'n' => data.moduleName
  | 'G' => data.fileName.rtakeWhile (· != 47)
  | 'g' => data.fileName
  | 'R' => ascii data.line.toNat.repr
  | 'F' => data.functionName
  | 'v' => data.logData
  | _ => [c]

/-- A pattern read from the left: a `%` and the character behind it are a field, every other character is copied. -/
def reading (field : UInt8 → Bytes) : Bytes → Bytes
  | [] => []
  | [x] => [x]
  | x :: c :: rest => if x = 37 then field c ++ reading field rest else x :: reading field (c :: rest)

theorem formatSpecifier_eq (c : UInt8) (buffer : Bytes) :
    (formatSpecifier localtime c).2 data buffer = buffer ++ field localtime data c := by
  unfold formatSpecifier field
  split <;> rfl

end Reading

variable {toField : UInt8 → Bytes} {pattern : Bytes} {pos lastTextPos : ℕ}

theorem reading_field (h : pos + 1 < pattern.length) (hpercent : pattern[pos] = 37) :
    reading toField (pattern.drop pos) = toField pattern[pos + 1] ++ reading toField (pattern.drop (pos + 2)) := by
  rw [List.drop_eq_getElem_cons (by omega), List.drop_eq_getElem_cons h, reading, if_pos hpercent]

theorem reading_copy (h : pos < pattern.length) (hcopy : ¬(pattern[pos] = 37 ∧ pos + 1 < pattern.length)) :
    reading toField (pattern.drop pos) = pattern[pos] :: reading toField (pattern.drop (pos + 1)) := by
  rw [List.drop_eq_getElem_cons h]
  rcases Nat.lt_or_ge (pos + 1) pattern.length with hlt | hge
  · rw [List.drop_eq_getElem_cons hlt, reading, if_neg fun hpercent => hcopy ⟨hpercent, hlt⟩]
  · rw [List.drop_eq_nil_of_le hge]
    rfl

namespace LogFormatter

variable (localtime : Int64 → LocalTm) (data : LogDataWrapper) (f : LogFormatter)

theorem format_emplaceBack (size : UInt64) (handler : FormatHandler) :
    (f.emplaceBack size handler).format data = handler data (f.format data) := by
  simp [emplaceBack, format]

@[simp] theorem format_addText (text : Bytes) : (f.addText text).format data = f.format data ++ text := by
  rw [addText, format_emplaceBack, appendText]

@[simp] theorem format_addField (c : UInt8) :
    (f.addField localtime c).format data = f.format data ++ field localtime data c := by
  rw [addField, format_emplaceBack, formatSpecifier_eq]

/-- The text in front of a field is added, or there is none: in front of the `%` there is no other one. -/
theorem format_flush (hle : lastTextPos ≤ pos) (h : pos < pattern.length)
    (hlast : lastTextPos < pos → pattern[pos - 1] ≠ 37) :
    (if 0 < pos ∧ pattern[pos - 1] ≠ 37 ∧ between pattern lastTextPos pos ≠ [] then
      f.addText (between pattern lastTextPos pos) else f).format data =
      f.format data ++ between pattern lastTextPos pos := by
  split_ifs with hflush
  · exact format_addText data f _
  · rcases Nat.eq_or_lt_of_le hle with rfl | hlt
    · rw [between_self, List.append_nil]
    · have hlen := length_between hle (Nat.le_of_lt h)
      have hne : between pattern lastTextPos pos ≠ [] := by
        intro hnil
        rw [hnil, List.length_nil] at hlen
        omega
      exact absurd ⟨by omega, hlast hlt, hne⟩ hflush

/-- **The loop**: what it has added, with the text that is not added yet and the reading of the rest, stays the same.
In front of the position there is a `%` only behind a field, or at the end. -/
theorem format_patternLoop (hle : lastTextPos ≤ pos) (hpos : pos ≤ pattern.length)
    (hlast : ∀ h : pos < pattern.length, lastTextPos < pos → pattern[pos - 1] ≠ 37) :
    (patternLoop localtime pattern pos lastTextPos f).1.format data ++
        pattern.drop (patternLoop localtime pattern pos lastTextPos f).2 =
      f.format data ++ between pattern lastTextPos pos ++ reading (field localtime data) (pattern.drop pos) := by
  fun_induction patternLoop localtime pattern pos lastTextPos f with
  | case1 pos lastTextPos f h hfield text f' ih =>
    have hflush : f'.format data = f.format data ++ text := format_flush data f hle h (hlast h)
    rw [ih le_rfl hfield.2 (fun _ hlt => absurd hlt (by omega)), format_addField, hflush, between_self,
      reading_field hfield.2 hfield.1, List.append_nil, List.append_assoc, List.append_assoc]
  | case2 pos lastTextPos f h hcopy ih =>
    have hnext : between pattern lastTextPos (pos + 1) = between pattern lastTextPos pos ++ [pattern[pos]] := by
      rw [between_append hle (Nat.le_add_right pos 1), between_of_le (Nat.le_add_right pos 1),
        Nat.add_sub_cancel_left, List.drop_eq_getElem_cons h]
      rfl
    rw [ih (by omega) h (fun hlt _ hpercent => hcopy ⟨hpercent, hlt⟩), reading_copy h hcopy, hnext]
    simp only [List.append_assoc, List.singleton_append]
  | case3 pos lastTextPos f h =>
    obtain rfl : pos = pattern.length := by omega
    rw [between_length, List.drop_length, reading, List.append_nil]

/-- An empty pattern is refused, and any other one is taken. -/
theorem setPattern_of_ne_nil (h : pattern ≠ []) : ∃ f', setPattern localtime pattern f = .ok f' ∧
    f'.format data = reading (field localtime data) pattern := by
  have hloop := format_patternLoop localtime data { f with formatHandlers := [] } le_rfl (Nat.zero_le pattern.length)
    (fun _ hlt => absurd hlt (by omega))
  rw [setPattern, if_neg h]
  generalize patternLoop localtime pattern 0 0 { f with formatHandlers := [] } = result at hloop ⊢
  obtain ⟨f', lastTextPos⟩ := result
  rw [between_self, List.drop_zero] at hloop
  change f'.format data ++ pattern.drop lastTextPos = reading (field localtime data) pattern at hloop
  dsimp only
  split_ifs with hlast
  · exact ⟨_, rfl, by rw [format_addText, hloop]⟩
  · rw [List.drop_eq_nil_of_le (by omega), List.append_nil] at hloop
    exact ⟨_, rfl, hloop⟩

/-- **Format after SetPattern**: whatever was set before, a pattern that is not empty is taken, and every log becomes
what the pattern says from left to right. -/
theorem format_setPattern (patterns : List Bytes) (h : pattern ≠ []) (logDataWrapper : LogDataWrapper) :
    ∃ f, setPattern localtime pattern (patterns.foldl (afterPattern localtime) new) = .ok f ∧
      f.format logDataWrapper = reading (field localtime logDataWrapper) pattern :=
  setPattern_of_ne_nil localtime logDataWrapper _ h

def testTime : LocalTm := ⟨124, 9, 1, 10, 10, 10, 2⟩

def testLog : LogDataWrapper where
  moduleName := ascii "test_module"
  threadId := 1234
  t := 1727777410012345000
  lvl := .info
  line := 20
  fileName := ascii "XX/YY/ZZ/test_file.cpp"
  functionName := ascii "test_function"
  logData := ascii "test log message"

theorem format_setPattern_percents :
    ∃ f, setPattern (fun _ => testTime) (ascii "%%123456%%%q!%[%l]%v%%%")
        ([ascii "%c", []].foldl (afterPattern fun _ => testTime) new) = .ok f ∧
      f.format testLog = ascii "%123456%q![Info]test log message%%" := by
  have hpattern : ascii "%%123456%%%q!%[%l]%v%%%" ≠ [] := by decide
  obtain ⟨f, hset, hformat⟩ := format_setPattern (fun _ => testTime) [ascii "%c", []] hpattern testLog
  refine ⟨f, hset, hformat.trans ?_⟩
  decide

example : reading (field (fun _ => testTime) testLog) (ascii "[%c.%f][%l][%t][%n][%G:%R @%F]%v") = ascii
    "[2024-10-01 10:10:10.012345][Info][1234][test_module][test_file.cpp:20 @test_function]test log message" := by
  decide

end LogFormatter

end AimRT.Logger
