import AimRT.Logger.CleanLogFile

/-!
# When a log file is rotated

`Log` and `OpenNewFile` compare the position of the stream with `max_file_size_m * 1024 * 1024` in two places for each
mode: with `enable_sync` the stream is a `FILE` that is put to its end before the second comparison, without it an
`ofstream`.  Behind a line the position is the size of the file in both modes, so all four comparisons agree, and the
files are those of `RotateFileLoggerBackend.step` (`backend_step`).

The product is one of 32 bits, and a file that is found when the stream is opened is not compared with it.
-/

namespace AimRT.Logger

open Lib.Run RotateFileLoggerBackend

/-- The backend with the position of `file_`, with `enable_sync`, or of `ofs_`. -/
structure LogStream (L : Type) where
  backend : RotateFileLoggerBackend L
  enableSync : Bool
  pos : ℤ

namespace LogStream

variable {L : Type}

/-- The position, a signed number, is compared with the unsigned product. -/
def exceeds (s : LogStream L) : Bool := ((maxFileSize s.backend).toNat : ℤ) < s.pos

def close (s : LogStream L) : LogStream L := { s with backend := { s.backend with isOpen := false } }

section

variable (size : L → ℕ) (o : Outside) (opened : ℤ)

/-- `fseek` to the end of the file. -/
def seekEnd (s : LogStream L) : LogStream L := { s with pos := tellp size s.backend }

/-- The first part of `OpenNewFile`: `rename_flag`, and the stream that is closed. -/
def closeStream (s : LogStream L) : Bool × LogStream L :=
  if !s.enableSync then if s.backend.isOpen then (s.exceeds, s.close) else (false, s)
  else if s.backend.isOpen then ((s.seekEnd size).exceeds, (s.seekEnd size).close) else (false, s)

/-- `OpenNewFile`; a stream that was just opened to append is at `opened`. -/
def openNewFile (s : LogStream L) : Bool × LogStream L :=
  let renameFlag := (closeStream size s).1
  let closed := (closeStream size s).2
  let renamed :=
    if renameFlag && (closed.backend.directory.lookup closed.backend.baseName).isSome then rename o closed.backend
    else closed.backend
  if o.opens then
    (true, { closed with
      backend := cleanLogFile o
        { renamed with isOpen := true, directory := appendable renamed.directory renamed.baseName }
      pos := opened })
  else (false, { closed with backend := renamed })

/-- The line and its end are written and flushed. -/
def writeLine (line : L) (s : LogStream L) : LogStream L :=
  seekEnd size { s with backend := RotateFileLoggerBackend.writeLine line s.backend }

/-- The work of `Log` on the log executor. -/
def logWork (line : L) (s : LogStream L) : LogStream L :=
  if !s.backend.isOpen || s.exceeds then
    if (openNewFile size o opened s).1 then writeLine size line (openNewFile size o opened s).2
    else (openNewFile size o opened s).2
  else writeLine size line s

end

/-- One more line is logged. -/
def step (size : L → ℕ) (s : LogStream L) (op : L × Outside × ℤ) : LogStream L :=
  let s' := logWork size op.2.1 op.2.2 op.1 s
  { s' with backend := { s'.backend with logged := s.backend.logged ++ [op.1] } }

/-! ### Both modes -/

variable {size : L → ℕ} {s : LogStream L} {o : Outside} {opened : ℤ} {line : L}

/-- The position of a stream that is open is the size of its file. -/
def AtEnd (size : L → ℕ) (s : LogStream L) : Prop := s.backend.isOpen = true → s.pos = tellp size s.backend

theorem AtEnd.exceeds_eq (h : s.AtEnd size) (hopen : s.backend.isOpen = true) : s.exceeds = isFull size s.backend := by
  rw [exceeds, isFull, h hopen, decide_eq_decide, Nat.cast_lt]

theorem isOpen_eq_self {b : RotateFileLoggerBackend L} (h : b.isOpen = false) : { b with isOpen := false } = b := by
  obtain ⟨options, compressionMode, baseFileName, isOpen, directory, logged, written, rotated, replaced⟩ := b
  obtain rfl : isOpen = false := h
  rfl

/-- In both modes the flag says whether the file is too large. -/
theorem AtEnd.closeStream_eq (h : s.AtEnd size) : (closeStream size s).1 = (s.backend.isOpen && isFull size s.backend) ∧
    (closeStream size s).2.backend = { s.backend with isOpen := false } := by
  have hend : (s.seekEnd size).AtEnd size := fun _ => rfl
  cases hopen : s.backend.isOpen with
  | false =>
    have hclose : closeStream size s = (false, s) := by simp [closeStream, hopen]
    rw [hclose, isOpen_eq_self hopen]
    exact ⟨rfl, rfl⟩
  | true =>
    cases hmode : s.enableSync with
    | false =>
      have hclose : closeStream size s = (s.exceeds, s.close) := by simp [closeStream, hopen, hmode]
      rw [hclose]
      exact ⟨h.exceeds_eq hopen, rfl⟩
    | true =>
      have hclose : closeStream size s = ((s.seekEnd size).exceeds, (s.seekEnd size).close) := by
        simp [closeStream, hopen, hmode]
      rw [hclose]
      exact ⟨hend.exceeds_eq hopen, rfl⟩

theorem AtEnd.openNewFile_eq (h : s.AtEnd size) (o : Outside) (opened : ℤ) :
    (openNewFile size o opened s).1 = (RotateFileLoggerBackend.openNewFile size o s.backend).1 ∧
      (openNewFile size o opened s).2.backend = (RotateFileLoggerBackend.openNewFile size o s.backend).2 := by
  obtain ⟨hflag, hclosed⟩ := h.closeStream_eq
  unfold openNewFile RotateFileLoggerBackend.openNewFile
  dsimp only
  rw [hflag, hclosed]
  cases o.opens <;> exact ⟨rfl, rfl⟩

theorem AtEnd.test_eq (h : s.AtEnd size) :
    (!s.backend.isOpen || s.exceeds) = (!s.backend.isOpen || isFull size s.backend) := by
  cases hopen : s.backend.isOpen with
  | false => rfl
  | true => rw [h.exceeds_eq hopen]

theorem AtEnd.backend_logWork (h : s.AtEnd size) (o : Outside) (opened : ℤ) (line : L) :
    (logWork size o opened line s).backend = RotateFileLoggerBackend.logWork size o line s.backend := by
  obtain ⟨hok, hopened⟩ := h.openNewFile_eq o opened
  unfold logWork RotateFileLoggerBackend.logWork
  rw [h.test_eq, hok]
  split_ifs
  · exact congrArg (RotateFileLoggerBackend.writeLine line) hopened
  · exact hopened
  · rfl

/-- A step does to the files what the backend does without a position. -/
theorem AtEnd.backend_step (h : s.AtEnd size) (op : L × Outside × ℤ) :
    (s.step size op).backend = RotateFileLoggerBackend.step size s.backend (op.1, op.2.1) := by
  unfold step RotateFileLoggerBackend.step
  dsimp only
  rw [h.backend_logWork]

/-! ### What a step does to the base file -/

section

variable {b : RotateFileLoggerBackend L}

/-- What a rotation leaves of a backend besides the files that it makes. -/
structure Rotates (b b' : RotateFileLoggerBackend L) : Prop where
  base : b'.directory.lookup b.baseName = none
  rotated : b.rotated.length < b'.rotated.length
  baseFileName : b'.baseFileName = b.baseFileName
  options : b'.options = b.options
  written : b'.written = b.written
  isOpen : b'.isOpen = b.isOpen

theorem Rotates.compressFile {b' : RotateFileLoggerBackend L} (h : Rotates b b') {src : Text}
    (hsrc : b.baseName ≠ src) (hdst : b.baseName ≠ src ++ getCompressedFileExtension b'.compressionMode) :
    Rotates b (compressFile o src b') := by
  have hlength : b.rotated.length < (b'.rotated.dropLast ++
      [src ++ getCompressedFileExtension b'.compressionMode]).length := by
    have hlt := h.rotated
    rw [List.length_append, List.length_dropLast, List.length_singleton]
    omega
  unfold RotateFileLoggerBackend.compressFile
  dsimp only
  split
  next file hlookup =>
    split_ifs
    · refine ⟨?_, hlength, h.baseFileName, h.options, h.written, h.isOpen⟩
      exact (AList.lookup_erase_ne hsrc).trans ((AList.lookup_insert_ne hdst).trans h.base)
    · refine ⟨(AList.lookup_insert_ne hdst).trans h.base, ?_, h.baseFileName, h.options, h.written, h.isOpen⟩
      exact h.rotated.trans_le (by simp)
  next =>
    exact ⟨(AList.lookup_erase_ne hdst).trans h.base, h.rotated, h.baseFileName, h.options, h.written, h.isOpen⟩

/-- A base file that is there is gone after a rotation, and there is a rotated file more. -/
theorem rotates_rename {file : LogFile L} (hbase : b.directory.lookup b.baseName = some file) :
    Rotates b (rename o b) := by
  have hrenamed : Rotates b { b with
      directory := (b.directory.erase b.baseName).insert (rotatedName o b) file
      rotated := b.rotated ++ [rotatedName o b]
      replaced := b.replaced || (b.directory.lookup (rotatedName o b)).isSome } := by
    refine ⟨?_, by simp, rfl, rfl, rfl, rfl⟩
    exact (AList.lookup_insert_ne baseName_ne_rotatedName).trans (AList.lookup_erase _ _)
  unfold RotateFileLoggerBackend.rename
  rw [hbase]
  dsimp only
  split_ifs
  · exact hrenamed
  · exact hrenamed.compressFile baseName_ne_rotatedName baseName_ne_compressedName

theorem lookup_appendable (directory : Directory L) (name : Text) :
    (appendable directory name).lookup name = some ((directory.lookup name).getD { lines := [] }) := by
  unfold appendable
  cases hlookup : directory.lookup name with
  | none => exact AList.lookup_insert _
  | some file => exact hlookup

/-- What `OpenNewFile` leaves: a base file with the given lines, if it can be opened. -/
structure Opens (o : Outside) (b : RotateFileLoggerBackend L) (lines : List L) (b' : RotateFileLoggerBackend L) :
    Prop where
  isOpen : b'.isOpen = o.opens
  base : o.opens = true → (b'.directory.lookup b.baseName).map LogFile.lines = some lines
  baseFileName : b'.baseFileName = b.baseFileName
  options : b'.options = b.options
  written : b'.written = b.written

/-- The base file is opened behind what there is under its name. -/
theorem opens_appendable {b' : RotateFileLoggerBackend L} (hname : b'.baseFileName = b.baseFileName)
    (hoptions : b'.options = b.options) (hwritten : b'.written = b.written) (hclosed : b'.isOpen = false) :
    Opens o b (linesOf b'.directory b.baseName) (if o.opens then cleanLogFile o
      { b' with isOpen := true, directory := appendable b'.directory b'.baseName } else b') := by
  have hbase : b'.baseName = b.baseName := congrArg fileName hname
  split_ifs with hopens
  · obtain ⟨directory, heq, hlookup⟩ := cleanLogFile_base o
      { b' with isOpen := true, directory := appendable b'.directory b'.baseName }
    rw [heq]
    refine ⟨hopens.symm, fun _ => ?_, hname, hoptions, hwritten⟩
    have happended : directory.lookup b'.baseName = (appendable b'.directory b'.baseName).lookup b'.baseName :=
      hlookup
    have hlines : (directory.lookup b'.baseName).map LogFile.lines = some (linesOf b'.directory b'.baseName) := by
      rw [happended, lookup_appendable, linesOf]
      cases b'.directory.lookup b'.baseName <;> rfl
    rwa [← hbase]
  · exact ⟨by rw [hclosed, Bool.eq_false_iff.2 hopens], fun h => absurd h hopens, hname, hoptions, hwritten⟩

theorem rotated_cleanLogFile (o : Outside) (b : RotateFileLoggerBackend L) :
    (cleanLogFile o b).rotated = b.rotated := by
  obtain ⟨directory, heq, -⟩ := cleanLogFile_base o b
  rw [heq]

/-- **A base file that is too large** is rotated, and a new one is opened. -/
theorem openNewFile_full (hopen : b.isOpen = true) (hbase : (b.directory.lookup b.baseName).isSome)
    (hfull : isFull size b = true) : Opens o b [] (RotateFileLoggerBackend.openNewFile size o b).2 ∧
      b.rotated.length < (RotateFileLoggerBackend.openNewFile size o b).2.rotated.length := by
  obtain ⟨file, hfile⟩ := Option.isSome_iff_exists.1 hbase
  have hrotates : Rotates { b with isOpen := false } (rename o { b with isOpen := false }) := rotates_rename hfile
  have hopens := opens_appendable (o := o) hrotates.baseFileName hrotates.options hrotates.written hrotates.isOpen
  rw [linesOf_eq_nil hrotates.base] at hopens
  have heq : (RotateFileLoggerBackend.openNewFile size o b).2 = if o.opens then cleanLogFile o
      { rename o { b with isOpen := false } with
        isOpen := true
        directory := appendable (rename o { b with isOpen := false }).directory
          (rename o { b with isOpen := false }).baseName }
      else rename o { b with isOpen := false } := by
    unfold RotateFileLoggerBackend.openNewFile
    dsimp only
    rw [hopen, hfull, hbase]
    cases o.opens <;> rfl
  rw [heq]
  refine ⟨⟨hopens.isOpen, hopens.base, hopens.baseFileName, hopens.options, hopens.written⟩, ?_⟩
  split_ifs
  · rw [rotated_cleanLogFile]
    exact hrotates.rotated
  · exact hrotates.rotated

/-- Otherwise the base file is opened as it is. -/
theorem openNewFile_closed (size : L → ℕ) (o : Outside) (hopen : b.isOpen = false) :
    Opens o b (linesOf b.directory b.baseName) (RotateFileLoggerBackend.openNewFile size o b).2 ∧
      (RotateFileLoggerBackend.openNewFile size o b).2.rotated = b.rotated := by
  have hopens := opens_appendable (o := o) (b := b) rfl rfl rfl hopen
  have heq : (RotateFileLoggerBackend.openNewFile size o b).2 = if o.opens then cleanLogFile o
      { b with isOpen := true, directory := appendable b.directory b.baseName } else b := by
    unfold RotateFileLoggerBackend.openNewFile
    dsimp only
    rw [hopen, isOpen_eq_self hopen]
    cases o.opens <;> rfl
  rw [heq]
  refine ⟨hopens, ?_⟩
  split_ifs
  · exact rotated_cleanLogFile _ _
  · rfl

/-- A line is appended to a base file that is there. -/
theorem writeLine_base {lines : List L} (hbase : (b.directory.lookup b.baseName).map LogFile.lines = some lines)
    (line : L) : ((RotateFileLoggerBackend.writeLine line b).directory.lookup b.baseName).map LogFile.lines =
        some (lines ++ [line]) ∧ (RotateFileLoggerBackend.writeLine line b).written = b.written ++ [line] := by
  obtain ⟨file, hfile, rfl⟩ := Option.map_eq_some_iff.1 hbase
  unfold RotateFileLoggerBackend.writeLine
  rw [hfile]
  dsimp only
  rw [AList.lookup_insert]
  exact ⟨rfl, rfl⟩

theorem writeLine_rest (line : L) (b : RotateFileLoggerBackend L) :
    (RotateFileLoggerBackend.writeLine line b).rotated = b.rotated ∧
      (RotateFileLoggerBackend.writeLine line b).baseFileName = b.baseFileName ∧
      (RotateFileLoggerBackend.writeLine line b).options = b.options ∧
      (RotateFileLoggerBackend.writeLine line b).isOpen = b.isOpen := by
  unfold RotateFileLoggerBackend.writeLine
  split <;> exact ⟨rfl, rfl, rfl, rfl⟩

end

/-! ### What is promised -/

/-- `max_file_size_m` megabytes. -/
def threshold (s : LogStream L) : ℕ := s.backend.options.maxFileSizeM.toNat * 2 ^ 20

/-- **A line rotates at the threshold**: only behind it, and then the line does not go to the file that was there. -/
structure RotatesRight (size : L → ℕ) (s : LogStream L) (op : L × Outside × ℤ) : Prop where
  only : (s.step size op).backend.rotated ≠ s.backend.rotated → s.threshold < tellp size s.backend
  next : s.threshold < tellp size s.backend → (s.step size op).backend.written = s.backend.written ∨
    linesOf (s.step size op).backend.directory (s.step size op).backend.baseName = [op.1]

/-- An open file is above the threshold if it is above what is left of it modulo `2 ^ 32`, and a file that is opened is
not above the threshold. -/
structure Meets (size : L → ℕ) (s : LogStream L) (op : L × Outside × ℤ) : Prop where
  fits : s.backend.isOpen = true →
    s.backend.options.maxFileSizeM.toNat % 4096 * 2 ^ 20 < tellp size s.backend → s.threshold < tellp size s.backend
  found : s.backend.isOpen = false → op.2.1.opens = true → tellp size s.backend ≤ s.threshold

theorem toNat_maxFileSize (b : RotateFileLoggerBackend L) :
    (maxFileSize b).toNat = b.options.maxFileSizeM.toNat % 4096 * 2 ^ 20 := by
  have hkilo : (1024 : UInt32).toNat = 1024 := rfl
  rw [maxFileSize, UInt32.toNat_mul, UInt32.toNat_mul, hkilo]
  omega

/-- The file that is open is there, and the stream is at its end. -/
structure Inv (size : L → ℕ) (s : LogStream L) : Prop where
  atEnd : s.AtEnd size
  base : s.backend.isOpen = true → (s.backend.directory.lookup s.backend.baseName).isSome

/-- What a line leaves when it goes behind some lines: it is written, unless the file could not be opened. -/
structure Appends (opens : Bool) (b : RotateFileLoggerBackend L) (lines : List L) (line : L)
    (b' : RotateFileLoggerBackend L) : Prop where
  isOpen : b'.isOpen = opens
  baseFileName : b'.baseFileName = b.baseFileName
  base : opens = true → (b'.directory.lookup b'.baseName).map LogFile.lines = some (lines ++ [line])
  written : b'.written = if opens then b.written ++ [line] else b.written

theorem Appends.linesOf_eq {opens : Bool} {b b' : RotateFileLoggerBackend L} {lines : List L}
    (h : Appends opens b lines line b') (hopens : opens = true) :
    linesOf b'.directory b'.baseName = lines ++ [line] := by
  rw [linesOf, h.base hopens]
  rfl

/-- The line is written to a file that is there. -/
theorem appends_writeLine {b : RotateFileLoggerBackend L} {lines : List L} (hopen : b.isOpen = true)
    (hbase : (b.directory.lookup b.baseName).map LogFile.lines = some lines) (line : L) :
    Appends true b lines line (RotateFileLoggerBackend.writeLine line b) := by
  obtain ⟨hlines, hwritten⟩ := writeLine_base hbase line
  obtain ⟨-, hname, -, hsame⟩ := writeLine_rest line b
  have hbase' : (RotateFileLoggerBackend.writeLine line b).baseName = b.baseName := congrArg fileName hname
  exact ⟨hsame.trans hopen, hname, fun _ => by rwa [hbase'], hwritten⟩

/-- The line is written to the file that was opened. -/
theorem Opens.appends {b b' : RotateFileLoggerBackend L} {lines : List L} (h : Opens o b lines b') (line : L) :
    Appends o.opens b lines line (if o.opens then RotateFileLoggerBackend.writeLine line b' else b') := by
  have hbase : b'.baseName = b.baseName := congrArg fileName h.baseFileName
  split_ifs with hopens
  · have happends := appends_writeLine (h.isOpen.trans hopens) (by rw [hbase]; exact h.base hopens) line
    rw [hopens]
    refine ⟨happends.isOpen, happends.baseFileName.trans h.baseFileName, happends.base, ?_⟩
    rw [happends.written, h.written]
  · rw [Bool.not_eq_true] at hopens
    rw [hopens]
    exact ⟨h.isOpen.trans hopens, h.baseFileName, nofun, h.written⟩

theorem openNewFile_fst (size : L → ℕ) (o : Outside) (b : RotateFileLoggerBackend L) :
    (RotateFileLoggerBackend.openNewFile size o b).1 = o.opens := by
  unfold RotateFileLoggerBackend.openNewFile
  dsimp only
  cases o.opens <;> rfl

/-- The three ways of a line: to the open file, behind a rotation, or to a file that is opened. -/
theorem logWork_cases (b : RotateFileLoggerBackend L) (hbase : b.isOpen = true → (b.directory.lookup b.baseName).isSome)
    (size : L → ℕ) (o : Outside) (line : L) :
    let b' := RotateFileLoggerBackend.logWork size o line b
    (b.isOpen = true ∧ isFull size b = false ∧ b'.rotated = b.rotated ∧
        Appends true b (linesOf b.directory b.baseName) line b') ∨
      (b.isOpen = true ∧ isFull size b = true ∧ b'.rotated ≠ b.rotated ∧ Appends o.opens b [] line b') ∨
      (b.isOpen = false ∧ b'.rotated = b.rotated ∧ Appends o.opens b (linesOf b.directory b.baseName) line b') := by
  dsimp only
  unfold RotateFileLoggerBackend.logWork
  rw [openNewFile_fst]
  have hrotated_line : ∀ b' : RotateFileLoggerBackend L,
      (if o.opens then RotateFileLoggerBackend.writeLine line b' else b').rotated = b'.rotated := by
    intro b'
    split_ifs
    · exact (writeLine_rest line b').1
    · rfl
  cases hopen : b.isOpen with
  | false =>
    obtain ⟨hopens, hrotated⟩ := openNewFile_closed size o hopen
    rw [Bool.not_false, Bool.true_or, if_pos rfl]
    exact .inr (.inr ⟨rfl, (hrotated_line _).trans hrotated, hopens.appends line⟩)
  | true =>
    cases hfull : isFull size b with
    | false =>
      rw [Bool.not_true, Bool.false_or, if_neg Bool.false_ne_true]
      obtain ⟨file, hfile⟩ := Option.isSome_iff_exists.1 (hbase hopen)
      refine .inl ⟨rfl, rfl, (writeLine_rest line b).1, appends_writeLine hopen ?_ line⟩
      rw [RotateFileLoggerBackend.linesOf_eq hfile, hfile]
      rfl
    | true =>
      rw [Bool.not_true, Bool.false_or, if_pos rfl]
      obtain ⟨hopens, hlonger⟩ := openNewFile_full (o := o) hopen (hbase hopen) hfull
      refine .inr (.inl ⟨rfl, rfl, fun heq => ?_, hopens.appends line⟩)
      rw [hrotated_line] at heq
      exact absurd (congrArg List.length heq) hlonger.ne'

/-- A line leaves the stream at the end of a file that is there. -/
theorem Inv.step (h : Inv size s) (op : L × Outside × ℤ) : Inv size (s.step size op) := by
  obtain ⟨line, o, opened⟩ := op
  have hcases := logWork_cases s.backend h.base size o line
  constructor
  · intro hopen
    change (logWork size o opened line s).backend.isOpen = true at hopen
    change (logWork size o opened line s).pos = tellp size (logWork size o opened line s).backend
    rw [h.atEnd.backend_logWork] at hopen
    unfold logWork
    rw [h.atEnd.test_eq, (h.atEnd.openNewFile_eq o opened).1, openNewFile_fst]
    split_ifs with htest hopens
    · rfl
    · rcases hcases with ⟨hbefore, hfits, -⟩ | ⟨-, -, -, happends⟩ | ⟨-, -, happends⟩
      · rw [hbefore, hfits] at htest
        cases htest
      all_goals exact absurd (happends.isOpen.symm.trans hopen) hopens
    · rfl
  · intro hopen
    rw [h.atEnd.backend_step] at hopen ⊢
    have hsome : ∀ {opens : Bool} {lines : List L}, Appends opens s.backend lines line
        (RotateFileLoggerBackend.logWork size o line s.backend) →
        ((RotateFileLoggerBackend.logWork size o line s.backend).directory.lookup
          (RotateFileLoggerBackend.logWork size o line s.backend).baseName).isSome := by
      intro opens lines happends
      have hlines := happends.base (happends.isOpen.symm.trans hopen)
      rw [← Option.isSome_map, hlines]
      rfl
    rcases hcases with ⟨-, -, -, happends⟩ | ⟨-, -, -, happends⟩ | ⟨-, -, happends⟩ <;> exact hsome happends

theorem isFull_iff (b : RotateFileLoggerBackend L) : isFull size b = true ↔
    b.options.maxFileSizeM.toNat % 4096 * 2 ^ 20 < tellp size b := by
  rw [isFull, decide_eq_true_eq, toNat_maxFileSize]

/-- What is left of the threshold is not above it. -/
theorem left_le_threshold (s : LogStream L) : s.backend.options.maxFileSizeM.toNat % 4096 * 2 ^ 20 ≤ s.threshold :=
  Nat.mul_le_mul_right _ (Nat.mod_le _ _)

/-- A line is left out, or alone in its file, if the file could not be opened or was empty. -/
theorem Appends.next_iff {opens : Bool} {b b' : RotateFileLoggerBackend L} {lines : List L}
    (h : Appends opens b lines line b') :
    (b'.written = b.written ∨ linesOf b'.directory b'.baseName = [line]) ↔ (opens = true → lines = []) := by
  cases opens with
  | false => exact iff_of_true (.inl h.written) nofun
  | true =>
    have hwritten : b'.written ≠ b.written := by
      rw [h.written]
      simp
    rw [or_iff_right hwritten, h.linesOf_eq rfl, List.append_left_eq_self]
    exact ⟨fun hnil _ => hnil, fun hnil => hnil rfl⟩

/-- What is promised is about the files only, and they are what they are without a position. -/
theorem AtEnd.rotatesRight_iff_backend (h : s.AtEnd size) (line : L) (o : Outside) (opened : ℤ) :
    let b' := RotateFileLoggerBackend.logWork size o line s.backend
    RotatesRight size s (line, o, opened) ↔
      (b'.rotated ≠ s.backend.rotated → s.threshold < tellp size s.backend) ∧
        (s.threshold < tellp size s.backend → b'.written = s.backend.written ∨
          linesOf b'.directory b'.baseName = [line]) := by
  have hbackend := h.backend_step (line, o, opened)
  have hrotated : (s.step size (line, o, opened)).backend.rotated =
      (RotateFileLoggerBackend.logWork size o line s.backend).rotated := by rw [hbackend]; rfl
  have hwritten : (s.step size (line, o, opened)).backend.written =
      (RotateFileLoggerBackend.logWork size o line s.backend).written := by rw [hbackend]; rfl
  have hlines : linesOf (s.step size (line, o, opened)).backend.directory
      (s.step size (line, o, opened)).backend.baseName =
        linesOf (RotateFileLoggerBackend.logWork size o line s.backend).directory
          (RotateFileLoggerBackend.logWork size o line s.backend).baseName := by rw [hbackend]; rfl
  dsimp only
  rw [← hrotated, ← hwritten, ← hlines]
  exact ⟨fun hright => ⟨hright.only, hright.next⟩, fun hright => ⟨hright.1, hright.2⟩⟩

theorem Inv.rotatesRight_iff_meets (h : Inv size s) (op : L × Outside × ℤ) :
    RotatesRight size s op ↔ Meets size s op := by
  obtain ⟨line, o, opened⟩ := op
  have hleft := left_le_threshold s
  refine (h.atEnd.rotatesRight_iff_backend line o opened).trans ?_
  rcases logWork_cases s.backend h.base size o line with ⟨hopen, hfits, hsame, -⟩ | ⟨hopen, hfull, hnew, happends⟩ |
    ⟨hclosed, hsame, happends⟩
  · -- the line goes to the open file: nothing is asked of it
    rw [Bool.eq_false_iff, ne_eq, isFull_iff] at hfits
    refine iff_of_true ⟨fun hne => absurd hsame hne, fun hlt => ?_⟩ ⟨fun _ hlt => absurd hlt hfits, fun hclosed => ?_⟩
    · omega
    · exact absurd (hopen.symm.trans hclosed) (by decide)
  · -- the file is rotated, and a new one has the line
    rw [isFull_iff] at hfull
    rw [happends.next_iff]
    constructor
    · rintro ⟨honly, -⟩
      exact ⟨fun _ _ => honly hnew, fun hclosed => absurd (hopen.symm.trans hclosed) (by decide)⟩
    · intro hmeets
      exact ⟨fun _ => hmeets.fits hopen hfull, fun _ _ => rfl⟩
  · -- the file is opened as it is found
    rw [happends.next_iff]
    constructor
    · rintro ⟨-, hnext⟩
      refine ⟨fun hopen => absurd (hopen.symm.trans hclosed) (by decide), fun _ hopens => ?_⟩
      by_contra hlt
      rw [not_le] at hlt
      have hnil := hnext hlt hopens
      rw [tellp, hnil] at hlt
      exact absurd hlt (Nat.not_lt_zero _)
    · intro hmeets
      exact ⟨fun hne => absurd hsame hne, fun hlt hopens => absurd (hmeets.found hclosed hopens) (not_le.2 hlt)⟩

theorem isOpen_of_initialize {options : Options} {directory : Directory L} {b : RotateFileLoggerBackend L}
    (hinit : initializeRotateFile options directory = .ok b) : b.isOpen = false := by
  unfold initializeRotateFile at hinit
  split at hinit
  · cases hinit
  · split at hinit
    · cases hinit
    · split at hinit
      · cases hinit
      · rw [← Except.ok.inj hinit]

/-! ### Runs -/

/-- **Log files are rotated at the threshold**, in both modes and for all lines of a run, if and only if at each line
the file that is open is not between what is left of the threshold modulo `2 ^ 32` and the threshold, and a file that
is opened is not above it. -/
theorem rotatesRight_iff {options : Options} {directory : Directory L} {b : RotateFileLoggerBackend L}
    (hinit : initializeRotateFile options directory = .ok b) (enableSync : Bool) (pos : ℤ) (size : L → ℕ)
    (ops : List (L × Outside × ℤ)) :
    AllMeet (step size) (RotatesRight size) ⟨b, enableSync, pos⟩ ops ↔
      AllMeet (step size) (Meets size) ⟨b, enableSync, pos⟩ ops := by
  have hclosed : b.isOpen = false := isOpen_of_initialize hinit
  have hinv : Inv size ⟨b, enableSync, pos⟩ := ⟨fun hopen => ?_, fun hopen => ?_⟩
  · exact allMeet_iff_of_inv (Inv size) (fun h op => h.step op) (fun h op => h.rotatesRight_iff_meets op) hinv ops
  all_goals exact absurd (hclosed.symm.trans hopen) Bool.false_ne_true

/-- The backend with another size of its files. -/
def sizedBackend (maxFileSizeM : UInt32) : RotateFileLoggerBackend ℕ where
  options := { maxFileSizeM := maxFileSizeM }
  compressionMode := .none
  baseFileName := join ['.', '/', 'l', 'o', 'g'] ['a', 'i', 'm', 'r', 't', '.', 'l', 'o', 'g']
  directory := ∅

theorem initialize_sizedBackend (maxFileSizeM : UInt32) :
    initializeRotateFile { maxFileSizeM := maxFileSizeM } ∅ = .ok (sizedBackend maxFileSizeM) := rfl

/-- Two lines of a byte. -/
def twoLines : List (ℕ × Outside × ℤ) := [(0, listedAsIs, 0), (1, listedAsIs, 0)]

theorem rotatesRight_twoLines :
    AllMeet (step fun _ => 1) (RotatesRight fun _ => 1) ⟨sizedBackend 1, true, 0⟩ twoLines := by
  refine (rotatesRight_iff (initialize_sizedBackend 1) true 0 (fun _ => 1) twoLines).2 ⟨⟨?_, ?_⟩, ⟨?_, ?_⟩, trivial⟩
  all_goals decide +kernel

/-- 4096 megabytes are none: the second line rotates the file. -/
theorem not_rotatesRight : ¬∀ (options : Options) (directory : Directory ℕ) (b : RotateFileLoggerBackend ℕ),
    initializeRotateFile options directory = .ok b → ∀ (enableSync : Bool) (pos : ℤ) (size : ℕ → ℕ)
      (ops : List (ℕ × Outside × ℤ)), AllMeet (step size) (RotatesRight size) ⟨b, enableSync, pos⟩ ops := by
  intro h
  have hright := (h _ _ _ (initialize_sizedBackend 4096) false 0 (fun _ => 1) twoLines).2.1.only
  exact absurd (hright (by decide +kernel)) (by decide +kernel)

end LogStream

end AimRT.Logger
