import AimRT.Lib.Run
import AimRT.Logger.RotatedFileName
import Mathlib.Data.List.AList

/-!
# The backend of rotating log files

`RotateFileLoggerBackend` appends its lines to the base file.  When that has become too large it gets the name of the
next rotated file, and may be compressed; a new base file takes its place.  So the rotated files of a run in the order
of their indices, and behind them the base file, have all the lines in the order in which they were logged, as long as
each rotation finds an index above those of the rotated files (`Fits`).

That is not so behind the last index of the type, and not when the base file name is written in another way than the
paths of the directory's entries.
-/

namespace AimRT.Logger

open Lib.Run

/-! ### The backend -/

/-- A file, with the lines that it has or that it is the compression of. -/
structure LogFile (L : Type) where
  compression : CompressionMode := .none
  lines : List L
  deriving DecidableEq, Repr

/-- `RotateFileLoggerBackend::Options`, those that the files depend on. -/
structure Options where
  path : Text := ['.', '/', 'l', 'o', 'g']
  filename : Text := ['a', 'i', 'm', 'r', 't', '.', 'l', 'o', 'g']
  maxFileSizeM : UInt32 := 16
  maxFileNum : UInt32 := 100
  suffixWithTimestamp : Bool := true
  compressionMode : String := "none"
  compressionLevel : String := "default"
  deriving DecidableEq, Repr

/-- The files in the directory of the base file, by their names. -/
abbrev Directory (L : Type) := AList fun _ : Text => LogFile L

/-- The members of `RotateFileLoggerBackend`, and the directory.  What was logged, what was written to the base file,
the names of the rotated files, and whether one of them has replaced a file, are kept to tell of them. -/
structure RotateFileLoggerBackend (L : Type) where
  options : Options
  compressionMode : CompressionMode
  baseFileName : Text
  isOpen : Bool := false
  directory : Directory L
  logged : List L := []
  written : List L := []
  rotated : List Text := []
  replaced : Bool := false

/-- What is outside: the order in which a directory is listed, the clock, and whether the base file can be opened, a
file can be compressed, and a file that was compressed can be removed. -/
structure Outside where
  listing : List Text → List Text
  curTm : Tm
  opens : Bool
  compresses : Bool
  removes : Bool

/-- A file system that works: the directory is listed, the base file can be opened, and a file that was compressed
can be removed. -/
structure Outside.Works (o : Outside) : Prop where
  listing : ∀ names, (o.listing names).Perm names
  opens : o.opens = true
  removes : o.removes = true

namespace RotateFileLoggerBackend

variable {L : Type}

def compressionModeOf : String → Option CompressionMode
  | "none" => some .none
  | "gzip" => some .gzip
  | "zstd" => some .zstd
  | _ => none

/-- `Initialize`; an empty path is no directory that can be created. -/
def initializeRotateFile (options : Options) (directory : Directory L) : Except String (RotateFileLoggerBackend L) :=
  if options.path = [] then .error "cannot create directories"
  else
    match compressionModeOf options.compressionMode with
    | none =>
      .error s!"Invalid compression mode: {options.compressionMode}, optional values are none/gzip/zstd."
    | some compressionMode =>
      if options.compressionLevel ∉ ["fast", "default", "slow"] then
        .error s!"Invalid compression level: {options.compressionLevel}, optional values are fast/default/slow."
      else
        .ok { options := options
              compressionMode := compressionMode
              baseFileName := join options.path options.filename
              directory := directory }

/-- The name of the base file in its directory. -/
def baseName (b : RotateFileLoggerBackend L) : Text := fileName b.baseFileName

/-- The lines of a file. -/
def linesOf (directory : Directory L) (name : Text) : List L := ((directory.lookup name).map LogFile.lines).getD []

theorem linesOf_eq {directory : Directory L} {name : Text} {file : LogFile L}
    (h : directory.lookup name = some file) : linesOf directory name = file.lines := by
  rw [linesOf, h]
  rfl

theorem linesOf_eq_nil {directory : Directory L} {name : Text} (h : directory.lookup name = none) :
    linesOf directory name = [] := by
  rw [linesOf, h]
  rfl

theorem flatMap_linesOf_congr {directory directory' : Directory L} {names : List Text}
    (h : ∀ name ∈ names, directory.lookup name = directory'.lookup name) :
    names.flatMap (linesOf directory) = names.flatMap (linesOf directory') :=
  List.flatMap_congr fun name hname => by rw [linesOf, linesOf, h name hname]

section

variable (size : L → ℕ) (o : Outside)

/-- `max_file_size_m * 1024 * 1024`. -/
def maxFileSize (b : RotateFileLoggerBackend L) : UInt32 := b.options.maxFileSizeM * 1024 * 1024

/-- The position of the stream behind what was written, with `size` bytes for a line and its end. -/
def tellp (b : RotateFileLoggerBackend L) : ℕ := ((linesOf b.directory b.baseName).map size).sum

/-- The base file is too large. -/
def isFull (b : RotateFileLoggerBackend L) : Bool := (maxFileSize b).toNat < tellp size b

/-- `CompressFile`, for the file that was rotated last.  What was there under the name of the compressed file is gone
also when the compression fails. -/
def compressFile (src : Text) (b : RotateFileLoggerBackend L) : RotateFileLoggerBackend L :=
  let dst := src ++ getCompressedFileExtension b.compressionMode
  let replaced := b.replaced || (b.directory.lookup dst).isSome
  match b.directory.lookup src, o.compresses with
  | some file, true =>
    let compressed := b.directory.insert dst { compression := b.compressionMode, lines := file.lines }
    if o.removes then
      { b with directory := compressed.erase src, rotated := b.rotated.dropLast ++ [dst], replaced := replaced }
    else { b with directory := compressed, rotated := b.rotated ++ [dst], replaced := replaced }
  | _, _ => { b with directory := b.directory.erase dst, replaced := replaced }

/-- The name that the base file gets. -/
def rotatedName (b : RotateFileLoggerBackend L) : Text :=
  b.baseName ++ rotatedSuffix b.options.suffixWithTimestamp (getNextIndex b.baseFileName (o.listing b.directory.keys))
    o.curTm

/-- `Rename`, for a base file that is there. -/
def rename (b : RotateFileLoggerBackend L) : RotateFileLoggerBackend L :=
  match b.directory.lookup b.baseName with
  | none => b
  | some file =>
    let renamed : RotateFileLoggerBackend L :=
      { b with
        directory := (b.directory.erase b.baseName).insert (rotatedName o b) file
        rotated := b.rotated ++ [rotatedName o b]
        replaced := b.replaced || (b.directory.lookup (rotatedName o b)).isSome }
    if b.compressionMode = .none then renamed else compressFile o (rotatedName o b) renamed

/-- A rotated file of the map in `CleanLogFile`, which keeps the first file of an index. -/
def emplaceFile (b : RotateFileLoggerBackend L) (logFiles : List (UInt32 × Text)) (name : Text) :
    List (UInt32 × Text) :=
  match parseRotatedFileIndex (entryPath b.baseFileName name) b.baseFileName with
  | none => logFiles
  | some idx =>
    if logFiles.any fun e => e.1 = idx then logFiles
    else logFiles.takeWhile (fun e => e.1 < idx) ++ (idx, name) :: logFiles.dropWhile fun e => e.1 < idx

/-- `CleanLogFile`: the files with the lowest indices are removed when there are too many. -/
def cleanLogFile (b : RotateFileLoggerBackend L) : RotateFileLoggerBackend L :=
  if b.options.maxFileNum = 0 then b
  else
    let logFiles := (o.listing b.directory.keys).foldl (emplaceFile b) []
    let removed := logFiles.take (logFiles.length - b.options.maxFileNum.toNat)
    { b with directory := removed.foldl (fun directory e => directory.erase e.2) b.directory }

/-- Opening to append creates a file. -/
def appendable (directory : Directory L) (name : Text) : Directory L :=
  if (directory.lookup name).isSome then directory else directory.insert name { lines := [] }

/-- `OpenNewFile`. -/
def openNewFile (b : RotateFileLoggerBackend L) : Bool × RotateFileLoggerBackend L :=
  let closed := { b with isOpen := false }
  let renamed :=
    if b.isOpen && isFull size b && (b.directory.lookup b.baseName).isSome then rename o closed else closed
  if o.opens then
    (true, cleanLogFile o { renamed with isOpen := true, directory := appendable renamed.directory renamed.baseName })
  else (false, renamed)

/-- A line is written to the base file. -/
def writeLine (line : L) (b : RotateFileLoggerBackend L) : RotateFileLoggerBackend L :=
  match b.directory.lookup b.baseName with
  | none => b
  | some file =>
    { b with
      directory := b.directory.insert b.baseName { file with lines := file.lines ++ [line] }
      written := b.written ++ [line] }

/-- The work of `Log` on the log executor. -/
def logWork (line : L) (b : RotateFileLoggerBackend L) : RotateFileLoggerBackend L :=
  if !b.isOpen || isFull size b then
    if (openNewFile size o b).1 then writeLine line (openNewFile size o b).2 else (openNewFile size o b).2
  else writeLine line b

end

/-- One more line is logged. -/
def step (size : L → ℕ) (b : RotateFileLoggerBackend L) (op : L × Outside) : RotateFileLoggerBackend L :=
  { logWork size op.2 op.1 b with logged := b.logged ++ [op.1] }

/-! ### What the files keep -/

/-- The index in the name of a rotated file. -/
def indexOf (b : RotateFileLoggerBackend L) (name : Text) : Option UInt32 := parseRotatedFileIndex name b.baseName

/-- **Nothing is lost and nothing overwritten**, from a directory on: every line was written to the base file, once
and in order; no file was replaced; the files that were there are as they were; the rotated files have increasing
indices in the order in which they were made; and in this order, with the base file behind them, they have all the
lines. -/
structure Keeps (initial : Directory L) (b : RotateFileLoggerBackend L) : Prop where
  written : b.written = b.logged
  replaced : b.replaced = false
  untouched : ∀ name file, name ≠ b.baseName → initial.lookup name = some file → b.directory.lookup name = some file
  indices : ∃ indices : List UInt32, b.rotated.map (indexOf b) = indices.map some ∧ indices.Pairwise (· < ·)
  inOrder : b.rotated.flatMap (linesOf b.directory) ++ linesOf b.directory b.baseName =
    linesOf initial b.baseName ++ b.logged

/-- The name and the name of its compressed file are not in the directory. -/
def Unused (b : RotateFileLoggerBackend L) (name : Text) : Prop :=
  b.directory.lookup name = none ∧
    (b.compressionMode ≠ .none → b.directory.lookup (name ++ getCompressedFileExtension b.compressionMode) = none)

/-- **A rotation finds a new index**: none of the rotated files has the last index.  When the base file name is not the
path of an entry the index is always one, and it is new for the first rotation if there is no file of the name. -/
def Fits (size : L → ℕ) (b : RotateFileLoggerBackend L) (op : L × Outside) : Prop :=
  b.isOpen = true → isFull size b = true →
    (Plain b.baseFileName → ∀ name ∈ b.directory, indexOf b name ≠ some maxIndex) ∧
    (¬Plain b.baseFileName → b.rotated = [] ∧
      Unused b (b.baseName ++ rotatedSuffix b.options.suffixWithTimestamp 1 op.2.curTm))

instance (b : RotateFileLoggerBackend L) (name : Text) : Decidable (Unused b name) :=
  inferInstanceAs (Decidable (_ ∧ _))

instance (size : L → ℕ) (b : RotateFileLoggerBackend L) (op : L × Outside) : Decidable (Fits size b op) :=
  inferInstanceAs (Decidable (b.isOpen = true → isFull size b = true →
    (Plain b.baseFileName → ∀ name ∈ b.directory.keys, indexOf b name ≠ some maxIndex) ∧
    (¬Plain b.baseFileName → b.rotated = [] ∧
      Unused b (b.baseName ++ rotatedSuffix b.options.suffixWithTimestamp 1 op.2.curTm))))

/-- A directory in front of a run: a listing of names without slashes, and the rotated files have indices below the last
one. -/
structure Listed (baseFileName : Text) (directory : Directory L) : Prop where
  names : ∀ name ∈ directory, '/' ∉ name
  indices : ∀ name ∈ directory, parseRotatedFileIndex name (fileName baseFileName) ≠ some maxIndex

/-! ### A rotation -/

section

variable {b : RotateFileLoggerBackend L} {o : Outside} {file : LogFile L}

theorem getCompressedFileExtension_ne_nil (mode : CompressionMode) : getCompressedFileExtension mode ≠ [] := by
  cases mode <;> decide

theorem baseName_ne_rotatedName : b.baseName ≠ rotatedName o b := by
  intro heq
  have hlength := congrArg List.length heq
  simp [rotatedName, rotatedSuffix] at hlength

/-- The name of the compressed file. -/
def compressedName (o : Outside) (b : RotateFileLoggerBackend L) : Text :=
  rotatedName o b ++ getCompressedFileExtension b.compressionMode

theorem compressedName_ne_rotatedName : compressedName o b ≠ rotatedName o b := by
  intro heq
  exact getCompressedFileExtension_ne_nil b.compressionMode (by simpa [compressedName] using heq)

theorem baseName_ne_compressedName : b.baseName ≠ compressedName o b := by
  intro heq
  have hlength := congrArg List.length heq
  simp [compressedName, rotatedName, rotatedSuffix] at hlength

/-- The name of the file that a rotation makes. -/
def madeName (o : Outside) (b : RotateFileLoggerBackend L) : Text :=
  if b.compressionMode ≠ .none ∧ o.compresses = true then compressedName o b else rotatedName o b

/-- A file is replaced under the name, or under that of the compressed file. -/
def replaces (o : Outside) (b : RotateFileLoggerBackend L) : Bool :=
  (b.directory.lookup (rotatedName o b)).isSome ||
    (b.compressionMode ≠ .none && (b.directory.lookup (compressedName o b)).isSome)

theorem unused_iff : Unused b (rotatedName o b) ↔ replaces o b = false := by
  simp [Unused, replaces, compressedName]

/-- What a rotation does besides the directory. -/
theorem rename_eq (hworks : o.Works) (hbase : b.directory.lookup b.baseName = some file) :
    ∃ directory : Directory L,
      rename o b = { b with
        directory := directory
        rotated := b.rotated ++ [madeName o b]
        replaced := b.replaced || replaces o b } ∧
      directory.lookup b.baseName = none ∧ (directory.lookup (madeName o b)).map LogFile.lines = some file.lines ∧
      (Unused b (rotatedName o b) → ∀ name, name ≠ b.baseName → name ≠ madeName o b →
        directory.lookup name = b.directory.lookup name) := by
  have hbase' := baseName_ne_rotatedName (o := o) (b := b)
  have hcompressed := compressedName_ne_rotatedName (o := o) (b := b)
  by_cases hmode : b.compressionMode = .none
  · have hmade : madeName o b = rotatedName o b := if_neg fun h => h.1 hmode
    refine ⟨(b.directory.erase b.baseName).insert (rotatedName o b) file, ?_, ?_, ?_, fun _ name hname hname' => ?_⟩
    · simp [rename, hbase, hmode, hmade, replaces]
    · rw [AList.lookup_insert_ne hbase', AList.lookup_erase]
    · rw [hmade, AList.lookup_insert]
      rfl
    · rw [hmade] at hname'
      rw [AList.lookup_insert_ne hname', AList.lookup_erase_ne hname]
  · have hlookup : ((b.directory.erase b.baseName).insert (rotatedName o b) file).lookup
        (rotatedName o b ++ getCompressedFileExtension b.compressionMode) =
          b.directory.lookup (compressedName o b) := by
      change AList.lookup (compressedName o b) _ = _
      rw [AList.lookup_insert_ne hcompressed, AList.lookup_erase_ne baseName_ne_compressedName.symm]
    cases hcompresses : o.compresses with
    | true =>
      have hmade : madeName o b = compressedName o b := if_pos ⟨hmode, hcompresses⟩
      refine ⟨(((b.directory.erase b.baseName).insert (rotatedName o b) file).insert (compressedName o b)
        { compression := b.compressionMode, lines := file.lines }).erase (rotatedName o b), ?_, ?_, ?_,
        fun hunused name hname hname' => ?_⟩
      · simp only [rename, hbase, hmode, if_false, compressFile, AList.lookup_insert, hcompresses, hworks.removes,
          if_true, hmade, replaces, List.dropLast_concat]
        simp [Bool.or_assoc, hlookup, hmode, compressedName]
      · rw [AList.lookup_erase_ne hbase', AList.lookup_insert_ne baseName_ne_compressedName,
          AList.lookup_insert_ne hbase', AList.lookup_erase]
      · rw [hmade, AList.lookup_erase_ne hcompressed, AList.lookup_insert]
        rfl
      · rw [hmade] at hname'
        rcases eq_or_ne name (rotatedName o b) with rfl | hne
        · rw [AList.lookup_erase, hunused.1]
        · rw [AList.lookup_erase_ne hne, AList.lookup_insert_ne hname', AList.lookup_insert_ne hne,
            AList.lookup_erase_ne hname]
    | false =>
      have hmade : madeName o b = rotatedName o b := if_neg fun h => by simp [hcompresses] at h
      refine ⟨((b.directory.erase b.baseName).insert (rotatedName o b) file).erase (compressedName o b), ?_, ?_, ?_,
        fun hunused name hname hname' => ?_⟩
      · simp only [rename, hbase, hmode, if_false, compressFile, hcompresses, hmade, replaces]
        simp [Bool.or_assoc, hlookup, hmode, compressedName]
      · rw [AList.lookup_erase_ne baseName_ne_compressedName, AList.lookup_insert_ne hbase', AList.lookup_erase]
      · rw [hmade, AList.lookup_erase_ne hcompressed.symm, AList.lookup_insert]
        rfl
      · rw [hmade] at hname'
        rcases eq_or_ne name (compressedName o b) with rfl | hne
        · rw [AList.lookup_erase, ← hunused.2 hmode]
          rfl
        · rw [AList.lookup_erase_ne hne, AList.lookup_insert_ne hname', AList.lookup_erase_ne hname]

/-- The index that the next rotation takes. -/
def nextIndex (o : Outside) (b : RotateFileLoggerBackend L) : UInt32 :=
  getNextIndex b.baseFileName (o.listing b.directory.keys)

theorem indexOf_rotatedName : indexOf b (rotatedName o b) = some (nextIndex o b) :=
  parseRotatedFileIndex_rotated _ _ _ _

theorem indexOf_compressedName : indexOf b (compressedName o b) = some (nextIndex o b) :=
  parseRotatedFileIndex_compressed _ _ _ _ _

theorem indexOf_madeName : indexOf b (madeName o b) = some (nextIndex o b) := by
  unfold madeName
  split_ifs
  · exact indexOf_compressedName
  · exact indexOf_rotatedName

theorem indexOf_baseName : indexOf b b.baseName = none := by
  simp [indexOf, parseRotatedFileIndex]

theorem slash_not_mem_madeName : '/' ∉ madeName o b := by
  have hrotated : '/' ∉ rotatedName o b := by
    rw [rotatedName, List.mem_append, not_or]
    exact ⟨slash_not_mem_fileName _, slash_not_mem_rotatedSuffix _ _ _⟩
  unfold madeName
  split_ifs
  · rw [compressedName, List.mem_append, not_or]
    exact ⟨hrotated, slash_not_mem_getCompressedFileExtension _⟩
  · exact hrotated

/-! ### The invariant -/

/-- What holds in every state of a run whose rotations find new indices. -/
structure Inv (initial : Directory L) (b : RotateFileLoggerBackend L) : Prop where
  keeps : Keeps initial b
  unlimited : b.options.maxFileNum = 0
  opened : b.isOpen = true → ∃ file, b.directory.lookup b.baseName = some file
  listed : ∀ name ∈ b.directory, '/' ∉ name
  known : ∀ name ∈ b.directory, name = b.baseName ∨ name ∈ initial ∨ name ∈ b.rotated
  there : ∀ name ∈ b.rotated, name ∈ b.directory ∧ ∃ idx, indexOf b name = some idx ∧ 1 ≤ idx
  indices : ∀ name ∈ initial, indexOf b name ≠ some maxIndex

variable {initial : Directory L}

theorem lookup_madeName (h : Unused b (rotatedName o b)) : b.directory.lookup (madeName o b) = none := by
  by_cases hmode : b.compressionMode ≠ .none ∧ o.compresses = true
  · rw [madeName, if_pos hmode]
    exact h.2 hmode.1
  · rw [madeName, if_neg hmode]
    exact h.1

theorem Inv.ne_baseName (h : Inv initial b) {name : Text} (hname : name ∈ b.rotated) : name ≠ b.baseName := by
  rintro rfl
  obtain ⟨-, idx, hidx, -⟩ := h.there _ hname
  rw [indexOf_baseName] at hidx
  cases hidx

/-- What a rotation that replaces nothing does to the directory. -/
structure Moves (o : Outside) (b : RotateFileLoggerBackend L) (file : LogFile L) (directory : Directory L) : Prop where
  base : directory.lookup b.baseName = none
  made : (directory.lookup (madeName o b)).map LogFile.lines = some file.lines
  others : ∀ name, name ≠ b.baseName → name ≠ madeName o b → directory.lookup name = b.directory.lookup name

variable {directory : Directory L}

theorem Moves.mem_cases (hmoves : Moves o b file directory) {name : Text} (hname : name ∈ directory) :
    name = madeName o b ∨ name ∈ b.directory := by
  by_cases hname' : name = madeName o b
  · exact .inl hname'
  · have hbase : name ≠ b.baseName := by
      rintro rfl
      exact absurd hname (AList.lookup_eq_none.1 hmoves.base)
    rw [← AList.lookup_isSome, hmoves.others name hbase hname', AList.lookup_isSome] at hname
    exact .inr hname

theorem Moves.madeName_mem (hmoves : Moves o b file directory) : madeName o b ∈ directory := by
  obtain ⟨made, hlookup, -⟩ := Option.map_eq_some_iff.1 hmoves.made
  rw [← AList.lookup_isSome, hlookup]
  rfl

/-- The lines of the base file are those of the rotated file. -/
theorem Moves.lines (hmoves : Moves o b file directory) (hbase : b.directory.lookup b.baseName = some file)
    (hsame : ∀ name ∈ b.rotated, directory.lookup name = b.directory.lookup name) :
    (b.rotated ++ [madeName o b]).flatMap (linesOf directory) ++ linesOf directory b.baseName =
      b.rotated.flatMap (linesOf b.directory) ++ linesOf b.directory b.baseName := by
  have hlast : linesOf directory (madeName o b) = linesOf b.directory b.baseName := by
    rw [linesOf, linesOf, hmoves.made, hbase]
    rfl
  rw [List.flatMap_append, List.flatMap_singleton, flatMap_linesOf_congr hsame, hlast, linesOf_eq_nil hmoves.base,
    List.append_nil]

/-- The index of a rotation is behind the others. -/
theorem Inv.indices_rename (h : Inv initial b)
    (hnew : ∀ name ∈ b.rotated, ∀ idx, indexOf b name = some idx → idx < nextIndex o b) :
    ∃ indices : List UInt32,
      (b.rotated ++ [madeName o b]).map (indexOf b) = indices.map some ∧ indices.Pairwise (· < ·) := by
  obtain ⟨indices, hindices, hsorted⟩ := h.keeps.indices
  refine ⟨indices ++ [nextIndex o b], ?_, ?_⟩
  · rw [List.map_append, List.map_append, hindices, List.map_singleton, List.map_singleton, indexOf_madeName]
  · rw [List.pairwise_append]
    refine ⟨hsorted, List.pairwise_singleton _ _, fun idx hidx idx' hidx' => ?_⟩
    rw [List.mem_singleton.1 hidx']
    have hmem : some idx ∈ b.rotated.map (indexOf b) := hindices ▸ List.mem_map_of_mem hidx
    obtain ⟨name, hname, heq⟩ := List.mem_map.1 hmem
    exact hnew name hname idx heq

/-- **A rotation with a new index** keeps everything. -/
theorem Inv.rename (h : Inv initial b) (hworks : o.Works) (hbase : b.directory.lookup b.baseName = some file)
    (hunused : Unused b (rotatedName o b))
    (hnew : ∀ name ∈ b.rotated, ∀ idx, indexOf b name = some idx → idx < nextIndex o b) (hpos : 1 ≤ nextIndex o b)
    (hclosed : b.isOpen = false) : Inv initial (rename o b) := by
  obtain ⟨directory, heq, hnone, hmade, hothers⟩ := rename_eq hworks hbase
  have hmoves : Moves o b file directory := ⟨hnone, hmade, hothers hunused⟩
  rw [heq]
  have hsame : ∀ name ∈ b.rotated, directory.lookup name = b.directory.lookup name := by
    intro name hname
    refine hmoves.others name (h.ne_baseName hname) ?_
    rintro rfl
    exact UInt32.lt_irrefl _ (hnew _ hname _ indexOf_madeName)
  refine ⟨⟨h.keeps.written, ?_, fun name f hname hf => ?_, h.indices_rename hnew, ?_⟩, h.unlimited,
    fun hopen => ?_, fun name hname => ?_, fun name hname => ?_, fun name hname => ?_, h.indices⟩
  · change (b.replaced || replaces o b) = false
    rw [h.keeps.replaced, unused_iff.1 hunused]
    rfl
  · have hold := h.keeps.untouched name f hname hf
    have hname' : name ≠ madeName o b := by
      rintro rfl
      rw [lookup_madeName hunused] at hold
      cases hold
    exact (hmoves.others name hname hname').trans hold
  · exact (hmoves.lines hbase hsame).trans h.keeps.inOrder
  · exact absurd (hclosed.symm.trans hopen) Bool.false_ne_true
  · rcases hmoves.mem_cases hname with rfl | hold
    · exact slash_not_mem_madeName
    · exact h.listed name hold
  · change name = b.baseName ∨ name ∈ initial ∨ name ∈ b.rotated ++ [madeName o b]
    rcases hmoves.mem_cases hname with rfl | hold
    · exact .inr (.inr (List.mem_append_right _ List.mem_cons_self))
    · exact (h.known name hold).imp_right (Or.imp_right (List.mem_append_left _))
  · rcases List.mem_append.1 hname with hold | hnew
    · obtain ⟨hmem, hidx⟩ := h.there name hold
      rw [← AList.lookup_isSome, ← hsame name hold, AList.lookup_isSome] at hmem
      exact ⟨hmem, hidx⟩
    · rw [List.mem_singleton.1 hnew]
      exact ⟨hmoves.madeName_mem, _, indexOf_madeName, hpos⟩

theorem Inv.setOpen (h : Inv initial b) {isOpen : Bool}
    (hopen : isOpen = true → ∃ file, b.directory.lookup b.baseName = some file) :
    Inv initial { b with isOpen := isOpen } :=
  ⟨⟨h.keeps.written, h.keeps.replaced, h.keeps.untouched, h.keeps.indices, h.keeps.inOrder⟩, h.unlimited, hopen,
    h.listed, h.known, h.there, h.indices⟩

/-- The base file gets other lines. -/
theorem Inv.insert (h : Inv initial b) (file : LogFile L) {isOpen : Bool} {logged written : List L}
    (hwritten : written = logged)
    (hlines : b.rotated.flatMap (linesOf b.directory) ++ file.lines = linesOf initial b.baseName ++ logged) :
    Inv initial { b with
      isOpen := isOpen
      directory := b.directory.insert b.baseName file
      logged := logged
      written := written } := by
  have hsame {name : Text} (hname : name ≠ b.baseName) :
      (b.directory.insert b.baseName file).lookup name = b.directory.lookup name := AList.lookup_insert_ne hname
  refine ⟨⟨hwritten, h.keeps.replaced, fun name f hname hf => ?_, h.keeps.indices, ?_⟩, h.unlimited, fun _ => ?_,
    fun name hname => ?_, fun name hname => ?_, fun name hname => ?_, h.indices⟩
  · exact (hsame hname).trans (h.keeps.untouched name f hname hf)
  · change b.rotated.flatMap (linesOf (b.directory.insert b.baseName file)) ++
      linesOf (b.directory.insert b.baseName file) b.baseName = linesOf initial b.baseName ++ logged
    rw [flatMap_linesOf_congr fun name hname => hsame (h.ne_baseName hname), linesOf_eq (AList.lookup_insert _), hlines]
  · exact ⟨file, AList.lookup_insert _⟩
  · rcases AList.mem_insert _ |>.1 hname with rfl | hold
    · exact slash_not_mem_fileName _
    · exact h.listed name hold
  · rcases AList.mem_insert _ |>.1 hname with rfl | hold
    · exact .inl rfl
    · exact h.known name hold
  · obtain ⟨hmem, hidx⟩ := h.there name hname
    exact ⟨(AList.mem_insert _).2 (.inr hmem), hidx⟩

theorem Inv.appendable (h : Inv initial b) :
    Inv initial { b with isOpen := true, directory := appendable b.directory b.baseName } := by
  unfold RotateFileLoggerBackend.appendable
  cases hlookup : b.directory.lookup b.baseName with
  | some file =>
    exact h.setOpen fun _ => ⟨file, hlookup⟩
  | none =>
    have horder := h.keeps.inOrder
    rw [linesOf_eq_nil hlookup] at horder
    exact h.insert { lines := [] } h.keeps.written horder

/-- A line that is written to the open base file is logged. -/
theorem Inv.writeLine (h : Inv initial b) (hopen : b.isOpen = true) (line : L) :
    Inv initial { writeLine line b with logged := b.logged ++ [line] } := by
  obtain ⟨file, hfile⟩ := h.opened hopen
  have horder := h.keeps.inOrder
  rw [linesOf_eq hfile] at horder
  unfold RotateFileLoggerBackend.writeLine
  rw [hfile]
  refine h.insert { file with lines := file.lines ++ [line] } (by rw [h.keeps.written]) ?_
  rw [← List.append_assoc, horder, List.append_assoc]

/-- What the code takes for the index of an entry. -/
theorem Inv.parse_eq (h : Inv initial b) (hplain : Plain b.baseFileName) {name : Text} (hname : name ∈ b.directory) :
    parseRotatedFileIndex (entryPath b.baseFileName name) b.baseFileName = indexOf b name :=
  parseRotatedFileIndex_entryPath (h.listed name hname) hplain

theorem mem_listing (hworks : o.Works) {name : Text} :
    name ∈ o.listing b.directory.keys ↔ name ∈ b.directory := by
  rw [(hworks.listing _).mem_iff, AList.mem_keys]

/-- When the base file name is not the path of an entry, the next index is always one. -/
theorem Inv.nextIndex_eq_one (h : Inv initial b) (hworks : o.Works) (hplain : ¬Plain b.baseFileName) :
    nextIndex o b = 1 := by
  refine getNextIndex_of_forall_eq_none fun name hname => ?_
  rw [mem_listing hworks] at hname
  exact parseRotatedFileIndex_entryPath_eq_none (h.listed name hname) hplain

/-- A file that is not there under an index above all others. -/
theorem unused_of_lt (h : ∀ name ∈ b.directory, ∀ idx, indexOf b name = some idx → idx < nextIndex o b) :
    Unused b (rotatedName o b) := by
  constructor
  · rw [AList.lookup_eq_none]
    exact fun hmem => UInt32.lt_irrefl _ (h _ hmem _ indexOf_rotatedName)
  · intro _
    rw [AList.lookup_eq_none]
    exact fun hmem => UInt32.lt_irrefl _ (h _ hmem _ indexOf_compressedName)

/-- **A rotation that fits** finds a new index. -/
theorem Inv.finds (h : Inv initial b) (hworks : o.Works) {size : L → ℕ} {line : L} (hopen : b.isOpen = true)
    (hfull : isFull size b = true) (hfits : Fits size b (line, o)) :
    Unused b (rotatedName o b) ∧ (∀ name ∈ b.rotated, ∀ idx, indexOf b name = some idx → idx < nextIndex o b) ∧
      1 ≤ nextIndex o b := by
  obtain ⟨hplain, hother⟩ := hfits hopen hfull
  by_cases hp : Plain b.baseFileName
  · have hlast : ∀ name ∈ o.listing b.directory.keys,
        parseRotatedFileIndex (entryPath b.baseFileName name) b.baseFileName ≠ some maxIndex := by
      intro name hname
      rw [mem_listing hworks] at hname
      rw [h.parse_eq hp hname]
      exact hplain hp name hname
    have hlt : ∀ name ∈ b.directory, ∀ idx, indexOf b name = some idx → idx < nextIndex o b := by
      intro name hname idx hidx
      rw [← h.parse_eq hp hname] at hidx
      exact lt_getNextIndex hlast ((mem_listing hworks).2 hname) hidx
    exact ⟨unused_of_lt hlt, fun name hname => hlt name (h.there name hname).1, le_foldl_raiseIndex hlast 1⟩
  · obtain ⟨hnone, hunused⟩ := hother hp
    have hone := h.nextIndex_eq_one hworks hp
    refine ⟨?_, fun name hname => ?_, ?_⟩
    · rw [rotatedName]
      change Unused b (b.baseName ++ rotatedSuffix _ (nextIndex o b) _)
      rw [hone]
      exact hunused
    · rw [hnone] at hname
      cases hname
    · rw [hone]
      exact UInt32.le_refl _

/-- A base file that is too large is rotated. -/
theorem openNewFile_of_full {size : L → ℕ} (hworks : o.Works) (hunlimited : b.options.maxFileNum = 0)
    (hopen : b.isOpen = true) (hfull : isFull size b = true) (hbase : b.directory.lookup b.baseName = some file) :
    openNewFile size o b = (true, { rename o { b with isOpen := false } with
      isOpen := true
      directory := appendable (rename o { b with isOpen := false }).directory b.baseName }) := by
  obtain ⟨directory, heq, -⟩ := rename_eq (b := { b with isOpen := false }) hworks hbase
  simp only [openNewFile, hopen, hfull, hbase, heq, hworks.opens, Option.isSome_some, Bool.and_self, if_true]
  exact congrArg (Prod.mk true) (if_pos hunlimited)

/-- Otherwise the base file is opened as it is. -/
theorem openNewFile_of_not_full {size : L → ℕ} (hworks : o.Works) (hunlimited : b.options.maxFileNum = 0)
    (hnot : ¬(b.isOpen = true ∧ isFull size b = true)) :
    openNewFile size o b =
      (true, { b with isOpen := true, directory := appendable b.directory b.baseName }) := by
  rw [← Bool.and_eq_true, Bool.not_eq_true] at hnot
  simp only [openNewFile, hnot, hworks.opens, Bool.false_and, Bool.false_eq_true, if_false, if_true]
  exact congrArg (Prod.mk true) (if_pos hunlimited)

/-- **The base file is open again**, and everything is kept. -/
theorem Inv.openNewFile (h : Inv initial b) (hworks : o.Works) {size : L → ℕ} {line : L}
    (hfits : Fits size b (line, o)) : (openNewFile size o b).1 = true ∧ (openNewFile size o b).2.isOpen = true ∧
      Inv initial (openNewFile size o b).2 ∧ (openNewFile size o b).2.logged = b.logged := by
  by_cases hrotates : b.isOpen = true ∧ isFull size b = true
  · obtain ⟨hopen, hfull⟩ := hrotates
    obtain ⟨file, hbase⟩ := h.opened hopen
    obtain ⟨hunused, hnew, hpos⟩ := h.finds hworks hopen hfull hfits
    have hclosed : Inv initial { b with isOpen := false } := h.setOpen nofun
    have hrename : Inv initial (RotateFileLoggerBackend.rename o { b with isOpen := false }) :=
      hclosed.rename hworks hbase hunused hnew hpos rfl
    obtain ⟨directory, heq, -⟩ := rename_eq (b := { b with isOpen := false }) hworks hbase
    rw [openNewFile_of_full hworks h.unlimited hopen hfull hbase]
    rw [heq] at hrename ⊢
    exact ⟨rfl, rfl, hrename.appendable, rfl⟩
  · rw [openNewFile_of_not_full hworks h.unlimited hrotates]
    exact ⟨rfl, rfl, h.appendable, rfl⟩

/-- **One more line** is logged, and everything is kept. -/
theorem Inv.step (h : Inv initial b) {size : L → ℕ} {op : L × Outside} (hworks : op.2.Works) (hfits : Fits size b op) :
    Inv initial (step size b op) := by
  obtain ⟨hok, hopen, hinv, hlogged⟩ := h.openNewFile hworks hfits
  unfold RotateFileLoggerBackend.step logWork
  rw [hok, if_pos rfl]
  split_ifs with hreopen
  · rw [← hlogged]
    exact hinv.writeLine hopen op.1
  · rw [Bool.not_eq_true, Bool.or_eq_false_iff, Bool.not_eq_false'] at hreopen
    exact h.writeLine hreopen.1 op.1

theorem writeLine_same (line : L) (b : RotateFileLoggerBackend L) :
    (writeLine line b).baseFileName = b.baseFileName ∧ (writeLine line b).rotated = b.rotated ∧
      (writeLine line b).replaced = b.replaced := by
  unfold RotateFileLoggerBackend.writeLine
  split <;> exact ⟨rfl, rfl, rfl⟩

/-- A line in front of which the base file is rotated. -/
theorem Inv.step_of_full (h : Inv initial b) {size : L → ℕ} {op : L × Outside} (hworks : op.2.Works)
    (hopen : b.isOpen = true) (hfull : isFull size b = true) :
    (RotateFileLoggerBackend.step size b op).baseFileName = b.baseFileName ∧
      (RotateFileLoggerBackend.step size b op).rotated = b.rotated ++ [madeName op.2 b] ∧
      (RotateFileLoggerBackend.step size b op).replaced = (b.replaced || replaces op.2 b) := by
  obtain ⟨file, hbase⟩ := h.opened hopen
  obtain ⟨directory, heq, -⟩ := rename_eq (b := { b with isOpen := false }) hworks hbase
  obtain ⟨hname, hrotated, hreplaced⟩ := writeLine_same op.1 (RotateFileLoggerBackend.openNewFile size op.2 b).2
  have hopened := openNewFile_of_full hworks h.unlimited hopen hfull hbase
  rw [heq] at hopened
  unfold RotateFileLoggerBackend.step logWork
  rw [hfull, Bool.or_true, if_pos rfl, if_pos (by rw [hopened])]
  dsimp only
  rw [hname, hrotated, hreplaced, hopened]
  exact ⟨rfl, rfl, rfl⟩

/-- **A step that keeps everything** is one that fits. -/
theorem Inv.fits (h : Inv initial b) {size : L → ℕ} {op : L × Outside} (hworks : op.2.Works)
    (hkeeps : Keeps initial (RotateFileLoggerBackend.step size b op)) : Fits size b op := by
  intro hopen hfull
  obtain ⟨hname, hrotated, hreplaced⟩ := h.step_of_full hworks hopen hfull
  have hunused : Unused b (rotatedName op.2 b) := by
    rw [unused_iff, ← Bool.or_eq_false_iff.1 (hreplaced.symm.trans hkeeps.replaced) |>.2]
  have hlt : ∀ name ∈ b.rotated, ∀ idx, indexOf b name = some idx → idx < nextIndex op.2 b := by
    obtain ⟨indices, hindices, hsorted⟩ := hkeeps.indices
    have hindex : indexOf (RotateFileLoggerBackend.step size b op) = indexOf b := by
      funext name
      rw [indexOf, indexOf, baseName, baseName, hname]
    rw [hrotated, hindex, List.map_append, List.map_singleton, indexOf_madeName] at hindices
    intro name hmem idx hidx
    have hpairs : (indices.map some).Pairwise fun a b => ∀ i ∈ a, ∀ j ∈ b, i < j := by
      rw [List.pairwise_map]
      exact hsorted.imp fun hij i hi j hj => by
        rw [← Option.some.inj hi, ← Option.some.inj hj]
        exact hij
    rw [← hindices, List.pairwise_append] at hpairs
    exact hpairs.2.2 (indexOf b name) (List.mem_map_of_mem hmem) _ List.mem_cons_self idx hidx _ rfl
  constructor
  · intro _ name hmem
    rcases h.known name hmem with rfl | hinitial | hmade
    · rw [indexOf_baseName]
      exact nofun
    · exact h.indices name hinitial
    · intro hmax
      have hnext := hlt name hmade _ hmax
      rw [UInt32.lt_iff_toNat_lt] at hnext
      have hbound := (nextIndex op.2 b).toNat_lt
      have hlast : maxIndex.toNat = 4294967295 := rfl
      omega
  · intro hplain
    have hone := h.nextIndex_eq_one hworks hplain
    constructor
    · rw [List.eq_nil_iff_forall_not_mem]
      intro name hmade
      obtain ⟨-, idx, hidx, hpos⟩ := h.there name hmade
      have hnext := hlt name hmade idx hidx
      rw [hone] at hnext
      exact UInt32.lt_irrefl _ (UInt32.lt_of_le_of_lt hpos hnext)
    · rw [← hone]
      exact hunused

end

/-! ### The lines of a run -/

theorem inv_initializeRotateFile {options : Options} {directory : Directory L} {b : RotateFileLoggerBackend L}
    (hinit : initializeRotateFile options directory = .ok b) (hlisted : Listed b.baseFileName directory)
    (hunlimited : options.maxFileNum = 0) : Inv directory b := by
  unfold initializeRotateFile at hinit
  cases hmode : compressionModeOf options.compressionMode with
  | none =>
    simp only [hmode] at hinit
    split_ifs at hinit
  | some mode =>
    simp only [hmode] at hinit
    split_ifs at hinit
    cases hinit
    exact ⟨⟨rfl, rfl, fun _ _ _ hfile => hfile, ⟨[], rfl, List.Pairwise.nil⟩, (List.append_nil _).symm⟩,
      hunlimited, nofun, hlisted.names, fun name hname => .inr (.inl hname), nofun, hlisted.indices⟩

/-- **Rotating log files lose and overwrite nothing** in all states of a run if and only if all rotations of the run
fit.  The directory may have any files at the beginning; the lines, the clock, the order in which the directory is
listed and which compressions fail are arbitrary. -/
theorem keeps_iff {options : Options} {directory : Directory L} {b : RotateFileLoggerBackend L}
    (hinit : initializeRotateFile options directory = .ok b) (hlisted : Listed b.baseFileName directory)
    (hunlimited : options.maxFileNum = 0) (size : L → ℕ) {ops : List (L × Outside)} (hworks : ∀ op ∈ ops, op.2.Works) :
    AllHold (step size) (Keeps directory) b ops ↔ AllMeet (step size) (Fits size) b ops :=
  allHold_iff_allMeet_of (Inv directory) Inv.keeps (fun h _ hop hfits => h.step hop hfits)
    (fun h _ hop hkeeps => h.fits hop hkeeps) (inv_initializeRotateFile hinit hlisted hunlimited)
    (allMeet_of_forall (fun op hop _ => hworks op hop) b)

/-- Each line but the first one finds a base file that is too large. -/
def tinyOptions (path : Text) : Options where
  path := path
  maxFileSizeM := 0
  maxFileNum := 0
  suffixWithTimestamp := false

/-- The backend with these options. -/
def tinyBackend (path : Text) (directory : Directory ℕ) : RotateFileLoggerBackend ℕ where
  options := tinyOptions path
  compressionMode := .none
  baseFileName := join path (tinyOptions path).filename
  directory := directory

/-- Three lines, and an outside that works. -/
def threeLines : List (ℕ × Outside) := [1, 2, 3].map fun line =>
  (line, ⟨id, ⟨124, 0, 2, 3, 4, 5⟩, true, false, true⟩)

theorem works_threeLines : ∀ op ∈ threeLines, op.2.Works := by
  intro op hop
  obtain ⟨line, -, rfl⟩ := List.mem_map.1 hop
  exact ⟨fun names => List.Perm.refl names, rfl, rfl⟩

theorem keeps_threeLines :
    let path := ['.', '/', 'l', 'o', 'g']
    AllMeet (step fun _ => 1) (Fits fun _ => 1) (tinyBackend path ∅) threeLines ∧
      AllHold (step fun _ => 1) (Keeps ∅) (tinyBackend path ∅) threeLines := by
  intro path
  have hinit : initializeRotateFile (tinyOptions path) (∅ : Directory ℕ) = .ok (tinyBackend path ∅) := rfl
  have hmeets : AllMeet (step fun _ => 1) (Fits fun _ => 1) (tinyBackend path ∅) threeLines :=
    ⟨by decide +kernel, by decide +kernel, by decide +kernel, trivial⟩
  exact ⟨hmeets, (keeps_iff hinit ⟨nofun, nofun⟩ rfl _ works_threeLines).2 hmeets⟩

/-- A directory with a rotated file that has the index before the last one. -/
def nearlyFull : Directory ℕ :=
  (∅ : Directory ℕ).insert ("aimrt.log_4294967294").toList { lines := [] }

/-- A path that ends with two slashes, and a directory in which the indices run out: the second rotation takes the
index of the first one, and replaces its file. -/
theorem not_keeps :
    (let path := ['.', '/', 'l', 'o', 'g', '/', '/']
     initializeRotateFile (tinyOptions path) (∅ : Directory ℕ) = .ok (tinyBackend path ∅) ∧
      ¬AllHold (step fun _ => 1) (Keeps ∅) (tinyBackend path ∅) threeLines) ∧
    (let path := ['.', '/', 'l', 'o', 'g']
     initializeRotateFile (tinyOptions path) nearlyFull = .ok (tinyBackend path nearlyFull) ∧
      Listed (tinyBackend path nearlyFull).baseFileName nearlyFull ∧
      ¬AllHold (step fun _ => 1) (Keeps nearlyFull) (tinyBackend path nearlyFull) threeLines) := by
  refine ⟨⟨rfl, fun h => ?_⟩, ⟨rfl, ⟨?_, ?_⟩, fun h => ?_⟩⟩
  · exact absurd h.last.replaced (by decide +kernel)
  · change ∀ name ∈ nearlyFull.keys, '/' ∉ name
    decide +kernel
  · change ∀ name ∈ nearlyFull.keys, _
    decide +kernel
  · exact absurd h.last.replaced (by decide +kernel)

end RotateFileLoggerBackend

end AimRT.Logger
