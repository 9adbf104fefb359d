import AimRT.Lib.Increasing
import AimRT.Logger.RotateFileLoggerBackend

/-!
# Removing old log files

`CleanLogFile` collects the entries of the directory under their indices, one for each index, and removes as many of
the collected ones as there are too many, from the lowest index on.  So it counts indices, not files: other files of
an index that is in use are not counted and not removed, and an entry is collected for an index in its name also
where the name is not that of a rotated file.  `cleans_iff` says for which directories this makes no difference.
-/

namespace AimRT.Logger

open Lib

/-! ### The names of rotated files -/

/-- `_YYYYMMDD_hhmmss`. -/
def IsTimestamp (s : Text) : Prop :=
  ∃ date time, s = '_' :: (date ++ '_' :: time) ∧ date.length = 8 ∧ time.length = 6 ∧
    (date ++ time).all Char.isDigit = true

/-- `<base>_<index>[_<timestamp>][<compressed file extension>]`. -/
def IsRotatedFile (base name : Text) (idx : UInt32) : Prop :=
  ∃ digits timestamp ext, name = base ++ '_' :: (digits ++ timestamp ++ ext) ∧
    isDigitStr digits = true ∧ fromChars digits = some idx ∧ (timestamp = [] ∨ IsTimestamp timestamp) ∧
    (ext = [] ∨ ∃ mode, ext = getCompressedFileExtension mode)

variable {base name : Text} {idx : UInt32}

theorem length_padded (n k : ℕ) : (padded n k).length = n := by
  induction n generalizing k with
  | zero => rfl
  | succ n ih => rw [padded, List.length_append, ih, List.length_singleton]

theorem isTimestamp_timeSuffix (tm : Tm) : IsTimestamp (timeSuffix tm) := by
  refine ⟨padded 4 ((tm.year + 1900) % 10000) ++ padded 2 ((tm.mon + 1) % 100) ++ padded 2 (tm.mday % 100),
    padded 2 (tm.hour % 100) ++ padded 2 (tm.min % 100) ++ padded 2 (tm.sec % 100), ?_, ?_, ?_, ?_⟩
  · simp [timeSuffix]
  · simp [length_padded]
  · simp [length_padded]
  · rw [List.all_eq_true]
    intro c hc
    simp only [List.mem_append] at hc
    rcases hc with ((h | h) | h) | (h | h) | h <;> exact isDigit_of_mem_padded h

theorem isRotatedFile_append (base : Text) (suffixWithTimestamp : Bool) (idx : UInt32) (tm : Tm) {ext : Text}
    (hext : ext = [] ∨ ∃ mode, ext = getCompressedFileExtension mode) :
    IsRotatedFile base (base ++ rotatedSuffix suffixWithTimestamp idx tm ++ ext) idx := by
  refine ⟨Nat.toDigits 10 idx.toNat, if suffixWithTimestamp then timeSuffix tm else [], ext, ?_,
    isDigitStr_toDigits _, fromChars_toDigits idx, ?_, hext⟩
  · rw [rotatedSuffix, List.append_assoc, List.cons_append]
  · cases suffixWithTimestamp with
    | true => exact .inr (isTimestamp_timeSuffix tm)
    | false => exact .inl rfl

theorem underscore_of_isDigitStr {digits : Text} (h : isDigitStr digits = true) :
    ∀ c ∈ digits, decide (c ≠ '_') = true := by
  rw [isDigitStr, Bool.and_eq_true, List.all_eq_true] at h
  intro c hc
  rw [decide_eq_true_eq]
  rintro rfl
  exact absurd (h.2 '_' hc) (by decide)

/-- What is behind the underscore, without an extension, ends in a digit. -/
theorem getLast?_of_isTimestamp {digits timestamp : Text} (hdigits : isDigitStr digits = true)
    (htimestamp : timestamp = [] ∨ IsTimestamp timestamp) :
    ∃ c : Char, c.isDigit = true ∧ (digits ++ timestamp).getLast? = some c := by
  rw [isDigitStr, Bool.and_eq_true, Bool.not_eq_true', List.isEmpty_eq_false_iff, List.all_eq_true] at hdigits
  rcases htimestamp with rfl | ⟨date, time, rfl, -, htime, hall⟩
  · rw [List.append_nil, List.getLast?_eq_some_getLast hdigits.1]
    exact ⟨_, hdigits.2 _ (List.getLast_mem _), rfl⟩
  · have hne : time ≠ [] := by
      rintro rfl
      cases htime
    rw [List.all_eq_true] at hall
    refine ⟨time.getLast hne, hall _ (List.mem_append_right _ (List.getLast_mem hne)), ?_⟩
    simp [List.getLast?_append, List.getLast?_cons, List.getLast?_eq_some_getLast hne]

/-- The code finds the index of a rotated file. -/
theorem IsRotatedFile.parse (h : IsRotatedFile base name idx) : parseRotatedFileIndex name base = some idx := by
  obtain ⟨digits, timestamp, ext, rfl, hdigits, hidx, htimestamp, hext⟩ := h
  have hremove : removeExtension (digits ++ timestamp ++ ext) = digits ++ timestamp := by
    rcases hext with rfl | ⟨mode, rfl⟩
    · obtain ⟨c, hc, hlast⟩ := getLast?_of_isTimestamp hdigits htimestamp
      rw [List.append_nil]
      exact removeExtension_of_getLast? hlast hc
    · exact removeExtension_append_extension _ mode
  have htake : (digits ++ timestamp).takeWhile (· ≠ '_') = digits := by
    rw [List.takeWhile_append_of_pos (underscore_of_isDigitStr hdigits)]
    rcases htimestamp with rfl | ⟨date, time, rfl, -⟩ <;> simp
  rw [parseRotatedFileIndex_append, suffixIndex, hremove, htake]
  simp [hdigits, hidx]

namespace RotateFileLoggerBackend

/-- The rotated files of the backend in its directory. -/
noncomputable def rotatedFiles {L : Type} (b : RotateFileLoggerBackend L) : Finset Text :=
  haveI := Classical.decPred fun name => ∃ idx, IsRotatedFile b.baseName name idx
  b.directory.keys.toFinset.filter fun name => ∃ idx, IsRotatedFile b.baseName name idx

variable {L : Type} {b : RotateFileLoggerBackend L} {o : Outside}

/-- The file that a rotation makes is one of them. -/
theorem isRotatedFile_madeName : IsRotatedFile b.baseName (madeName o b) (nextIndex o b) := by
  unfold madeName
  split_ifs
  · exact isRotatedFile_append _ _ _ _ (.inr ⟨_, rfl⟩)
  · rw [← List.append_nil (rotatedName o b)]
    exact isRotatedFile_append _ _ _ _ (.inl rfl)

theorem mem_rotatedFiles :
    name ∈ b.rotatedFiles ↔ name ∈ b.directory ∧ ∃ idx, IsRotatedFile b.baseName name idx := by
  have hfilter : name ∈ b.rotatedFiles ↔
      name ∈ b.directory.keys.toFinset ∧ ∃ idx, IsRotatedFile b.baseName name idx :=
    @Finset.mem_filter _ _ (Classical.decPred _) _ _
  rw [hfilter, List.mem_toFinset, AList.mem_keys]

/-! ### What is collected -/

/-- The index under which an entry is collected. -/
def entryIndex (b : RotateFileLoggerBackend L) (name : Text) : Option UInt32 :=
  parseRotatedFileIndex (entryPath b.baseFileName name) b.baseFileName

theorem entryIndex_of_isRotatedFile (h : IsRotatedFile b.baseName name idx) (hslash : '/' ∉ name) :
    entryIndex b name = if Plain b.baseFileName then some idx else none := by
  unfold entryIndex
  split_ifs with hplain
  · rw [parseRotatedFileIndex_entryPath hslash hplain]
    exact h.parse
  · exact parseRotatedFileIndex_entryPath_eq_none hslash hplain

/-- The first of some entries with an index. -/
def firstOf (b : RotateFileLoggerBackend L) (names : List Text) (idx : UInt32) : Option Text :=
  names.find? fun name => entryIndex b name = some idx

/-- The files that are collected from some entries, by increasing indices. -/
structure Collects (b : RotateFileLoggerBackend L) (names : List Text) (logFiles : List (UInt32 × Text)) : Prop where
  increasing : Increasing (fun e => e.1.toNat) logFiles
  mem : ∀ idx name, (idx, name) ∈ logFiles ↔ firstOf b names idx = some name

variable {names : List Text} {logFiles : List (UInt32 × Text)}

theorem firstOf_append_of_ne (h : entryIndex b name ≠ some idx) :
    firstOf b (names ++ [name]) idx = firstOf b names idx := by
  rw [firstOf, List.find?_append, List.find?_cons_of_neg (by simpa using h), List.find?_nil, Option.or_none, firstOf]

theorem firstOf_append_of_eq (h : entryIndex b name = some idx) :
    firstOf b (names ++ [name]) idx = (firstOf b names idx).or (some name) := by
  rw [firstOf, List.find?_append, List.find?_cons_of_pos (by simpa using h), firstOf]

theorem Collects.emplaceFile (h : Collects b names logFiles) (name : Text) :
    Collects b (names ++ [name]) (emplaceFile b logFiles name) := by
  unfold RotateFileLoggerBackend.emplaceFile
  cases hidx : parseRotatedFileIndex (entryPath b.baseFileName name) b.baseFileName with
  | none =>
    refine ⟨h.increasing, fun idx' name' => ?_⟩
    rw [firstOf_append_of_ne (by rw [entryIndex, hidx]; exact nofun), h.mem]
  | some idx =>
    have hentry : entryIndex b name = some idx := hidx
    dsimp only
    split_ifs with hany
    · obtain ⟨⟨idx', first⟩, hmem, heq⟩ := List.any_eq_true.1 hany
      obtain rfl : idx' = idx := by simpa using heq
      refine ⟨h.increasing, fun idx'' name'' => ?_⟩
      rw [h.mem]
      by_cases hsame : idx'' = idx'
      · subst hsame
        rw [firstOf_append_of_eq hentry, (h.mem _ _).1 hmem, Option.some_or]
      · rw [firstOf_append_of_ne (by rw [hentry]; exact fun heq => hsame (Option.some.inj heq).symm)]
    · have hnew : ∀ e ∈ logFiles, e.1 ≠ idx := by
        intro e he heq
        exact hany (List.any_eq_true.2 ⟨e, he, by simpa using heq⟩)
      refine ⟨h.increasing.insert (a := (idx, name)) (fun e => ?_) fun e he => ?_, fun idx'' name'' => ?_⟩
      · rw [decide_eq_true_eq, UInt32.lt_iff_toNat_lt]
      · exact fun heq => hnew e he (UInt32.toNat_inj.1 heq)
      · rw [Increasing.mem_insert, h.mem]
        by_cases hsame : idx'' = idx
        · subst hsame
          have hnone : firstOf b names idx'' = none := by
            rw [Option.eq_none_iff_forall_ne_some]
            exact fun first hfirst => hnew _ ((h.mem _ _).2 hfirst) rfl
          rw [firstOf_append_of_eq hentry, hnone, Option.none_or, Option.some.injEq, Prod.mk.injEq]
          simp [eq_comm]
        · rw [firstOf_append_of_ne (by rw [hentry]; exact fun heq => hsame (Option.some.inj heq).symm)]
          simp [hsame]

theorem collects_foldl (b : RotateFileLoggerBackend L) (names : List Text) :
    Collects b names (names.foldl (RotateFileLoggerBackend.emplaceFile b) []) := by
  induction names using List.reverseRecOn with
  | nil => exact ⟨List.Pairwise.nil, fun _ _ => ⟨nofun, nofun⟩⟩
  | append_singleton names name ih =>
    rw [List.foldl_concat]
    exact ih.emplaceFile name

/-! ### What is removed -/

/-- The files that `CleanLogFile` removes. -/
def removedFiles (o : Outside) (b : RotateFileLoggerBackend L) : List (UInt32 × Text) :=
  let logFiles := (o.listing b.directory.keys).foldl (RotateFileLoggerBackend.emplaceFile b) []
  logFiles.take (logFiles.length - b.options.maxFileNum.toNat)

theorem cleanLogFile_eq (hnum : b.options.maxFileNum ≠ 0) : cleanLogFile o b =
    { b with directory := (removedFiles o b).foldl (fun directory e => directory.erase e.2) b.directory } := if_neg hnum

/-- The indices of the entries of the directory. -/
def indices (b : RotateFileLoggerBackend L) : Finset UInt32 := (b.directory.keys.filterMap (entryIndex b)).toFinset

/-- At least as many indices as files are to be kept are higher. -/
structure IsOld (b : RotateFileLoggerBackend L) (idx : UInt32) : Prop where
  mem : idx ∈ b.indices
  higher : b.options.maxFileNum.toNat ≤ (b.indices.filter fun idx' => idx < idx').card

theorem mem_indices : idx ∈ b.indices ↔ ∃ name ∈ b.directory, entryIndex b name = some idx := by
  simp only [indices, List.mem_toFinset, List.mem_filterMap, AList.mem_keys]

theorem firstOf_eq_some (h : firstOf b names idx = some name) : name ∈ names ∧ entryIndex b name = some idx :=
  ⟨List.mem_of_find?_eq_some h, by simpa using List.find?_some h⟩

variable (hlisting : ∀ names, (o.listing names).Perm names)

include hlisting

theorem mem_listing_iff : name ∈ o.listing b.directory.keys ↔ name ∈ b.directory := by
  rw [(hlisting _).mem_iff, AList.mem_keys]

theorem exists_firstOf (h : idx ∈ b.indices) : ∃ name, firstOf b (o.listing b.directory.keys) idx = some name := by
  obtain ⟨name, hname, hidx⟩ := mem_indices.1 h
  rw [← Option.isSome_iff_exists, firstOf, List.find?_isSome]
  exact ⟨name, (mem_listing_iff hlisting).2 hname, by simpa using hidx⟩

/-- The collected indices are those of the entries, each once. -/
theorem collected_indices (hcollects : Collects b (o.listing b.directory.keys) logFiles) :
    (logFiles.map Prod.fst).Nodup ∧ (logFiles.map Prod.fst).toFinset = b.indices := by
  constructor
  · rw [List.Nodup, List.pairwise_map]
    exact hcollects.increasing.imp fun hlt heq => absurd (congrArg UInt32.toNat heq) hlt.ne
  · ext idx
    rw [List.mem_toFinset, List.mem_map]
    constructor
    · rintro ⟨⟨idx', first⟩, hmem, rfl⟩
      obtain ⟨hfirst, hentry⟩ := firstOf_eq_some ((hcollects.mem _ _).1 hmem)
      exact mem_indices.2 ⟨first, (mem_listing_iff hlisting).1 hfirst, hentry⟩
    · intro hidx
      obtain ⟨first, hfirst⟩ := exists_firstOf hlisting hidx
      exact ⟨_, (hcollects.mem idx first).2 hfirst, rfl⟩

theorem length_removedFiles : (removedFiles o b).length = b.indices.card - b.options.maxFileNum.toNat := by
  obtain ⟨hnodup, heq⟩ := collected_indices hlisting (collects_foldl b (o.listing b.directory.keys))
  rw [removedFiles, List.length_take, Nat.min_eq_left (Nat.sub_le _ _), ← heq, List.toFinset_card_of_nodup hnodup,
    List.length_map]

/-- The first file of each old index is removed. -/
theorem mem_removedFiles : (idx, name) ∈ removedFiles o b ↔
    IsOld b idx ∧ firstOf b (o.listing b.directory.keys) idx = some name := by
  have hcollects := collects_foldl b (o.listing b.directory.keys)
  obtain ⟨hnodup, heq⟩ := collected_indices hlisting hcollects
  rw [removedFiles, hcollects.increasing.mem_take_iff, hcollects.mem]
  generalize (o.listing b.directory.keys).foldl (RotateFileLoggerBackend.emplaceFile b) [] = logFiles at hnodup heq
  have hcount : (logFiles.filter fun e => idx.toNat < e.1.toNat).length =
      (b.indices.filter fun idx' => idx < idx').card := by
    have hfilter : b.indices.filter (fun idx' => idx < idx') =
        ((logFiles.map Prod.fst).filter fun idx' => idx < idx').toFinset := by
      rw [List.toFinset_filter, heq]
      ext idx'
      simp
    rw [hfilter, List.toFinset_card_of_nodup (hnodup.filter _), List.filter_map, List.length_map]
    refine congrArg List.length (List.filter_congr fun e _ => ?_)
    rw [Function.comp_apply, decide_eq_decide, UInt32.lt_iff_toNat_lt]
  dsimp only
  rw [hcount]
  constructor
  · rintro ⟨hfirst, hhigher⟩
    obtain ⟨hmem, hentry⟩ := firstOf_eq_some hfirst
    exact ⟨⟨mem_indices.2 ⟨name, (mem_listing_iff hlisting).1 hmem, hentry⟩, hhigher⟩, hfirst⟩
  · rintro ⟨hold, hfirst⟩
    exact ⟨hfirst, hold.higher⟩

omit hlisting

/-- The base file itself is not collected. -/
theorem entryIndex_baseName : entryIndex b b.baseName = none := by
  unfold entryIndex
  by_cases hplain : Plain b.baseFileName
  · exact (parseRotatedFileIndex_entryPath (slash_not_mem_fileName _) hplain).trans indexOf_baseName
  · exact parseRotatedFileIndex_entryPath_eq_none (slash_not_mem_fileName _) hplain

theorem lookup_foldl_erase (files : List (UInt32 × Text)) (directory : Directory L) (name : Text) :
    (files.foldl (fun directory e => directory.erase e.2) directory).lookup name =
      if name ∈ files.map Prod.snd then none else directory.lookup name := by
  induction files generalizing directory with
  | nil => simp
  | cons e files ih =>
    rw [List.foldl_cons, ih, List.map_cons]
    by_cases hname : name = e.2
    · subst hname
      simp [AList.lookup_erase]
    · refine if_congr ?_ rfl (AList.lookup_erase_ne hname)
      rw [List.mem_cons, or_iff_right hname]

/-- Cleaning up changes the directory only, and leaves the base file. -/
theorem cleanLogFile_base (o : Outside) (b : RotateFileLoggerBackend L) :
    ∃ directory : Directory L, cleanLogFile o b = { b with directory := directory } ∧
      directory.lookup b.baseName = b.directory.lookup b.baseName := by
  by_cases hnum : b.options.maxFileNum = 0
  · exact ⟨b.directory, if_pos hnum, rfl⟩
  · refine ⟨_, cleanLogFile_eq hnum, ?_⟩
    rw [lookup_foldl_erase, if_neg]
    intro hmem
    obtain ⟨⟨idx, name⟩, hremoved, rfl⟩ := List.mem_map.1 hmem
    have hcollected := (collects_foldl b (o.listing b.directory.keys)).mem idx b.baseName
    have hentry := (firstOf_eq_some (hcollected.1 (List.mem_of_mem_take hremoved))).2
    rw [entryIndex_baseName] at hentry
    cases hentry

/-! ### What is promised -/

/-- **Old files are removed**: at most so many rotated files are left, a file that is removed is a rotated file with an
index not above that of any rotated file that is left, and what is left is as it was. -/
structure Cleans (b b' : RotateFileLoggerBackend L) : Prop where
  bounded : b'.rotatedFiles.card ≤ b.options.maxFileNum.toNat
  oldest : ∀ name ∈ b.directory, name ∉ b'.directory → ∃ idx, IsRotatedFile b.baseName name idx ∧
    ∀ name' ∈ b'.directory, ∀ idx', IsRotatedFile b.baseName name' idx' → idx ≤ idx'
  untouched : ∀ name ∈ b'.directory, b'.directory.lookup name = b.directory.lookup name

/-- **Files and indices go together**: there are not more rotated files than are to be kept, or than there are
indices; the first file of an old index is a rotated file; and it is the only one, if another old index is higher. -/
structure Orderly (o : Outside) (b : RotateFileLoggerBackend L) : Prop where
  few : b.rotatedFiles.card ≤ max b.options.maxFileNum.toNat b.indices.card
  first : ∀ idx name, IsOld b idx → firstOf b (o.listing b.directory.keys) idx = some name →
    IsRotatedFile b.baseName name idx
  single : ∀ idx idx', IsOld b idx → IsOld b idx' → idx < idx' → ∀ name ∈ b.directory,
    IsRotatedFile b.baseName name idx → firstOf b (o.listing b.directory.keys) idx = some name

theorem untouched_cleanLogFile (hnum : b.options.maxFileNum ≠ 0) (h : name ∈ (cleanLogFile o b).directory) :
    (cleanLogFile o b).directory.lookup name = b.directory.lookup name := by
  rw [cleanLogFile_eq hnum, ← AList.lookup_isSome, lookup_foldl_erase] at h
  rw [cleanLogFile_eq hnum, lookup_foldl_erase]
  split_ifs at h with hremoved
  · cases h
  · rw [if_neg hremoved]

/-- A rotated file whose index is in use is collected under it. -/
theorem entryIndex_of_old (hnames : ∀ name ∈ b.directory, '/' ∉ name) (hmem : name ∈ b.directory) {idx' : UInt32}
    (hrotated : IsRotatedFile b.baseName name idx) (hold : IsOld b idx') : entryIndex b name = some idx := by
  obtain ⟨name', hmem', hentry'⟩ := mem_indices.1 hold.mem
  rw [entryIndex_of_isRotatedFile hrotated (hnames name hmem), if_pos]
  by_contra hplain
  rw [entryIndex, parseRotatedFileIndex_entryPath_eq_none (hnames name' hmem') hplain] at hentry'
  cases hentry'

section

variable (hlisting : ∀ names, (o.listing names).Perm names) (hnum : b.options.maxFileNum ≠ 0)

include hlisting

theorem mem_map_removedFiles : name ∈ (removedFiles o b).map Prod.snd ↔
    ∃ idx, IsOld b idx ∧ firstOf b (o.listing b.directory.keys) idx = some name := by
  simp only [List.mem_map, Prod.exists, exists_eq_right, mem_removedFiles hlisting]

/-- No file is removed twice. -/
theorem nodup_removedFiles : ((removedFiles o b).map Prod.snd).Nodup := by
  have hincreasing : (removedFiles o b).Pairwise fun e e' => e.1.toNat < e'.1.toNat :=
    List.Pairwise.sublist (List.take_sublist _ _) (collects_foldl b (o.listing b.directory.keys)).increasing
  have hentry : ∀ e ∈ removedFiles o b, entryIndex b e.2 = some e.1 := fun e he =>
    (firstOf_eq_some ((mem_removedFiles hlisting).1 he).2).2
  rw [List.Nodup, List.pairwise_map]
  refine hincreasing.imp_of_mem fun {e e'} he he' hlt heq => ?_
  have hsame : some e.1 = some e'.1 := by rw [← hentry e he, heq, hentry e' he']
  exact absurd (congrArg UInt32.toNat (Option.some.inj hsame)) hlt.ne

include hnum

theorem mem_cleanLogFile : name ∈ (cleanLogFile o b).directory ↔ name ∈ b.directory ∧
    ¬∃ idx, IsOld b idx ∧ firstOf b (o.listing b.directory.keys) idx = some name := by
  rw [← mem_map_removedFiles hlisting, cleanLogFile_eq hnum, ← AList.lookup_isSome, ← AList.lookup_isSome,
    lookup_foldl_erase]
  split_ifs with hmem <;> simp [hmem]

/-- When only rotated files are removed, as many of them are left as there were, less the removed ones. -/
theorem card_rotatedFiles
    (hfirst : ∀ idx name, IsOld b idx → firstOf b (o.listing b.directory.keys) idx = some name →
      IsRotatedFile b.baseName name idx) :
    (cleanLogFile o b).rotatedFiles.card + (b.indices.card - b.options.maxFileNum.toNat) = b.rotatedFiles.card := by
  have hname : (cleanLogFile o b).baseName = b.baseName := by
    rw [cleanLogFile_eq hnum]
    rfl
  have hunion : b.rotatedFiles = (cleanLogFile o b).rotatedFiles ∪ ((removedFiles o b).map Prod.snd).toFinset := by
    ext name
    rw [Finset.mem_union, List.mem_toFinset, mem_map_removedFiles hlisting, mem_rotatedFiles, mem_rotatedFiles,
      mem_cleanLogFile hlisting hnum, hname]
    constructor
    · rintro ⟨hmem, hrotated⟩
      by_cases hremoved : ∃ idx, IsOld b idx ∧ firstOf b (o.listing b.directory.keys) idx = some name
      · exact .inr hremoved
      · exact .inl ⟨⟨hmem, hremoved⟩, hrotated⟩
    · rintro (⟨⟨hmem, -⟩, hrotated⟩ | ⟨idx, hold, hfirst_name⟩)
      · exact ⟨hmem, hrotated⟩
      · exact ⟨(mem_listing_iff hlisting).1 (firstOf_eq_some hfirst_name).1, idx, hfirst idx name hold hfirst_name⟩
  have hdisjoint : Disjoint (cleanLogFile o b).rotatedFiles ((removedFiles o b).map Prod.snd).toFinset := by
    rw [Finset.disjoint_left]
    intro name hleft hremoved
    rw [List.mem_toFinset, mem_map_removedFiles hlisting] at hremoved
    exact ((mem_cleanLogFile hlisting hnum).1 (mem_rotatedFiles.1 hleft).1).2 hremoved
  rw [hunion, Finset.card_union_of_disjoint hdisjoint, List.toFinset_card_of_nodup (nodup_removedFiles hlisting),
    List.length_map, length_removedFiles hlisting]

/-- The first file of an old index is removed. -/
theorem IsOld.gone (h : IsOld b idx) (hfirst : firstOf b (o.listing b.directory.keys) idx = some name) :
    name ∈ b.directory ∧ name ∉ (cleanLogFile o b).directory ∧ entryIndex b name = some idx := by
  obtain ⟨hlisted, hentry⟩ := firstOf_eq_some hfirst
  exact ⟨(mem_listing_iff hlisting).1 hlisted,
    fun hleft => ((mem_cleanLogFile hlisting hnum).1 hleft).2 ⟨idx, h, hfirst⟩, hentry⟩

section

variable (hnames : ∀ name ∈ b.directory, '/' ∉ name)

include hnames

/-- When cleaning up is right, what is removed is a rotated file, and none that is left has a lower index. -/
theorem Cleans.removed (h : Cleans b (cleanLogFile o b)) (hold : IsOld b idx)
    (hfirst : firstOf b (o.listing b.directory.keys) idx = some name) : IsRotatedFile b.baseName name idx ∧
      ∀ name' ∈ (cleanLogFile o b).directory, ∀ idx', IsRotatedFile b.baseName name' idx' → idx ≤ idx' := by
  obtain ⟨hmem, hgone, hentry⟩ := hold.gone hlisting hnum hfirst
  obtain ⟨idx', hrotated, hle⟩ := h.oldest name hmem hgone
  rw [entryIndex_of_old hnames hmem hrotated hold] at hentry
  obtain rfl := Option.some.inj hentry
  exact ⟨hrotated, hle⟩

/-- A rotated file of an old index is left if it is not the first one. -/
theorem IsOld.left (h : IsOld b idx) (hmem : name ∈ b.directory) (hrotated : IsRotatedFile b.baseName name idx)
    (hfirst : firstOf b (o.listing b.directory.keys) idx ≠ some name) : name ∈ (cleanLogFile o b).directory := by
  refine (mem_cleanLogFile hlisting hnum).2 ⟨hmem, ?_⟩
  rintro ⟨idx', -, hfirst'⟩
  have hentry := (firstOf_eq_some hfirst').2
  rw [entryIndex_of_old hnames hmem hrotated h] at hentry
  obtain rfl := Option.some.inj hentry
  exact hfirst hfirst'

/-- Where files and indices go together, no rotated file with a lower index than that of a removed one is left. -/
theorem Orderly.le_of_left (h : Orderly o b) (hold : IsOld b idx) (hleft : name ∈ (cleanLogFile o b).directory)
    {idx' : UInt32} (hrotated : IsRotatedFile b.baseName name idx') : idx ≤ idx' := by
  obtain ⟨hmem, hkept⟩ := (mem_cleanLogFile hlisting hnum).1 hleft
  by_contra hnot
  have hlt : idx' < idx := UInt32.not_le.1 hnot
  have hold' : IsOld b idx' := by
    refine ⟨mem_indices.2 ⟨name, hmem, entryIndex_of_old hnames hmem hrotated hold⟩, hold.higher.trans ?_⟩
    exact Finset.card_le_card (Finset.monotone_filter_right _ fun _ _ h => UInt32.lt_trans hlt h)
  exact hkept ⟨idx', hold', h.single idx' idx hold' hold hlt name hmem hrotated⟩

end

end

/-- **Cleaning up is right** exactly where files and indices go together. -/
theorem cleans_iff (hlisting : ∀ names, (o.listing names).Perm names) (hnum : b.options.maxFileNum ≠ 0)
    (hnames : ∀ name ∈ b.directory, '/' ∉ name) : Cleans b (cleanLogFile o b) ↔ Orderly o b := by
  constructor
  · intro h
    have hfirst : ∀ idx name, IsOld b idx → firstOf b (o.listing b.directory.keys) idx = some name →
        IsRotatedFile b.baseName name idx :=
      fun _ _ hold hfirst_name => (h.removed hlisting hnum hnames hold hfirst_name).1
    refine ⟨?_, hfirst, fun idx idx' hold hold' hlt name hmem hrotated => ?_⟩
    · have hcard := card_rotatedFiles hlisting hnum hfirst
      have hbounded := h.bounded
      omega
    · -- one that is not the first is left, and the index of a removed one is higher
      by_contra hfirst_ne
      have hleft := hold.left hlisting hnum hnames hmem hrotated hfirst_ne
      obtain ⟨removed, hremoved⟩ := exists_firstOf hlisting hold'.mem
      obtain ⟨-, hle⟩ := h.removed hlisting hnum hnames hold' hremoved
      exact absurd hlt (UInt32.not_lt.2 (hle name hleft idx hrotated))
  · intro h
    refine ⟨?_, fun name hmem hgone => ?_, fun name hmem => untouched_cleanLogFile hnum hmem⟩
    · have hcard := card_rotatedFiles hlisting hnum h.first
      have hfew := h.few
      omega
    · rw [mem_cleanLogFile hlisting hnum, not_and, not_not] at hgone
      obtain ⟨idx, hold, hfirst⟩ := hgone hmem
      exact ⟨idx, h.first idx name hold hfirst, fun _ hleft _ hrotated =>
        h.le_of_left hlisting hnum hnames hold hleft hrotated⟩

/-- The backend that keeps one rotated file, with some empty files in its directory. -/
def oneKept (names : List String) : RotateFileLoggerBackend ℕ where
  options := { maxFileNum := 1 }
  compressionMode := .gzip
  baseFileName := join ['.', '/', 'l', 'o', 'g'] ['a', 'i', 'm', 'r', 't', '.', 'l', 'o', 'g']
  directory := names.foldl (fun directory name => directory.insert name.toList { lines := [] }) ∅

def twoIndices : RotateFileLoggerBackend ℕ := oneKept ["aimrt.log_1", "aimrt.log_2"]

def oneIndex : RotateFileLoggerBackend ℕ := oneKept ["aimrt.log_1", "aimrt.log_1.gz"]

def listedAsIs : Outside := ⟨id, ⟨124, 0, 2, 3, 4, 5⟩, true, true, true⟩

theorem isRotatedFile_first : IsRotatedFile (fileName ['a', 'i', 'm', 'r', 't', '.', 'l', 'o', 'g'])
    "aimrt.log_1".toList 1 :=
  ⟨['1'], [], [], by decide, by decide, by decide, .inl rfl, .inl rfl⟩

theorem cleans_two : Cleans twoIndices
    (cleanLogFile listedAsIs twoIndices) := by
  have hindices : twoIndices.indices = {1, 2} := by decide +kernel
  have hold : ∀ idx, IsOld twoIndices idx → idx = 1 := by
    rintro idx ⟨hmem, hhigher⟩
    rw [hindices, Finset.mem_insert, Finset.mem_singleton] at hmem
    rcases hmem with rfl | rfl
    · rfl
    · rw [hindices] at hhigher
      exact absurd hhigher (by decide)
  have hfirst : firstOf twoIndices (listedAsIs.listing twoIndices.directory.keys) 1 = some "aimrt.log_1".toList := by
    decide +kernel
  have hnames : ∀ name ∈ twoIndices.directory.keys, '/' ∉ name := by decide +kernel
  refine (cleans_iff (fun names => List.Perm.refl names) (by decide) hnames).2 ⟨?_, fun idx name hidx hname => ?_,
    fun idx idx' hidx hidx' hlt => ?_⟩
  · have hle : twoIndices.rotatedFiles.card ≤ twoIndices.directory.keys.toFinset.card :=
      Finset.card_le_card fun name hname => by
        rw [List.mem_toFinset]
        exact AList.mem_keys.1 (mem_rotatedFiles.1 hname).1
    refine hle.trans ?_
    rw [hindices]
    decide +kernel
  · obtain rfl := hold idx hidx
    rw [hfirst] at hname
    rw [← Option.some.inj hname]
    exact isRotatedFile_first
  · rw [hold idx hidx, hold idx' hidx'] at hlt
    exact absurd hlt (UInt32.lt_irrefl 1)

/-- A compression that was interrupted has left two files of one index. -/
theorem not_cleans : ¬∀ (o : Outside) (b : RotateFileLoggerBackend ℕ), (∀ names, (o.listing names).Perm names) →
    b.options.maxFileNum ≠ 0 → (∀ name ∈ b.directory, '/' ∉ name) → Cleans b (cleanLogFile o b) := by
  intro h
  have hnames : ∀ name ∈ oneIndex.directory.keys, '/' ∉ name := by decide +kernel
  have hbounded := (h listedAsIs oneIndex (fun names => List.Perm.refl names) (by decide) hnames).bounded
  have hboth : {"aimrt.log_1".toList, "aimrt.log_1.gz".toList} ⊆ (cleanLogFile listedAsIs oneIndex).rotatedFiles := by
    intro name hname
    rw [mem_rotatedFiles, mem_cleanLogFile (fun names => List.Perm.refl names) (by decide)]
    have hold : ∀ idx, ¬IsOld oneIndex idx := by
      rintro idx ⟨hmem, hhigher⟩
      have hindices : oneIndex.indices = {1} := by decide +kernel
      rw [hindices, Finset.mem_singleton] at hmem
      rw [hmem, hindices] at hhigher
      exact absurd hhigher (by decide)
    have hkept : ¬∃ idx, IsOld oneIndex idx ∧
        firstOf oneIndex (listedAsIs.listing oneIndex.directory.keys) idx = some name :=
      fun ⟨idx, hidx, _⟩ => hold idx hidx
    rw [Finset.mem_insert, Finset.mem_singleton] at hname
    rcases hname with rfl | rfl
    · exact ⟨⟨by decide +kernel, hkept⟩, 1, isRotatedFile_first⟩
    · exact ⟨⟨by decide +kernel, hkept⟩, 1, ['1'], [], kGzipFileExtension, by decide, by decide, by decide, .inl rfl,
        .inr ⟨.gzip, rfl⟩⟩
  have htwo := Finset.card_le_card hboth
  exact absurd (htwo.trans hbounded) (by decide)

end RotateFileLoggerBackend

end AimRT.Logger
