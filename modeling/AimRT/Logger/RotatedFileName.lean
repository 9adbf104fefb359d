import Mathlib.Data.List.DropRight
import Mathlib.Tactic

/-!
# The names of rotated log files

A rotated log file is named `<base>_<index>[_<timestamp>][<compressed file extension>]`.  The index is read back from
the name, and the name of the next file has an index above those of all entries of the directory.

The names are compared as they are written.  The entries that the directory yields begin with the base file name when
they should only if the base file name is the one that its directory and its file name make (`Plain`).
-/

namespace AimRT.Logger

abbrev Text := List Char

/-! ### Paths -/

/-- `operator/` of paths: a path that begins with a slash takes the place of the other one. -/
def join (dir name : Text) : Text :=
  if name.head? = some '/' then name
  else if dir = [] ∨ dir.getLast? = some '/' then dir ++ name
  else dir ++ '/' :: name

/-- What is behind the last slash. -/
def fileName (path : Text) : Text := path.rtakeWhile (· ≠ '/')

/-- `parent_path`: the slashes in front of the file name are left out, unless there is nothing else. -/
def parentPath (path : Text) : Text :=
  let dir := path.rdropWhile (· ≠ '/')
  if dir ≠ [] ∧ dir.rdropWhile (· = '/') = [] then ['/'] else dir.rdropWhile (· = '/')

/-- The path of an entry of the directory in which a file is. -/
def entryPath (baseFileName name : Text) : Text := join (parentPath baseFileName) name

/-- The directory and the file name make the path. -/
def Plain (path : Text) : Prop := entryPath path (fileName path) = path

instance (path : Text) : Decidable (Plain path) := inferInstanceAs (Decidable (_ = _))

/-! ### Indices -/

def kGzipFileExtension : Text := ['.', 'g', 'z']

def kZstdFileExtension : Text := ['.', 'z', 's', 't']

inductive CompressionMode where
  | none
  | gzip
  | zstd
  deriving DecidableEq, Repr

/-- `GetCompressedFileExtension`. -/
def getCompressedFileExtension (mode : CompressionMode) : Text :=
  if mode = .gzip then kGzipFileExtension else kZstdFileExtension

/-- `IsDigitStr`. -/
def isDigitStr (s : Text) : Bool := !s.isEmpty && s.all Char.isDigit

/-- `std::from_chars` of digits. -/
def fromChars (digits : Text) : Option UInt32 :=
  if Nat.ofDigitChars 10 digits 0 < 2 ^ 32 then some (UInt32.ofNat (Nat.ofDigitChars 10 digits 0)) else none

/-- One of the extensions is removed. -/
def removeExtension (name : Text) : Text :=
  if kGzipFileExtension.isSuffixOf name then name.rdrop kGzipFileExtension.length
  else if kZstdFileExtension.isSuffixOf name then name.rdrop kZstdFileExtension.length
  else name

/-- `ParseRotatedFileIndex`. -/
def parseRotatedFileIndex (name baseFileName : Text) : Option UInt32 :=
  if name.length ≤ baseFileName.length + 1 then none
  else if baseFileName.isPrefixOf name = false then none
  else if name[baseFileName.length]? ≠ some '_' then none
  else
    let suffix := ((removeExtension name).drop (baseFileName.length + 1)).takeWhile (· ≠ '_')
    if isDigitStr suffix then fromChars suffix else none

/-- An entry of the loop of `GetNextIndex`. -/
def raiseIndex (baseFileName : Text) (idx : UInt32) (name : Text) : UInt32 :=
  match parseRotatedFileIndex (entryPath baseFileName name) baseFileName with
  | none => idx
  | some curIdx => if idx ≤ curIdx then curIdx + 1 else idx

/-- `GetNextIndex` with the names of the entries. -/
def getNextIndex (baseFileName : Text) (names : List Text) : UInt32 := names.foldl (raiseIndex baseFileName) 1

/-! ### Timestamps -/

/-- The fields of `struct tm` that are used. -/
structure Tm where
  year : ℕ
  mon : ℕ
  mday : ℕ
  hour : ℕ
  min : ℕ
  sec : ℕ
  deriving DecidableEq, Repr

/-- `%0nd` of a number below `10 ^ n`. -/
def padded : ℕ → ℕ → Text
  | 0, _ => []
  | n + 1, k => padded n (k / 10) ++ [Nat.digitChar (k % 10)]

/-- `_%04d%02d%02d_%02d%02d%02d` of a time. -/
def timeSuffix (tm : Tm) : Text :=
  '_' :: padded 4 ((tm.year + 1900) % 10000) ++ padded 2 ((tm.mon + 1) % 100) ++ padded 2 (tm.mday % 100) ++
    '_' :: padded 2 (tm.hour % 100) ++ padded 2 (tm.min % 100) ++ padded 2 (tm.sec % 100)

/-- What `Rename` puts behind the base file name. -/
def rotatedSuffix (suffixWithTimestamp : Bool) (idx : UInt32) (tm : Tm) : Text :=
  '_' :: (Nat.toDigits 10 idx.toNat ++ if suffixWithTimestamp then timeSuffix tm else [])

/-! ### What is read back -/

/-- The index in what is behind the base file name and the underscore. -/
def suffixIndex (suffix : Text) : Option UInt32 :=
  let digits := (removeExtension suffix).takeWhile (· ≠ '_')
  if isDigitStr digits then fromChars digits else none

variable {base name suffix : Text}

theorem suffix_append_iff {ext : Text} (hext : '_' ∉ ext) : ext <:+ base ++ '_' :: suffix ↔ ext <:+ suffix := by
  refine ⟨fun h => ?_, fun h => h.trans ((List.suffix_cons _ _).trans (List.suffix_append _ _))⟩
  obtain hsuffix | hsuffix := List.suffix_or_suffix_of_suffix h (List.suffix_append base ('_' :: suffix))
  · obtain rfl | hsuffix := List.suffix_cons_iff.1 hsuffix
    · exact absurd List.mem_cons_self hext
    · exact hsuffix
  · exact absurd (hsuffix.subset List.mem_cons_self) hext

theorem rdrop_append_length (s ext : Text) : (s ++ ext).rdrop ext.length = s := by
  simp [List.rdrop]

/-- The extension is removed from what is behind the underscore. -/
theorem removeExtension_append : removeExtension (base ++ '_' :: suffix) = base ++ '_' :: removeExtension suffix := by
  have hends {ext : Text} (hext : '_' ∉ ext) : ext.isSuffixOf (base ++ '_' :: suffix) = ext.isSuffixOf suffix := by
    rw [Bool.eq_iff_iff, List.isSuffixOf_iff_suffix, List.isSuffixOf_iff_suffix, suffix_append_iff hext]
  have hdrop {ext : Text} (h : ext.isSuffixOf suffix = true) :
      (base ++ '_' :: suffix).rdrop ext.length = base ++ '_' :: suffix.rdrop ext.length := by
    obtain ⟨rest, rfl⟩ := List.isSuffixOf_iff_suffix.1 h
    have hwhole : base ++ '_' :: (rest ++ ext) = (base ++ '_' :: rest) ++ ext := by simp
    rw [hwhole, rdrop_append_length, rdrop_append_length]
  unfold removeExtension
  rw [hends (by decide), hends (by decide)]
  split_ifs with hgzip hzstd
  · exact hdrop hgzip
  · exact hdrop hzstd
  · rfl

theorem parseRotatedFileIndex_append : parseRotatedFileIndex (base ++ '_' :: suffix) base = suffixIndex suffix := by
  have hprefix : base.isPrefixOf (base ++ '_' :: suffix) = true := by
    rw [List.isPrefixOf_iff_prefix]
    exact List.prefix_append _ _
  have hat : (base ++ '_' :: suffix)[base.length]? = some '_' := by simp
  have hdrop : (base ++ '_' :: removeExtension suffix).drop (base.length + 1) = removeExtension suffix := by
    simp [List.drop_append]
  unfold parseRotatedFileIndex
  rw [removeExtension_append, hdrop, hprefix, hat]
  cases suffix with
  | nil => rw [if_pos (by simp)]; rfl
  | cons c suffix =>
    rw [if_neg (by simp), if_neg (by decide), if_neg (by simp)]
    rfl

theorem exists_of_parseRotatedFileIndex {idx : UInt32} (h : parseRotatedFileIndex name base = some idx) :
    ∃ suffix, name = base ++ '_' :: suffix := by
  unfold parseRotatedFileIndex at h
  split_ifs at h with hlength hprefix hat
  rw [Bool.not_eq_false, List.isPrefixOf_iff_prefix] at hprefix
  obtain ⟨rest, rfl⟩ := hprefix
  rw [not_not, List.getElem?_append_right le_rfl, Nat.sub_self] at hat
  cases rest with
  | nil => cases hat
  | cons c rest =>
    rw [List.getElem?_cons_zero, Option.some.injEq] at hat
    exact ⟨rest, by rw [hat]⟩

/-! ### Names that are written -/

theorem isDigitStr_toDigits (n : ℕ) : isDigitStr (Nat.toDigits 10 n) = true := by
  rw [isDigitStr, Bool.and_eq_true, List.all_eq_true]
  refine ⟨by simp [Nat.toDigits_ne_nil], fun c hc => ?_⟩
  exact Nat.isDigit_of_mem_toDigits (by decide) (by decide) hc

theorem fromChars_toDigits (idx : UInt32) : fromChars (Nat.toDigits 10 idx.toNat) = some idx := by
  rw [fromChars, Nat.ofDigitChars_ten_toDigits, if_pos idx.toNat_lt, UInt32.ofNat_toNat]

/-- A name that ends in a digit has none of the extensions. -/
theorem removeExtension_of_getLast? {s : Text} {c : Char} (hlast : s.getLast? = some c) (hc : c.isDigit = true) :
    removeExtension s = s := by
  have hends {ext : Text} {d : Char} (hext : ext.getLast? = some d) (hd : d.isDigit = false) :
      ext.isSuffixOf s = false := by
    rw [Bool.eq_false_iff, ne_eq, List.isSuffixOf_iff_suffix]
    rintro ⟨rest, rfl⟩
    rw [List.getLast?_append, hext, Option.some_or, Option.some.injEq] at hlast
    rw [hlast, hc] at hd
    cases hd
  unfold removeExtension
  rw [hends (d := 'z') rfl rfl, hends (d := 't') rfl rfl]
  rfl

theorem getLast?_padded (n k : ℕ) : (padded (n + 1) k).getLast? = some (Nat.digitChar (k % 10)) := by
  simp [padded]

/-- What is behind the underscore ends in a digit. -/
theorem getLast?_rotated (suffixWithTimestamp : Bool) (idx : UInt32) (tm : Tm) :
    ∃ c : Char, c.isDigit = true ∧
      (Nat.toDigits 10 idx.toNat ++ if suffixWithTimestamp then timeSuffix tm else []).getLast? = some c := by
  cases suffixWithTimestamp with
  | true =>
    refine ⟨Nat.digitChar (tm.sec % 100 % 10), ?_, ?_⟩
    · rw [Nat.isDigit_digitChar, decide_eq_true_eq]
      exact Nat.mod_lt _ (by decide)
    · rw [if_pos rfl, timeSuffix, List.getLast?_append, List.getLast?_append, getLast?_padded]
      rfl
  | false =>
    rw [if_neg (by decide), List.append_nil, List.getLast?_eq_some_getLast Nat.toDigits_ne_nil]
    exact ⟨_, Nat.isDigit_of_mem_toDigits (by decide) (by decide) (List.getLast_mem Nat.toDigits_ne_nil), rfl⟩

/-- The index is the one that was written. -/
theorem suffixIndex_of_removeExtension {suffixWithTimestamp : Bool} {idx : UInt32} {tm : Tm}
    (h : removeExtension suffix = Nat.toDigits 10 idx.toNat ++ if suffixWithTimestamp then timeSuffix tm else []) :
    suffixIndex suffix = some idx := by
  have hdigits : (removeExtension suffix).takeWhile (· ≠ '_') = Nat.toDigits 10 idx.toNat := by
    have hall : ∀ c ∈ Nat.toDigits 10 idx.toNat, decide (c ≠ '_') = true := by
      intro c hc
      rw [decide_eq_true_eq]
      rintro rfl
      exact Nat.underscore_not_in_toDigits hc
    rw [h, List.takeWhile_append_of_pos hall]
    cases suffixWithTimestamp <;> simp [timeSuffix]
  unfold suffixIndex
  rw [hdigits]
  simp [isDigitStr_toDigits, fromChars_toDigits]

theorem isDigit_of_mem_padded {n k : ℕ} {c : Char} (h : c ∈ padded n k) : c.isDigit = true := by
  induction n generalizing k with
  | zero => cases h
  | succ n ih =>
    rcases List.mem_append.1 h with hfront | hlast
    · exact ih hfront
    · rw [List.mem_singleton.1 hlast, Nat.isDigit_digitChar, decide_eq_true_eq]
      exact Nat.mod_lt _ (by decide)

theorem slash_not_mem_rotatedSuffix (suffixWithTimestamp : Bool) (idx : UInt32) (tm : Tm) :
    '/' ∉ rotatedSuffix suffixWithTimestamp idx tm := by
  have hdigits : '/' ∉ Nat.toDigits 10 idx.toNat := fun h =>
    absurd (Nat.isDigit_of_mem_toDigits (by decide) (by decide) h) (by decide)
  have hpadded (n k : ℕ) : '/' ∉ padded n k := fun h => absurd (isDigit_of_mem_padded h) (by decide)
  cases suffixWithTimestamp <;> simp [rotatedSuffix, timeSuffix, hdigits, hpadded]

theorem slash_not_mem_getCompressedFileExtension (mode : CompressionMode) : '/' ∉ getCompressedFileExtension mode := by
  cases mode <;> decide

theorem removeExtension_append_extension (s : Text) (mode : CompressionMode) :
    removeExtension (s ++ getCompressedFileExtension mode) = s := by
  have hgzip : removeExtension (s ++ kGzipFileExtension) = s := by
    rw [removeExtension, if_pos (List.isSuffixOf_iff_suffix.2 (List.suffix_append _ _)), rdrop_append_length]
  have hzstd : removeExtension (s ++ kZstdFileExtension) = s := by
    have hnot : kGzipFileExtension.isSuffixOf (s ++ kZstdFileExtension) = false := by
      rw [Bool.eq_false_iff, ne_eq, List.isSuffixOf_iff_suffix]
      rintro ⟨rest, heq⟩
      have hlast := congrArg List.getLast? heq
      rw [List.getLast?_append, List.getLast?_append] at hlast
      cases hlast
    rw [removeExtension, hnot, if_neg (by decide), if_pos (List.isSuffixOf_iff_suffix.2 (List.suffix_append _ _)),
      rdrop_append_length]
  unfold getCompressedFileExtension
  split_ifs
  · exact hgzip
  · exact hzstd

/-- **The index of a rotated file is read back from its name**, also from the name of the compressed file. -/
theorem parseRotatedFileIndex_rotated (base : Text) (suffixWithTimestamp : Bool) (idx : UInt32) (tm : Tm) :
    parseRotatedFileIndex (base ++ rotatedSuffix suffixWithTimestamp idx tm) base = some idx := by
  obtain ⟨c, hc, hlast⟩ := getLast?_rotated suffixWithTimestamp idx tm
  rw [rotatedSuffix, parseRotatedFileIndex_append]
  exact suffixIndex_of_removeExtension (removeExtension_of_getLast? hlast hc)

theorem parseRotatedFileIndex_compressed (base : Text) (suffixWithTimestamp : Bool) (idx : UInt32) (tm : Tm)
    (mode : CompressionMode) :
    parseRotatedFileIndex (base ++ rotatedSuffix suffixWithTimestamp idx tm ++ getCompressedFileExtension mode) base =
      some idx := by
  rw [rotatedSuffix, List.append_assoc, List.cons_append, parseRotatedFileIndex_append]
  exact suffixIndex_of_removeExtension (removeExtension_append_extension _ mode)

/-! ### Entries -/

/-- The path of the directory with a slash behind it. -/
def dirPath (path : Text) : Text := join (parentPath path) []

theorem join_eq {dir name : Text} (h : '/' ∉ name) : join dir name = join dir [] ++ name := by
  have hhead : name.head? ≠ some '/' := fun heq => h (List.mem_of_head? heq)
  have hnil : ([] : Text).head? ≠ some '/' := by decide
  unfold join
  rw [if_neg hhead, if_neg hnil]
  split_ifs <;> simp

theorem entryPath_eq (h : '/' ∉ name) : entryPath base name = dirPath base ++ name := join_eq h

theorem slash_not_mem_fileName (path : Text) : '/' ∉ fileName path := by
  intro hmem
  have hne := List.mem_rtakeWhile_imp hmem
  simp at hne

theorem plain_iff (path : Text) : Plain path ↔ dirPath path ++ fileName path = path := by
  rw [Plain, entryPath_eq (slash_not_mem_fileName path)]

/-- What is in front of the file name ends with a slash. -/
theorem mem_of_rdropWhile_append {path front rest : Text} (h : path.rdropWhile (· ≠ '/') = front ++ rest)
    (hrest : rest ≠ []) : '/' ∈ rest := by
  have hne : path.rdropWhile (· ≠ '/') ≠ [] := by
    rw [h]
    exact List.append_ne_nil_of_right_ne_nil _ hrest
  have hlast := List.rdropWhile_last_not _ path hne
  have hget : (path.rdropWhile (· ≠ '/')).getLast hne = rest.getLast hrest := by
    simp only [h]
    exact List.getLast_append_of_right_ne_nil _ _ hrest
  rw [hget, decide_eq_true_eq, not_not] at hlast
  rw [← hlast]
  exact List.getLast_mem hrest

/-- What is in front of the file name begins with the path of the directory. -/
theorem dirPath_prefix_rdropWhile (path : Text) : dirPath path <+: path.rdropWhile (· ≠ '/') := by
  unfold dirPath parentPath
  dsimp only
  generalize hdir : path.rdropWhile (· ≠ '/') = dir
  have hsplit : dir.rdropWhile (· = '/') ++ dir.rtakeWhile (· = '/') = dir := List.rdropWhile_append_rtakeWhile
  have hslashes : dir.rtakeWhile (· = '/') ≠ [] → ['/'] <+: dir.rtakeWhile (· = '/') := by
    intro hne
    obtain ⟨c, rest, hcons⟩ := List.exists_cons_of_ne_nil hne
    have hmem : c ∈ dir.rtakeWhile (· = '/') := by
      rw [hcons]
      exact List.mem_cons_self
    have hc := List.mem_rtakeWhile_imp hmem
    rw [hcons, of_decide_eq_true hc]
    exact ⟨rest, rfl⟩
  generalize dir.rtakeWhile (· = '/') = slashes at hsplit hslashes
  split_ifs with hroot
  · rw [hroot.2, List.nil_append] at hsplit
    exact hsplit ▸ hslashes (hsplit ▸ hroot.1)
  · rcases List.eq_nil_or_concat (dir.rdropWhile (· = '/')) with hnil | ⟨front, c, hconcat⟩
    · rw [hnil]
      exact List.nil_prefix
    · have hc : c ≠ '/' := by
        have hne : dir.rdropWhile (· = '/') ≠ [] := by simp [hconcat]
        have hlast := List.rdropWhile_last_not _ dir hne
        simpa [hconcat] using hlast
      have hjoin : join (dir.rdropWhile (· = '/')) [] = dir.rdropWhile (· = '/') ++ ['/'] := by
        simp [join, hconcat, hc]
      have hne : slashes ≠ [] := by
        rintro rfl
        rw [List.append_nil, hconcat] at hsplit
        rw [← hsplit, List.concat_eq_append] at hdir
        have hmem := mem_of_rdropWhile_append hdir (List.cons_ne_nil _ _)
        exact hc (List.mem_singleton.1 hmem).symm
      rw [hjoin]
      conv_rhs => rw [← hsplit]
      exact (List.prefix_append_right_inj _).2 (hslashes hne)

/-- The index of an entry is the one of its name when the base file name is the path of an entry, too. -/
theorem parseRotatedFileIndex_entryPath (h : '/' ∉ name) (hplain : Plain base) :
    parseRotatedFileIndex (entryPath base name) base = parseRotatedFileIndex name (fileName base) := by
  rw [plain_iff] at hplain
  by_cases hname : ∃ suffix, name = fileName base ++ '_' :: suffix
  · obtain ⟨suffix, rfl⟩ := hname
    rw [entryPath_eq h, ← List.append_assoc, hplain, parseRotatedFileIndex_append, parseRotatedFileIndex_append]
  · have hleft : parseRotatedFileIndex (entryPath base name) base = none := by
      rw [Option.eq_none_iff_forall_ne_some]
      intro idx hidx
      obtain ⟨suffix, hsuffix⟩ := exists_of_parseRotatedFileIndex hidx
      rw [entryPath_eq h] at hsuffix
      conv_rhs at hsuffix => rw [← hplain, List.append_assoc]
      exact hname ⟨suffix, List.append_cancel_left hsuffix⟩
    have hright : parseRotatedFileIndex name (fileName base) = none := by
      rw [Option.eq_none_iff_forall_ne_some]
      exact fun idx hidx => hname (exists_of_parseRotatedFileIndex hidx)
    rw [hleft, hright]

/-- Otherwise no entry has an index. -/
theorem parseRotatedFileIndex_entryPath_eq_none (h : '/' ∉ name) (hplain : ¬Plain base) :
    parseRotatedFileIndex (entryPath base name) base = none := by
  rw [Option.eq_none_iff_forall_ne_some]
  intro idx hidx
  obtain ⟨suffix, hsuffix⟩ := exists_of_parseRotatedFileIndex hidx
  obtain ⟨rest, hrest⟩ := dirPath_prefix_rdropWhile base
  have hbase : dirPath base ++ (rest ++ fileName base) = base := by
    rw [← List.append_assoc, hrest]
    exact List.rdropWhile_append_rtakeWhile
  have hname : name = (rest ++ fileName base) ++ '_' :: suffix := by
    rw [entryPath_eq h] at hsuffix
    conv_rhs at hsuffix => rw [← hbase, List.append_assoc]
    exact List.append_cancel_left hsuffix
  have hnil : rest = [] := by
    by_contra hne
    have hslash := mem_of_rdropWhile_append hrest.symm hne
    rw [hname, List.append_assoc] at h
    exact h (List.mem_append_left _ hslash)
  rw [hnil, List.nil_append] at hbase
  exact hplain ((plain_iff base).2 hbase)

/-! ### The next index -/

/-- The last index of the type; behind it the indices begin with zero again. -/
def maxIndex : UInt32 := 4294967295

theorem raiseIndex_spec (hlast : parseRotatedFileIndex (entryPath base name) base ≠ some maxIndex) (idx : UInt32) :
    idx ≤ raiseIndex base idx name ∧
      ∀ curIdx, parseRotatedFileIndex (entryPath base name) base = some curIdx → curIdx < raiseIndex base idx name := by
  unfold raiseIndex
  cases hidx : parseRotatedFileIndex (entryPath base name) base with
  | none => exact ⟨UInt32.le_refl _, nofun⟩
  | some curIdx =>
    have hlt : curIdx < curIdx + 1 := by
      have hne : curIdx ≠ maxIndex := fun heq => hlast (by rw [hidx, heq])
      rw [ne_eq, ← UInt32.toNat_inj] at hne
      have hmax : maxIndex.toNat = 4294967295 := rfl
      have hbound := curIdx.toNat_lt
      rw [UInt32.lt_iff_toNat_lt, UInt32.toNat_add, UInt32.toNat_one]
      omega
    dsimp only
    split_ifs with hle
    · refine ⟨UInt32.le_trans hle (UInt32.le_of_lt hlt), fun curIdx' heq => ?_⟩
      rw [← Option.some.inj heq]
      exact hlt
    · refine ⟨UInt32.le_refl _, fun curIdx' heq => ?_⟩
      rw [← Option.some.inj heq]
      exact UInt32.not_le.1 hle

theorem le_foldl_raiseIndex {names : List Text}
    (hlast : ∀ name ∈ names, parseRotatedFileIndex (entryPath base name) base ≠ some maxIndex) (idx : UInt32) :
    idx ≤ names.foldl (raiseIndex base) idx := by
  induction names generalizing idx with
  | nil => exact UInt32.le_refl idx
  | cons name names ih =>
    have hfirst := (raiseIndex_spec (hlast name List.mem_cons_self) idx).1
    exact UInt32.le_trans hfirst (ih (fun name' hname' => hlast name' (List.mem_cons_of_mem _ hname')) _)

/-- **The next index is above all indices** when none of them is the last one of the type. -/
theorem lt_getNextIndex {names : List Text}
    (hlast : ∀ name ∈ names, parseRotatedFileIndex (entryPath base name) base ≠ some maxIndex) (hname : name ∈ names)
    {idx : UInt32} (hidx : parseRotatedFileIndex (entryPath base name) base = some idx) :
    idx < getNextIndex base names := by
  obtain ⟨front, behind, rfl⟩ := List.append_of_mem hname
  rw [getNextIndex, List.foldl_append, List.foldl_cons]
  have hraised := (raiseIndex_spec (hlast name hname) (front.foldl (raiseIndex base) 1)).2 idx hidx
  exact UInt32.lt_of_lt_of_le hraised (le_foldl_raiseIndex (fun name' hname' =>
    hlast name' (List.mem_append_right _ (List.mem_cons_of_mem _ hname'))) _)

theorem getNextIndex_of_forall_eq_none {names : List Text}
    (h : ∀ name ∈ names, parseRotatedFileIndex (entryPath base name) base = none) : getNextIndex base names = 1 := by
  have hall : ∀ idx, names.foldl (raiseIndex base) idx = idx := by
    intro idx
    induction names with
    | nil => rfl
    | cons name names ih =>
      rw [List.foldl_cons, raiseIndex, h name List.mem_cons_self]
      exact ih fun name hname => h name (List.mem_cons_of_mem _ hname)
  exact hall 1

end AimRT.Logger
