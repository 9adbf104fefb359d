import AimRT.Lib.Run
import AimRT.Lib.Trace
import AimRT.RecordPlayback.RecordWrites

/-!
# The rotation of files

When a file is left for a new one in the same folder, the name of the new one is made of the second of a
timestamp.  As long as it is not the name of a file that is listed, the names are distinct, a file that holds
records is not emptied by an opening, and the file that the rule on their number removes is another one than the
file just opened.  All the files of the folder that hold records are listed (`Listed.held`), which is why the
list tells enough.

A name that is listed breaks this at once: the file is listed twice, or removed when it was just opened.
-/

namespace AimRT.RecordPlayback.RecordAction

open Lib.Run Lib.Trace

variable {D F : Type}

/-! ### What the files hold -/

/-- What the files hold after an event: `open` creates a file or empties it, and a folder that is created is
empty. -/
def holdStep (held : Path → List (Message D)) : Event D → Path → List (Message D)
  | .created folder => fun path => if path.folder = folder then [] else held path
  | .opened path _ true => Function.update held path []
  | .write (some path) _ _ msg true => Function.update held path (held path ++ [msg])
  | .removed path _ => Function.update held path []
  | _ => held

/-- The messages that a file holds after a log. -/
def held (log : List (Event D)) : Path → List (Message D) := log.foldl holdStep fun _ => []

theorem held_append_singleton (log : List (Event D)) (e : Event D) : held (log ++ [e]) = holdStep (held log) e := by
  rw [held, List.foldl_append]
  rfl

section Held

variable (log : List (Event D)) (path : Path)

theorem held_opened (timestamp : UInt64) :
    held (log ++ [Event.opened path timestamp true]) = Function.update (held log) path [] :=
  held_append_singleton log _

theorem held_removed (listed : List FileMeta) :
    held (log ++ [Event.removed path listed]) = Function.update (held log) path [] :=
  held_append_singleton log _

theorem held_created (folder : String) (name : String) : held (log ++ [Event.created folder]) ⟨folder, name⟩ = [] := by
  rw [held_append_singleton]
  exact if_pos rfl

end Held

/-- An opening does not empty a file that holds records; what is removed is the first listed file, and not the last
one, which was just opened. -/
def SafeEvent (log : List (Event D)) : Event D → Prop
  | .opened path _ true => held log path = []
  | .removed path listed => listed.head?.map FileMeta.path = some path.name ∧
      listed.getLast?.map FileMeta.path ≠ some path.name
  | _ => True

/-- The names in `metadata_.files`. -/
def names (s : RecordAction D F) : List String := s.files.map FileMeta.path

/-- **The rotation destroys nothing in use**, in a state: the listed names are distinct, and all that was done to
files was safe. -/
def KeepsData (s : RecordAction D F) : Prop := (names s).Nodup ∧ Legal SafeEvent s.log

/-- The files of the folder that hold records are listed. -/
structure Listed (s : RecordAction D F) : Prop where
  keeps : KeepsData s
  held : ∀ name, held s.log ⟨s.realBagPath, name⟩ ≠ [] → name ∈ names s

/-- Also the file that is open. -/
structure Inv (s : RecordAction D F) : Prop extends Listed s where
  writer : ∀ path, s.writer = some path → path.folder = s.realBagPath ∧ path.name ∈ names s

/-! ### Writing -/

variable (env : Env D F)

theorem inv_writeRecord {s : RecordAction D F} (h : Inv s) (copy : Bool) (r : OneRecord D) :
    Inv (writeRecord env copy r s) := by
  obtain ⟨size, count, e⟩ := writeRecord_eq env copy r s
  rw [e]
  refine ⟨⟨⟨h.keeps.1, legal_append_singleton.2 ⟨h.keeps.2, trivial⟩⟩, fun name hname => ?_⟩, h.writer⟩
  rw [held_append_singleton] at hname
  change holdStep _ (.write s.writer _ _ _ _) ⟨s.realBagPath, name⟩ ≠ [] at hname
  cases hwriter : s.writer with
  | none =>
    rw [hwriter] at hname
    exact h.held name hname
  | some path =>
    rw [hwriter] at hname
    cases hok : writeStatus env s r with
    | false =>
      rw [hok] at hname
      exact h.held name hname
    | true =>
      rw [hok] at hname
      by_cases hpath : (⟨s.realBagPath, name⟩ : Path) = path
      · subst hpath
        exact (h.writer _ hwriter).2
      · change Function.update (held s.log) path _ _ ≠ [] at hname
        rw [Function.update_of_ne hpath] at hname
        exact h.held name hname

theorem inv_writeLastMsg {s : RecordAction D F} (h : Inv s) (timestamp : UInt64) (id : ℕ) :
    Inv (writeLastMsg env timestamp s id) := by
  unfold writeLastMsg
  split
  next m _ _ =>
    have hkept : Inv (keepLastMsg id { m with logTimestamp := timestamp } s) := ⟨⟨h.keeps, h.held⟩, h.writer⟩
    exact inv_writeRecord env hkept true _
  next => exact h

theorem inv_writeLastMsgs {s : RecordAction D F} (h : Inv s) (timestamp : UInt64) :
    Inv (writeLastMsgs env timestamp s) := by
  unfold writeLastMsgs
  induction s.topicOrder generalizing s with
  | nil => exact h
  | cons id ids ih => exact ih (inv_writeLastMsg env h timestamp id)

/-! ### Opening -/

theorem inv_openedMcap {s : RecordAction D F} (h : Listed s) {timestamp : UInt64}
    (hfresh : mcapFileName env timestamp ∉ names s) : Inv (openedMcap env timestamp s) := by
  have hnames : names (openedMcap env timestamp s) = names s ++ [mcapFileName env timestamp] := by
    simp [names, openedMcap, called, logged]
  have hempty : held s.log (mcapPath env s timestamp) = [] := by
    by_contra hheld
    exact hfresh (h.held _ hheld)
  refine ⟨⟨⟨?_, legal_append_singleton.2 ⟨h.keeps.2, hempty⟩⟩, fun name hname => ?_⟩, fun path hpath => ?_⟩
  · rw [hnames]
    exact List.nodup_append.2 ⟨h.keeps.1, List.nodup_singleton _, by
      rintro a ha b hb rfl
      exact hfresh (List.mem_singleton.1 hb ▸ ha)⟩
  · rw [hnames, List.mem_append, List.mem_singleton]
    change held (s.log ++ [Event.opened (mcapPath env s timestamp) timestamp true]) ⟨s.realBagPath, name⟩ ≠ [] at hname
    rw [held_opened] at hname
    by_cases hpath : (⟨s.realBagPath, name⟩ : Path) = mcapPath env s timestamp
    · exact .inr (congrArg Path.name hpath)
    · rw [Function.update_of_ne hpath] at hname
      exact .inl (h.held name hname)
  · obtain rfl : mcapPath env s timestamp = path := Option.some.inj hpath
    refine ⟨rfl, ?_⟩
    rw [hnames]
    exact List.mem_append_right _ List.mem_cons_self

/-- The first file is removed behind an opening: the last one is the file that is open. -/
theorem inv_removeOldFile {s : RecordAction D F} (h : Inv s) {path : Path} (hwriter : s.writer = some path)
    (hlast : (names s).getLast? = some path.name) : Inv (removeOldFile s) := by
  obtain e | ⟨file, rest, hfiles, hrest, e⟩ := removeOldFile_cases s
  · rwa [e]
  have hnames : names s = file.path :: rest.map FileMeta.path := by rw [names, hfiles, List.map_cons]
  have hnodup := h.keeps.1
  rw [hnames, List.nodup_cons] at hnodup
  have hlast' : (rest.map FileMeta.path).getLast? = some path.name := by
    rw [hnames, List.getLast?_cons_of_ne_nil (by simpa using hrest)] at hlast
    exact hlast
  have hmem : path.name ∈ rest.map FileMeta.path := List.mem_of_getLast? hlast'
  have hne : path.name ≠ file.path := fun heq => hnodup.1 (heq ▸ hmem)
  rw [e]
  refine ⟨⟨⟨hnodup.2, legal_append_singleton.2 ⟨h.keeps.2, ?_, ?_⟩⟩, fun name hname => ?_⟩, fun path' hpath' => ?_⟩
  · rw [hfiles]
    rfl
  · rw [← List.getLast?_map]
    change (names s).getLast? ≠ _
    rw [hlast]
    exact fun heq => hne (Option.some.inj heq)
  · change held (s.log ++ [Event.removed ⟨s.realBagPath, file.path⟩ s.files]) ⟨s.realBagPath, name⟩ ≠ [] at hname
    rw [held_removed] at hname
    by_cases hname' : name = file.path
    · subst hname'
      rw [Function.update_self] at hname
      exact absurd rfl hname
    · have hpath : (⟨s.realBagPath, name⟩ : Path) ≠ ⟨s.realBagPath, file.path⟩ := fun heq =>
        hname' (congrArg Path.name heq)
      rw [Function.update_of_ne hpath] at hname
      have hlisted := h.held name hname
      rw [hnames] at hlisted
      exact (List.mem_cons.1 hlisted).resolve_left hname'
  · obtain rfl : path = path' := Option.some.inj (hwriter.symm.trans hpath')
    exact ⟨(h.writer path hwriter).1, hmem⟩

theorem inv_startMcap {s : RecordAction D F} (h : Listed s) {timestamp : UInt64}
    (hfresh : mcapFileName env timestamp ∉ names s) : Inv (startMcap env timestamp s) := by
  rw [startMcap_eq]
  refine inv_removeOldFile (inv_openedMcap env h hfresh) rfl ?_
  simp [names, openedMcap, called, logged, mcapPath]

theorem inv_openNewMcapToRecord {s : RecordAction D F} (h : Listed s) {timestamp : UInt64}
    (hfresh : env.openMcap s.calls (mcapPath env s timestamp) = true → mcapFileName env timestamp ∉ names s) :
    Inv (openNewMcapToRecord env timestamp s) := by
  unfold openNewMcapToRecord
  split_ifs with hopen
  · exact inv_writeLastMsgs env (inv_startMcap env h (hfresh hopen)) timestamp
  · refine ⟨⟨⟨h.keeps.1, legal_append_singleton.2 ⟨h.keeps.2, trivial⟩⟩, fun name hname => ?_⟩, fun path hpath => ?_⟩
    · change held (s.log ++ [Event.opened (mcapPath env s timestamp) timestamp false]) ⟨s.realBagPath, name⟩ ≠ []
        at hname
      rw [held_append_singleton] at hname
      exact h.held name hname
    · cases hpath

/-- A folder that was created is empty, and so is the list. -/
theorem listed_enterFolder {s : RecordAction D F} (h : KeepsData s) (folder : String) :
    Listed (enterFolder folder s) where
  keeps := by
    have hsafe : SafeEvent s.log (.created folder) := trivial
    exact ⟨List.nodup_nil, legal_append_singleton.2 ⟨h.2, hsafe⟩⟩
  held := by
    intro name hname
    change held (s.log ++ [Event.created folder]) ⟨folder, name⟩ ≠ [] at hname
    exact absurd (held_created s.log folder name) hname

theorem inv_startFolder {s : RecordAction D F} (h : KeepsData s) (folder : String) :
    Inv (startFolder env folder s) :=
  inv_openNewMcapToRecord env (listed_enterFolder h folder) fun _ => List.not_mem_nil

theorem inv_openNewFolderToRecord {s : RecordAction D F} (h : Inv s) : Inv (openNewFolderToRecord env s).2 := by
  unfold openNewFolderToRecord
  split_ifs
  · exact ⟨⟨h.keeps, h.held⟩, h.writer⟩
  · exact inv_startFolder env h.keeps _
  · exact ⟨⟨h.keeps, h.held⟩, h.writer⟩

/-! ### Runs -/

/-- A folder is opened, or a record is passed to `AddRecordImpl`. -/
inductive Op (D : Type) where
  | folder
  | record (r : OneRecord D)
  deriving DecidableEq, Repr

def step (s : RecordAction D F) : Op D → RecordAction D F
  | .folder => (openNewFolderToRecord env s).2
  | .record r => addRecordImpl env r s

/-- When a record makes a file be opened in the same folder, its name is not listed. -/
def OpensFresh (s : RecordAction D F) : Op D → Prop
  | .folder => True
  | .record r => rotates env s = true → isNewFolderNeeded env r.logTimestamp s = false →
      env.openMcap (s.calls + 1) (mcapPath env s r.logTimestamp) = true → mcapFileName env r.logTimestamp ∉ names s

theorem inv_step {s : RecordAction D F} (h : Inv s) {op : Op D} (hfresh : OpensFresh env s op) :
    Inv (step env s op) := by
  cases op with
  | folder => exact inv_openNewFolderToRecord env h
  | record r =>
    refine inv_writeRecord env ?_ false r
    have hreset : Inv (resetSize env s) := ⟨⟨h.keeps, h.held⟩, h.writer⟩
    split_ifs with hrotates
    · unfold rotate
      split_ifs with hnew
      · exact inv_openNewFolderToRecord env hreset
      · have hopens : env.openMcap (resetSize env s).calls (mcapPath env (resetSize env s) r.logTimestamp) = true →
            mcapFileName env r.logTimestamp ∉ names s := hfresh hrotates (Bool.eq_false_iff.2 hnew)
        exact inv_openNewMcapToRecord env hreset.toListed hopens
    · exact h

/-- A name that is listed already is listed twice, or removed when it was just opened. -/
theorem not_keepsData_openNewMcapToRecord {s : RecordAction D F} {timestamp : UInt64}
    (hopen : env.openMcap s.calls (mcapPath env s timestamp) = true) (hname : mcapFileName env timestamp ∈ names s) :
    ¬KeepsData (openNewMcapToRecord env timestamp s) := by
  have hlisted : names (openedMcap env timestamp s) = names s ++ [mcapFileName env timestamp] := by
    simp [names, openedMcap, called, logged]
  have hkept := writeLastMsgs_kept env timestamp (startMcap env timestamp s)
  have hframe := writeLastMsgs_frame env timestamp (startMcap env timestamp s)
  rintro ⟨hnodup, hlegal⟩
  rw [openNewMcapToRecord, if_pos hopen] at hnodup hlegal
  have hnodup : (names (startMcap env timestamp s)).Nodup := by
    rw [names, hkept.files] at hnodup
    exact hnodup
  have hlegal := hlegal.of_begins hframe.log
  rw [startMcap_eq] at hnodup hlegal
  obtain e | ⟨file, rest, hfiles, hrest, e⟩ := removeOldFile_cases (openedMcap env timestamp s)
  · rw [e, hlisted] at hnodup
    exact (List.nodup_append.1 hnodup).2.2 _ hname _ List.mem_cons_self rfl
  · rw [e] at hnodup hlegal
    obtain ⟨-, -, hsafe⟩ := legal_append_singleton.1 hlegal
    rw [← List.getLast?_map] at hsafe
    change (names (openedMcap env timestamp s)).getLast? ≠ some file.path at hsafe
    rw [hlisted, List.getLast?_concat] at hsafe
    have hcons : names s ++ [mcapFileName env timestamp] = file.path :: rest.map FileMeta.path := by
      rw [← hlisted, names, hfiles, List.map_cons]
    cases hold : names s with
    | nil =>
      rw [hold] at hname
      cases hname
    | cons first olds =>
      rw [hold, List.cons_append, List.cons.injEq] at hcons
      obtain ⟨rfl, hrest'⟩ := hcons
      rw [hold, List.mem_cons] at hname
      have hmem : mcapFileName env timestamp ∈ olds := hname.resolve_left fun heq => hsafe (by rw [heq])
      change (rest.map FileMeta.path).Nodup at hnodup
      rw [← hrest'] at hnodup
      exact (List.nodup_append.1 hnodup).2.2 _ hmem _ List.mem_cons_self rfl

theorem opensFresh_of_keepsData {s : RecordAction D F} {op : Op D} (h : KeepsData (step env s op)) :
    OpensFresh env s op := by
  cases op with
  | folder => trivial
  | record r =>
    intro hrotates hnew hopen hname
    have hkept := writeRecord_kept env false r (rotate env r s)
    have hframe := writeRecord_frame env false r (rotate env r s)
    have hstep : step env s (.record r) = writeRecord env false r (rotate env r s) := by
      rw [step, addRecordImpl, if_pos hrotates]
    rw [hstep] at h
    have hrotate : KeepsData (rotate env r s) := by
      refine ⟨?_, h.2.of_begins hframe.log⟩
      have hnodup := h.1
      rwa [names, hkept.files] at hnodup
    have hnew' : isNewFolderNeeded env r.logTimestamp (resetSize env s) = false := hnew
    have hopen' : env.openMcap (resetSize env s).calls (mcapPath env (resetSize env s) r.logTimestamp) = true := hopen
    have hname' : mcapFileName env r.logTimestamp ∈ names (resetSize env s) := hname
    rw [rotate, hnew', if_neg Bool.false_ne_true] at hrotate
    exact not_keepsData_openNewMcapToRecord env hopen' hname' hrotate

/-- **The rotation of files.**  From the state of a configured action on, for all records and all answers of what is
outside: nothing in use is destroyed in any state of a run exactly when every file that is opened in a folder for a
record has a name that is not listed. -/
theorem keepsData_iff {s : RecordAction D F} (hfiles : s.files = []) (hlog : s.log = []) (hwriter : s.writer = none)
    (ops : List (Op D)) : AllHold (step env) KeepsData s ops ↔ AllMeet (step env) (OpensFresh env) s ops := by
  have hinv : Inv s := by
    refine ⟨⟨⟨?_, ?_⟩, fun name hname => ?_⟩, fun path hpath => ?_⟩
    · rw [names, hfiles]
      exact List.nodup_nil
    · rw [hlog]
      exact legal_nil
    · rw [hlog] at hname
      exact absurd rfl hname
    · rw [hwriter] at hpath
      cases hpath
  exact allHold_iff_allMeet Inv (fun h => h.keeps) (fun h => inv_step env h)
    (fun _ => opensFresh_of_keepsData env) hinv ops

/-- An action with one topic whose files are left at one mebibyte. -/
def camera : RecordAction ℕ (ℕ × ℕ) :=
  configured (quietEnv (fun _ => 5000000000) fun _ _ => false)
    { mode := .signal, storagePolicy := { maxBagSizeM := 1 } }
    [{ id := 0, topicName := "image", msgType := "pb:Image", serializationType := "pb", recordEnabled := true,
       cacheLastMsg := false, sampleFreq := (0, 1) }]

/-- A record of one mebibyte. -/
def image (logTimestamp : UInt64) : OneRecord ℕ where
  topicIndex := 0
  logTimestamp := logTimestamp
  pubTimestamp := 0
  pubSequence := 0
  buffer := 1048576

/-- One of them is written to the file that the folder was opened with. -/
theorem keepsData_one :
    AllHold (step (quietEnv (fun _ => 5000000000) fun _ _ => false)) KeepsData camera
      [.folder, .record (image 5100000000)] := by
  refine (keepsData_iff _ rfl rfl rfl _).2 ⟨trivial, fun hrotates => ?_, trivial⟩
  exact absurd hrotates (by decide)

/-- The folder is opened, and two records are written within its second: the second one makes the file be opened
again, which loses the first one. -/
theorem not_keepsData :
    let s := (step (quietEnv (fun _ => 5000000000) fun _ _ => false))
    ¬AllHold s KeepsData camera [.folder, .record (image 5100000000), .record (image 5200000000)] := by
  intro s h
  have hfresh := opensFresh_of_keepsData _ h.2.2.2
  refine hfresh (by decide) (by decide) rfl ?_
  have hnames : names (s (s camera .folder) (.record (image 5100000000))) =
      [mcapFileName (quietEnv (fun _ => 5000000000) fun _ _ => false) 5000000000] := rfl
  rw [hnames, List.mem_singleton]
  unfold mcapFileName image
  rw [show secOf 5200000000 = secOf 5000000000 by decide]

end AimRT.RecordPlayback.RecordAction
