import AimRT.Lib.EditDistance
import AimRT.Util.Decimal

/-!
# Unused options

Once everything is initialized, the options that the framework has read and filled in are compared with those the user
wrote: `CheckYamlNodes` goes through the user's nodes and warns of each that is not among the framework's, and
`FindClosestMatch` looks for the key that was meant.

* `isLeast_levenshteinDistance`: the table of `LevenshteinDistance` ends with the least number of edits;
* `findClosestMatch_eq_some_iff`: the key that is suggested takes fewer than four edits, no other key takes fewer, and it
  is the first such key;
* `checkYamlNodes_eq_nil_iff`: there is no warning exactly where everything the user wrote is there, down to the depth at which
  the comparison ends.
-/

namespace AimRT.Core

open AimRT.Lib AimRT.Util EditDistance

/-! ### The distance of two keys -/

/-- The matrix `dp`. -/
abbrev DistanceTable := ℕ → ℕ → ℕ

namespace DistanceTable

def set (dp : DistanceTable) (i j v : ℕ) : DistanceTable := fun a b => if a = i ∧ b = j then v else dp a b

theorem set_self (dp : DistanceTable) (i j v : ℕ) : dp.set i j v i j = v := if_pos ⟨rfl, rfl⟩

theorem set_of_row_ne {dp : DistanceTable} {i j v a b : ℕ} (h : a ≠ i) : dp.set i j v a b = dp a b :=
  if_neg fun heq => h heq.1

theorem set_of_col_ne {dp : DistanceTable} {i j v a b : ℕ} (h : b ≠ j) : dp.set i j v a b = dp a b :=
  if_neg fun heq => h heq.2

/-- `dp[i][0] = i` up to `len1`. -/
def fillColumn (dp : DistanceTable) (len1 : ℕ) : DistanceTable :=
  (List.range (len1 + 1)).foldl (fun dp i => dp.set i 0 i) dp

/-- `dp[0][j] = j` up to `len2`. -/
def fillBorder (dp : DistanceTable) (len2 : ℕ) : DistanceTable :=
  (List.range (len2 + 1)).foldl (fun dp j => dp.set 0 j j) dp

/-- What is written to `dp[i][j]`. -/
def cell (s1 s2 : Bytes) (dp : DistanceTable) (i j : ℕ) : ℕ :=
  if s1[i - 1]? = s2[j - 1]? then dp (i - 1) (j - 1)
  else min (min (dp (i - 1) j) (dp i (j - 1))) (dp (i - 1) (j - 1)) + 1

/-- The loop over `j`. -/
def fillRow (s1 s2 : Bytes) (dp : DistanceTable) (i : ℕ) : DistanceTable :=
  (List.range' 1 s2.length).foldl (fun dp j => dp.set i j (cell s1 s2 dp i j)) dp

/-- The loop over `i`. -/
def fill (s1 s2 : Bytes) (dp : DistanceTable) : DistanceTable :=
  (List.range' 1 s1.length).foldl (fillRow s1 s2) dp

end DistanceTable

open DistanceTable

/-- `LevenshteinDistance`. -/
def levenshteinDistance (s1 s2 : Bytes) : ℕ :=
  let dp := (DistanceTable.fillColumn (fun _ _ => 0) s1.length).fillBorder s2.length
  fill s1 s2 dp s1.length s2.length

/-- What `dp[i][j]` is to be: the distance of the first `i` bytes of one key and the first `j` of the other one. -/
def prefixDist (s1 s2 : Bytes) (i j : ℕ) : ℕ := editDist (s1.take i).reverse (s2.take j).reverse

section Table

variable {s1 s2 : Bytes} {dp : DistanceTable} {i j n : ℕ}

theorem prefixDist_zero_left (h : j ≤ s2.length) : prefixDist s1 s2 0 j = j := by
  rw [prefixDist, List.take_zero, List.reverse_nil, editDist, List.length_reverse, List.length_take, min_eq_left h]

theorem prefixDist_zero_right (h : i ≤ s1.length) : prefixDist s1 s2 i 0 = i := by
  rw [prefixDist, List.take_zero, List.reverse_nil]
  cases hx : (s1.take i).reverse with
  | nil =>
    rw [List.reverse_eq_nil_iff, List.take_eq_nil_iff] at hx
    rw [editDist, List.length_nil]
    rcases hx with rfl | rfl
    · rfl
    · exact (Nat.le_zero.1 h).symm
  | cons x xs => rw [editDist, ← hx, List.length_reverse, List.length_take, min_eq_left h]

theorem prefixDist_succ (hi : i < s1.length) (hj : j < s2.length) :
    prefixDist s1 s2 (i + 1) (j + 1) = cell s1 s2 (prefixDist s1 s2) (i + 1) (j + 1) := by
  have htake1 : (s1.take (i + 1)).reverse = s1[i] :: (s1.take i).reverse := by
    rw [List.take_succ_eq_append_getElem hi, List.reverse_append, List.reverse_singleton, List.singleton_append]
  have htake2 : (s2.take (j + 1)).reverse = s2[j] :: (s2.take j).reverse := by
    rw [List.take_succ_eq_append_getElem hj, List.reverse_append, List.reverse_singleton, List.singleton_append]
  unfold cell prefixDist
  rw [Nat.add_sub_cancel, Nat.add_sub_cancel, List.getElem?_eq_getElem hi, List.getElem?_eq_getElem hj, htake1, htake2,
    editDist]
  simp only [Option.some.injEq]

/-- The rows up to `n` and the first column are filled. -/
structure Filled (s1 s2 : Bytes) (dp : DistanceTable) (n : ℕ) : Prop where
  rows : ∀ i ≤ n, ∀ j ≤ s2.length, dp i j = prefixDist s1 s2 i j
  column : ∀ i ≤ s1.length, dp i 0 = prefixDist s1 s2 i 0

theorem fillColumn_apply (h : i ≤ n) : dp.fillColumn n i 0 = i := by
  induction n with
  | zero =>
    obtain rfl := Nat.le_zero.1 h
    rfl
  | succ n ih =>
    unfold fillColumn at ih ⊢
    rw [List.range_succ, List.foldl_append, List.foldl_cons, List.foldl_nil]
    rcases Nat.lt_or_eq_of_le h with hlt | rfl
    · rw [set_of_row_ne (by omega)]
      exact ih (Nat.le_of_lt_succ hlt)
    · rw [set_self]

theorem fillBorder_apply (h : j ≤ n) : dp.fillBorder n 0 j = j := by
  induction n with
  | zero =>
    obtain rfl := Nat.le_zero.1 h
    rfl
  | succ n ih =>
    unfold fillBorder at ih ⊢
    rw [List.range_succ, List.foldl_append, List.foldl_cons, List.foldl_nil]
    rcases Nat.lt_or_eq_of_le h with hlt | rfl
    · rw [set_of_col_ne (by omega)]
      exact ih (Nat.le_of_lt_succ hlt)
    · rw [set_self]

theorem fillBorder_of_ne (h : i ≠ 0) : dp.fillBorder n i j = dp i j := by
  unfold fillBorder
  induction List.range (n + 1) generalizing dp with
  | nil => rfl
  | cons k ks ih => rw [List.foldl_cons, ih, set_of_row_ne h]

theorem filled_borders (s1 s2 : Bytes) (dp : DistanceTable) :
    Filled s1 s2 ((dp.fillColumn s1.length).fillBorder s2.length) 0 := by
  refine ⟨fun i hi j hj => ?_, fun i hi => ?_⟩
  · obtain rfl := Nat.le_zero.1 hi
    rw [fillBorder_apply hj, prefixDist_zero_left hj]
  · rw [prefixDist_zero_right hi]
    rcases Nat.eq_zero_or_pos i with rfl | hpos
    · exact fillBorder_apply (Nat.zero_le _)
    · rw [fillBorder_of_ne hpos.ne', fillColumn_apply hi]

theorem Filled.set (h : Filled s1 s2 dp n) (hi : n < i) (hj : 0 < j) (v : ℕ) : Filled s1 s2 (dp.set i j v) n := by
  refine ⟨fun a ha b hb => ?_, fun a ha => ?_⟩
  · rw [set_of_row_ne (by omega)]
    exact h.rows a ha b hb
  · rw [set_of_col_ne hj.ne]
    exact h.column a ha

/-- What is written is right when the cells above and the one to the left are. -/
theorem Filled.cell_eq (h : Filled s1 s2 dp n) (hn : n < s1.length) (hj : j < s2.length)
    (hleft : dp (n + 1) j = prefixDist s1 s2 (n + 1) j) :
    cell s1 s2 dp (n + 1) (j + 1) = prefixDist s1 s2 (n + 1) (j + 1) := by
  rw [prefixDist_succ hn hj]
  simp only [cell, Nat.add_sub_cancel, h.rows n le_rfl j hj.le, h.rows n le_rfl (j + 1) hj, hleft]

theorem Filled.fillRow_upTo (h : Filled s1 s2 dp n) (hn : n < s1.length) {k : ℕ} (hk : k ≤ s2.length) :
    Filled s1 s2 ((List.range' 1 k).foldl (fun dp j => dp.set (n + 1) j (cell s1 s2 dp (n + 1) j)) dp) n ∧
    ∀ j ≤ k, (List.range' 1 k).foldl (fun dp j => dp.set (n + 1) j (cell s1 s2 dp (n + 1) j)) dp (n + 1) j =
      prefixDist s1 s2 (n + 1) j := by
  induction k with
  | zero =>
    refine ⟨h, fun j hj => ?_⟩
    obtain rfl := Nat.le_zero.1 hj
    exact h.column (n + 1) hn
  | succ k ih =>
    obtain ⟨hfilled, hrow⟩ := ih (Nat.le_of_succ_le hk)
    rw [List.range'_1_concat, List.foldl_append, List.foldl_cons, List.foldl_nil, Nat.add_comm 1 k]
    refine ⟨hfilled.set (Nat.lt_succ_self n) (Nat.succ_pos k) _, fun j hj => ?_⟩
    rcases Nat.lt_or_eq_of_le hj with hlt | rfl
    · rw [set_of_col_ne hlt.ne]
      exact hrow j (Nat.le_of_lt_succ hlt)
    · rw [set_self]
      exact hfilled.cell_eq hn hk (hrow k le_rfl)

theorem Filled.fillRow (h : Filled s1 s2 dp n) (hn : n < s1.length) :
    Filled s1 s2 (fillRow s1 s2 dp (n + 1)) (n + 1) := by
  obtain ⟨hfilled, hrow⟩ := h.fillRow_upTo hn le_rfl
  refine ⟨fun i hi j hj => ?_, hfilled.column⟩
  rcases Nat.lt_or_eq_of_le hi with hlt | rfl
  · exact hfilled.rows i (Nat.le_of_lt_succ hlt) j hj
  · exact hrow j hj

theorem Filled.fill (h : Filled s1 s2 dp 0) : Filled s1 s2 (fill s1 s2 dp) s1.length := by
  suffices hrun : ∀ k ≤ s1.length, Filled s1 s2 ((List.range' 1 k).foldl (DistanceTable.fillRow s1 s2) dp) k from
    hrun s1.length le_rfl
  intro k hk
  induction k with
  | zero => exact h
  | succ k ih =>
    rw [List.range'_1_concat, List.foldl_append, List.foldl_cons, List.foldl_nil, Nat.add_comm 1 k]
    exact (ih (Nat.le_of_succ_le hk)).fillRow hk

end Table

theorem levenshteinDistance_eq (s1 s2 : Bytes) : levenshteinDistance s1 s2 = editDist s1 s2 := by
  have h := (filled_borders s1 s2 fun _ _ => 0).fill.rows s1.length le_rfl s2.length le_rfl
  rw [prefixDist, List.take_length, List.take_length, editDist_reverse] at h
  exact h

theorem edits_levenshteinDistance (s1 s2 : Bytes) : Edits (levenshteinDistance s1 s2) s1 s2 := by
  rw [levenshteinDistance_eq]
  exact (isLeast_editDist s1 s2).1

/-- The table ends with the least number of edits. -/
theorem isLeast_levenshteinDistance (s1 s2 : Bytes) : IsLeast {n | Edits n s1 s2} (levenshteinDistance s1 s2) := by
  rw [levenshteinDistance_eq]
  exact isLeast_editDist s1 s2

/-! ### Nodes -/

/-- A node of a document that has been read.  The key of an entry is its text, or `none` where it is no scalar and
cannot be read as a text; entries without a value are not seen by any reader. -/
inductive YamlNode where
  | null
  | scalar (text : Bytes)
  | sequence (items : List YamlNode)
  | map (entries : List (Option Bytes × YamlNode))

namespace YamlNode

/-- `node[key]`: the first entry with the key. -/
def lookup (entries : List (Option Bytes × YamlNode)) (key : Bytes) : Option YamlNode :=
  (entries.find? fun entry => entry.1 = some key).map Prod.snd

/-- The keys as an iteration comes to them. -/
def keys (entries : List (Option Bytes × YamlNode)) : List (Option Bytes) := entries.map Prod.fst

end YamlNode

open YamlNode

/-- A key is suggested only if it takes fewer edits. -/
def minDistance : ℕ := 4

/-- One round of the loop of `FindClosestMatch`; `none` where a key cannot be read. -/
def closerMatch (target : Bytes) (best : Bytes × ℕ) (key : Option Bytes) : Option (Bytes × ℕ) := do
  let key ← key
  let distance := levenshteinDistance key target
  return if distance < best.2 then (key, distance) else best

/-- `FindClosestMatch`. -/
def findClosestMatch (entries : List (Option Bytes × YamlNode)) (target : Bytes) : Option Bytes :=
  ((keys entries).foldlM (closerMatch target) ([], minDistance)).map Prod.fst

def unusedOption (path : Bytes) : Bytes := ascii "- Unused options: '" ++ path ++ ascii "'\n"

/-- `path + "[" + std::to_string(i) + "]"`. -/
def indexPath (path : Bytes) (i : ℕ) : Bytes := path ++ ascii "[" ++ ascii i.repr ++ ascii "]"

/-- `path + "." + key`. -/
def keyPath (path key : Bytes) : Bytes := path ++ ascii "." ++ key

def unusedKey (path key closestMatch : Bytes) : Bytes :=
  ascii "- Unused options: '" ++ keyPath path key ++ ascii "'!" ++
    (if closestMatch = [] then ascii "\n"
    else ascii " Did you mean: '" ++ keyPath path closestMatch ++ ascii "'?\n")

/-- `CheckYamlNodes`, where a node is `none` if it is not there; `dump` writes a node to a stream.  The result is `none`
where a key that cannot be read throws. -/
def checkYamlNodes (dump : YamlNode → Bytes) (standardNode checkedNode : Option YamlNode) (path : Bytes) (level : ℕ) :
    Option Bytes :=
  match checkedNode, standardNode with
  | none, _ => some []
  | some _, none => some (unusedOption path)
  | some checked, some standard =>
    if _hlevel : level ≥ 20 then some []
    else
      match checked, standard with
      | .sequence items, .sequence items' =>
        ((List.range items.length).mapM fun i =>
          if i ≥ items'.length then
            some (ascii "- Unused options: '" ++ path ++ ascii "[" ++ (items[i]?.map dump).getD [] ++ ascii "]'\n")
          else checkYamlNodes dump items'[i]? items[i]? (indexPath path i) (level + 1)).map List.flatten
      | .sequence _, _ => some (unusedOption path)
      | .map entries, .map entries' =>
        ((keys entries).mapM fun key => do
          let key ← key
          match lookup entries' key with
          | none => return unusedKey path key (← findClosestMatch entries' key)
          | some node =>
            checkYamlNodes dump (some node) (lookup entries key) (keyPath path key) (level + 1)).map List.flatten
      | .map _, _ => some (ascii "ConfigurationName Warning: '" ++ path ++ ascii "'\n")
      | _, _ => some []
termination_by 20 - level

/-! ### The suggestion -/

section ClosestMatch

variable {ks : List Bytes} {target closest : Bytes} {best : Bytes × ℕ}

/-- After the keys `ks`: `best` is the first of those that take the fewest edits, which are fewer than `minDistance`, and
there is none where all take as many or more. -/
def Closest (ks : List Bytes) (target : Bytes) (best : Bytes × ℕ) : Prop :=
  (best = ([], minDistance) ∧ ∀ key ∈ ks, minDistance ≤ levenshteinDistance key target) ∨
  ∃ front rest, ks = front ++ best.1 :: rest ∧ best.2 = levenshteinDistance best.1 target ∧ best.2 < minDistance ∧
    (∀ key ∈ front, best.2 < levenshteinDistance key target) ∧ ∀ key ∈ rest, best.2 ≤ levenshteinDistance key target

theorem Closest.le (h : Closest ks target best) : best.2 ≤ minDistance := by
  rcases h with ⟨rfl, -⟩ | ⟨front, rest, -, -, hlt, -⟩
  · rfl
  · exact hlt.le

theorem Closest.le_of_mem (h : Closest ks target best) {key : Bytes} (hkey : key ∈ ks) :
    best.2 ≤ levenshteinDistance key target := by
  rcases h with ⟨rfl, hfar⟩ | ⟨front, rest, rfl, hbest, -, hfront, hrest⟩
  · exact hfar key hkey
  · rcases List.mem_append.1 hkey with hmem | hmem
    · exact (hfront key hmem).le
    · rcases List.mem_cons.1 hmem with rfl | hmem
      · exact hbest.le
      · exact hrest key hmem

theorem Closest.push_of_lt (h : Closest ks target best) {key : Bytes} (hlt : levenshteinDistance key target < best.2) :
    Closest (ks ++ [key]) target (key, levenshteinDistance key target) :=
  .inr ⟨ks, [], rfl, rfl, hlt.trans_le h.le, fun _ hkey => hlt.trans_le (h.le_of_mem hkey), by simp⟩

theorem Closest.push_of_le (h : Closest ks target best) {key : Bytes} (hle : best.2 ≤ levenshteinDistance key target) :
    Closest (ks ++ [key]) target best := by
  rcases h with ⟨rfl, hfar⟩ | ⟨front, rest, rfl, hbest, hlt, hfront, hrest⟩
  · refine .inl ⟨rfl, fun k hk => ?_⟩
    rcases List.mem_append.1 hk with hk | hk
    · exact hfar k hk
    · rwa [List.mem_singleton.1 hk]
  · refine .inr ⟨front, rest ++ [key], by simp, hbest, hlt, hfront, fun k hk => ?_⟩
    rcases List.mem_append.1 hk with hk | hk
    · exact hrest k hk
    · rwa [List.mem_singleton.1 hk]

theorem closerMatch_some (target : Bytes) (best : Bytes × ℕ) (key : Bytes) :
    closerMatch target best (some key) =
      some (if levenshteinDistance key target < best.2 then (key, levenshteinDistance key target) else best) := rfl

theorem foldlM_closerMatch (h : Closest ks target best) (ks' : List Bytes) :
    ∃ best', (ks'.map some).foldlM (closerMatch target) best = some best' ∧ Closest (ks ++ ks') target best' := by
  induction ks' generalizing ks best with
  | nil => exact ⟨best, rfl, by rwa [List.append_nil]⟩
  | cons key ks' ih =>
    rw [List.map_cons, List.foldlM_cons, closerMatch_some, Option.bind_eq_bind, Option.bind_some,
      ← List.singleton_append, ← List.append_assoc]
    split_ifs with hlt
    · exact ih (h.push_of_lt hlt)
    · exact ih (h.push_of_le (not_lt.1 hlt))

theorem foldlM_closerMatch_of_mem {keys : List (Option Bytes)} (h : none ∈ keys) (best : Bytes × ℕ) :
    keys.foldlM (closerMatch target) best = none := by
  induction keys generalizing best with
  | nil => cases h
  | cons key keys ih =>
    rw [List.foldlM_cons]
    cases key with
    | none => rfl
    | some key =>
      rw [closerMatch_some]
      exact ih (by simpa using h) _

/-- No text stands for two different best keys. -/
theorem Closest.unique {best' : Bytes × ℕ} (h : Closest ks target best) (h' : Closest ks target best') :
    best.1 = best'.1 := by
  rcases h with ⟨rfl, hfar⟩ | ⟨front, rest, hks, hbest, hlt, hfront, hrest⟩
  · rcases h' with ⟨rfl, -⟩ | ⟨front', rest', hks', hbest', hlt', -⟩
    · rfl
    · have hle := hfar best'.1 (by simp [hks'])
      omega
  · rcases h' with ⟨rfl, hfar⟩ | ⟨front', rest', hks', hbest', hlt', hfront', hrest'⟩
    · have hle := hfar best.1 (by simp [hks])
      omega
    · rw [hks] at hks'
      rcases List.append_eq_append_iff.1 hks' with ⟨u, rfl, hu⟩ | ⟨u, rfl, hu⟩
      · cases u with
        | nil => exact (List.cons.inj hu).1
        | cons k u =>
          obtain ⟨rfl, rfl⟩ := List.cons.inj hu
          have hbefore := hfront' best.1 (by simp)
          have hbehind := hrest best'.1 (by simp)
          omega
      · cases u with
        | nil => exact (List.cons.inj hu).1.symm
        | cons k u =>
          obtain ⟨rfl, rfl⟩ := List.cons.inj hu
          have hbefore := hfront best'.1 (by simp)
          have hbehind := hrest' best.1 (by simp)
          omega

theorem exists_map_some {keys : List (Option Bytes)} (h : none ∉ keys) :
    ∃ ks : List Bytes, keys = ks.map some := by
  induction keys with
  | nil => exact ⟨[], rfl⟩
  | cons key keys ih =>
    rw [List.mem_cons, not_or] at h
    obtain ⟨ks, rfl⟩ := ih h.2
    obtain ⟨k, rfl⟩ := Option.ne_none_iff_exists'.1 (Ne.symm h.1)
    exact ⟨k :: ks, rfl⟩

/-- `closest` is the first key that is the fewest edits away from `target`, and fewer than `minDistance`; it is empty if
every key is as many edits away or more. -/
def Suggested (ks : List Bytes) (target closest : Bytes) : Prop :=
  (closest = [] ∧ ∀ key ∈ ks, ∀ n, Edits n key target → minDistance ≤ n) ∨
  ∃ front rest n, ks = front ++ closest :: rest ∧ Edits n closest target ∧ n < minDistance ∧
    (∀ key ∈ front, ∀ m, Edits m key target → n < m) ∧ ∀ key ∈ closest :: rest, ∀ m, Edits m key target → n ≤ m

theorem le_levenshteinDistance_iff {key : Bytes} {n : ℕ} :
    n ≤ levenshteinDistance key target ↔ ∀ m, Edits m key target → n ≤ m :=
  ⟨fun h _ hm => h.trans ((levenshteinDistance_eq key target).trans_le ((isLeast_editDist key target).2 hm)),
    fun h => h _ (edits_levenshteinDistance key target)⟩

theorem exists_closest_iff : (∃ d, Closest ks target (closest, d)) ↔ Suggested ks target closest := by
  constructor
  · rintro ⟨d, ⟨hbest, hfar⟩ | ⟨front, rest, hks, hd, hlt, hfront, hrest⟩⟩
    · exact .inl ⟨(Prod.mk.inj hbest).1, fun key hkey => le_levenshteinDistance_iff.1 (hfar key hkey)⟩
    · refine .inr ⟨front, rest, d, hks, ?_, hlt, fun key hkey => le_levenshteinDistance_iff.1 (hfront key hkey),
        fun key hkey => ?_⟩
      · have hd' : d = levenshteinDistance closest target := hd
        rw [hd']
        exact edits_levenshteinDistance closest target
      · rcases List.mem_cons.1 hkey with rfl | hkey
        · exact le_levenshteinDistance_iff.1 hd.le
        · exact le_levenshteinDistance_iff.1 (hrest key hkey)
  · rintro (⟨rfl, hfar⟩ | ⟨front, rest, n, hks, hedits, hlt, hfront, hrest⟩)
    · exact ⟨minDistance, .inl ⟨rfl, fun key hkey => le_levenshteinDistance_iff.2 (hfar key hkey)⟩⟩
    · have hn : n = levenshteinDistance closest target :=
        le_antisymm (le_levenshteinDistance_iff.2 (hrest closest List.mem_cons_self))
          ((levenshteinDistance_eq closest target).trans_le ((isLeast_editDist closest target).2 hedits))
      exact ⟨n, .inr ⟨front, rest, hks, hn, hlt, fun key hkey => le_levenshteinDistance_iff.2 (hfront key hkey),
        fun key hkey => le_levenshteinDistance_iff.2 (hrest key (List.mem_cons_of_mem _ hkey))⟩⟩

/-- The suggestion is made exactly if all keys can be read. -/
theorem findClosestMatch_eq_some_iff (entries : List (Option Bytes × YamlNode)) (target closest : Bytes) :
    findClosestMatch entries target = some closest ↔
      ∃ ks, keys entries = ks.map some ∧ Suggested ks target closest := by
  have hempty : Closest [] target ([], minDistance) := .inl ⟨rfl, by simp⟩
  by_cases hkeys : none ∈ keys entries
  · refine iff_of_false ?_ ?_
    · rw [findClosestMatch, foldlM_closerMatch_of_mem hkeys]
      exact Option.some_ne_none _ ∘ Eq.symm
    · rintro ⟨ks, hks, -⟩
      rw [hks] at hkeys
      simp at hkeys
  · obtain ⟨ks, hks⟩ := exists_map_some hkeys
    obtain ⟨best, hbest, hclosest⟩ := foldlM_closerMatch hempty ks
    rw [findClosestMatch, hks, hbest, Option.map_some, Option.some.injEq]
    constructor
    · rintro rfl
      exact ⟨ks, rfl, exists_closest_iff.1 ⟨best.2, hclosest⟩⟩
    · rintro ⟨ks', hks', hsuggested⟩
      obtain rfl := List.map_injective_iff.2 (Option.some_injective Bytes) hks'
      obtain ⟨d, hd⟩ := exists_closest_iff.2 hsuggested
      exact hclosest.unique hd

end ClosestMatch

/-! ### What is covered -/

/-- One step into a node. -/
inductive YamlStep where
  | index (i : ℕ)
  | key (k : Bytes)

namespace YamlNode

def child : YamlNode → YamlStep → Option YamlNode
  | .sequence items, .index i => items[i]?
  | .map entries, .key k => lookup entries k
  | _, _ => none

/-- The node to which a path leads. -/
def follow (node : YamlNode) : List YamlStep → Option YamlNode
  | [] => some node
  | step :: path => (node.child step).bind fun child => child.follow path

/-- A sequence stands for a sequence, and a map, the keys of which can be read, for a map. -/
def Matches : (standard checked : YamlNode) → Prop
  | standard, .sequence _ => ∃ items, standard = .sequence items
  | standard, .map entries => (∃ entries', standard = .map entries') ∧ none ∉ keys entries
  | _, _ => True

/-- Whatever is in `checked` is in `standard` too, down to the depth `n`, and in front of that depth it is of the same
kind. -/
def Covers (n : ℕ) (standard checked : YamlNode) : Prop :=
  ∀ path, path.length ≤ n → ∀ node ∈ checked.follow path,
    ∃ node' ∈ standard.follow path, path.length < n → node'.Matches node

variable {standard checked : YamlNode} {n : ℕ}

theorem covers_zero (standard checked : YamlNode) : Covers 0 standard checked := by
  intro path hpath node hnode
  obtain rfl := List.eq_nil_of_length_eq_zero (Nat.le_zero.1 hpath)
  exact ⟨standard, rfl, fun h => absurd h (Nat.lt_irrefl 0)⟩

theorem covers_succ_iff : Covers (n + 1) standard checked ↔
    standard.Matches checked ∧
      ∀ step, ∀ node ∈ checked.child step, ∃ node' ∈ standard.child step, Covers n node' node := by
  constructor
  · intro h
    refine ⟨?_, fun step node hnode => ?_⟩
    · obtain ⟨node', hnode', hmatches⟩ := h [] (Nat.zero_le _) checked rfl
      obtain rfl : standard = node' := Option.some.inj hnode'
      exact hmatches (Nat.succ_pos n)
    · -- the path of one step tells that there is a node, and the longer ones what is in it
      obtain ⟨node', hnode', -⟩ := h [step] (by simp) node (by simp [follow, Option.mem_def.1 hnode])
      have hchild : standard.child step = some node' := by simpa [follow] using hnode'
      refine ⟨node', hchild, fun path hpath v hv => ?_⟩
      obtain ⟨v', hv', hmatches⟩ := h (step :: path) (Nat.succ_le_succ hpath) v
        (by simpa [follow, Option.mem_def.1 hnode] using hv)
      exact ⟨v', by simpa [follow, hchild] using hv', fun hlt => hmatches (Nat.succ_lt_succ hlt)⟩
  · rintro ⟨hmatches, hchildren⟩ path hpath v hv
    cases path with
    | nil =>
      obtain rfl : checked = v := Option.some.inj hv
      exact ⟨standard, rfl, fun _ => hmatches⟩
    | cons step path =>
      obtain ⟨node, hnode, hv⟩ := Option.bind_eq_some_iff.1 hv
      obtain ⟨node', hnode', hcovers⟩ := hchildren step node hnode
      obtain ⟨v', hv', hsame⟩ := hcovers path (Nat.le_of_succ_le_succ hpath) v hv
      refine ⟨v', ?_, fun hlt => hsame (Nat.lt_of_succ_lt_succ hlt)⟩
      show (standard.child step).bind _ = some v'
      rw [Option.mem_def.1 hnode']
      exact hv'

end YamlNode

/-! ### The warnings -/

theorem mapM_flatten_eq_nil_iff {A B : Type} {f : A → Option (List B)} {l : List A} :
    (l.mapM f).map List.flatten = some [] ↔ ∀ x ∈ l, f x = some [] := by
  induction l with
  | nil => simp
  | cons x l ih =>
    rw [List.mapM_cons, List.forall_mem_cons, ← ih]
    cases f x with
    | none => simp
    | some y => cases l.mapM f <;> simp [List.append_eq_nil_iff]

theorem ascii_append_ne_nil {s : String} (hs : ascii s ≠ []) (t : Bytes) : ascii s ++ t ≠ [] := fun h =>
  hs (List.append_eq_nil_iff.1 h).1

theorem unusedOption_ne_nil (path : Bytes) : unusedOption path ≠ [] := by
  rw [unusedOption, List.append_assoc]
  exact ascii_append_ne_nil (by decide) _

theorem unusedKey_ne_nil (path key closestMatch : Bytes) : unusedKey path key closestMatch ≠ [] := by
  rw [unusedKey, List.append_assoc, List.append_assoc]
  exact ascii_append_ne_nil (by decide) _

variable {dump : YamlNode → Bytes} {path : Bytes} {level n : ℕ}

/-- The comparison of two sequences is quiet when it is at every index. -/
theorem checkYamlNodes_sequence_iff {items items' : List YamlNode} (hlevel : level < 20) :
    checkYamlNodes dump (some (.sequence items')) (some (.sequence items)) path level = some [] ↔
      ∀ (i : ℕ) (node : YamlNode), items[i]? = some node → ∃ node', items'[i]? = some node' ∧
        checkYamlNodes dump (some node') (some node) (indexPath path i) (level + 1) = some [] := by
  rw [checkYamlNodes, dif_neg (not_le.2 hlevel), mapM_flatten_eq_nil_iff]
  constructor
  · intro h i node hnode
    have hi := (List.getElem?_eq_some_iff.1 hnode).1
    have hround := h i (List.mem_range.2 hi)
    split_ifs at hround with hlen
    · rw [List.append_assoc, List.append_assoc, List.append_assoc] at hround
      exact absurd (Option.some.inj hround) (ascii_append_ne_nil (by decide) _)
    · have hi' := not_le.1 hlen
      rw [hnode, List.getElem?_eq_getElem hi'] at hround
      exact ⟨items'[i], List.getElem?_eq_getElem hi', hround⟩
  · intro h i hi
    have hi := List.mem_range.1 hi
    obtain ⟨node', hnode', hround⟩ := h i items[i] (List.getElem?_eq_getElem hi)
    rw [if_neg (not_le.2 (List.getElem?_eq_some_iff.1 hnode').1), hnode', List.getElem?_eq_getElem hi]
    exact hround

theorem YamlNode.exists_lookup_iff {entries : List (Option Bytes × YamlNode)} {key : Bytes} :
    (∃ node, lookup entries key = some node) ↔ some key ∈ keys entries := by
  rw [← Option.isSome_iff_exists, lookup, Option.isSome_map, List.find?_isSome, keys, List.mem_map]
  simp only [decide_eq_true_eq]

/-- The comparison of two maps is quiet when all keys can be read and it is at every one. -/
theorem checkYamlNodes_map_iff {entries entries' : List (Option Bytes × YamlNode)} (hlevel : level < 20) :
    checkYamlNodes dump (some (.map entries')) (some (.map entries)) path level = some [] ↔
      none ∉ keys entries ∧ ∀ key node, lookup entries key = some node → ∃ node', lookup entries' key = some node' ∧
        checkYamlNodes dump (some node') (some node) (keyPath path key) (level + 1) = some [] := by
  rw [checkYamlNodes, dif_neg (not_le.2 hlevel), mapM_flatten_eq_nil_iff]
  constructor
  · intro h
    refine ⟨fun hnone => absurd (h none hnone) (by simp), fun key node hnode => ?_⟩
    have hround := h (some key) (exists_lookup_iff.1 ⟨node, hnode⟩)
    rw [Option.bind_eq_bind, Option.bind_some] at hround
    cases hnode' : lookup entries' key with
    | none =>
      rw [hnode'] at hround
      obtain ⟨closestMatch, -, hmsg⟩ := Option.bind_eq_some_iff.1 hround
      exact absurd (Option.some.inj hmsg) (unusedKey_ne_nil path key closestMatch)
    | some node' =>
      rw [hnode', hnode] at hround
      exact ⟨node', rfl, hround⟩
  · rintro ⟨hkeys, h⟩ key hkey
    obtain ⟨key, rfl⟩ := Option.ne_none_iff_exists'.1 (ne_of_mem_of_not_mem hkey hkeys)
    obtain ⟨node, hnode⟩ := exists_lookup_iff.2 hkey
    obtain ⟨node', hnode', hround⟩ := h key node hnode
    rw [Option.bind_eq_bind, Option.bind_some, hnode', hnode]
    exact hround

theorem checkYamlNodes_of_le {standard checked : YamlNode} (hlevel : 20 ≤ level) :
    checkYamlNodes dump (some standard) (some checked) path level = some [] := by
  cases checked <;> cases standard <;> simp [checkYamlNodes, hlevel]

theorem checkYamlNodes_null (standard : YamlNode) :
    checkYamlNodes dump (some standard) (some .null) path level = some [] := by
  cases standard <;> simp [checkYamlNodes]

theorem checkYamlNodes_scalar (standard : YamlNode) (text : Bytes) :
    checkYamlNodes dump (some standard) (some (.scalar text)) path level = some [] := by
  cases standard <;> simp [checkYamlNodes]

theorem checkYamlNodes_sequence_of_ne {standard : YamlNode} {items : List YamlNode} (hlevel : level < 20)
    (hne : ∀ items', standard ≠ .sequence items') :
    checkYamlNodes dump (some standard) (some (.sequence items)) path level ≠ some [] := by
  have hwarns := unusedOption_ne_nil path
  cases standard with
  | sequence items' => exact absurd rfl (hne items')
  | null => simpa [checkYamlNodes, hlevel] using hwarns
  | scalar text => simpa [checkYamlNodes, hlevel] using hwarns
  | map entries => simpa [checkYamlNodes, hlevel] using hwarns

theorem checkYamlNodes_map_of_ne {standard : YamlNode} {entries : List (Option Bytes × YamlNode)} (hlevel : level < 20)
    (hne : ∀ entries', standard ≠ .map entries') :
    checkYamlNodes dump (some standard) (some (.map entries)) path level ≠ some [] := by
  have hwarns : ascii "ConfigurationName Warning: '" ≠ [] := by decide
  cases standard with
  | map entries' => exact absurd rfl (hne entries')
  | null => simp [checkYamlNodes, hlevel, hwarns]
  | scalar text => simp [checkYamlNodes, hlevel, hwarns]
  | sequence items => simp [checkYamlNodes, hlevel, hwarns]

theorem checkYamlNodes_some_iff {standard checked : YamlNode} (hn : n = 20 - level) :
    checkYamlNodes dump (some standard) (some checked) path level = some [] ↔ Covers n standard checked := by
  induction n generalizing standard checked path level with
  | zero =>
    exact iff_of_true (checkYamlNodes_of_le (by omega)) (covers_zero standard checked)
  | succ n ih =>
    have hlevel : level < 20 := by omega
    have hrec : ∀ {node' node path'}, checkYamlNodes dump (some node') (some node) path' (level + 1) = some [] ↔
        Covers n node' node := ih (by omega)
    rw [covers_succ_iff]
    cases checked with
    | null => exact iff_of_true (checkYamlNodes_null standard) ⟨trivial, fun step node hnode => by cases hnode⟩
    | scalar text => exact iff_of_true (checkYamlNodes_scalar standard text) ⟨trivial, fun step node hnode => by cases hnode⟩
    | sequence items =>
      by_cases hsequence : ∃ items', standard = .sequence items'
      · obtain ⟨items', rfl⟩ := hsequence
        simp only [checkYamlNodes_sequence_iff hlevel, hrec]
        constructor
        · intro h
          refine ⟨⟨items', rfl⟩, fun step node hnode => ?_⟩
          cases step with
          | index i => exact h i node hnode
          | key k => cases hnode
        · rintro ⟨-, h⟩ i node hnode
          exact h (.index i) node hnode
      · rw [not_exists] at hsequence
        exact iff_of_false (checkYamlNodes_sequence_of_ne hlevel hsequence) fun h => not_exists.2 hsequence h.1
    | map entries =>
      by_cases hmap : ∃ entries', standard = .map entries'
      · obtain ⟨entries', rfl⟩ := hmap
        simp only [checkYamlNodes_map_iff hlevel, hrec]
        constructor
        · rintro ⟨hkeys, h⟩
          refine ⟨⟨⟨entries', rfl⟩, hkeys⟩, fun step node hnode => ?_⟩
          cases step with
          | index i => cases hnode
          | key k => exact h k node hnode
        · rintro ⟨⟨-, hkeys⟩, h⟩
          exact ⟨hkeys, fun key node hnode => h (.key key) node hnode⟩
      · rw [not_exists] at hmap
        exact iff_of_false (checkYamlNodes_map_of_ne hlevel hmap) fun h => not_exists.2 hmap h.1.1

end AimRT.Core
