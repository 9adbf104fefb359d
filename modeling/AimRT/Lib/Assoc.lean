import Mathlib.Tactic

/-!
# Association lists

A map with its entries in the order of iteration, where no two entries have the same key.  `operator[]` changes the
value of a key, or makes a new entry.
-/

namespace AimRT.Lib.Assoc

variable {K V : Type} [BEq K] [LawfulBEq K]

/-- With distinct keys, an entry of the list is found. -/
theorem lookup_eq_some_of_mem {l : List (K × V)} (hnodup : (l.map Prod.fst).Nodup) {e : K × V} (hmem : e ∈ l) :
    l.lookup e.1 = some e.2 := by
  obtain ⟨front, behind, rfl⟩ := List.append_of_mem hmem
  rw [List.map_append, List.map_cons] at hnodup
  rw [List.lookup_eq_some_iff]
  refine ⟨_, _, rfl, fun other hother => ?_⟩
  rw [bne_iff_ne]
  exact fun heq => (List.nodup_append.1 hnodup).2.2 other.1 (List.mem_map_of_mem hother) _ List.mem_cons_self heq.symm

theorem mem_of_lookup_eq_some {l : List (K × V)} {k : K} {v : V} (h : l.lookup k = some v) : (k, v) ∈ l := by
  obtain ⟨front, behind, rfl, -⟩ := List.lookup_eq_some_iff.1 h
  simp

/-- `operator[]`: the value of a key, which may be new, is changed. -/
def alter (key : K) (f : Option V → V) : List (K × V) → { l : List (K × V) // l ≠ [] }
  | [] => ⟨[(key, f none)], List.cons_ne_nil _ _⟩
  | (k, v) :: l =>
    if k == key then ⟨(k, f (some v)) :: l, List.cons_ne_nil _ _⟩
    else ⟨(k, v) :: (alter key f l).1, List.cons_ne_nil _ _⟩

theorem lookup_alter (key : K) (f : Option V → V) (l : List (K × V)) (k : K) :
    (alter key f l).1.lookup k = if k == key then some (f (l.lookup key)) else l.lookup k := by
  induction l with
  | nil =>
    rw [alter, List.lookup_cons]
    cases k == key <;> rfl
  | cons e l ih =>
    obtain ⟨k', v⟩ := e
    rw [alter]
    cases hkey : k' == key with
    | true =>
      obtain rfl := eq_of_beq hkey
      rw [if_pos rfl, List.lookup_cons, List.lookup_cons, List.lookup_cons, BEq.rfl]
      cases k == k' <;> rfl
    | false =>
      have hkey' : (key == k') = false := by rw [BEq.comm, hkey]
      rw [if_neg Bool.false_ne_true, List.lookup_cons, List.lookup_cons, List.lookup_cons, ih, hkey']
      cases hk : k == k' with
      | true =>
        obtain rfl := eq_of_beq hk
        rw [hkey]
        rfl
      | false => rfl

theorem map_fst_alter (key : K) (f : Option V → V) (l : List (K × V)) : (alter key f l).1.map Prod.fst =
    if (l.map Prod.fst).elem key then l.map Prod.fst else l.map Prod.fst ++ [key] := by
  induction l with
  | nil => rfl
  | cons e l ih =>
    obtain ⟨k, v⟩ := e
    rw [alter]
    cases hkey : k == key with
    | true =>
      obtain rfl := eq_of_beq hkey
      simp
    | false =>
      have hkey' : (key == k) = false := by rw [BEq.comm, hkey]
      rw [if_neg Bool.false_ne_true, List.map_cons, List.map_cons, List.elem_cons, ih, hkey']
      change k :: _ = if (l.map Prod.fst).elem key then _ else _
      split <;> rfl

theorem nodup_alter (key : K) (f : Option V → V) {l : List (K × V)} (h : (l.map Prod.fst).Nodup) :
    ((alter key f l).1.map Prod.fst).Nodup := by
  rw [map_fst_alter]
  split_ifs with hmem
  · exact h
  · refine List.nodup_append.2 ⟨h, List.nodup_singleton _, fun k hk k' hk' => ?_⟩
    rw [List.mem_singleton.1 hk']
    rintro rfl
    exact hmem (List.elem_eq_true_of_mem hk)

end AimRT.Lib.Assoc
