import Mathlib.Data.List.AList

/-!
# Tables of live entries

A map into which an entry is put where its key is free, and which is swept from time to time: the
entries that do not stay are erased in one walk over the map.  The values may be positions in a list;
then a walk over the map changes what they point to.
-/

namespace AimRT.Lib.Table

variable {K V : Type} [DecidableEq K]

/-- An entry for a free key; a key that is taken keeps its entry. -/
def emplace (m : AList fun _ : K => V) (k : K) (v : V) : AList fun _ : K => V :=
  match m.lookup k with
  | some _ => m
  | none => m.insert k v

/-- The walk over a map that erases the entries that do not stay. -/
def sweep (stays : V → Bool) (m : AList fun _ : K => V) : AList fun _ : K => V :=
  m.entries.foldl (fun m e => if stays e.2 then m else m.erase e.1) m

/-- The walk over a map that changes the elements of a list that the map points to. -/
def modifyAll {A : Type} (f : A → A) (m : AList fun _ : K => ℕ) (l : List A) : List A :=
  m.entries.foldl (fun l e => l.modify e.2 f) l

variable {m : AList fun _ : K => V} {k k' : K} {v v' : V}

theorem lookup_emplace_of_lookup (h : m.lookup k' = some v') :
    (emplace m k v).lookup k' = some v' := by
  unfold emplace
  split
  · exact h
  next hnone =>
    have hk : k' ≠ k := by
      rintro rfl
      rw [hnone] at h
      cases h
    rwa [AList.lookup_insert_ne hk]

theorem lookup_emplace (h : m.lookup k = none) : (emplace m k v).lookup k = some v := by
  rw [emplace, h, AList.lookup_insert]

/-- What is found after an entry was put in is this entry, or was found before. -/
theorem lookup_emplace_cases (h : (emplace m k v).lookup k' = some v') :
    m.lookup k' = some v' ∨ (k' = k ∧ v' = v ∧ m.lookup k = none) := by
  unfold emplace at h
  split at h
  · exact .inl h
  next hnone =>
    by_cases hk : k' = k
    · subst hk
      rw [AList.lookup_insert] at h
      exact .inr ⟨rfl, (Option.some.inj h).symm, hnone⟩
    · rw [AList.lookup_insert_ne hk] at h
      exact .inl h

theorem length_emplace_le : (emplace m k v).entries.length ≤ m.entries.length + 1 := by
  unfold emplace
  split
  · exact Nat.le_succ _
  · have herase := (List.kerase_sublist k m.entries).length_le
    rw [AList.entries_insert, List.length_cons]
    omega

/-! ### Sweeps -/

theorem lookup_foldl_erase (stays : V → Bool) (entries : List (Σ _ : K, V)) (k : K) :
    ∀ m : AList fun _ : K => V, (∀ e ∈ entries, e.1 = k → stays e.2) →
      (entries.foldl (fun m e => if stays e.2 then m else m.erase e.1) m).lookup k =
        m.lookup k := by
  induction entries with
  | nil => exact fun m _ => rfl
  | cons e entries ih =>
    intro m h
    rw [List.foldl_cons, ih _ fun e' he' => h e' (List.mem_cons_of_mem e he')]
    split
    · rfl
    next hstays =>
      have hk : k ≠ e.1 := fun hk => hstays (h e List.mem_cons_self hk.symm)
      exact AList.lookup_erase_ne hk

theorem lookup_foldl_erase_eq_none (stays : V → Bool) (entries : List (Σ _ : K, V)) (k : K) :
    ∀ m : AList fun _ : K => V, (m.lookup k = none ∨ ∃ e ∈ entries, e.1 = k ∧ ¬ stays e.2) →
      (entries.foldl (fun m e => if stays e.2 then m else m.erase e.1) m).lookup k = none := by
  induction entries with
  | nil =>
    rintro m (h | ⟨e, he, -⟩)
    · exact h
    · cases he
  | cons e entries ih =>
    intro m h
    rw [List.foldl_cons]
    refine ih _ ?_
    by_cases herased : e.1 = k ∧ ¬ stays e.2
    · obtain ⟨rfl, hstays⟩ := herased
      exact .inl (by rw [if_neg hstays, AList.lookup_erase])
    rcases h with h | ⟨e', he', hk, hstays⟩
    · left
      split
      · exact h
      · by_cases hk : k = e.1
        · rw [hk, AList.lookup_erase]
        · rwa [AList.lookup_erase_ne hk]
    · rcases List.mem_cons.1 he' with rfl | he'
      · exact absurd ⟨hk, hstays⟩ herased
      · exact .inr ⟨e', he', hk, hstays⟩

/-- A sweep keeps the entries that stay, and no others. -/
theorem lookup_sweep (stays : V → Bool) (m : AList fun _ : K => V) (k : K) :
    (sweep stays m).lookup k = (m.lookup k).filter stays := by
  unfold sweep
  cases hlookup : m.lookup k with
  | none => exact lookup_foldl_erase_eq_none _ _ _ _ (.inl hlookup)
  | some v =>
    cases hstays : stays v with
    | true =>
      rw [Option.filter_some, if_pos hstays, lookup_foldl_erase, hlookup]
      rintro ⟨k', v'⟩ he rfl
      have hv' : m.lookup k' = some v' := AList.mem_lookup_iff.2 he
      rw [hlookup, Option.some.injEq] at hv'
      rwa [← hv']
    | false =>
      rw [Option.filter_some, if_neg (by simp [hstays])]
      refine lookup_foldl_erase_eq_none _ _ _ _ (.inr ⟨⟨k, v⟩, AList.mem_lookup_iff.1 hlookup, ?_⟩)
      exact ⟨rfl, by simp [hstays]⟩

theorem length_foldl_erase_le (stays : V → Bool) (entries : List (Σ _ : K, V)) :
    ∀ m : AList fun _ : K => V,
      (entries.foldl (fun m e => if stays e.2 then m else m.erase e.1) m).entries.length ≤
        m.entries.length := by
  induction entries with
  | nil => exact fun m => Nat.le_refl _
  | cons e entries ih =>
    intro m
    rw [List.foldl_cons]
    refine Nat.le_trans (ih _) ?_
    split
    · exact Nat.le_refl _
    · exact (List.kerase_sublist e.1 m.entries).length_le

theorem length_sweep_le (stays : V → Bool) (m : AList fun _ : K => V) :
    (sweep stays m).entries.length ≤ m.entries.length :=
  length_foldl_erase_le stays m.entries m

/-! ### Positions in a list -/

omit [DecidableEq K] in
theorem getElem?_modifyAll {A : Type} {f : A → A} (hf : ∀ a, f (f a) = f a)
    (m : AList fun _ : K => ℕ) (l : List A) (i : ℕ) :
    (modifyAll f m l)[i]? = if i ∈ m.entries.map (·.2) then (l[i]?).map f else l[i]? := by
  unfold modifyAll
  induction m.entries generalizing l with
  | nil => rfl
  | cons e entries ih =>
    rw [List.foldl_cons, ih, List.getElem?_modify, List.map_cons]
    by_cases he : e.2 = i
    · have hmodify : (fun a => if e.2 = i then f a else a) <$> l[i]? = (l[i]?).map f := by simp [he]
      rw [hmodify, if_pos (List.mem_cons.2 (.inl he.symm)), Option.map_map]
      split
      · exact congrArg (Option.map · l[i]?) (funext hf)
      · rfl
    · have hmodify : (fun a => if e.2 = i then f a else a) <$> l[i]? = l[i]? := by simp [he]
      have hmem : i ∈ e.2 :: entries.map (·.2) ↔ i ∈ entries.map (·.2) :=
        List.mem_cons.trans (or_iff_right (Ne.symm he))
      rw [hmodify, if_congr hmem rfl rfl]

/-- The values of a map that are different for different keys are not more than its entries. -/
theorem length_le_of_lookup {l : List V} (hl : l.Nodup) (h : ∀ v ∈ l, ∃ k, m.lookup k = some v) :
    l.length ≤ m.entries.length := by
  rw [← List.length_map (f := fun e : Σ _ : K, V => e.2)]
  refine (List.subperm_of_subset hl fun v hv => ?_).length_le
  obtain ⟨k, hk⟩ := h v hv
  exact List.mem_map.2 ⟨⟨k, v⟩, AList.mem_lookup_iff.1 hk, rfl⟩

end AimRT.Lib.Table
