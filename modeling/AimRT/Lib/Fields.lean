import Mathlib.Tactic

/-!
# Lists of fields

Fields with a name and a value, in the order in which they were set.  Names are equal when `fold` makes
them equal; setting a field removes those of the same name.  An edit sets a field, or keeps a field or
removes it by its value.  The fields after edits of different names are described by membership.
-/

namespace AimRT.Lib.Fields

variable {K I V : Type} [DecidableEq I] (fold : K → I)

def erase (l : List (K × V)) (k : K) : List (K × V) := l.filter fun e => fold e.1 ≠ fold k

/-- The field becomes the last one. -/
def set (l : List (K × V)) (k : K) (v : V) : List (K × V) := erase fold l k ++ [(k, v)]

/-- Fields set one after the other. -/
def setAll (l calls : List (K × V)) : List (K × V) :=
  calls.foldl (fun l e => set fold l e.1 e.2) l

def find (l : List (K × V)) (k : K) : Option V :=
  (l.find? fun e => fold e.1 = fold k).map Prod.snd

/-- No two fields of one name. -/
def Distinct (l : List (K × V)) : Prop := (l.map fun e => fold e.1).Nodup

inductive Edit (K V : Type) where
  | set (k : K) (v : V)
  /-- The field gets this spelling of its name where its value is kept; else it is removed. -/
  | filter (k : K) (keep : V → Bool)

def Edit.name : Edit K V → K
  | set k _ => k
  | filter k _ => k

/-- The name of an edit that depends on the value. -/
def Edit.filtered : Edit K V → Option K
  | set .. => none
  | filter k _ => some k

def Edit.apply (l : List (K × V)) : Edit K V → List (K × V)
  | set k v => Fields.set fold l k v
  | filter k keep =>
    match find fold l k with
    | none => l
    | some v => if keep v then Fields.set fold l k v else erase fold l k

/-- The field that an edit leaves. -/
def Edit.Gives (l : List (K × V)) (e : K × V) : Edit K V → Prop
  | set k v => e = (k, v)
  | filter k keep => e.1 = k ∧ keep e.2 ∧ ∃ k', fold k' = fold k ∧ (k', e.2) ∈ l

def applyAll (edits : List (Edit K V)) (l : List (K × V)) : List (K × V) :=
  edits.foldl (fun l edit => edit.apply fold l) l

variable {fold} {l : List (K × V)} {k : K} {v : V} {e : K × V}

/-! ### Members -/

theorem mem_erase : e ∈ erase fold l k ↔ e ∈ l ∧ fold e.1 ≠ fold k := by
  rw [erase, List.mem_filter, decide_eq_true_iff]

theorem mem_set : e ∈ set fold l k v ↔ e = (k, v) ∨ (e ∈ l ∧ fold e.1 ≠ fold k) := by
  rw [set, List.mem_append, mem_erase, List.mem_singleton, or_comm]

theorem setAll_concat (calls : List (K × V)) (last : K × V) :
    setAll fold l (calls ++ [last]) = set fold (setAll fold l calls) last.1 last.2 :=
  List.foldl_append

/-- A field is there if no field of its name was set after it. -/
theorem mem_setAll {calls : List (K × V)} : e ∈ setAll fold [] calls ↔
    ∃ calls₁ calls₂, calls = calls₁ ++ e :: calls₂ ∧ ∀ e' ∈ calls₂, fold e'.1 ≠ fold e.1 := by
  induction calls using List.reverseRecOn with
  | nil => simp [setAll]
  | append_singleton calls last ih =>
    rw [setAll_concat, mem_set, ih]
    constructor
    · rintro (rfl | ⟨⟨calls₁, calls₂, rfl, hlater⟩, hne⟩)
      · exact ⟨calls, [], rfl, by simp⟩
      · refine ⟨calls₁, calls₂ ++ [last], by simp, fun e' he' => ?_⟩
        rcases List.mem_append.1 he' with he' | he'
        · exact hlater e' he'
        · exact List.mem_singleton.1 he' ▸ fun heq => hne heq.symm
    · rintro ⟨calls₁, calls₂, hcalls, hlater⟩
      rcases List.eq_nil_or_concat calls₂ with rfl | ⟨calls₂, last', rfl⟩
      · rw [List.append_inj_right' hcalls rfl |> List.singleton_inj.1]
        exact .inl rfl
      · rw [List.concat_eq_append, ← List.cons_append, ← List.append_assoc] at hcalls
        obtain ⟨hinit, hlast⟩ := List.append_inj' hcalls rfl
        cases List.singleton_inj.1 hlast
        refine .inr ⟨⟨calls₁, calls₂, hinit, fun e' he' => hlater e' ?_⟩, fun heq => ?_⟩
        · rw [List.concat_eq_append]
          exact List.mem_append_left _ he'
        · refine hlater last ?_ heq.symm
          rw [List.concat_eq_append]
          exact List.mem_append_right _ List.mem_cons_self

theorem mem_of_mem_setAll {calls : List (K × V)} (h : e ∈ setAll fold [] calls) : e ∈ calls := by
  obtain ⟨calls₁, calls₂, rfl, -⟩ := mem_setAll.1 h
  exact List.mem_append_right _ List.mem_cons_self

/-- The name of a field that was set is there, with the value of this call or a later one. -/
theorem exists_mem_setAll (calls₁ : List (K × V)) (e : K × V) (calls₂ : List (K × V)) :
    ∃ e' ∈ e :: calls₂, fold e'.1 = fold e.1 ∧ e' ∈ setAll fold [] (calls₁ ++ e :: calls₂) := by
  induction calls₂ using List.reverseRecOn with
  | nil => exact ⟨e, List.mem_cons_self, rfl, mem_setAll.2 ⟨calls₁, [], rfl, by simp⟩⟩
  | append_singleton calls₂ last ih =>
    rw [← List.cons_append, ← List.append_assoc, setAll_concat]
    by_cases hlast : fold last.1 = fold e.1
    · exact ⟨last, List.mem_append_right _ List.mem_cons_self, hlast, mem_set.2 (.inl rfl)⟩
    · obtain ⟨e', he', heq, hmem⟩ := ih
      refine ⟨e', List.mem_append_left _ he', heq, mem_set.2 (.inr ⟨hmem, ?_⟩)⟩
      rw [heq]
      exact Ne.symm hlast

/-! ### Distinct names -/

omit [DecidableEq I] in
theorem Distinct.eq_of_fold_eq (h : Distinct fold l) {e e' : K × V} (he : e ∈ l) (he' : e' ∈ l)
    (heq : fold e.1 = fold e'.1) : e = e' :=
  List.inj_on_of_nodup_map h he he' heq

theorem Distinct.erase (h : Distinct fold l) (k : K) : Distinct fold (erase fold l k) :=
  h.sublist (List.filter_sublist.map _)

theorem Distinct.set (h : Distinct fold l) (k : K) (v : V) : Distinct fold (set fold l k v) := by
  rw [Distinct, Fields.set, List.map_append, List.nodup_append]
  refine ⟨h.erase k, List.nodup_singleton _, ?_⟩
  rintro i hi j hj rfl
  obtain ⟨e, he, rfl⟩ := List.mem_map.1 hi
  exact (mem_erase.1 he).2 (List.mem_singleton.1 hj)

theorem distinct_setAll (calls : List (K × V)) : Distinct fold (setAll fold [] calls) := by
  induction calls using List.reverseRecOn with
  | nil => exact List.nodup_nil
  | append_singleton calls last ih =>
    rw [setAll, List.foldl_append]
    exact ih.set last.1 last.2

theorem find_eq_some_iff (h : Distinct fold l) :
    find fold l k = some v ↔ ∃ k', fold k' = fold k ∧ (k', v) ∈ l := by
  unfold find
  constructor
  · intro hfind
    obtain ⟨⟨k', v'⟩, he, rfl⟩ := Option.map_eq_some_iff.1 hfind
    exact ⟨k', of_decide_eq_true (List.find?_eq_some_iff_append.1 he).1, List.mem_of_find?_eq_some he⟩
  · rintro ⟨k', hk', hmem⟩
    cases hfind : l.find? fun e => fold e.1 = fold k with
    | none => exact absurd (decide_eq_true hk') (List.find?_eq_none.1 hfind _ hmem)
    | some e =>
      have heq : fold e.1 = fold k := of_decide_eq_true (List.find?_eq_some_iff_append.1 hfind).1
      rw [h.eq_of_fold_eq (List.mem_of_find?_eq_some hfind) hmem (heq.trans hk'.symm)]
      rfl

/-! ### What is found -/

theorem find_congr {k' : K} (h : fold k' = fold k) : find fold l k' = find fold l k := by
  rw [find, h, find]

theorem find_erase {k' : K} (hne : fold k' ≠ fold k) :
    find fold (erase fold l k) k' = find fold l k' := by
  have hpred : (fun e : K × V => decide (fold e.1 ≠ fold k ∧ fold e.1 = fold k')) =
      fun e => decide (fold e.1 = fold k') := by
    funext e
    exact decide_eq_decide.2 ⟨fun h => h.2, fun h => ⟨h ▸ hne, h⟩⟩
  rw [find, erase, List.find?_filter]
  simp only [decide_eq_true_eq]
  rw [hpred, find]

theorem find_set_self : find fold (set fold l k v) k = some v := by
  have hnone : (erase fold l k).find? (fun e => fold e.1 = fold k) = none :=
    List.find?_eq_none.2 fun e he => by simpa using (mem_erase.1 he).2
  rw [find, set, List.find?_append, hnone]
  simp

theorem find_set {k' : K} (hne : fold k' ≠ fold k) :
    find fold (set fold l k v) k' = find fold l k' := by
  rw [← find_erase (l := l) hne, find, set, List.find?_append, List.find?_singleton,
    if_neg (by simpa using Ne.symm hne), Option.or_none, find]

/-- The last field of a name is the one that is found. -/
theorem find_setAll (calls : List (K × V)) (k : K) :
    find fold (setAll fold [] calls) k = (calls.reverse.find? fun e => fold e.1 = fold k).map Prod.snd := by
  induction calls using List.reverseRecOn with
  | nil => rfl
  | append_singleton calls last ih =>
    rw [setAll_concat, List.reverse_concat, List.find?_cons]
    by_cases hlast : fold last.1 = fold k
    · rw [decide_eq_true hlast, ← find_congr hlast, find_set_self]
      rfl
    · rw [decide_eq_false hlast, find_set fun h => hlast h.symm, ih]

theorem Edit.find_apply {k' : K} (edit : Edit K V) (hne : fold k' ≠ fold edit.name) :
    find fold (edit.apply fold l) k' = find fold l k' := by
  cases edit with
  | set k v => exact find_set hne
  | filter k keep =>
    simp only [Edit.apply]
    split
    · rfl
    · split
      · exact find_set hne
      · exact find_erase hne

/-! ### Edits -/

omit [DecidableEq I] in
theorem Edit.Gives.name_eq {edit : Edit K V} (h : edit.Gives fold l e) : e.1 = edit.name := by
  cases edit with
  | set k v => rw [show e = (k, v) from h]; rfl
  | filter k keep => exact h.1

omit [DecidableEq I] in
theorem Edit.Gives.fold_eq {edit : Edit K V} (h : edit.Gives fold l e) : fold e.1 = fold edit.name :=
  congrArg fold h.name_eq

theorem Edit.mem_apply (h : Distinct fold l) (edit : Edit K V) :
    e ∈ edit.apply fold l ↔ edit.Gives fold l e ∨ (e ∈ l ∧ fold e.1 ≠ fold edit.name) := by
  cases edit with
  | set k v => exact mem_set
  | filter k keep =>
    cases hfind : find fold l k with
    | none =>
      simp only [Edit.apply, Edit.Gives, Edit.name, hfind]
      have hnone : ∀ {k' w}, fold k' = fold k → (k', w) ∉ l := fun hk' hmem => by
        rw [(find_eq_some_iff h).2 ⟨_, hk', hmem⟩] at hfind
        cases hfind
      refine ⟨fun he => .inr ⟨he, fun heq => hnone heq he⟩, ?_⟩
      rintro (⟨-, -, k', hk', hmem⟩ | ⟨he, -⟩)
      · exact absurd hmem (hnone hk')
      · exact he
    | some w =>
      obtain ⟨k', hk', hmem⟩ := (find_eq_some_iff h).1 hfind
      -- there is only one field of this name
      have hone : ∀ {k'' w'}, fold k'' = fold k → (k'', w') ∈ l → w' = w := fun hk'' hmem' =>
        congrArg Prod.snd (h.eq_of_fold_eq hmem' hmem (hk''.trans hk'.symm))
      simp only [Edit.apply, Edit.Gives, Edit.name, hfind]
      split
      next hkeep =>
        rw [mem_set]
        refine or_congr ⟨?_, ?_⟩ Iff.rfl
        · rintro rfl
          exact ⟨rfl, hkeep, k', hk', hmem⟩
        · rintro ⟨hname, -, k'', hk'', hmem'⟩
          exact Prod.ext hname (hone hk'' hmem')
      next hdrop =>
        rw [mem_erase]
        refine ⟨.inr, ?_⟩
        rintro (⟨-, hkeep, k'', hk'', hmem'⟩ | he)
        · exact absurd (hone hk'' hmem' ▸ hkeep) hdrop
        · exact he

theorem Edit.distinct_apply (h : Distinct fold l) (edit : Edit K V) :
    Distinct fold (edit.apply fold l) := by
  cases edit with
  | set k v => exact h.set k v
  | filter k keep =>
    cases hfind : find fold l k with
    | none => simpa only [Edit.apply, hfind] using h
    | some v =>
      simp only [Edit.apply, hfind]
      split
      · exact h.set k v
      · exact h.erase k

theorem distinct_applyAll (h : Distinct fold l) (edits : List (Edit K V)) :
    Distinct fold (applyAll fold edits l) := by
  induction edits generalizing l with
  | nil => exact h
  | cons edit edits ih => exact ih (edit.distinct_apply h)

/-- An edit does not see what edits of other names do. -/
theorem Edit.gives_apply (h : Distinct fold l) {edit edit' : Edit K V}
    (hne : fold edit'.name ≠ fold edit.name) :
    edit'.Gives fold (edit.apply fold l) e ↔ edit'.Gives fold l e := by
  cases edit' with
  | set k v => rfl
  | filter k keep =>
    refine and_congr_right fun _ => and_congr_right fun _ => exists_congr fun k' => ?_
    refine and_congr_right fun hk' => ?_
    rw [edit.mem_apply h]
    constructor
    · rintro (hgives | ⟨hmem, -⟩)
      · exact absurd (hk'.symm.trans hgives.fold_eq) hne
      · exact hmem
    · exact fun hmem => .inr ⟨hmem, fun heq => hne (hk'.symm.trans heq)⟩

/-- After edits of different names a field is what one of them leaves, or it has been there and none of
them has its name. -/
theorem mem_applyAll (h : Distinct fold l) {edits : List (Edit K V)}
    (hedits : (edits.map fun edit => fold edit.name).Nodup) : e ∈ applyAll fold edits l ↔
      (∃ edit ∈ edits, edit.Gives fold l e) ∨
        (e ∈ l ∧ ∀ edit ∈ edits, fold e.1 ≠ fold edit.name) := by
  induction edits generalizing l with
  | nil => simp [applyAll]
  | cons edit edits ih =>
    obtain ⟨hnot, hnodup⟩ := List.nodup_cons.1 hedits
    have hne : ∀ edit' ∈ edits, fold edit'.name ≠ fold edit.name := fun edit' hedit' heq =>
      hnot (List.mem_map.2 ⟨edit', hedit', heq⟩)
    have hcons : applyAll fold (edit :: edits) l = applyAll fold edits (edit.apply fold l) := rfl
    rw [hcons, ih (edit.distinct_apply h) hnodup, edit.mem_apply h, List.forall_mem_cons]
    constructor
    · rintro (⟨edit', hedit', hgives⟩ | ⟨hgives | ⟨hmem, hfold⟩, hothers⟩)
      · refine .inl ⟨edit', List.mem_cons_of_mem _ hedit', ?_⟩
        exact (Edit.gives_apply h (hne edit' hedit')).1 hgives
      · exact .inl ⟨edit, List.mem_cons_self, hgives⟩
      · exact .inr ⟨hmem, hfold, hothers⟩
    · rintro (⟨edit', hedit', hgives⟩ | ⟨hmem, hfold, hothers⟩)
      · rcases List.mem_cons.1 hedit' with rfl | hedit'
        · exact .inr ⟨.inl hgives, fun edit'' hedit'' heq =>
            hne edit'' hedit'' (heq.symm.trans hgives.fold_eq)⟩
        · exact .inl ⟨edit', hedit', (Edit.gives_apply h (hne edit' hedit')).2 hgives⟩
      · exact .inr ⟨.inr ⟨hmem, hfold⟩, hothers⟩

end AimRT.Lib.Fields
