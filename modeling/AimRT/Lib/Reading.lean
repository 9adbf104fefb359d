import Mathlib.Tactic

/-!
# Readers that are told a length

A reader takes fields off a block of memory.  It has been told how long the block is, and rejects a
field that would end behind this length; whether the memory is as long as it has been told is not
checked by anybody.

`Reading` is the tree of the fields a reader takes, and `Reading.run` reads a block of memory under a
told length.  `Reading.limit` is the least told length under which the reader leaves the memory.
-/

namespace AimRT.Lib

variable {α β γ δ : Type}

/-- The fields that a reader takes, one after the other. -/
inductive Reading (α β : Type) where
  | done (b : β)
  | take (k : ℕ) (next : List α → Reading α β)
  /-- All that is left of the told length. -/
  | rest (next : List α → Reading α β)

/-- How a reader ends: with a value, with an exception, or outside the memory. -/
inductive ReadResult (β : Type) where
  | value (b : β)
  | rejected
  | escaped
  deriving DecidableEq, Repr

namespace Reading

def bind : Reading α β → (β → Reading α γ) → Reading α γ
  | done b, f => f b
  | take k next, f => take k fun bs => (next bs).bind f
  | rest next, f => rest fun bs => (next bs).bind f

instance : Monad (Reading α) where
  pure := done
  bind := bind

/-- The reader on the memory `mem`, where `len` is the length it has been told. -/
def run : Reading α β → (len : ℕ) → (mem : List α) → ReadResult β
  | done b, _, _ => .value b
  | take k next, len, mem =>
    if k > len then .rejected
    else if k > mem.length then .escaped
    else (next (mem.take k)).run (len - k) (mem.drop k)
  | rest next, len, mem =>
    if len > mem.length then .escaped
    else (next (mem.take len)).run 0 (mem.drop len)

/-- The end of the first field that the memory cuts off, or the first length behind the memory if the
reader asks for all that is left. -/
def limit : Reading α β → (mem : List α) → Option ℕ
  | done _, _ => none
  | take k next, mem =>
    if k > mem.length then some k
    else ((next (mem.take k)).limit (mem.drop k)).map (· + k)
  | rest _, mem => some (mem.length + 1)

section Fields

variable (k len : ℕ) (next : List α → Reading α β) (f : β → Reading α γ) (mem : List α)

theorem bind_take : (take k next).bind f = take k fun bs => (next bs).bind f := rfl

theorem bind_rest : (rest next).bind f = rest fun bs => (next bs).bind f := rfl

theorem run_take : (take k next).run len mem =
    if k > len then .rejected
    else if k > mem.length then .escaped
    else (next (mem.take k)).run (len - k) (mem.drop k) := rfl

theorem run_rest : (rest next).run len mem =
    if len > mem.length then .escaped else (next (mem.take len)).run 0 (mem.drop len) := rfl

theorem limit_take : (take k next).limit mem =
    if k > mem.length then some k else ((next (mem.take k)).limit (mem.drop k)).map (· + k) := rfl

theorem limit_rest : (rest next).limit mem = some (mem.length + 1) := rfl

end Fields

theorem bind_assoc (t : Reading α β) (f : β → Reading α γ) (g : γ → Reading α δ) :
    t >>= f >>= g = t >>= fun b => f b >>= g := by
  show (t.bind f).bind g = t.bind fun b => (f b).bind g
  induction t with
  | done b => rfl
  | take k next ih => simp only [bind_take, ih]
  | rest next ih => simp only [bind_rest, ih]

theorem bind_done (t : Reading α β) : t >>= done = t := by
  show t.bind done = t
  induction t with
  | done b => rfl
  | take k next ih => simp only [bind_take, ih]
  | rest next ih => simp only [bind_rest, ih]

/-! ### Leaving the memory -/

theorem run_zero_ne_escaped (t : Reading α β) (mem : List α) : t.run 0 mem ≠ .escaped := by
  induction t generalizing mem with
  | done b => exact nofun
  | take k next ih =>
    rw [run_take]
    split
    · exact nofun
    rw [if_neg (by omega), Nat.zero_sub]
    exact ih _ _
  | rest next ih =>
    rw [run_rest, if_neg (by omega)]
    exact ih _ _

/-- **When a reader leaves the memory.** -/
theorem run_eq_escaped_iff {t : Reading α β} {len : ℕ} {mem : List α} :
    t.run len mem = .escaped ↔ ∃ e, t.limit mem = some e ∧ e ≤ len := by
  induction t generalizing len mem with
  | done b => exact ⟨nofun, fun ⟨e, he, _⟩ => nomatch he⟩
  | take k next ih =>
    rw [run_take, limit_take]
    by_cases hmem : k > mem.length
    · rw [if_pos hmem, if_pos hmem]
      by_cases hlen : k > len
      · rw [if_pos hlen]
        refine ⟨nofun, fun ⟨e, he, hle⟩ => ?_⟩
        obtain rfl := Option.some.inj he
        omega
      · rw [if_neg hlen]
        exact ⟨fun _ => ⟨k, rfl, by omega⟩, fun _ => rfl⟩
    rw [if_neg hmem, if_neg hmem]
    by_cases hlen : k > len
    · rw [if_pos hlen]
      refine ⟨nofun, fun ⟨e, he, hle⟩ => ?_⟩
      obtain ⟨e', -, rfl⟩ := Option.map_eq_some_iff.1 he
      omega
    · rw [if_neg hlen, ih]
      constructor
      · rintro ⟨e, he, hle⟩
        exact ⟨e + k, by rw [he]; rfl, by omega⟩
      · rintro ⟨e, he, hle⟩
        obtain ⟨e', he', rfl⟩ := Option.map_eq_some_iff.1 he
        exact ⟨e', he', by omega⟩
  | rest next _ =>
    rw [run_rest, limit_rest]
    by_cases hlen : len > mem.length
    · rw [if_pos hlen]
      exact ⟨fun _ => ⟨_, rfl, hlen⟩, fun _ => rfl⟩
    · rw [if_neg hlen]
      refine ⟨fun h => absurd h (run_zero_ne_escaped _ _), fun ⟨e, he, hle⟩ => ?_⟩
      obtain rfl := Option.some.inj he
      omega

theorem length_lt_limit {t : Reading α β} {mem : List α} {e : ℕ} (h : t.limit mem = some e) :
    mem.length < e := by
  induction t generalizing mem e with
  | done b => cases h
  | take k next ih =>
    rw [limit_take] at h
    split at h
    · obtain rfl := Option.some.inj h
      assumption
    · obtain ⟨e', he', rfl⟩ := Option.map_eq_some_iff.1 h
      have := ih _ he'
      rw [List.length_drop] at this
      omega
  | rest next _ =>
    obtain rfl := Option.some.inj h
    exact Nat.lt_succ_self _

/-- What is behind the told length does not matter. -/
theorem run_append (t : Reading α β) {len : ℕ} {mem : List α} (h : len ≤ mem.length)
    (mem' : List α) : t.run len (mem ++ mem') = t.run len mem := by
  induction t generalizing len mem with
  | done b => rfl
  | take k next ih =>
    rw [run_take, run_take]
    by_cases hlen : k > len
    · rw [if_pos hlen, if_pos hlen]
    rw [if_neg hlen, if_neg hlen, if_neg (by rw [List.length_append]; omega), if_neg (by omega),
      List.take_append_of_le_length (by omega), List.drop_append_of_le_length (by omega)]
    exact ih _ (by rw [List.length_drop]; omega)
  | rest next ih =>
    rw [run_rest, run_rest, if_neg (by rw [List.length_append]; omega), if_neg (by omega),
      List.take_append_of_le_length h, List.drop_append_of_le_length h]
    exact ih _ (Nat.zero_le _)

/-! ### Reading what was written -/

/-- The reader takes just the fields `bs` and comes to `b`: with a shorter told length it rejects one
of them. -/
def Spells (t : Reading α β) (bs : List α) (b : β) : Prop :=
  ∀ (γ : Type) (f : β → Reading α γ) (len : ℕ) (mem : List α), (t >>= f).run len (bs ++ mem) =
    if bs.length ≤ len then (f b).run (len - bs.length) mem else .rejected

theorem spells_done (b : β) : Spells (done b : Reading α β) [] b := by
  intro γ f len mem
  exact (if_pos (Nat.zero_le len)).symm

theorem spells_take (bs : List α) (f : List α → β) :
    Spells (take bs.length fun bs => done (f bs)) bs (f bs) := by
  intro γ g len mem
  show run (take bs.length fun bs => g (f bs)) len (bs ++ mem) = _
  rw [run_take]
  by_cases hlen : bs.length ≤ len
  · rw [if_neg (by omega), if_neg (by rw [List.length_append]; omega), List.take_left,
      List.drop_left, if_pos hlen]
  · rw [if_pos (by omega), if_neg hlen]

theorem Spells.bind {t : Reading α β} {f : β → Reading α γ} {bs bs' : List α} {b : β} {c : γ}
    (h : t.Spells bs b) (h' : (f b).Spells bs' c) : (t >>= f).Spells (bs ++ bs') c := by
  intro δ g len mem
  rw [bind_assoc, List.append_assoc, h, List.length_append]
  by_cases hlen : bs.length ≤ len
  · rw [if_pos hlen, h']
    by_cases hlen' : bs'.length ≤ len - bs.length
    · rw [if_pos hlen', if_pos (by omega), Nat.sub_sub]
    · rw [if_neg hlen', if_neg (by omega)]
  · rw [if_neg hlen, if_neg (by omega)]

/-- A reader that only takes all that is left. -/
theorem run_rest_done (f : List α → β) {len : ℕ} {mem : List α} (h : len ≤ mem.length) :
    (rest fun data => done (f data)).run len mem = .value (f (mem.take len)) := by
  rw [run_rest, if_neg (by omega)]
  rfl

/-- A reader of a header and of all that is left behind it. -/
theorem Spells.run_rest {t : Reading α β} {bs : List α} {b : β} (h : t.Spells bs b)
    (f : β → List α → γ) {len : ℕ} {mem : List α} (hlen : len ≤ (bs ++ mem).length) :
    (t >>= fun b => rest fun data => done (f b data)).run len (bs ++ mem) =
      if bs.length ≤ len then .value (f b (mem.take (len - bs.length))) else .rejected := by
  rw [List.length_append] at hlen
  rw [h]
  by_cases hbs : bs.length ≤ len
  · rw [if_pos hbs, if_pos hbs]
    exact run_rest_done (f b) (by omega)
  · rw [if_neg hbs, if_neg hbs]

/-- A field that was read is inside the memory. -/
theorem run_take_eq_value {k : ℕ} {next : List α → Reading α β} {len : ℕ} {mem : List α} {b : β}
    (h : (take k next).run len mem = .value b) :
    k ≤ mem.length ∧ (next (mem.take k)).run (len - k) (mem.drop k) = .value b := by
  rw [run_take] at h
  split at h
  · cases h
  split at h
  · cases h
  exact ⟨by omega, h⟩

end Reading

end AimRT.Lib
