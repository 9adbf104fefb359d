import Mathlib.Data.List.Basic
import Mathlib.Tactic

/-!
# Logs

A log of events that only grows, where every event must be allowed behind those before it.  A log that is
legal stays so for as long as only such events are added, and what is legal is so all along.
-/

namespace AimRT.Lib.Trace

variable {E : Type} {Allowed : List E → E → Prop} {log : List E}

/-- Every event of a log is allowed behind the events before it. -/
def Legal (Allowed : List E → E → Prop) (log : List E) : Prop :=
  ∀ before e after, log = before ++ e :: after → Allowed before e

theorem legal_nil : Legal Allowed [] := by
  intro before e after h
  simp at h

theorem Legal.of_begins {log' : List E} (h : Legal Allowed log') (hbegins : log <+: log') : Legal Allowed log := by
  obtain ⟨rest, rfl⟩ := hbegins
  rintro before e after rfl
  exact h before e (after ++ rest) (by simp)

theorem legal_append_singleton {e : E} : Legal Allowed (log ++ [e]) ↔ Legal Allowed log ∧ Allowed log e := by
  constructor
  · exact fun h => ⟨h.of_begins (List.prefix_append _ _), h log e [] rfl⟩
  · rintro ⟨hlog, he⟩ before e' after h
    rcases List.eq_nil_or_concat after with rfl | ⟨after, last, rfl⟩
    · obtain ⟨rfl, hlast⟩ := List.append_inj' h rfl
      rwa [← List.head_eq_of_cons_eq hlast]
    · rw [List.concat_eq_append, ← List.cons_append, ← List.append_assoc] at h
      exact hlog before e' after (List.append_inj' h rfl).1

end AimRT.Lib.Trace
