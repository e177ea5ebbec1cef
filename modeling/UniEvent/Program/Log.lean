import Mathlib.Data.List.Infix
import Mathlib.Tactic.Common

/-! # Properties of a log

A log is a list with its newest entry first, so the entries behind an entry are what had happened
when it was made. `Along P` says of every entry that it is right in view of those before it; it
grows by one condition per entry and is inherited by every earlier stage of the log.
-/

namespace Program

variable {α : Type*} {P : α → List α → Prop}

/-- `P` holds of every entry, given the entries before it. -/
def Along (P : α → List α → Prop) : List α → Prop
  | [] => True
  | entry :: before => P entry before ∧ Along P before

instance Along.decidable [∀ entry before, Decidable (P entry before)] : DecidablePred (Along P)
  | [] => .isTrue trivial
  | entry :: before =>
    have : Decidable (Along P before) := Along.decidable before
    inferInstanceAs (Decidable (P entry before ∧ Along P before))

@[simp] theorem along_nil : Along P [] := trivial

@[simp] theorem along_cons (entry : α) (before : List α) :
    Along P (entry :: before) ↔ P entry before ∧ Along P before := Iff.rfl

/-- The property holds at every stage of the log. -/
theorem along_iff {log : List α} : Along P log ↔ ∀ entry before, entry :: before <:+ log → P entry before := by
  induction log with
  | nil => simp
  | cons last rest ih =>
    rw [along_cons, ih]
    refine ⟨?_, fun all => ⟨all last rest (List.suffix_refl _), ?_⟩⟩
    · rintro ⟨new, old⟩ entry before stage
      rcases List.suffix_cons_iff.mp stage with same | earlier
      · obtain ⟨rfl, rfl⟩ := List.cons.inj same
        exact new
      · exact old entry before earlier
    · exact fun entry before earlier => all entry before (earlier.trans (List.suffix_cons _ _))

/-- What holds along a log holds along every earlier stage of it. -/
theorem Along.earlier {log stage : List α} (holds : Along P log) (older : stage <:+ log) : Along P stage :=
  along_iff.mpr fun entry before part => along_iff.mp holds entry before (part.trans older)

/-- Entries that are right whatever came before them. -/
theorem Along.append {log events : List α} (holds : Along P log) (right : ∀ entry ∈ events, ∀ before, P entry before) :
    Along P (events ++ log) := by
  induction events with
  | nil => exact holds
  | cons entry events ih =>
    exact ⟨right entry List.mem_cons_self _, ih fun entry member => right entry (List.mem_cons_of_mem _ member)⟩

end Program
