import Mathlib.Data.Option.Basic
import Mathlib.Tactic.TypeStar

/-! # Runs of a machine

A machine takes moves one by one and refuses those that cannot come. A property of its runs is an invariant that each
move keeps; the moves may have to meet a condition on the state that they find. A machine that refuses nothing is the
special case of a step that is total.
-/

namespace Program

variable {σ μ : Type*} {step : σ → μ → Option σ} {condition : σ → μ → Prop} {I : σ → Prop} {moves : List μ} {s t : σ}

/-- Every move meets the condition in the state that it finds, up to the first move that is refused. -/
def Meets (step : σ → μ → Option σ) (condition : σ → μ → Prop) : List μ → σ → Prop
  | [], _ => True
  | move :: moves, s => condition s move ∧ (step s move).elim True fun t => Meets step condition moves t

/-- A condition that can be tested can be tested along a run. -/
def Meets.decidable [∀ s move, Decidable (condition s move)] :
    (moves : List μ) → (s : σ) → Decidable (Meets step condition moves s)
  | [], _ => isTrue trivial
  | move :: moves, s =>
    have : Decidable ((step s move).elim True fun t => Meets step condition moves t) :=
      match step s move with
      | none => isTrue trivial
      | some t => Meets.decidable moves t
    inferInstanceAs (Decidable (_ ∧ _))

instance [∀ s move, Decidable (condition s move)] (moves : List μ) (s : σ) :
    Decidable (Meets step condition moves s) := Meets.decidable moves s

theorem Meets.next {move : μ} (meets : Meets step condition (move :: moves) s) (stepped : step s move = some t) :
    Meets step condition moves t := by
  have rest := meets.2
  rwa [stepped] at rest

/-- What each move keeps holds after the run. -/
theorem Meets.keeps (meets : Meets step condition moves s)
    (kept : ∀ s move t, condition s move → I s → step s move = some t → I t) (holds : I s)
    (run : moves.foldlM step s = some t) : I t := by
  induction moves generalizing s with
  | nil =>
    cases run
    exact holds
  | cons move moves ih =>
    obtain ⟨mid, stepped, rest⟩ := Option.bind_eq_some_iff.mp run
    exact ih (meets.next stepped) (kept s move mid meets.1 holds stepped) rest

theorem Meets.of_forall (all : ∀ s, ∀ move ∈ moves, condition s move) (s : σ) : Meets step condition moves s := by
  induction moves generalizing s with
  | nil => trivial
  | cons move moves ih =>
    constructor
    · exact all s move List.mem_cons_self
    · cases step s move with
      | none => trivial
      | some t => exact ih (fun u next member => all u next (List.mem_cons_of_mem _ member)) t

/-- An invariant of the machine holds after every run. -/
theorem foldlM_invariant (kept : ∀ s move t, I s → step s move = some t → I t) (holds : I s)
    (run : moves.foldlM step s = some t) : I t :=
  (Meets.of_forall (fun _ _ _ => trivial) s : Meets step (fun _ _ => True) moves s).keeps
    (fun s move t _ => kept s move t) holds run

section

variable {next : σ → μ → σ} {more : List μ}

/-- The condition along a run of a machine that refuses nothing. -/
abbrev MeetsAll (next : σ → μ → σ) (condition : σ → μ → Prop) : List μ → σ → Prop :=
  Meets (fun s move => some (next s move)) condition

theorem MeetsAll.keeps (meets : MeetsAll next condition moves s)
    (kept : ∀ s move, condition s move → I s → I (next s move)) (holds : I s) : I (moves.foldl next s) := by
  refine Meets.keeps meets (fun s move t right holds stepped => ?_) holds List.foldlM_pure
  obtain rfl : next s move = t := Option.some.inj stepped
  exact kept s move right holds

theorem MeetsAll.append (meets : MeetsAll next condition (moves ++ more) s) :
    MeetsAll next condition moves s ∧ MeetsAll next condition more (moves.foldl next s) := by
  induction moves generalizing s with
  | nil => exact ⟨trivial, meets⟩
  | cons move moves ih =>
    obtain ⟨before, after⟩ := ih meets.2
    exact ⟨⟨meets.1, before⟩, after⟩

end

end Program
