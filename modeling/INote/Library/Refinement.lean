import Mathlib.Data.Option.Basic

/-! # Refinement of programs that can be stuck

Two programs run over different states. One refines the other when, from related states, both are stuck
or both return, with related values and in related states. Refinement is proved along the text of the two
programs; the concrete one may take steps of its own.
-/

/-- The two runs end alike. -/
def Refines {σ τ α β : Type} (before : σ → τ → Prop) (abstract : StateT σ Option α)
    (concrete : StateT τ Option β) (after : α → β → σ → τ → Prop) : Prop :=
  ∀ state world, before state world →
    Option.Rel (fun left right => after left.1 right.1 left.2 right.2) (abstract.run state) (concrete.run world)

namespace Refines

variable {σ τ α β γ δ : Type} {before : σ → τ → Prop} {abstract : StateT σ Option α} {concrete : StateT τ Option β}
  {after : α → β → σ → τ → Prop} {last : γ → δ → σ → τ → Prop}

theorem bind {abstractNext : α → StateT σ Option γ} {concreteNext : β → StateT τ Option δ}
    (first : Refines before abstract concrete after)
    (next : ∀ value other, Refines (after value other) (abstractNext value) (concreteNext other) last) :
    Refines before (abstract >>= abstractNext) (concrete >>= concreteNext) last := by
  intro state world start
  have ends := first state world start
  rw [StateT.run_bind, StateT.run_bind]
  generalize abstract.run state = left at ends
  generalize concrete.run world = right at ends
  cases ends with
  | none => exact .none
  | some related => exact next _ _ _ _ related

/-- A step the abstract program does not take. -/
theorem step {between : β → σ → τ → Prop} {abstract : StateT σ Option γ} {concreteNext : β → StateT τ Option δ}
    (taken : ∀ state world, before state world →
      ∃ other next, concrete.run world = some (other, next) ∧ between other state next)
    (next : ∀ other, Refines (between other) abstract (concreteNext other) last) :
    Refines before abstract (concrete >>= concreteNext) last := by
  intro state world start
  obtain ⟨other, reached, run, related⟩ := taken state world start
  rw [StateT.run_bind, run]
  exact next other state reached related

/-- The relation between the states may be weakened before the run. -/
theorem of_imp {weaker : σ → τ → Prop} (implies : ∀ state world, before state world → weaker state world)
    (refines : Refines weaker abstract concrete after) : Refines before abstract concrete after :=
  fun state world start => refines state world (implies state world start)

end Refines
