import Mathlib.Data.List.Basic

/-! # Simulation of programs with exceptions

A concrete program keeps more in its state than an abstract one, say what it has printed. It simulates
the abstract program when, through a view of its state, it ends in the same way: with related values, or
with the same exception, in states the abstract run ends in. Simulations compose with the program.
-/

namespace Simulation

variable {ε σ τ α β γ δ : Type}

/-- The ends of a concrete and of an abstract run agree. -/
inductive Agree (view : σ → τ) (rel : α → β → Prop) : EStateM.Result ε σ α → EStateM.Result ε τ β → Prop where
  | ok {value : α} {other : β} {state : σ} (related : rel value other) :
    Agree view rel (.ok value state) (.ok other (view state))
  | error {fault : ε} {state : σ} : Agree view rel (.error fault state) (.error fault (view state))

def Simulates (view : σ → τ) (rel : α → β → Prop) (concrete : EStateM ε σ α) (abstract : EStateM ε τ β) :
    Prop :=
  ∀ state, Agree view rel (concrete state) (abstract (view state))

variable {view : σ → τ} {rel : α → β → Prop} {later : γ → δ → Prop}
  {concrete : EStateM ε σ α} {abstract : EStateM ε τ β}

theorem pure {value : α} {other : β} (related : rel value other) :
    Simulates view rel (Pure.pure value : EStateM ε σ α) (Pure.pure other : EStateM ε τ β) :=
  fun _ => .ok related

theorem bind {concreteNext : α → EStateM ε σ γ} {abstractNext : β → EStateM ε τ δ}
    (first : Simulates view rel concrete abstract)
    (next : ∀ value other, rel value other → Simulates view later (concreteNext value) (abstractNext other)) :
    Simulates view later (concrete >>= concreteNext) (abstract >>= abstractNext) := by
  intro state
  have ends := first state
  change Agree view later (EStateM.bind concrete concreteNext state)
    (EStateM.bind abstract abstractNext (view state))
  rw [EStateM.bind, EStateM.bind]
  generalize concrete state = result at ends
  generalize abstract (view state) = expected at ends
  cases ends with
  | ok related => exact next _ _ related _
  | error => exact .error

/-- A step the abstract program does not take. -/
theorem silent {concreteNext : α → EStateM ε σ γ} {abstract : EStateM ε τ δ}
    (quiet : ∀ state, ∃ value after, concrete state = .ok value after ∧ view after = view state)
    (next : ∀ value, Simulates view later (concreteNext value) abstract) :
    Simulates view later (concrete >>= concreteNext) abstract := by
  intro state
  obtain ⟨value, after, run, same⟩ := quiet state
  change Agree view later (EStateM.bind concrete concreteNext state) _
  rw [EStateM.bind, run, ← same]
  exact next value after

/-- Loops simulate each other when their bodies do. -/
theorem foldlM {ι : Type} {items : List ι} {concreteStep : α → ι → EStateM ε σ α}
    {abstractStep : β → ι → EStateM ε τ β}
    (step : ∀ value other, ∀ item ∈ items, rel value other →
      Simulates view rel (concreteStep value item) (abstractStep other item))
    {value : α} {other : β} (related : rel value other) :
    Simulates view rel (items.foldlM concreteStep value) (items.foldlM abstractStep other) := by
  induction items generalizing value other with
  | nil => exact pure related
  | cons item rest ih =>
    rw [List.foldlM_cons, List.foldlM_cons]
    apply bind (step value other item List.mem_cons_self related)
    intro next expected holds
    exact ih (fun value other item member => step value other item (List.mem_cons_of_mem _ member)) holds

/-- Both programs run the same computation in memory. -/
theorem ofExcept (outcome : Except ε α) :
    Simulates view Eq (MonadExcept.ofExcept outcome : EStateM ε σ α) (MonadExcept.ofExcept outcome) := by
  cases outcome with
  | ok value => exact pure rfl
  | error fault => exact fun _ => .error

/-- A loop in memory can be run step by step. -/
theorem ofExcept_foldlM {ι : Type} (step : α → ι → Except ε α) (items : List ι) (value : α) :
    (MonadExcept.ofExcept (items.foldlM step value) : EStateM ε σ α) =
      items.foldlM (fun value item => MonadExcept.ofExcept (step value item)) value := by
  induction items generalizing value with
  | nil => rfl
  | cons item rest ih =>
    rw [List.foldlM_cons, List.foldlM_cons]
    cases step value item with
    | error fault => rfl
    | ok next => exact ih next

/-- The end of a run as the abstract program sees it. -/
def viewed (view : σ → τ) : EStateM.Result ε σ α → EStateM.Result ε τ α
  | .ok value state => .ok value (view state)
  | .error fault state => .error fault (view state)

/-- With equal values, the abstract run is the view of the concrete one. -/
theorem viewed_eq {concrete : EStateM ε σ α} {abstract : EStateM ε τ α}
    (simulates : Simulates view Eq concrete abstract) (state : σ) :
    viewed view (concrete state) = abstract (view state) := by
  have ends := simulates state
  generalize concrete state = result at ends
  generalize abstract (view state) = expected at ends
  cases ends with
  | ok same => rw [same]; rfl
  | error => rfl

end Simulation
