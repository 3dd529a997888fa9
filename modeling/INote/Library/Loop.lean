import Mathlib.Order.WellFounded

/-! # Loops as repeated passes

A loop body either sends its state round again or leaves with a result. A run may leave after any
number of passes or never; a fuel-bounded evaluator computes exactly the runs that leave. The
rules are those of a `while` loop: an invariant of the passes holds at every visited state and
yields the postcondition, a measure that every pass decreases makes the run leave, and an
invariant under which no pass leaves makes it run forever. The states at the top of the passes are
the trace of the run.
-/

namespace Loop

variable {σ ρ α : Type*}

/-- The outcome of one pass through the body. -/
inductive Pass (σ ρ : Type*) where
  | again (next : σ)
  | leave (result : ρ)
deriving DecidableEq

/-- The second state is reached at the top of some pass of the run from the first. -/
inductive Visits (body : σ → Pass σ ρ) : σ → σ → Prop
  | refl (state : σ) : Visits body state state
  | step {start state next : σ} : Visits body start state → body state = .again next →
      Visits body start next

/-- The run from a state leaves with a result. -/
inductive Exits (body : σ → Pass σ ρ) : σ → ρ → Prop
  | leave {state : σ} {result : ρ} : body state = .leave result → Exits body state result
  | again {state next : σ} {result : ρ} : body state = .again next → Exits body next result →
      Exits body state result

/-- Evaluate at most `fuel` passes. -/
def run (body : σ → Pass σ ρ) : ℕ → σ → Option ρ
  | 0, _ => none
  | fuel + 1, state =>
    match body state with
    | .again next => run body fuel next
    | .leave result => some result

/-- The states at the top of the first `fuel` passes. -/
def trace (body : σ → Pass σ ρ) : ℕ → σ → List σ
  | 0, _ => []
  | fuel + 1, state =>
    state ::
      match body state with
      | .again next => trace body fuel next
      | .leave _ => []

variable {body : σ → Pass σ ρ}

theorem exits_of_run {fuel : ℕ} {state : σ} {result : ρ} (value : run body fuel state = some result) :
    Exits body state result := by
  induction fuel generalizing state with
  | zero => contradiction
  | succ fuel ih =>
    rw [run] at value
    cases pass : body state with
    | again next =>
      rw [pass] at value
      exact .again pass (ih value)
    | leave early =>
      rw [pass] at value
      obtain rfl := Option.some.inj value
      exact .leave pass

/-- The evaluator computes exactly the runs that leave. -/
theorem exits_iff_run {state : σ} {result : ρ} :
    Exits body state result ↔ ∃ fuel, run body fuel state = some result := by
  constructor
  · intro exits
    induction exits with
    | leave pass => exact ⟨1, by simp only [run, pass]⟩
    | again pass _ ih =>
      obtain ⟨fuel, value⟩ := ih
      exact ⟨fuel + 1, by simp only [run, pass, value]⟩
  · rintro ⟨fuel, value⟩
    exact exits_of_run value

theorem Exits.unique {state : σ} {left right : ρ} (first : Exits body state left)
    (second : Exits body state right) : left = right := by
  induction first with
  | leave pass =>
    cases second with
    | leave other => exact Pass.leave.inj (pass.symm.trans other)
    | again other _ =>
      rw [pass] at other
      contradiction
  | again pass _ ih =>
    cases second with
    | leave other =>
      rw [pass] at other
      contradiction
    | again other rest =>
      obtain rfl := Pass.again.inj (pass.symm.trans other)
      exact ih rest

/-- An invariant of the passes holds at every visited state. -/
theorem Visits.invariant (Inv : σ → Prop)
    (keeps : ∀ state next, Inv state → body state = .again next → Inv next)
    {start state : σ} (visited : Visits body start state) (holds : Inv start) : Inv state := by
  induction visited with
  | refl => exact holds
  | step _ pass ih => exact keeps _ _ ih pass

/-- The postcondition rule. -/
theorem Exits.post (Inv : σ → Prop) {Post : ρ → Prop}
    (keeps : ∀ state next, Inv state → body state = .again next → Inv next)
    (ends : ∀ state result, Inv state → body state = .leave result → Post result)
    {state : σ} {result : ρ} (exits : Exits body state result) (holds : Inv state) : Post result := by
  induction exits with
  | leave pass => exact ends _ _ holds pass
  | again pass _ ih => exact ih (keeps _ _ holds pass)

/-- The termination rule: under the invariant, every pass decreases the measure. -/
theorem exists_exits [Preorder α] [WellFoundedLT α] (Inv : σ → Prop) (measure : σ → α)
    (keeps : ∀ state next, Inv state → body state = .again next → Inv next)
    (decreases : ∀ state next, Inv state → body state = .again next → measure next < measure state)
    {state : σ} (holds : Inv state) : ∃ result, Exits body state result := by
  generalize same : measure state = bound
  induction bound using WellFoundedLT.induction generalizing state with
  | ind bound ih =>
    subst same
    cases pass : body state with
    | leave result => exact ⟨result, .leave pass⟩
    | again next =>
      obtain ⟨result, exits⟩ :=
        ih (measure next) (decreases state next holds pass) (keeps state next holds pass) rfl
      exact ⟨result, .again pass exits⟩

/-- Total correctness: the run leaves, and the postcondition holds of its result. -/
theorem exists_run [Preorder α] [WellFoundedLT α] (Inv : σ → Prop) (measure : σ → α) {Post : ρ → Prop}
    (keeps : ∀ state next, Inv state → body state = .again next →
      Inv next ∧ measure next < measure state)
    (ends : ∀ state result, Inv state → body state = .leave result → Post result)
    {state : σ} (holds : Inv state) :
    ∃ fuel result, run body fuel state = some result ∧ Post result := by
  obtain ⟨result, exits⟩ := exists_exits Inv measure (fun _ _ inv pass => (keeps _ _ inv pass).1)
    (fun _ _ inv pass => (keeps _ _ inv pass).2) holds
  obtain ⟨fuel, value⟩ := exits_iff_run.mp exits
  exact ⟨fuel, result, value, exits.post Inv (fun _ _ inv pass => (keeps _ _ inv pass).1) ends holds⟩

/-- When every pass takes the next item of what is left, and the loop leaves with nothing left, the items
determine where each pass starts. -/
theorem map_trace {ι κ : Type*} (Inv : σ → Prop) (left : σ → List ι) (key : σ → κ) (move : κ → ι → κ)
    (keeps : ∀ state next, Inv state → body state = .again next →
      Inv next ∧ ∃ item, left state = item :: left next ∧ key next = move (key state) item)
    (ends : ∀ state result, Inv state → body state = .leave result → left state = [])
    {fuel : ℕ} {state : σ} {result : ρ} (value : run body fuel state = some result) (holds : Inv state) :
    (trace body fuel state).map key = (left state).scanl move (key state) := by
  induction fuel generalizing state with
  | zero => contradiction
  | succ fuel ih =>
    rw [run] at value
    rw [trace, List.map_cons]
    cases pass : body state with
    | leave early =>
      rw [ends _ _ holds pass, List.scanl_nil]
      rfl
    | again next =>
      rw [pass] at value
      obtain ⟨kept, item, taken, moved⟩ := keeps _ _ holds pass
      rw [taken, List.scanl_cons, ← moved, ← ih value kept]

/-- Under an invariant that never leaves, the loop runs forever. -/
theorem not_exits (Inv : σ → Prop)
    (keeps : ∀ state, Inv state → ∃ next, body state = .again next ∧ Inv next)
    {state : σ} (holds : Inv state) (result : ρ) : ¬ Exits body state result := by
  intro exits
  induction exits with
  | leave pass =>
    obtain ⟨next, other, _⟩ := keeps _ holds
    rw [pass] at other
    contradiction
  | again pass _ ih =>
    obtain ⟨next, other, kept⟩ := keeps _ holds
    obtain rfl := Pass.again.inj (pass.symm.trans other)
    exact ih kept

end Loop
