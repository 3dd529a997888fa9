import Mathlib.Data.List.Basic

/-! # Fallible folds whose faults are visible in advance

A loop that may stop with an exception is a monadic fold over `Except`. When the fault of an item
depends on the item alone, the whole loop is decided by the first faulty item: either there is
none and the loop is the pure fold of its successful steps, or the loop stops with that item's
fault. The invariant covers faults that the state rules out, such as an index into a list whose
length every step keeps.
-/

namespace List

variable {α β σ ε : Type*}

/-- The outcome of one guarded step. -/
def guarded (fault : Option ε) (next : σ) : Except ε σ :=
  match fault with
  | some e => .error e
  | none => .ok next

@[simp] theorem guarded_some (e : ε) (next : σ) : guarded (some e) next = .error e := rfl

@[simp] theorem guarded_none (next : σ) : guarded (none : Option ε) next = .ok next := rfl

/-- A loop of guarded steps is decided by its first fault. -/
theorem foldlM_guarded {step : σ → α → Except ε σ} (fault : α → Option ε) (next : σ → α → σ)
    (Inv : σ → Prop) {items : List α}
    (spec : ∀ s, ∀ item ∈ items, Inv s → step s item = guarded (fault item) (next s item))
    (keeps : ∀ s, ∀ item ∈ items, Inv s → fault item = none → Inv (next s item))
    {start : σ} (holds : Inv start) :
    items.foldlM step start = guarded (items.findSome? fault) (items.foldl next start) := by
  induction items generalizing start with
  | nil => rfl
  | cons item rest ih =>
    have head := spec start item mem_cons_self holds
    cases found : fault item with
    | some e =>
      rw [found, guarded_some] at head
      simp only [foldlM_cons, head, findSome?_cons, found, guarded_some]
      rfl
    | none =>
      rw [found, guarded_none] at head
      have tail := ih (fun s other member => spec s other (mem_cons_of_mem _ member))
        (fun s other member => keeps s other (mem_cons_of_mem _ member))
        (keeps start item mem_cons_self holds found)
      simp only [foldlM_cons, head, findSome?_cons, found, foldl_cons, ← tail]
      rfl

/-- Nested loops are one loop over the pairs they visit. -/
theorem foldlM_flatMap_pairs {m : Type _ → Type*} [Monad m] [LawfulMonad m]
    (step : α → σ → β → m σ) (inner : α → List β) (items : List α) (start : σ) :
    items.foldlM (fun s item => (inner item).foldlM (step item) s) start =
      (items.flatMap fun item => (inner item).map (Prod.mk item)).foldlM
        (fun s pair => step pair.1 s pair.2) start := by
  induction items generalizing start with
  | nil => rfl
  | cons item rest ih =>
    simp only [foldlM_cons, flatMap_cons, foldlM_append, foldlM_map, ih]

/-! ## Loops that log

A loop with a log stops at the first fault as well, and its log is that of the items up to the faulty one.
-/

/-- The items up to the first faulty one, which is the last of them. -/
def uptoFault (fault : α → Option ε) : List α → List α
  | [] => []
  | item :: rest => item :: if (fault item).isSome then [] else uptoFault fault rest

theorem uptoFault_of_quiet {fault : α → Option ε} {items : List α} (quiet : ∀ item ∈ items, fault item = none) :
    uptoFault fault items = items := by
  induction items with
  | nil => rfl
  | cons item rest ih =>
    rw [forall_mem_cons] at quiet
    rw [uptoFault, quiet.1, Option.isSome_none, if_neg Bool.false_ne_true, ih quiet.2]

theorem uptoFault_append {fault : α → Option ε} {before after : List α} {item : α}
    (quiet : ∀ earlier ∈ before, fault earlier = none) (faulty : (fault item).isSome) :
    uptoFault fault (before ++ item :: after) = before ++ [item] := by
  induction before with
  | nil => rw [nil_append, uptoFault, if_pos faulty, nil_append]
  | cons earlier rest ih =>
    rw [forall_mem_cons] at quiet
    rw [cons_append, uptoFault, quiet.1, Option.isSome_none, if_neg Bool.false_ne_true, ih quiet.2, cons_append]

/-- The outcome of one guarded step, in a state that has been logged to. -/
def guardedLog {σ ε ω : Type} (fault : Option ε) (next : σ) (world : ω) : EStateM.Result ε ω σ :=
  match fault with
  | some e => .error e world
  | none => .ok next world

theorem ofExcept_guarded {σ ε ω : Type} (fault : Option ε) (next : σ) (world : ω) :
    (ofExcept (guarded fault next) : EStateM ε ω σ) world = guardedLog fault next world := by
  cases fault <;> rfl

theorem foldlM_guardedLog {α σ ε ω : Type} {step : σ → α → EStateM ε ω σ} (fault : α → Option ε)
    (next : σ → α → σ) (log : ω → α → ω) (Inv : σ → Prop) {items : List α}
    (spec : ∀ s, ∀ item ∈ items, Inv s → ∀ world,
      step s item world = guardedLog (fault item) (next s item) (log world item))
    (keeps : ∀ s, ∀ item ∈ items, Inv s → fault item = none → Inv (next s item))
    {start : σ} (holds : Inv start) (world : ω) :
    items.foldlM step start world =
      guardedLog (items.findSome? fault) (items.foldl next start) ((uptoFault fault items).foldl log world) := by
  induction items generalizing start world with
  | nil => rfl
  | cons item rest ih =>
    have head := spec start item mem_cons_self holds world
    rw [foldlM_cons, findSome?_cons, uptoFault, foldl_cons, foldl_cons]
    change EStateM.bind (step start item) _ world = _
    rw [EStateM.bind, head]
    cases found : fault item with
    | some e => rfl
    | none =>
      exact ih (fun s other member => spec s other (mem_cons_of_mem _ member))
        (fun s other member => keeps s other (mem_cons_of_mem _ member))
        (keeps start item mem_cons_self holds found) (log world item)

end List
