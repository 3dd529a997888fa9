import INote.Library.Simulation

/-! # Scripts with a console

A script reads and writes files and prints lines; an exception leaves what was printed. Loops that print
a line for each item print the lines in order. A script simulates the one without its print statements.
-/

namespace Console

variable {ε φ ℓ α β ι : Type}

/-- The files, and the lines printed so far. -/
structure World (φ ℓ : Type) where
  files : φ
  stdout : List ℓ

namespace World

def print (world : World φ ℓ) (lines : List ℓ) : World φ ℓ := { world with stdout := world.stdout ++ lines }

@[simp] theorem print_nil (world : World φ ℓ) : world.print [] = world :=
  congrArg (World.mk world.files) (List.append_nil _)

@[simp] theorem print_print (world : World φ ℓ) (first second : List ℓ) :
    (world.print first).print second = world.print (first ++ second) := by
  rw [print, print, print, List.append_assoc]

theorem foldl_print (line : ι → ℓ) (items : List ι) (world : World φ ℓ) :
    items.foldl (fun world item => world.print [line item]) world = world.print (items.map line) := by
  induction items generalizing world with
  | nil => exact world.print_nil.symm
  | cons item rest ih => rw [List.foldl_cons, ih, print_print, List.map_cons, List.singleton_append]

/-- Items without a line print nothing. -/
theorem foldl_printOption (line : ι → Option ℓ) (items : List ι) (world : World φ ℓ) :
    items.foldl (fun world item => world.print (line item).toList) world = world.print (items.filterMap line) := by
  induction items generalizing world with
  | nil => exact world.print_nil.symm
  | cons item rest ih =>
    rw [List.foldl_cons, ih, print_print]
    cases found : line item with
    | none => rw [List.filterMap_cons_none found]; rfl
    | some printed => rw [List.filterMap_cons_some found]; rfl

end World

def print (line : ℓ) : EStateM ε (World φ ℓ) Unit := modify fun world => world.print [line]

theorem print_run (line : ℓ) (world : World φ ℓ) :
    (print line : EStateM ε (World φ ℓ) Unit) world = .ok () (world.print [line]) := rfl

/-- What a script does that prints nothing. -/
def onFiles (script : EStateM ε φ α) : EStateM ε (World φ ℓ) α := fun world =>
  match script world.files with
  | .ok value files => .ok value { world with files := files }
  | .error error files => .error error { world with files := files }

theorem onFiles_of_ok {script : EStateM ε φ α} {world : World φ ℓ} {value : α} {files : φ}
    (run : script world.files = .ok value files) :
    onFiles script world = .ok value { world with files := files } := by
  simp only [onFiles, run]

/-- The world a run ends in. -/
def finalWorld : EStateM.Result ε (World φ ℓ) α → World φ ℓ
  | .ok _ world => world
  | .error _ world => world

theorem bind_ok {first : EStateM ε (World φ ℓ) α} {next : α → EStateM ε (World φ ℓ) β}
    {world after : World φ ℓ} {value : α} (run : first world = .ok value after) :
    (first >>= next) world = next value after := by
  change EStateM.bind first next world = _
  rw [EStateM.bind, run]

theorem bind_error {first : EStateM ε (World φ ℓ) α} {next : α → EStateM ε (World φ ℓ) β}
    {world after : World φ ℓ} {error : ε} (run : first world = .error error after) :
    (first >>= next) world = .error error after := by
  change EStateM.bind first next world = _
  rw [EStateM.bind, run]

/-- Print one line for each item. -/
theorem forM_print (line : ι → ℓ) (items : List ι) (world : World φ ℓ) :
    items.forM (fun item => (print (line item) : EStateM ε (World φ ℓ) Unit)) world =
      .ok () (world.print (items.map line)) := by
  induction items generalizing world with
  | nil =>
    rw [List.map_nil, World.print_nil]
    rfl
  | cons item rest ih =>
    have step : (item :: rest).forM (fun item => (print (line item) : EStateM ε (World φ ℓ) Unit)) world =
        rest.forM (fun item => (print (line item) : EStateM ε (World φ ℓ) Unit)) (world.print [line item]) := rfl
    rw [step, ih, World.print_print, List.map_cons, List.singleton_append]

/-! ## Without the console -/

theorem simulates_onFiles (script : EStateM ε φ α) :
    Simulation.Simulates World.files Eq (onFiles script : EStateM ε (World φ ℓ) α) script := by
  intro world
  rw [onFiles]
  cases script world.files with
  | ok value files => exact .ok rfl
  | error fault files => exact .error

theorem print_quiet (line : ℓ) (world : World φ ℓ) :
    ∃ value after, (print line : EStateM ε (World φ ℓ) Unit) world = .ok value after ∧
      after.files = world.files := ⟨(), _, rfl, rfl⟩

theorem forM_print_quiet (line : ι → ℓ) (items : List ι) (world : World φ ℓ) :
    ∃ value after, items.forM (fun item => (print (line item) : EStateM ε (World φ ℓ) Unit)) world =
      .ok value after ∧ after.files = world.files := ⟨(), _, forM_print line items world, rfl⟩

end Console
