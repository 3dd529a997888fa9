import INote.LIEFIntegration.DumpMacho

/-! # Any number of dumps

Every view that loads dumps the image once more. A run of dumps goes on until the first null pointer
and keeps one binary in one file: the last of the last parse that was not empty.
-/

namespace INote.LIEFIntegration

variable {Binary : Type} (lief : Lief Binary) (workdir : String)

/-- The dumps of the views, one after another; each has its base address. -/
def dumps (bases : List UInt64) : Program Unit := bases.foldlM (fun _ base => dumpMacho lief workdir base) ()

/-- The world after a dump. -/
def World.dump (lief : Lief Binary) (workdir : String) (world : World) (base : UInt64) : World :=
  finalWorld (dumpMacho lief workdir base world)

/-- A dump in any world. -/
theorem dumpMacho_eq_guardedLog (base : UInt64) (world : World) :
    dumpMacho lief workdir base world =
      List.guardedLog (dumpFault lief base) () (world.dump lief workdir base) := by
  obtain ⟨after, run, _⟩ := dumpMacho_run lief workdir base world
  rw [World.dump, run]
  cases dumpFault lief base <;> rfl

theorem Effect.dump (base : UInt64) (world : World) :
    Effect workdir (dumpedBy lief base) (dumpLines lief workdir base) (dumpErrors lief base) world
      (world.dump lief workdir base) := by
  obtain ⟨after, run, effect⟩ := dumpMacho_run lief workdir base world
  rw [World.dump, run]
  cases dumpFault lief base with
  | none => exact effect
  | some fault => exact effect

/-- The dumps end with the first null pointer. -/
theorem dumps_eq_guardedLog (bases : List UInt64) (world : World) :
    dumps lief workdir bases world = List.guardedLog (bases.findSome? (dumpFault lief)) ()
      ((List.uptoFault (dumpFault lief) bases).foldl (World.dump lief workdir) world) :=
  List.foldlM_guardedLog (dumpFault lief) (fun _ _ => ()) (World.dump lief workdir) (fun _ => True)
    (fun _ base _ _ world => dumpMacho_eq_guardedLog lief workdir base world)
    (fun _ _ _ _ _ => trivial) trivial world

/-- The effects of the dumps of a run add up. -/
theorem Effect.dumps (bases : List UInt64) (world : World) :
    Effect workdir (bases.flatMap (dumpedBy lief)) (bases.flatMap (dumpLines lief workdir))
      (bases.flatMap (dumpErrors lief)) world (bases.foldl (World.dump lief workdir) world) := by
  induction bases generalizing world with
  | nil => exact .refl workdir world
  | cons base rest ih => exact (dump lief workdir base world).trans (ih (world.dump lief workdir base))

/-- A run of dumps ends with its last dump or with the first null pointer. Up to there every dump prints
its lines, and of all binaries only the last one is kept, in the one file that changes apart from the logs. -/
theorem dumps_run (bases : List UInt64) (files : Files) :
    ∃ ran world,
      ((ran = bases ∧ (∀ base ∈ bases, dumpFault lief base = none) ∧
          dumps lief workdir bases { files } = .ok () world) ∨
        ∃ before base after, bases = before ++ base :: after ∧ ran = before ++ [base] ∧
          (∀ earlier ∈ before, dumpFault lief earlier = none) ∧
          base ≠ 0 ∧ lief.parseFromMemory base = none ∧
          dumps lief workdir bases { files } = .error .nullDereference world) ∧
      (∀ path, ¬ IsLog workdir path → world.files path =
        (ran.flatMap (dumpedBy lief)).getLast?.elim files
          (fun raw => Function.update files (binfile workdir) (some raw)) path) ∧
      world.stdout = ran.flatMap (dumpLines lief workdir) ∧
      world.stderr = ran.flatMap (dumpErrors lief) := by
  have run := dumps_eq_guardedLog lief workdir bases { files }
  obtain ⟨kept, _, stdout, stderr⟩ := Effect.dumps lief workdir (List.uptoFault (dumpFault lief) bases) { files }
  have oneFile := Writes.perform_one_key (binfile workdir)
    (((List.uptoFault (dumpFault lief) bases).flatMap (dumpedBy lief)).map some) files
  rw [List.map_map, List.getLast?_map] at oneFile
  refine ⟨List.uptoFault (dumpFault lief) bases, _, ?_, ?_, stdout, stderr⟩
  · cases fault : bases.findSome? (dumpFault lief) with
    | none =>
      have quiet := List.findSome?_eq_none_iff.mp fault
      rw [fault] at run
      exact .inl ⟨List.uptoFault_of_quiet quiet, quiet, run⟩
    | some error =>
      obtain ⟨before, base, after, split, here, quiet⟩ := List.findSome?_eq_some_iff.mp fault
      have faulty : base ≠ 0 ∧ lief.parseFromMemory base = none ∧ error = .nullDereference := by
        unfold dumpFault at here
        split at here
        · next null => exact ⟨null.1, Option.isNone_iff_eq_none.mp null.2, (Option.some.inj here).symm⟩
        · contradiction
      obtain ⟨nonzero, null, rfl⟩ := faulty
      rw [fault] at run
      exact .inr ⟨before, base, after, split, split ▸ List.uptoFault_append quiet (here ▸ rfl), quiet,
        nonzero, null, run⟩
  · intro path other
    rw [kept path other]
    refine (congrFun oneFile path).trans ?_
    cases ((List.uptoFault (dumpFault lief) bases).flatMap (dumpedBy lief)).getLast? <;> rfl

end INote.LIEFIntegration
