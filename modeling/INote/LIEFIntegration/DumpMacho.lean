import INote.Library.Fold
import INote.Library.Writes

/-! # Dumping the binaries of an image

`dump_macho` parses the image at a base address and writes its binaries. After a failed parse it logs
the failure and goes on; every binary is written to one path, which then holds the last of them. So
the dump keeps what it should exactly when there are binaries and all of them have one content. The
library logs what it does to a file of its own, next to the dump.
-/

namespace INote.LIEFIntegration

/-- The files, by path. -/
abbrev Files := String → Option (List UInt8)

inductive LoggingLevel where
  | trace
  | debug
  | info
  | warn
  | err
  | critical
deriving DecidableEq

/-- A call of the library, which may log. -/
inductive Call (Binary : Type) where
  | setPath (path : String)
  | setLevel (level : LoggingLevel)
  | parseFromMemory (base : UInt64)
  | write (bin : Binary) (path : String)

/-- Where the library logs before a path has been set. -/
def defaultLog : String := "/tmp/lief.log"

/-- What is used of LIEF: the parser, where a null pointer is `none` and a `FatBinary` its binaries,
`Binary::write`, which replaces the whole file, and the log, which is written to the file it has been told. -/
structure Lief (Binary : Type) where
  raw : Binary → List UInt8
  parseFromMemory : UInt64 → Option (List Binary)
  write : Binary → String → Files → Files
  write_replaces : ∀ bin path files, write bin path files = Function.update files path (some (raw bin))
  log : Call Binary → String → Files → Files
  log_elsewhere : ∀ call logPath files path, path ≠ logPath → path ≠ defaultLog →
    log call logPath files path = files path

/-- The files, what `dump_macho` has written to them and printed, and the settings of the logger. -/
structure World where
  files : Files
  written : List String := []
  stdout : List String := []
  stderr : List String := []
  logPath : Option String := none
  logLevel : Option LoggingLevel := none

inductive Fault where
  | nullDereference
deriving DecidableEq

abbrev Program := EStateM Fault World

def cout (text : String) : Program Unit :=
  modify fun world => { world with stdout := world.stdout ++ [text] }

def cerr (text : String) : Program Unit :=
  modify fun world => { world with stderr := world.stderr ++ [text] }

variable {Binary : Type}

/-- What the library logs of a call. -/
def World.log (world : World) (lief : Lief Binary) (call : Call Binary) : World :=
  { world with files := lief.log call (world.logPath.getD defaultLog) world.files }

/-- `LIEF::logging::set_path`. -/
def setPath (lief : Lief Binary) (path : String) : Program Unit :=
  modify fun world => { world with logPath := some path }.log lief (.setPath path)

/-- `LIEF::logging::set_level`. -/
def setLevel (lief : Lief Binary) (level : LoggingLevel) : Program Unit :=
  modify fun world => { world with logLevel := some level }.log lief (.setLevel level)

/-- `Parser::parse_from_memory`. -/
def parseFromMemory (lief : Lief Binary) (base : UInt64) : Program (Option (List Binary)) := do
  modify fun world => world.log lief (.parseFromMemory base)
  return lief.parseFromMemory base

/-- `*pointer`. -/
def dereference {α : Type} : Option α → Program α
  | some value => return value
  | none => throw .nullDereference

/-- The effect of `bin.write(path)`. -/
def World.write (world : World) (lief : Lief Binary) (path : String) (bin : Binary) : World :=
  { world with
    files := lief.write bin path world.files
    written := world.written ++ [path] }.log lief (.write bin path)

def writeBinary (lief : Lief Binary) (path : String) (bin : Binary) : Program Unit :=
  modify fun world => world.write lief path bin

/-- `std::hex`. -/
def hex (value : UInt64) : String := String.ofList (Nat.toDigits 16 value.toNat)

def binfile (workdir : String) : String := workdir ++ "/mem_rewrite.bin"

def logfile (workdir : String) : String := workdir ++ "/lief.log"

/-- The file is under the directory. -/
theorem binfile_eq (workdir : String) : binfile workdir = workdir ++ "/" ++ "mem_rewrite.bin" := by
  rw [binfile, String.append_assoc]
  rfl

/-- The loop over `*binaries`, and the report after it. -/
def writeBinaries (lief : Lief Binary) (workdir : String) (binaries : Option (List Binary)) : Program Unit := do
  (← dereference binaries).forM (writeBinary lief (binfile workdir))
  cout "dump macho Done!\n"

def dumpMacho (lief : Lief Binary) (workdir : String) (base : UInt64) : Program Unit := do
  cout ("log file:" ++ logfile workdir ++ "\n")
  setPath lief (logfile workdir)
  setLevel lief .debug
  if base = 0 then return
  cout ("Base address: 0x" ++ hex base ++ "\n")
  let binaries ← parseFromMemory lief base
  if binaries.all List.isEmpty then
    -- The failure is logged, and there is no `return`.
    cerr "Parsing failed\n"
  cout "Parsing Done!\n"
  writeBinaries lief workdir binaries

/-! ## What a dump does -/

/-- A path the library logs to. -/
def IsLog (workdir path : String) : Prop := path = logfile workdir ∨ path = defaultLog

/-- The dump is not among the logs, whose names end otherwise. -/
theorem binfile_not_isLog (workdir : String) : ¬ IsLog workdir (binfile workdir) := by
  have ends : (binfile workdir).toList.getLast? = some 'n' := by
    rw [binfile, String.toList_append, List.getLast?_append]
    rfl
  rintro (same | same)
  · rw [same, logfile, String.toList_append, List.getLast?_append] at ends
    cases ends
  · rw [same] at ends
    cases ends

/-- Between two worlds, the contents are written to the one path, apart from the logs no other file changes, and
the lines are printed. -/
structure Effect (workdir : String) (raws : List (List UInt8)) (lines errors : List String) (world after : World) :
    Prop where
  files : ∀ path, ¬ IsLog workdir path → after.files path =
    Writes.perform (raws.map fun raw => (binfile workdir, some raw)) world.files path
  written : after.written = world.written ++ raws.map fun _ => binfile workdir
  stdout : after.stdout = world.stdout ++ lines
  stderr : after.stderr = world.stderr ++ errors

namespace Effect

variable {workdir : String} {raws later : List (List UInt8)} {lines errors moreLines moreErrors : List String}
  {world middle after : World} {lief : Lief Binary}

theorem refl (workdir : String) (world : World) : Effect workdir [] [] [] world world :=
  ⟨fun _ _ => rfl, (List.append_nil _).symm, (List.append_nil _).symm, (List.append_nil _).symm⟩

theorem trans (first : Effect workdir raws lines errors world middle)
    (second : Effect workdir later moreLines moreErrors middle after) :
    Effect workdir (raws ++ later) (lines ++ moreLines) (errors ++ moreErrors) world after where
  files path other := by
    rw [second.files path other, List.map_append, Writes.perform_append]
    exact Writes.perform_congr (first.files path other) _
  written := by rw [second.written, first.written, List.map_append, List.append_assoc]
  stdout := by rw [second.stdout, first.stdout, List.append_assoc]
  stderr := by rw [second.stderr, first.stderr, List.append_assoc]

theorem cout (workdir : String) (world : World) (text : String) :
    Effect workdir [] [text] [] world { world with stdout := world.stdout ++ [text] } :=
  ⟨fun _ _ => rfl, (List.append_nil _).symm, rfl, (List.append_nil _).symm⟩

/-- The library writes to its log. -/
theorem log (lief : Lief Binary) (world : World) (set : IsLog workdir (world.logPath.getD defaultLog))
    (call : Call Binary) : Effect workdir [] [] [] world (world.log lief call) where
  files path other := by
    apply lief.log_elsewhere
    · rintro rfl
      exact other set
    · exact fun same => other (.inr same)
  written := (List.append_nil _).symm
  stdout := (List.append_nil _).symm
  stderr := (List.append_nil _).symm

theorem write (lief : Lief Binary) (world : World) (set : IsLog workdir (world.logPath.getD defaultLog))
    (bin : Binary) : Effect workdir [lief.raw bin] [] [] world (world.write lief (binfile workdir) bin) := by
  let wrote : World :=
    { world with
      files := lief.write bin (binfile workdir) world.files
      written := world.written ++ [binfile workdir] }
  have replaced : Effect workdir [lief.raw bin] [] [] world wrote := by
    refine ⟨fun path _ => ?_, rfl, (List.append_nil _).symm, (List.append_nil _).symm⟩
    exact congrFun (lief.write_replaces bin (binfile workdir) world.files) path
  have logged : Effect workdir [] [] [] wrote (wrote.log lief (.write bin (binfile workdir))) :=
    log lief wrote set (.write bin (binfile workdir))
  exact replaced.trans logged

theorem writes (lief : Lief Binary) (world : World) (set : IsLog workdir (world.logPath.getD defaultLog))
    (binaries : List Binary) : Effect workdir (binaries.map lief.raw) [] [] world
      (binaries.foldl (fun world bin => world.write lief (binfile workdir) bin) world) := by
  induction binaries generalizing world with
  | nil => exact refl workdir world
  | cons bin rest ih => exact (write lief world set bin).trans (ih _ set)

end Effect

/-- A null pointer is dereferenced. -/
def dumpFault (lief : Lief Binary) (base : UInt64) : Option Fault :=
  if base ≠ 0 ∧ (lief.parseFromMemory base).isNone then some .nullDereference else none

/-- What a dump writes, in order. -/
def dumpedBy (lief : Lief Binary) (base : UInt64) : List (List UInt8) :=
  if base = 0 then [] else ((lief.parseFromMemory base).getD []).map lief.raw

/-- What a dump prints. -/
def dumpLines (lief : Lief Binary) (workdir : String) (base : UInt64) : List String :=
  ("log file:" ++ logfile workdir ++ "\n") ::
    if base = 0 then []
    else ("Base address: 0x" ++ hex base ++ "\n") :: "Parsing Done!\n" ::
      if (lief.parseFromMemory base).isSome then ["dump macho Done!\n"] else []

def dumpErrors (lief : Lief Binary) (base : UInt64) : List String :=
  if base ≠ 0 ∧ (lief.parseFromMemory base).all List.isEmpty then ["Parsing failed\n"] else []

/-- The world after the settings of the logger. -/
def World.settings (lief : Lief Binary) (workdir : String) (world : World) : World :=
  let world := { world with stdout := world.stdout ++ ["log file:" ++ logfile workdir ++ "\n"] }
  let world := { world with logPath := some (logfile workdir) }.log lief (.setPath (logfile workdir))
  { world with logLevel := some .debug }.log lief (.setLevel .debug)

theorem Effect.settings (lief : Lief Binary) (workdir : String) (world : World) :
    Effect workdir [] ["log file:" ++ logfile workdir ++ "\n"] [] world (world.settings lief workdir) where
  files path other := by
    have notLog : path ≠ logfile workdir := fun same => other (.inl same)
    have notDefault : path ≠ defaultLog := fun same => other (.inr same)
    exact (lief.log_elsewhere _ _ _ path notLog notDefault).trans (lief.log_elsewhere _ _ _ path notLog notDefault)
  written := (List.append_nil _).symm
  stdout := rfl
  stderr := (List.append_nil _).symm

/-- The world before the loop. -/
def World.parsed (lief : Lief Binary) (workdir : String) (base : UInt64) (world : World) : World :=
  let world := world.settings lief workdir
  let world := { world with stdout := world.stdout ++ ["Base address: 0x" ++ hex base ++ "\n"] }
  let world := world.log lief (.parseFromMemory base)
  { world with stdout := world.stdout ++ ["Parsing Done!\n"], stderr := world.stderr ++ dumpErrors lief base }

theorem Effect.parsed (lief : Lief Binary) (workdir : String) (base : UInt64) (world : World) :
    Effect workdir [] ["log file:" ++ logfile workdir ++ "\n", "Base address: 0x" ++ hex base ++ "\n",
      "Parsing Done!\n"] (dumpErrors lief base) world (world.parsed lief workdir base) := by
  have printed := (Effect.settings lief workdir world).trans
    (.cout workdir _ ("Base address: 0x" ++ hex base ++ "\n"))
  have logged := printed.trans (.log lief _ (.inl rfl) (.parseFromMemory base))
  refine ⟨logged.files, logged.written, ?_, ?_⟩
  · exact (congrArg (· ++ ["Parsing Done!\n"]) logged.stdout).trans (List.append_assoc ..)
  · exact (congrArg (· ++ dumpErrors lief base) logged.stderr).trans (List.append_assoc ..)

theorem dumpMacho_of_zero (lief : Lief Binary) (workdir : String) (world : World) :
    dumpMacho lief workdir 0 world = .ok () (world.settings lief workdir) := by
  rw [dumpMacho, if_pos rfl]
  rfl

/-- After a failed parse the run goes on as after any other. -/
theorem dumpMacho_of_ne (lief : Lief Binary) (workdir : String) {base : UInt64} (nonzero : base ≠ 0)
    (world : World) :
    dumpMacho lief workdir base world =
      writeBinaries lief workdir (lief.parseFromMemory base) (world.parsed lief workdir base) := by
  rw [dumpMacho, if_neg nonzero]
  by_cases failed : (lief.parseFromMemory base).all List.isEmpty
  · have errors : dumpErrors lief base = ["Parsing failed\n"] := if_pos ⟨nonzero, failed⟩
    rw [World.parsed, errors]
    simp only [parseFromMemory, bind_assoc, pure_bind, failed, if_true]
    rfl
  · have errors : dumpErrors lief base = [] := if_neg fun both => failed both.2
    rw [World.parsed, errors, List.append_nil]
    simp only [parseFromMemory, bind_assoc, pure_bind, failed]
    rfl

theorem forM_writeBinary (lief : Lief Binary) (path : String) (binaries : List Binary) (world : World) :
    binaries.forM (writeBinary lief path) world =
      .ok () (binaries.foldl (fun world bin => world.write lief path bin) world) := by
  induction binaries generalizing world with
  | nil => rfl
  | cons bin rest ih => exact ih (world.write lief path bin)

/-- The loop and the report, after the parser. -/
theorem writeBinaries_run (lief : Lief Binary) (workdir : String) (binaries : Option (List Binary)) (world : World)
    (set : IsLog workdir (world.logPath.getD defaultLog)) :
    ∃ after, writeBinaries lief workdir binaries world =
        List.guardedLog (if binaries.isNone then some .nullDereference else none) () after ∧
      Effect workdir ((binaries.getD []).map lief.raw) (if binaries.isSome then ["dump macho Done!\n"] else []) []
        world after := by
  cases binaries with
  | none => exact ⟨world, rfl, .refl workdir world⟩
  | some binaries =>
    have wrote := (Effect.writes lief world set binaries).trans (.cout workdir _ "dump macho Done!\n")
    rw [List.append_nil] at wrote
    refine ⟨_, ?_, wrote⟩
    change EStateM.bind (binaries.forM (writeBinary lief (binfile workdir))) _ world = _
    rw [EStateM.bind, forM_writeBinary]
    rfl

/-- A dump ends at a null pointer, or returns. -/
theorem dumpMacho_run (lief : Lief Binary) (workdir : String) (base : UInt64) (world : World) :
    ∃ after, dumpMacho lief workdir base world = List.guardedLog (dumpFault lief base) () after ∧
      Effect workdir (dumpedBy lief base) (dumpLines lief workdir base) (dumpErrors lief base) world after := by
  by_cases zero : base = 0
  · subst zero
    exact ⟨_, dumpMacho_of_zero lief workdir world, .settings lief workdir world⟩
  · have parsed := Effect.parsed lief workdir base world
    obtain ⟨after, run, wrote⟩ := writeBinaries_run lief workdir (lief.parseFromMemory base)
      (world.parsed lief workdir base) (.inl rfl)
    have both := parsed.trans wrote
    refine ⟨after, ?_, ?_⟩
    · rw [dumpMacho_of_ne lief workdir zero, run, dumpFault]
      simp only [ne_eq, zero, not_false_eq_true, true_and]
    · rw [dumpedBy, dumpLines, if_neg zero, if_neg zero]
      rw [List.append_nil] at both
      exact both

theorem dumpMacho_of_none {lief : Lief Binary} {base : UInt64} (nonzero : base ≠ 0)
    (null : lief.parseFromMemory base = none) (workdir : String) (files : Files) :
    ∃ world, dumpMacho lief workdir base { files } = .error .nullDereference world := by
  obtain ⟨world, run, _⟩ := dumpMacho_run lief workdir base { files }
  have fault : dumpFault lief base = some .nullDereference := if_pos ⟨nonzero, null ▸ rfl⟩
  rw [fault] at run
  exact ⟨world, run⟩

/-- With an object, every binary is written to one path and the end is reported. -/
theorem dumpMacho_of_some {lief : Lief Binary} {base : UInt64} {binaries : List Binary} (nonzero : base ≠ 0)
    (parsed : lief.parseFromMemory base = some binaries) (workdir : String) (files : Files) :
    ∃ world, dumpMacho lief workdir base { files } = .ok () world ∧
      world.files (binfile workdir) =
        Writes.perform (binaries.map fun bin => (binfile workdir, some (lief.raw bin))) files (binfile workdir) ∧
      world.written = binaries.map (fun _ => binfile workdir) ∧ "dump macho Done!\n" ∈ world.stdout := by
  obtain ⟨world, run, effect⟩ := dumpMacho_run lief workdir base { files }
  have quiet : dumpFault lief base = none := if_neg fun null => by
    rw [parsed] at null
    exact Bool.false_ne_true null.2
  have dumped : dumpedBy lief base = binaries.map lief.raw := by
    rw [dumpedBy, if_neg nonzero, parsed, Option.getD_some]
  rw [quiet] at run
  refine ⟨world, run, ?_, ?_, ?_⟩
  · have kept := effect.files _ (binfile_not_isLog workdir)
    rw [dumped, List.map_map] at kept
    exact kept
  · have written := effect.written
    rw [dumped, List.map_map] at written
    exact written
  · rw [effect.stdout, dumpLines, if_neg nonzero, parsed]
    simp

/-! ## What a dump should keep -/

/-- The world that a run ends in. -/
def finalWorld : EStateM.Result Fault World Unit → World
  | .ok _ world => world
  | .error _ world => world

/-- A failed parse is not followed through the pointer, writes nothing and is not reported as done;
otherwise, when the end is reported, every binary can be read from a file written under `workdir`. -/
structure Correct (lief : Lief Binary) (workdir : String) (base : UInt64)
    (result : EStateM.Result Fault World Unit) : Prop where
  noDereference : lief.parseFromMemory base = none ∨ lief.parseFromMemory base = some [] →
    ∀ world, result ≠ .error .nullDereference world
  noWrite : lief.parseFromMemory base = none ∨ lief.parseFromMemory base = some [] →
    (finalWorld result).written = []
  noReport : lief.parseFromMemory base = none ∨ lief.parseFromMemory base = some [] →
    "dump macho Done!\n" ∉ (finalWorld result).stdout
  kept : ∀ binaries, lief.parseFromMemory base = some binaries → binaries ≠ [] →
    "dump macho Done!\n" ∈ (finalWorld result).stdout → ∀ bin ∈ binaries,
      ∃ name, workdir ++ "/" ++ name ∈ (finalWorld result).written ∧
        (finalWorld result).files (workdir ++ "/" ++ name) = some (lief.raw bin)

theorem not_correct_of_none {lief : Lief Binary} {base : UInt64} (nonzero : base ≠ 0)
    (null : lief.parseFromMemory base = none) (workdir : String) (files : Files) :
    ¬ Correct lief workdir base (dumpMacho lief workdir base { files }) := by
  intro correct
  obtain ⟨world, run⟩ := dumpMacho_of_none nonzero null workdir files
  exact correct.noDereference (.inl null) world run

theorem not_correct_of_nil {lief : Lief Binary} {base : UInt64} (nonzero : base ≠ 0)
    (empty : lief.parseFromMemory base = some []) (workdir : String) (files : Files) :
    ¬ Correct lief workdir base (dumpMacho lief workdir base { files }) := by
  intro correct
  obtain ⟨world, run, _, _, reported⟩ := dumpMacho_of_some nonzero empty workdir files
  have silent := correct.noReport (.inr empty)
  rw [run] at silent
  exact silent reported

/-- All binaries are read from one file, so they are the same. -/
theorem Correct.raw_eq {lief : Lief Binary} {workdir : String} {base : UInt64} {files : Files}
    {binaries : List Binary} (nonzero : base ≠ 0) (parsed : lief.parseFromMemory base = some binaries)
    (correct : Correct lief workdir base (dumpMacho lief workdir base { files })) {bin other : Binary}
    (member : bin ∈ binaries) (otherMember : other ∈ binaries) : lief.raw bin = lief.raw other := by
  obtain ⟨world, run, _, written, reported⟩ := dumpMacho_of_some nonzero parsed workdir files
  have kept := correct.kept binaries parsed (List.ne_nil_of_mem member)
  rw [run] at kept
  have oneFile : ∀ bin ∈ binaries, world.files (binfile workdir) = some (lief.raw bin) := by
    intro bin member
    obtain ⟨name, path, content⟩ := kept reported bin member
    rw [finalWorld, written] at path
    obtain ⟨_, _, same⟩ := List.mem_map.mp path
    rw [same]
    exact content
  exact Option.some.inj ((oneFile bin member).symm.trans (oneFile other otherMember))

/-- Binaries with one content can all be read from the one file. -/
theorem correct_of_raw_eq {lief : Lief Binary} {base : UInt64} {binaries : List Binary} (nonzero : base ≠ 0)
    (parsed : lief.parseFromMemory base = some binaries) (nonempty : binaries ≠ [])
    (same : ∀ bin ∈ binaries, ∀ other ∈ binaries, lief.raw bin = lief.raw other) (workdir : String)
    (files : Files) : Correct lief workdir base (dumpMacho lief workdir base { files }) := by
  obtain ⟨world, run, final, written, _⟩ := dumpMacho_of_some nonzero parsed workdir files
  have present : ¬ (lief.parseFromMemory base = none ∨ lief.parseFromMemory base = some []) := by
    rw [parsed]
    rintro (null | empty)
    · contradiction
    · exact nonempty (Option.some.inj empty)
  refine ⟨fun failed => absurd failed present, fun failed => absurd failed present,
    fun failed => absurd failed present, ?_⟩
  intro others parsedOthers _ _ bin member
  obtain rfl := Option.some.inj (parsed.symm.trans parsedOthers)
  rw [run, finalWorld, written]
  refine ⟨"mem_rewrite.bin", ?_, ?_⟩
  · rw [← binfile_eq]
    exact List.mem_map.mpr ⟨bin, member, rfl⟩
  · rw [← binfile_eq, final]
    apply Writes.perform_of_agree
    · rw [List.map_map]
      exact List.mem_map.mpr ⟨bin, member, rfl⟩
    · intro write written _
      obtain ⟨other, otherMember, rfl⟩ := List.mem_map.mp written
      exact congrArg some (same other otherMember bin member)

/-- The dump keeps what it should exactly when there are binaries, all with one content. -/
theorem dumpMacho_correct_iff (lief : Lief Binary) (workdir : String) (base : UInt64) (nonzero : base ≠ 0)
    (files : Files) :
    Correct lief workdir base (dumpMacho lief workdir base { files }) ↔
      ∃ binaries, lief.parseFromMemory base = some binaries ∧ binaries ≠ [] ∧
        ∀ bin ∈ binaries, ∀ other ∈ binaries, lief.raw bin = lief.raw other := by
  constructor
  · intro correct
    cases parsed : lief.parseFromMemory base with
    | none => exact absurd correct (not_correct_of_none nonzero parsed workdir files)
    | some binaries =>
      refine ⟨binaries, rfl, ?_, ?_⟩
      · rintro rfl
        exact not_correct_of_nil nonzero parsed workdir files correct
      · intro bin member other otherMember
        exact correct.raw_eq nonzero parsed member otherMember
  · rintro ⟨binaries, parsed, nonempty, same⟩
    exact correct_of_raw_eq nonzero parsed nonempty same workdir files

/-- A library whose parser always has one outcome; a binary is its content, and the log is one empty line. -/
def liefOf (parsed : Option (List (List UInt8))) : Lief (List UInt8) where
  raw := id
  parseFromMemory _ := parsed
  write bin path files := Function.update files path (some bin)
  write_replaces _ _ _ := rfl
  log _ logPath files := Function.update files logPath (some [0x0A])
  log_elsewhere _ _ _ _ other _ := Function.update_of_ne other _ _

/-- Two equal binaries are both kept. -/
theorem dumpMacho_correct_twice :
    Correct (liefOf (some [[0xCF, 0xFA], [0xCF, 0xFA]])) "/Caches" 0x100000000
      (dumpMacho (liefOf (some [[0xCF, 0xFA], [0xCF, 0xFA]])) "/Caches" 0x100000000
        { files := fun _ => none }) := by
  rw [dumpMacho_correct_iff _ _ _ (by decide)]
  refine ⟨[[0xCF, 0xFA], [0xCF, 0xFA]], rfl, List.cons_ne_nil _ _, ?_⟩
  intro bin member other otherMember
  rw [List.eq_of_mem_replicate (n := 2) member, List.eq_of_mem_replicate (n := 2) otherMember]

/-- A null pointer is dereferenced, an empty object is reported as done, and the first of two binaries
is lost. -/
theorem not_correct_null_empty_two :
    ¬ Correct (liefOf none) "/Caches" 0x100000000
        (dumpMacho (liefOf none) "/Caches" 0x100000000 { files := fun _ => none }) ∧
      ¬ Correct (liefOf (some [])) "/Caches" 0x100000000
        (dumpMacho (liefOf (some [])) "/Caches" 0x100000000 { files := fun _ => none }) ∧
      ¬ Correct (liefOf (some [[0xCF], [0xFA]])) "/Caches" 0x100000000
        (dumpMacho (liefOf (some [[0xCF], [0xFA]])) "/Caches" 0x100000000 { files := fun _ => none }) := by
  have nonzero : (0x100000000 : UInt64) ≠ 0 := by decide
  refine ⟨not_correct_of_none nonzero rfl _ _, not_correct_of_nil nonzero rfl _ _, fun correct => ?_⟩
  have same : ([0xCF] : List UInt8) = [0xFA] :=
    correct.raw_eq nonzero rfl List.mem_cons_self (List.mem_cons_of_mem _ List.mem_cons_self)
  exact absurd same (by decide)

end INote.LIEFIntegration
