import INote.ExamNumbers.Pipeline
import INote.Library.Console

/-! # What the read-then-write script prints

The script prints its dictionary, in insertion order, and more while it runs. Without the console the
script is the one on the disk alone. The console shows the sheets up to the first one whose title is
looked up in vain; when there is none, every student is listed once, in the order of the first complete
rows, and then the numbers of each named row up to the first unread name.
-/

namespace INote.ExamNumbers.Printed

open Console (print finalWorld bind_ok bind_error print_run forM_print print_quiet forM_print_quiet)

/-- A printed line. -/
inductive Line where
  | sheetNames (titles : List String)
  | sheetName (title : String)
  | studentsCount (count : ℕ)
  | student (name : CellValue) (numbers : List CellValue)
  | examNumbers (name : CellValue) (numbers : List CellValue)
deriving DecidableEq

/-- The disk, and what was printed. -/
abbrev World := Console.World Disk Line

abbrev Script := EStateM PyError World

/-- What the script does with the disk. -/
abbrev onDisk {α : Type} (script : ExamNumbers.Script α) : Script α := Console.onFiles script

def readSheet (students : Students) (sheet : Worksheet) : Script Students := do
  print (.sheetName sheet.title)
  ofExcept (ExamNumbers.readSheet students sheet)

def readExamNumber (filename : String) : Script Students := do
  let workBook ← onDisk (loadWorkbook filename)
  print (.sheetNames (workBook.sheets.map Worksheet.title))
  let students ← workBook.sheets.foldlM readSheet ∅
  print (.studentsCount students.length)
  students.items.forM fun item => print (.student item.1 item.2)
  return students

def writeRow (examNumber : Students) (sheet : Worksheet) (row : ℕ) : Script Worksheet :=
  match sheet.cell row 4 with
  | none => return sheet
  | some name =>
    match examNumber.lookup name with
    | none => throw (.keyError name row)
    | some numbers => do
      print (.examNumbers name numbers)
      let loop ← ofExcept (writeNumbers row numbers sheet)
      return loop.sheet

def writeExamNumber (filename : String) (examNumber : Students) : Script Unit := do
  let workBook ← onDisk (loadWorkbook filename)
  let sheet ← (iterRows 3 145).foldlM (writeRow examNumber) workBook.active
  onDisk ((workBook.setActive sheet).save outputFile)

def main : Script Unit := do
  if ← onDisk (pathExists sourceFile) then
    let examNumber ← readExamNumber sourceFile
    if ← onDisk (pathExists studentsFile) then
      writeExamNumber studentsFile examNumber

/-! ## Without the console -/

open Simulation

theorem simulates_readSheet (students : Students) (sheet : Worksheet) :
    Simulates Console.World.files Eq (readSheet students sheet)
      (MonadExcept.ofExcept (ExamNumbers.readSheet students sheet)) :=
  silent (print_quiet _) fun _ => ofExcept _

theorem simulates_readExamNumber (filename : String) :
    Simulates Console.World.files Eq (readExamNumber filename) (readExamNumberFile filename) := by
  apply bind (Console.simulates_onFiles _)
  rintro workBook _ rfl
  apply silent (print_quiet _)
  intro _
  rw [← bind_pure (MonadExcept.ofExcept (ExamNumbers.readExamNumber workBook.sheets)),
    ExamNumbers.readExamNumber, ofExcept_foldlM]
  apply Simulation.bind
  · refine foldlM ?_ rfl
    rintro students _ sheet _ rfl
    exact simulates_readSheet students sheet
  · rintro students _ rfl
    apply silent (print_quiet _)
    intro _
    apply silent (forM_print_quiet _ _)
    intro _
    exact Simulation.pure rfl

theorem simulates_writeRow (examNumber : Students) (sheet : Worksheet) (row : ℕ) :
    Simulates Console.World.files Eq (writeRow examNumber sheet row)
      (MonadExcept.ofExcept (ExamNumbers.writeRow examNumber sheet row)) := by
  rw [writeRow, ExamNumbers.writeRow]
  cases sheet.cell row 4 with
  | none => exact fun _ => .ok rfl
  | some name =>
    simp only
    cases examNumber.lookup name with
    | none => exact fun _ => .error
    | some numbers =>
      apply silent (print_quiet _)
      intro _
      simp only
      cases writeNumbers row numbers sheet with
      | error fault => exact fun _ => .error
      | ok loop => exact fun _ => .ok rfl

theorem simulates_writeExamNumber (filename : String) (examNumber : Students) :
    Simulates Console.World.files Eq (writeExamNumber filename examNumber)
      (writeExamNumberFile filename examNumber) := by
  apply bind (Console.simulates_onFiles _)
  rintro workBook _ rfl
  rw [writeRows, ofExcept_foldlM]
  apply Simulation.bind
  · refine foldlM ?_ rfl
    rintro sheet _ row _ rfl
    exact simulates_writeRow examNumber sheet row
  · rintro sheet _ rfl
    exact Console.simulates_onFiles _

/-- Without the console, the script is the one on the disk alone. -/
theorem simulates_main : Simulates Console.World.files Eq main ExamNumbers.main := by
  apply bind (Console.simulates_onFiles _)
  rintro found _ rfl
  cases found with
  | false => exact Simulation.pure rfl
  | true =>
    apply bind (simulates_readExamNumber sourceFile)
    rintro students _ rfl
    apply bind (Console.simulates_onFiles _)
    rintro found _ rfl
    cases found with
    | false => exact Simulation.pure rfl
    | true => exact simulates_writeExamNumber studentsFile students

/-- The exception a sheet raises, if any. -/
def sheetFault (sheet : Worksheet) : Option PyError := (iterRows 2 145).findSome? (readFault sheet)

/-- What a sheet does to the dictionary when it raises nothing. -/
def fileSheet (students : Students) (sheet : Worksheet) : Students :=
  (sheetEntries sheet).foldl (Register.file untaken 7) students

theorem readSheet_eq_guardedLog {students : Students} (seven : SevenEntries students)
    (sheet : Worksheet) (world : World) :
    readSheet students sheet world = List.guardedLog (sheetFault sheet) (fileSheet students sheet)
      (world.print [.sheetName sheet.title]) := by
  rw [readSheet, bind_ok (print_run _ _), readSheet_eq_guarded sheet seven, List.ofExcept_guarded]
  rfl

/-- The dictionary of the complete rows. -/
def listed (sheets : List Worksheet) : Students := sheets.foldl fileSheet ∅

/-- The sheets are printed up to the first faulty one. -/
theorem foldlM_readSheet (sheets : List Worksheet) (world : World) :
    sheets.foldlM readSheet ∅ world = List.guardedLog (sheets.findSome? sheetFault) (listed sheets)
      (world.print ((List.uptoFault sheetFault sheets).map fun sheet => .sheetName sheet.title)) := by
  rw [List.foldlM_guardedLog sheetFault fileSheet (fun world sheet => world.print [.sheetName sheet.title])
    SevenEntries (fun students sheet _ seven world => readSheet_eq_guardedLog seven sheet world)
    (fun students sheet _ seven _ => sevenEntries_foldl_file seven _ _) sevenEntries_empty,
    Console.World.foldl_print]
  rfl

/-- The lines before the first sheet is known to be readable to its end. -/
def sheetLines (sheets : List Worksheet) : List Line :=
  .sheetNames (sheets.map Worksheet.title) ::
    (List.uptoFault sheetFault sheets).map fun sheet => .sheetName sheet.title

/-- The count, and one line for each student. -/
def studentLines (students : Students) : List Line :=
  .studentsCount students.length :: students.items.map fun item => .student item.1 item.2

theorem loadWorkbook_of_present {world : World} {path : String} {workBook : Workbook}
    (present : world.files path = some workBook) : onDisk (loadWorkbook path) world = .ok workBook world := by
  exact Console.onFiles_of_ok (ExamNumbers.loadWorkbook_of_present present)

theorem readExamNumber_run (world : World) {filename : String} {source : Workbook}
    (present : world.files filename = some source) :
    readExamNumber filename world =
      match source.sheets.findSome? sheetFault with
      | some error => .error error (world.print (sheetLines source.sheets))
      | none => .ok (listed source.sheets)
          (world.print (sheetLines source.sheets ++ studentLines (listed source.sheets))) := by
  have loop := foldlM_readSheet source.sheets (world.print [.sheetNames (source.sheets.map Worksheet.title)])
  rw [Console.World.print_print] at loop
  rw [readExamNumber, bind_ok (loadWorkbook_of_present present), bind_ok (print_run _ _)]
  cases fault : source.sheets.findSome? sheetFault with
  | some error =>
    rw [fault] at loop
    exact bind_error loop
  | none =>
    rw [fault] at loop
    rw [bind_ok loop, bind_ok (print_run _ _), bind_ok (forM_print _ _ _), Console.World.print_print,
      Console.World.print_print]
    rfl

/-! ## The writing loop -/

/-- The line of a row, when it has a name that was read. -/
def examLine (examNumber : Students) (sheet : Worksheet) (row : ℕ) : Option Line :=
  (sheet.cell row 4).bind fun name => (examNumber.lookup name).map (.examNumbers name)

/-- What a row does after its line has been printed. -/
theorem exists_writeNumbers {examNumber : Students} (seven : SevenEntries examNumber) {sheet : Worksheet}
    {row : ℕ} {name : CellValue} {numbers : List CellValue} (named : sheet.cell row 4 = some name)
    (found : examNumber.lookup name = some numbers) :
    ∃ loop, writeNumbers row numbers sheet = .ok loop ∧ loop.sheet = rewriteSheet examNumber sheet row := by
  have guarded := writeRow_eq_guarded seven sheet row
  rw [ExamNumbers.writeRow, writeFault, named] at guarded
  simp only [found, Option.isSome_some, ↓reduceIte, List.guarded_none] at guarded
  cases run : writeNumbers row numbers sheet with
  | error fault =>
    rw [run] at guarded
    contradiction
  | ok loop =>
    rw [run] at guarded
    exact ⟨loop, rfl, Except.ok.inj guarded⟩

theorem writeRow_eq_guardedLog {examNumber : Students} (seven : SevenEntries examNumber) (sheet : Worksheet)
    (row : ℕ) (world : World) :
    writeRow examNumber sheet row world = List.guardedLog (writeFault examNumber sheet row)
      (rewriteSheet examNumber sheet row) (world.print (examLine examNumber sheet row).toList) := by
  cases named : sheet.cell row 4 with
  | none => simp [writeRow, writeFault, examLine, named, rewriteSheet, rewriteRow]; rfl
  | some name =>
    cases found : examNumber.lookup name with
    | none => simp [writeRow, writeFault, examLine, named, found]; rfl
    | some numbers =>
      obtain ⟨loop, run, same⟩ := exists_writeNumbers seven named found
      simp only [writeRow, writeFault, examLine, named, found, run, Option.isSome_some, ↓reduceIte,
        ← same, Option.bind_some, Option.map_some]
      rfl

/-- The names of the class list are those of the sheet before any row was written. -/
theorem foldlM_writeRow {examNumber : Students} (seven : SevenEntries examNumber) (sheet : Worksheet)
    (world : World) :
    (iterRows 3 145).foldlM (writeRow examNumber) sheet world =
      List.guardedLog ((iterRows 3 145).findSome? (writeFault examNumber sheet))
        ((iterRows 3 145).foldl (rewriteSheet examNumber) sheet)
        (world.print ((List.uptoFault (writeFault examNumber sheet) (iterRows 3 145)).filterMap
          (examLine examNumber sheet))) := by
  rw [List.foldlM_guardedLog (writeFault examNumber sheet) (rewriteSheet examNumber)
    (fun world row => world.print (examLine examNumber sheet row).toList)
    (fun current => ∀ row, current.cell row 4 = sheet.cell row 4), Console.World.foldl_printOption]
  · intro current row _ names world
    rw [writeRow_eq_guardedLog seven, writeFault, writeFault, examLine, examLine, names]
  · intro current row _ names _ other
    dsimp only [rewriteSheet]
    by_cases same : other = row
    · rw [same, Function.update_self, rewriteRow_name, names]
    · rw [Function.update_of_ne same, names]
  · exact fun _ => rfl

theorem stdout_writeExamNumber {examNumber : Students} (seven : SevenEntries examNumber) {world : World}
    {filename : String} {target : Workbook} (present : world.files filename = some target) :
    (finalWorld (writeExamNumber filename examNumber world)).stdout = world.stdout ++
      (List.uptoFault (writeFault examNumber target.active) (iterRows 3 145)).filterMap
        (examLine examNumber target.active) := by
  have loop := foldlM_writeRow seven target.active world
  rw [writeExamNumber, bind_ok (loadWorkbook_of_present present)]
  cases fault : (iterRows 3 145).findSome? (writeFault examNumber target.active) with
  | some error =>
    rw [fault] at loop
    rw [bind_error loop]
    rfl
  | none =>
    rw [fault] at loop
    rw [bind_ok loop]
    rfl

/-! ## The console -/

/-- The names of the complete rows, in the order the rows are visited. -/
def completeNames (sheets : List Worksheet) : List CellValue :=
  (visits sheets).filterMap fun visit =>
    match visit.1.cell visit.2 0, visit.1.cell visit.2 1 with
    | some name, some _ => some name
    | _, _ => none

theorem listed_eq (sheets : List Worksheet) :
    listed sheets = (sheets.flatMap sheetEntries).foldl (Register.file untaken 7) ∅ := by
  rw [listed, List.foldl_flatMap]
  rfl

/-- With known titles, the entries are those of the complete rows. -/
theorem map_key_entries {sheets : List Worksheet} (known : KnownTitles sheets) :
    (sheets.flatMap sheetEntries).map Register.Entry.key = completeNames sheets := by
  have entries :
      sheets.flatMap sheetEntries = (visits sheets).filterMap fun visit => readEntry visit.1 visit.2 := by
    simp only [visits, List.filterMap_flatMap, List.filterMap_map, Function.comp_def]
    rfl
  rw [entries, List.map_filterMap, completeNames]
  refine List.filterMap_congr fun visit member => ?_
  obtain ⟨inside, visited⟩ := mem_visits.mp member
  rw [readEntry]
  cases named : visit.1.cell visit.2 0 with
  | none => rfl
  | some name =>
    cases numbered : visit.1.cell visit.2 1 with
    | none => rfl
    | some number =>
      have title := known visit.1 inside ⟨visit.2, name, number, visited, named, numbered⟩
      obtain ⟨courseIdx, found⟩ :=
        Option.ne_none_iff_exists'.mp fun unknown => List.lookup_eq_none_iff_not_mem.mp unknown title
      rw [found]
      rfl

theorem sheetFault_eq_none_iff {sheet : Worksheet} : sheetFault sheet = none ↔ KnownTitles [sheet] := by
  rw [← findSome?_readFault_eq_none_iff]
  have single : visits [sheet] = (iterRows 2 145).map (Prod.mk sheet) := by
    rw [visits, List.flatMap_singleton]
  rw [single, List.findSome?_map]
  rfl

theorem knownTitles_iff {sheets : List Worksheet} :
    KnownTitles sheets ↔ ∀ sheet ∈ sheets, KnownTitles [sheet] := by
  simp only [KnownTitles, List.mem_singleton, forall_eq]

theorem findSome?_sheetFault_eq_none_iff {sheets : List Worksheet} :
    sheets.findSome? sheetFault = none ↔ KnownTitles sheets := by
  rw [List.findSome?_eq_none_iff, knownTitles_iff]
  exact forall₂_congr fun sheet _ => sheetFault_eq_none_iff

/-- What the dictionary lists. -/
structure Lists (sheets : List Worksheet) (students : Students) : Prop where
  order : students.keys = (completeNames sheets).eraseDups
  length : ∀ name numbers, (name, numbers) ∈ students.items → numbers.length = 7
  entries : ∀ name numbers, (name, numbers) ∈ students.items → ∀ courseIdx < 7,
    ∃ number, numbers[courseIdx]? = some number ∧ CourseEntry sheets name courseIdx number

theorem lists_listed {sheets : List Worksheet} (distinct : (sheets.map Worksheet.title).Nodup)
    (known : KnownTitles sheets) : Lists sheets (listed sheets) := by
  have shown (name : CellValue) (numbers : List CellValue) (member : (name, numbers) ∈ (listed sheets).items) :
      Register.shown untaken 7 (sheets.flatMap sheetEntries) name = some numbers := by
    rw [← Register.lookup_foldl_file, ← listed_eq]
    exact Dict.mem_items_iff.mp member
  refine ⟨?_, fun name numbers member => Register.shown_length (shown name numbers member), ?_⟩
  · rw [listed_eq, Register.keys_foldl_file, map_key_entries known]
  · intro name numbers member courseIdx bound
    obtain ⟨number, entry⟩ := exists_courseEntry sheets name courseIdx
    refine ⟨number, ?_, entry⟩
    rw [Register.shown_getElem? (shown name numbers member) bound, entry.eq_latest distinct]

section Runs

variable {disk : Disk} {source target : Workbook}

theorem pathExists_of_present {world : World} {path : String} {workBook : Workbook}
    (present : world.files path = some workBook) : onDisk (pathExists path) world = .ok true world := by
  exact Console.onFiles_of_ok (ExamNumbers.pathExists_of_present present)

/-- The lines of a run whose sheets are not all readable. -/
theorem stdout_of_unknown (hasSource : disk sourceFile = some source) (unknown : ¬ KnownTitles source.sheets) :
    (finalWorld (main ⟨disk, []⟩)).stdout = sheetLines source.sheets := by
  rw [← findSome?_sheetFault_eq_none_iff] at unknown
  obtain ⟨error, fault⟩ := Option.ne_none_iff_exists'.mp unknown
  have run := readExamNumber_run ⟨disk, []⟩ hasSource
  rw [fault] at run
  rw [main, bind_ok (pathExists_of_present hasSource), if_pos rfl, bind_error run]
  rfl

/-- The printed dictionary is the one the reading loop on the disk alone returns. -/
theorem readExamNumber_eq_listed (known : KnownTitles source.sheets) :
    ExamNumbers.readExamNumber source.sheets = .ok (listed source.sheets) := by
  rw [readExamNumber_eq_guarded, findSome?_readFault_eq_none_iff.mpr known, listed_eq, List.guarded_none]

/-- The rows whose numbers are printed: all of them, or those before the first unread name. -/
def Visited (source target : Workbook) (visited : List ℕ) : Prop :=
  (NamesRead source target ∧ visited = iterRows 3 145) ∨
    ∃ row after name, iterRows 3 145 = visited ++ row :: after ∧
      (∀ earlier ∈ visited, ∀ other, target.active.cell earlier 4 = some other → NameRead source other) ∧
      target.active.cell row 4 = some name ∧ ¬ NameRead source name

theorem exists_visited (target : Workbook) {students : Students}
    (keys : ∀ name, name ∈ students ↔ NameRead source name) :
    ∃ visited, Visited source target visited ∧
      (List.uptoFault (writeFault students target.active) (iterRows 3 145)).filterMap
        (examLine students target.active) = visited.filterMap (examLine students target.active) := by
  cases found : (iterRows 3 145).findSome? (writeFault students target.active) with
  | none =>
    have quiet := List.findSome?_eq_none_iff.mp found
    refine ⟨iterRows 3 145, .inl ⟨?_, rfl⟩, by rw [List.uptoFault_of_quiet quiet]⟩
    intro row lower upper name named
    exact (keys name).mp (findSome?_writeFault_eq_none_iff.mp found row lower upper name named)
  | some error =>
    obtain ⟨before, row, after, split, here, quiet⟩ := List.findSome?_eq_some_iff.mp found
    have faulty : (writeFault students target.active row).isSome := here ▸ rfl
    unfold writeFault at here
    cases named : target.active.cell row 4 with
    | none =>
      simp only [named] at here
      contradiction
    | some name =>
      simp only [named] at here
      split at here
      · contradiction
      · next unlisted =>
        have absent : students.lookup name = none := Option.not_isSome_iff_eq_none.mp unlisted
        refine ⟨before, .inr ⟨row, after, name, split, ?_, named, ?_⟩, ?_⟩
        · exact fun earlier member other atRow =>
            (keys other).mp (writeFault_eq_none_iff.mp (quiet earlier member) other atRow)
        · exact fun read => unlisted (Dict.lookup_isSome.mpr ((keys name).mpr read))
        · have silent : examLine students target.active row = none := by
            rw [examLine, named, Option.bind_some, absent]
            rfl
          rw [split, List.uptoFault_append quiet faulty, List.filterMap_append, List.filterMap_cons_none silent,
            List.filterMap_nil, List.append_nil]

/-- The lines of a run whose sheets are all readable. -/
theorem stdout_of_known (hasSource : disk sourceFile = some source)
    (hasTarget : disk studentsFile = some target) (known : KnownTitles source.sheets) :
    ∃ visited, Visited source target visited ∧
      (finalWorld (main ⟨disk, []⟩)).stdout = sheetLines source.sheets ++ studentLines (listed source.sheets) ++
        visited.filterMap (examLine (listed source.sheets) target.active) := by
  obtain ⟨students, read, seven, keys⟩ := readExamNumber_keys known
  obtain rfl := Except.ok.inj ((readExamNumber_eq_listed known).symm.trans read)
  obtain ⟨visited, isVisited, lines⟩ := exists_visited target keys
  have run := readExamNumber_run ⟨disk, []⟩ hasSource
  rw [findSome?_sheetFault_eq_none_iff.mpr known] at run
  refine ⟨visited, isVisited, ?_⟩
  rw [main, bind_ok (pathExists_of_present hasSource), if_pos rfl, bind_ok run,
    bind_ok (pathExists_of_present hasTarget), if_pos rfl, stdout_writeExamNumber seven hasTarget, lines]
  rfl

/-- The titles up to the first sheet that cannot be read. -/
theorem sheetLines_of_unknown {sheets : List Worksheet} (unknown : ¬ KnownTitles sheets) :
    ∃ before sheet after, sheets = before ++ sheet :: after ∧ KnownTitles before ∧ ¬ KnownTitles [sheet] ∧
      sheetLines sheets = .sheetNames (sheets.map Worksheet.title) ::
        (before ++ [sheet]).map fun sheet => .sheetName sheet.title := by
  rw [← findSome?_sheetFault_eq_none_iff] at unknown
  obtain ⟨error, fault⟩ := Option.ne_none_iff_exists'.mp unknown
  obtain ⟨before, sheet, after, split, here, quiet⟩ := List.findSome?_eq_some_iff.mp fault
  refine ⟨before, sheet, after, split, ?_, ?_, ?_⟩
  · exact findSome?_sheetFault_eq_none_iff.mp (List.findSome?_eq_none_iff.mpr quiet)
  · rw [← sheetFault_eq_none_iff, here]
    exact Option.some_ne_none error
  · rw [sheetLines, split, List.uptoFault_append quiet (here ▸ rfl)]

theorem sheetLines_of_known {sheets : List Worksheet} (known : KnownTitles sheets) :
    sheetLines sheets =
      .sheetNames (sheets.map Worksheet.title) :: sheets.map fun sheet => .sheetName sheet.title := by
  have quiet := List.findSome?_eq_none_iff.mp (findSome?_sheetFault_eq_none_iff.mpr known)
  rw [sheetLines, List.uptoFault_of_quiet quiet]

/-- A run shows the sheets up to the first one with an unknown title and a complete row, and no student.
Without such a sheet it shows every student once, in the order of the first complete rows, with one
number a course, and then the numbers of the named rows up to the first name that was not read. -/
theorem main_prints (disk : Disk) (source target : Workbook) (hasSource : disk sourceFile = some source)
    (hasTarget : disk studentsFile = some target) (distinct : (source.sheets.map Worksheet.title).Nodup) :
    (¬ KnownTitles source.sheets → ∃ before sheet after, source.sheets = before ++ sheet :: after ∧
      KnownTitles before ∧ ¬ KnownTitles [sheet] ∧
      (finalWorld (main ⟨disk, []⟩)).stdout = .sheetNames (source.sheets.map Worksheet.title) ::
        (before ++ [sheet]).map fun sheet => .sheetName sheet.title) ∧
    (KnownTitles source.sheets → ∃ students visited, Lists source.sheets students ∧
      Visited source target visited ∧
      (finalWorld (main ⟨disk, []⟩)).stdout = .sheetNames (source.sheets.map Worksheet.title) ::
        (source.sheets.map fun sheet => .sheetName sheet.title) ++
        .studentsCount students.length :: (students.items.map fun item => .student item.1 item.2) ++
        visited.filterMap (examLine students target.active)) := by
  constructor
  · intro unknown
    rw [stdout_of_unknown hasSource unknown]
    exact sheetLines_of_unknown unknown
  · intro known
    obtain ⟨visited, isVisited, stdout⟩ := stdout_of_known hasSource hasTarget known
    refine ⟨listed source.sheets, visited, lists_listed distinct known, isVisited, ?_⟩
    rw [stdout, sheetLines_of_known known]
    rfl

end Runs

theorem main_prints_twoFiles :
    ∃ students visited, Lists examSource.sheets students ∧ Visited examSource classTarget visited ∧
      (finalWorld (main ⟨twoFiles, []⟩)).stdout = .sheetNames ["物理考号", "历史考号"] ::
        [.sheetName "物理考号", .sheetName "历史考号"] ++
        .studentsCount students.length :: (students.items.map fun item => .student item.1 item.2) ++
        visited.filterMap (examLine students classTarget.active) :=
  (main_prints twoFiles examSource classTarget hasSource_twoFiles hasTarget_twoFiles (by decide)).2
    knownTitles_twoSheets

end INote.ExamNumbers.Printed
