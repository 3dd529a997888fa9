import INote.ExamNumbers.Xlrd
import INote.Library.Console

/-! # The xlrd script

The older script only prints. It reads every row below the header of every sheet, whatever the cells
hold, so whether a sheet can be read depends on its shape and name alone: a sheet with such a row needs
two columns, which are read before the name is looked up, and a name the script knows. The last row of a
student counts, even when it is blank.
-/

namespace INote.ExamNumbers.Xlrd.Printed

open Console (print bind_ok bind_error print_run forM_print)

/-- A printed line. -/
inductive Line where
  | sheetCount (count : ℕ)
  | sheet (name : String) (rowCount columnCount : ℕ)
  | student (name : CellValue) (numbers : List CellValue)
  | invalidInput
  | studentsSheet (name : String) (rowCount : ℕ)
  | students (names : List CellValue)
deriving DecidableEq

/-- The files, by path. -/
abbrev Files := String → Option (List Sheet)

abbrev World := Console.World Files Line

abbrev Script := EStateM PyError World

def openWorkbook (filename : String) : Script (List Sheet) := do
  match (← get).files filename with
  | some workBook => return workBook
  | none => throw (.fileNotFound filename)

def readSheet (students : Students) (sheet : Sheet) : Script Students := do
  print (.sheet sheet.name sheet.nrows sheet.ncols)
  ofExcept (Xlrd.readSheet students sheet)

def readExcel (filename : String) : Script Unit := do
  let workBook ← openWorkbook filename
  print (.sheetCount workBook.length)
  let students ← workBook.foldlM readSheet ∅
  students.items.forM fun item => print (.student item.1 item.2)

/-- `read_students`, which the script does not call. -/
def readStudents (filename : String) : Script Unit := do
  let workBook ← openWorkbook filename
  match workBook with
  | [] => throw (.indexError 0)
  | sheet :: _ => do
    print (.studentsSheet sheet.name sheet.nrows)
    let students ← ofExcept ((List.range' 2 (sheet.nrows - 2)).mapM fun i => sheet.cell i 1)
    print (.students students)

def excelFile : String := "./期中考场20221016.xlsx"

def main : Script Unit := do
  if ((← get).files excelFile).isSome then readExcel excelFile
  else print .invalidInput

/-! ## The sheets -/

theorem readSheet_eq_guardedLog {students : Students} (seven : SevenEntries students)
    (sheet : Sheet) (world : World) :
    readSheet students sheet world =
      List.guardedLog (sheetFault sheet) ((sheetEntries sheet).foldl (Register.file untaken 7) students)
        (world.print [.sheet sheet.name sheet.nrows sheet.ncols]) := by
  rw [readSheet, bind_ok (print_run _ _), readSheet_eq_guarded sheet seven, List.ofExcept_guarded]

/-- The line of a sheet. -/
def sheetLine (sheet : Sheet) : Line := .sheet sheet.name sheet.nrows sheet.ncols

/-- The loop over the sheets prints them up to the first faulty one, and ends as it does without printing. -/
theorem foldlM_readSheet (sheets : List Sheet) (world : World) :
    sheets.foldlM readSheet ∅ world =
      (ofExcept (Xlrd.readExcel sheets) : Script Students)
        (world.print ((List.uptoFault sheetFault sheets).map sheetLine)) := by
  rw [List.foldlM_guardedLog sheetFault
    (fun students sheet => (sheetEntries sheet).foldl (Register.file untaken 7) students)
    (fun world sheet => world.print [sheetLine sheet]) SevenEntries
    (fun students sheet _ seven world => readSheet_eq_guardedLog seven sheet world)
    (fun students sheet _ seven _ => sevenEntries_foldl_file seven _ _) sevenEntries_empty,
    Console.World.foldl_print, readExcel_eq_guarded, List.ofExcept_guarded, List.foldl_flatMap]

/-! ## The entries -/

theorem dataRows_eq (sheet : Sheet) : sheet.dataRows = iterRows 1 (sheet.nrows - 1) := rfl

/-- A row below the header, with its first two cells. -/
structure DataRow (sheet : Sheet) (row : ℕ) (name number : CellValue) : Prop where
  visited : 1 ≤ row ∧ row ≤ sheet.nrows - 1
  named : sheet.value row 0 = name
  numbered : sheet.value row 1 = number

/-- The last row of a student on a sheet. -/
def LastRow (sheet : Sheet) (row : ℕ) (name number : CellValue) : Prop :=
  DataRow sheet row name number ∧ ∀ later other, DataRow sheet later name other → later ≤ row

theorem DataRow.exists_last {sheet : Sheet} {row : ℕ} {name number : CellValue}
    (data : DataRow sheet row name number) : ∃ last other, LastRow sheet last name other := by
  classical
  let Data (row : ℕ) : Prop := ∃ number, DataRow sheet row name number
  obtain ⟨other, last⟩ : Data (Nat.findGreatest Data (sheet.nrows - 1)) :=
    Nat.findGreatest_spec data.visited.2 ⟨number, data⟩
  exact ⟨_, other, last, fun later number present => Nat.le_findGreatest present.visited.2 ⟨number, present⟩⟩

/-- The number in the student's last row on the course's sheet, and the untaken mark without one. -/
def CourseEntry (sheets : List Sheet) (name : CellValue) (courseIdx : ℕ) (number : CellValue) : Prop :=
  (∃ sheet ∈ sheets, sheetMap.lookup sheet.name = some courseIdx ∧ ∃ row, LastRow sheet row name number) ∨
  (number = untaken ∧ ∀ sheet ∈ sheets, sheetMap.lookup sheet.name = some courseIdx →
    ∀ row other, ¬ DataRow sheet row name other)

theorem exists_courseEntry (sheets : List Sheet) (name : CellValue) (courseIdx : ℕ) :
    ∃ number, CourseEntry sheets name courseIdx number := by
  by_cases seen : ∃ sheet ∈ sheets, sheetMap.lookup sheet.name = some courseIdx ∧
      ∃ row number, DataRow sheet row name number
  · obtain ⟨sheet, member, found, row, number, data⟩ := seen
    obtain ⟨last, number, newest⟩ := data.exists_last
    exact ⟨number, .inl ⟨sheet, member, found, last, newest⟩⟩
  · refine ⟨untaken, .inr ⟨rfl, fun sheet member found row number data => ?_⟩⟩
    exact seen ⟨sheet, member, found, row, number, data⟩

theorem mem_sheetEntries {sheet : Sheet} {entry : Register.Entry CellValue CellValue} :
    entry ∈ sheetEntries sheet ↔ entry.slot = (sheetMap.lookup sheet.name).getD 0 ∧
      ∃ row, DataRow sheet row entry.key entry.value := by
  rw [sheetEntries, List.mem_map]
  constructor
  · rintro ⟨row, member, rfl⟩
    exact ⟨rfl, row, mem_iterRows.mp member, rfl, rfl⟩
  · rintro ⟨slot, row, visited, named, numbered⟩
    refine ⟨row, mem_iterRows.mpr visited, ?_⟩
    rw [rowEntry, named, numbered, ← slot]

/-- The latest entry of a sheet comes from the student's last row. -/
theorem latest_sheetEntries {sheet : Sheet} {courseIdx row : ℕ} {name number : CellValue}
    (found : sheetMap.lookup sheet.name = some courseIdx) (last : LastRow sheet row name number) :
    Register.latest (sheetEntries sheet) name courseIdx = some number := by
  obtain ⟨⟨visited, named, numbered⟩, newest⟩ := last
  have here : rowEntry sheet row = ⟨name, courseIdx, number⟩ := by
    rw [rowEntry, named, numbered, found, Option.getD_some]
  have later : Register.latest ((iterRows (row + 1) (sheet.nrows - 1)).map (rowEntry sheet)) name courseIdx =
      none := by
    apply Register.latest_eq_none_iff.mpr
    rintro entry member same _
    obtain ⟨after, inside, rfl⟩ := List.mem_map.mp member
    have bounds := mem_iterRows.mp inside
    have := newest after _ ⟨⟨by omega, bounds.2⟩, same, rfl⟩
    omega
  rw [sheetEntries, dataRows_eq, iterRows_split visited.1 visited.2, List.map_append, List.map_cons, here,
    Register.latest_append, ← List.singleton_append, Register.latest_append, later, Register.latest_singleton]
  simp

/-- Every sheet can be read to its end. -/
def Readable (sheets : List Sheet) : Prop := ∀ sheet ∈ sheets, sheetFault sheet = none

theorem lookup_of_readable {sheet : Sheet} {row : ℕ} {name number : CellValue}
    (readable : sheetFault sheet = none)
    (data : DataRow sheet row name number) : ∃ courseIdx, sheetMap.lookup sheet.name = some courseIdx := by
  rw [← findSome?_rowFault, List.findSome?_eq_none_iff] at readable
  have quiet := readable row (mem_iterRows.mpr data.visited)
  exact Option.ne_none_iff_exists'.mp (rowFault_eq_none_iff.mp quiet).2

theorem CourseEntry.eq_latest {sheets : List Sheet} (distinct : (sheets.map Sheet.name).Nodup)
    (readable : Readable sheets) {name number : CellValue} {courseIdx : ℕ}
    (entry : CourseEntry sheets name courseIdx number) :
    (Register.latest (sheets.flatMap sheetEntries) name courseIdx).getD untaken = number := by
  have known {sheet : Sheet} (member : sheet ∈ sheets) {entry : Register.Entry CellValue CellValue}
      (filed : entry ∈ sheetEntries sheet) : sheetMap.lookup sheet.name = some entry.slot := by
    obtain ⟨slot, row, data⟩ := mem_sheetEntries.mp filed
    obtain ⟨courseIdx, found⟩ := lookup_of_readable (readable sheet member) data
    rw [slot, found, Option.getD_some]
  rcases entry with ⟨sheet, member, found, row, last⟩ | ⟨rfl, absent⟩
  · have others : ∀ other ∈ sheets, other ≠ sheet → ∀ entry ∈ sheetEntries other, entry.slot ≠ courseIdx := by
      rintro other otherMem different entry filed rfl
      have names := sheetMap_injective (known otherMem filed) found
      exact different (List.inj_on_of_nodup_map distinct otherMem member names)
    rw [Register.latest_flatMap_of_unique name member distinct.of_map others, latest_sheetEntries found last,
      Option.getD_some]
  · rw [Register.latest_eq_none_iff.mpr, Option.getD_none]
    rintro entry filed rfl rfl
    obtain ⟨sheet, member, inSheet⟩ := List.mem_flatMap.mp filed
    obtain ⟨_, row, data⟩ := mem_sheetEntries.mp inSheet
    exact absent sheet member (known member inSheet) row _ data

/-- The names in the order in which the rows are visited. -/
def rowNames (sheets : List Sheet) : List CellValue :=
  sheets.flatMap fun sheet => sheet.dataRows.map fun i => sheet.value i 0

/-- What the dictionary lists. -/
structure Lists (sheets : List Sheet) (students : Students) : Prop where
  order : students.keys = (rowNames sheets).eraseDups
  length : ∀ name numbers, (name, numbers) ∈ students.items → numbers.length = 7
  entries : ∀ name numbers, (name, numbers) ∈ students.items → ∀ courseIdx < 7,
    ∃ number, numbers[courseIdx]? = some number ∧ CourseEntry sheets name courseIdx number

/-- The dictionary of all rows. -/
def listed (sheets : List Sheet) : Students := (sheets.flatMap sheetEntries).foldl (Register.file untaken 7) ∅

theorem lists_listed {sheets : List Sheet} (distinct : (sheets.map Sheet.name).Nodup)
    (readable : Readable sheets) : Lists sheets (listed sheets) := by
  have shown (name : CellValue) (numbers : List CellValue) (member : (name, numbers) ∈ (listed sheets).items) :
      Register.shown untaken 7 (sheets.flatMap sheetEntries) name = some numbers := by
    rw [← Register.lookup_foldl_file]
    exact Dict.mem_items_iff.mp member
  refine ⟨?_, fun name numbers member => Register.shown_length (shown name numbers member), ?_⟩
  · rw [listed, Register.keys_foldl_file, List.map_flatMap, rowNames]
    simp only [sheetEntries, List.map_map]
    rfl
  · intro name numbers member courseIdx bound
    obtain ⟨number, entry⟩ := exists_courseEntry sheets name courseIdx
    refine ⟨number, ?_, entry⟩
    rw [Register.shown_getElem? (shown name numbers member) bound, entry.eq_latest distinct readable]

/-! ## The run -/

theorem openWorkbook_of_present {world : World} {filename : String} {sheets : List Sheet}
    (present : world.files filename = some sheets) : openWorkbook filename world = .ok sheets world := by
  have got : (get : Script World) world = .ok world world := rfl
  rw [openWorkbook, bind_ok got, present]
  rfl

/-- The script returns or raises as the reader does, after printing the sheets up to the one that raises, and
prints the dictionary the reader accumulates. -/
theorem readExcel_run {world : World} {filename : String} {sheets : List Sheet}
    (present : world.files filename = some sheets) :
    readExcel filename world =
      match Xlrd.readExcel sheets with
      | .error error => .error error
          (world.print (.sheetCount sheets.length :: (List.uptoFault sheetFault sheets).map sheetLine))
      | .ok students => .ok () (world.print (.sheetCount sheets.length ::
          (List.uptoFault sheetFault sheets).map sheetLine ++
          students.items.map fun item => .student item.1 item.2)) := by
  have loop := foldlM_readSheet sheets (world.print [.sheetCount sheets.length])
  rw [Console.World.print_print] at loop
  rw [readExcel, bind_ok (openWorkbook_of_present present), bind_ok (print_run _ _)]
  cases result : Xlrd.readExcel sheets with
  | error error =>
    rw [result] at loop
    exact bind_error loop
  | ok students =>
    rw [result] at loop
    rw [bind_ok loop, forM_print, Console.World.print_print]
    rfl

theorem main_of_present (world : World) {sheets : List Sheet} (present : world.files excelFile = some sheets) :
    main world = readExcel excelFile world := by
  have got : (get : Script World) world = .ok world world := rfl
  rw [main, bind_ok got, present, Option.isSome_some, if_pos rfl]

theorem main_of_absent (world : World) (absent : world.files excelFile = none) :
    main world = .ok () (world.print [.invalidInput]) := by
  have got : (get : Script World) world = .ok world world := rfl
  rw [main, bind_ok got, absent, Option.isSome_none, if_neg Bool.false_ne_true]
  rfl

/-- The script stops at the first sheet that cannot be read, with the exception of its first row and no
student printed. Without such a sheet it prints every student once, in the order of the first rows, with
the numbers of the last ones. -/
theorem main_run (files : Files) :
    (files excelFile = none → main ⟨files, []⟩ = .ok () ⟨files, [.invalidInput]⟩) ∧
    ∀ sheets, files excelFile = some sheets → (sheets.map Sheet.name).Nodup →
      (¬ Readable sheets → ∃ before sheet after error, sheets = before ++ sheet :: after ∧ Readable before ∧
        sheetFault sheet = some error ∧
        main ⟨files, []⟩ = .error error
          ⟨files, .sheetCount sheets.length :: (before ++ [sheet]).map sheetLine⟩) ∧
      (Readable sheets → ∃ students, Lists sheets students ∧
        main ⟨files, []⟩ = .ok () ⟨files, .sheetCount sheets.length :: sheets.map sheetLine ++
          students.items.map fun item => .student item.1 item.2⟩) := by
  refine ⟨fun absent => main_of_absent ⟨files, []⟩ absent, fun sheets present distinct => ?_⟩
  have run := (main_of_present ⟨files, []⟩ present).trans (readExcel_run present)
  refine ⟨fun unreadable => ?_, fun readable => ?_⟩
  · have faulty : sheets.findSome? sheetFault ≠ none := fun quiet =>
      unreadable (List.findSome?_eq_none_iff.mp quiet)
    obtain ⟨error, fault⟩ := Option.ne_none_iff_exists'.mp faulty
    obtain ⟨before, sheet, after, split, here, quiet⟩ := List.findSome?_eq_some_iff.mp fault
    have upto : List.uptoFault sheetFault sheets = before ++ [sheet] :=
      split ▸ List.uptoFault_append quiet (here ▸ rfl)
    rw [readExcel_eq_guarded, fault, upto] at run
    exact ⟨before, sheet, after, error, split, quiet, here, run⟩
  · rw [readExcel_eq_guarded, List.findSome?_eq_none_iff.mpr readable, List.uptoFault_of_quiet readable] at run
    exact ⟨listed sheets, lists_listed distinct readable, run⟩

/-! ## The list of students -/

/-- A column that a sheet has can be read row by row. -/
theorem mapM_cell (sheet : Sheet) {column : ℕ} (inside : column < sheet.ncols) {rows : List ℕ}
    (below : ∀ row ∈ rows, row < sheet.nrows) :
    rows.mapM (fun row => sheet.cell row column) = .ok (rows.map fun row => sheet.value row column) := by
  induction rows with
  | nil => rfl
  | cons row rest ih =>
    rw [List.forall_mem_cons] at below
    rw [List.mapM_cons, Sheet.cell, if_pos below.1, if_pos inside, ih below.2]
    rfl

/-- A physics sheet that lists A, then B, then A again. -/
def physicsSheet : Sheet where
  name := "物理考场"
  nrows := 4
  ncols := 2
  value row column := if column = 0 then .str (if row = 2 then "B" else "A") else .num row

/-- A history sheet that lists B. -/
def historySheet : Sheet where
  name := "历史考场"
  nrows := 2
  ncols := 3
  value _ column := if column = 0 then .str "B" else .num 5

theorem main_run_twoSheets :
    let files : Files := fun _ => some [physicsSheet, historySheet]
    ∃ students, Lists [physicsSheet, historySheet] students ∧
      main ⟨files, []⟩ = .ok () ⟨files, .sheetCount 2 :: [.sheet "物理考场" 4 2, .sheet "历史考场" 2 3] ++
        students.items.map fun item => .student item.1 item.2⟩ := by
  intro files
  refine ((main_run files).2 [physicsSheet, historySheet] rfl (by decide)).2 ?_
  have readable : ∀ sheet ∈ [physicsSheet, historySheet], sheetFault sheet = none := by decide
  exact readable

end INote.ExamNumbers.Xlrd.Printed
