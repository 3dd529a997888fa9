import INote.ExamNumbers.Read

/-! # The xlrd reader, and when the two readers agree

The older script reads the same course sheets through xlrd. It visits every row below the header,
reads a blank cell as the empty string, and has no filter for blank cells: a blank name is filed
like any name, and a blank number overwrites an earlier one. The two dictionaries therefore agree
only on sheets where the missing filter has nothing to reject, up to coincidences between the
values themselves, and the condition below is exact.
-/

namespace INote.ExamNumbers.Xlrd

/-- The script's `sheet_map`. -/
def sheetMap : List (String × ℕ) :=
  [("语数外考场", 0), ("物理考场", 1), ("化学考场", 2), ("生物考场", 3), ("历史考场", 4), ("地理考场", 5),
    ("政治考场", 6)]

/-- A sheet as xlrd hands it out: a rectangle of values without `None`. -/
structure Sheet where
  name : String
  nrows : ℕ
  ncols : ℕ
  value : ℕ → ℕ → CellValue

/-- `sheet.cell(row, column).value`, with both indices from 0. -/
def Sheet.cell (sheet : Sheet) (row column : ℕ) : Except PyError CellValue :=
  if row < sheet.nrows then
    if column < sheet.ncols then .ok (sheet.value row column) else .error (.indexError column)
  else .error (.indexError row)

/-- The mark of a course the student has not taken. -/
def untaken : CellValue := .num (-1)

def readRow (sheet : Sheet) (students : Students) (i : ℕ) : Except PyError Students := do
  let studentName ← sheet.cell i 0
  let examNumber ← sheet.cell i 1
  match sheetMap.lookup sheet.name with
  | none => .error (.keyError (.str sheet.name) (i + 1))
  | some courseIdx => recordNumber untaken students courseIdx studentName examNumber

/-- `range(1, row_count)`. -/
def Sheet.dataRows (sheet : Sheet) : List ℕ := List.range' 1 (sheet.nrows - 1)

def readSheet (students : Students) (sheet : Sheet) : Except PyError Students :=
  sheet.dataRows.foldlM (readRow sheet) students

/-- The dictionary `read_excel` accumulates and prints. -/
def readExcel (workBook : List Sheet) : Except PyError Students :=
  workBook.foldlM readSheet ∅

/-! ## The run of the reader -/

theorem sheetMap_lt {name : String} {courseIdx : ℕ} (found : sheetMap.lookup name = some courseIdx) :
    courseIdx < 7 := by
  have bounded : ∀ pair ∈ sheetMap, pair.2 < 7 := by decide
  exact bounded _ (List.mem_of_lookup_eq_some found)

/-- No two names share a course. -/
theorem sheetMap_injective {name other : String} {courseIdx : ℕ} (found : sheetMap.lookup name = some courseIdx)
    (again : sheetMap.lookup other = some courseIdx) : name = other :=
  List.lookup_injective (by decide) found again

/-- The exception of a sheet, if any. -/
def sheetFault (sheet : Sheet) : Option PyError :=
  if sheet.nrows ≤ 1 then none
  else if sheet.ncols = 0 then some (.indexError 0)
  else if sheet.ncols = 1 then some (.indexError 1)
  else if sheetMap.lookup sheet.name = none then some (.keyError (.str sheet.name) 2)
  else none

/-- The entry of a row. -/
def rowEntry (sheet : Sheet) (i : ℕ) : Register.Entry CellValue CellValue :=
  ⟨sheet.value i 0, (sheetMap.lookup sheet.name).getD 0, sheet.value i 1⟩

def sheetEntries (sheet : Sheet) : List (Register.Entry CellValue CellValue) := sheet.dataRows.map (rowEntry sheet)

/-- The fault of a row is that of its sheet, with the row's own number. -/
def rowFault (sheet : Sheet) (i : ℕ) : Option PyError :=
  if sheet.ncols = 0 then some (.indexError 0)
  else if sheet.ncols = 1 then some (.indexError 1)
  else if sheetMap.lookup sheet.name = none then some (.keyError (.str sheet.name) (i + 1))
  else none

theorem readRow_eq_guarded (sheet : Sheet) {students : Students} (seven : SevenEntries students)
    {i : ℕ} (inside : i < sheet.nrows) :
    readRow sheet students i =
      List.guarded (rowFault sheet i) (Register.file untaken 7 students (rowEntry sheet i)) := by
  have cell (column : ℕ) : sheet.cell i column =
      if column < sheet.ncols then .ok (sheet.value i column) else .error (.indexError column) := if_pos inside
  rw [readRow, rowFault, cell, cell]
  by_cases empty : sheet.ncols = 0
  · rw [if_neg (by omega), if_pos empty]
    rfl
  · rw [if_pos (by omega), if_neg empty]
    by_cases narrow : sheet.ncols = 1
    · rw [if_neg (by omega), if_pos narrow]
      rfl
    · rw [if_pos (by omega), if_neg narrow, rowEntry]
      cases found : sheetMap.lookup sheet.name with
      | none => rfl
      | some courseIdx => exact recordNumber_eq_file seven untaken (sheetMap_lt found) _ _

theorem rowFault_eq_none_iff {sheet : Sheet} {i : ℕ} :
    rowFault sheet i = none ↔ 2 ≤ sheet.ncols ∧ sheetMap.lookup sheet.name ≠ none := by
  rw [rowFault]
  split_ifs with empty narrow unknown
  · simp [empty]
  · simp [narrow]
  · simp [unknown]
  · simp [unknown]
    omega

/-- The first row decides. -/
theorem findSome?_rowFault (sheet : Sheet) :
    sheet.dataRows.findSome? (rowFault sheet) = sheetFault sheet := by
  cases rows : sheet.nrows - 1 with
  | zero =>
    rw [Sheet.dataRows, rows, sheetFault, if_pos (by omega)]
    rfl
  | succ count =>
    have first : sheetFault sheet = rowFault sheet 1 := by rw [sheetFault, if_neg (by omega), rowFault]
    rw [Sheet.dataRows, rows, first, List.range'_succ, List.findSome?_cons]
    cases fault : rowFault sheet 1 with
    | some error => rfl
    | none =>
      exact List.findSome?_eq_none_iff.mpr fun i _ => rowFault_eq_none_iff.mpr (rowFault_eq_none_iff.mp fault)

/-- One sheet: its fault, or the register of its rows. -/
theorem readSheet_eq_guarded (sheet : Sheet) {students : Students} (seven : SevenEntries students) :
    readSheet students sheet =
      List.guarded (sheetFault sheet) ((sheetEntries sheet).foldl (Register.file untaken 7) students) := by
  rw [readSheet, List.foldlM_guarded (rowFault sheet)
    (fun students i => Register.file untaken 7 students (rowEntry sheet i)) SevenEntries _ _ seven,
    findSome?_rowFault, sheetEntries, List.foldl_map]
  · intro students i member seven
    have bounds := List.mem_range'_1.mp member
    exact readRow_eq_guarded sheet seven (by omega)
  · exact fun students i _ seven _ => sevenEntries_file seven untaken _

/-- The whole run: the first faulty sheet, or the register of all rows. -/
theorem readExcel_eq_guarded (sheets : List Sheet) :
    readExcel sheets = List.guarded (sheets.findSome? sheetFault)
      ((sheets.flatMap sheetEntries).foldl (Register.file untaken 7) ∅) := by
  rw [readExcel, List.foldlM_guarded sheetFault
    (fun students sheet => (sheetEntries sheet).foldl (Register.file untaken 7) students) SevenEntries
    (fun students sheet _ seven => readSheet_eq_guarded sheet seven)
    (fun students sheet _ seven _ => sevenEntries_foldl_file seven _ _) sevenEntries_empty, List.foldl_flatMap]

/-! ## One file for both readers -/

/-- The subjects in the order of both `sheet_map`s. -/
def subject : Fin 7 → String
  | 0 => "语数外"
  | 1 => "物理"
  | 2 => "化学"
  | 3 => "生物"
  | 4 => "历史"
  | 5 => "地理"
  | 6 => "政治"

/-- One sheet of the file both readers open, rows and columns counted from 0. -/
structure CourseSheet where
  course : Fin 7
  nrows : ℕ
  ncols : ℕ
  content : ℕ → ℕ → Cell
  twoColumns : 2 ≤ ncols
  rowLimit : nrows ≤ 145

/-- openpyxl's view: blank outside the used range, rows counted from 1. -/
def CourseSheet.openpyxl (sheet : CourseSheet) : Worksheet where
  title := subject sheet.course ++ "考号"
  cell row column :=
    if 1 ≤ row ∧ row ≤ sheet.nrows ∧ column < sheet.ncols then sheet.content (row - 1) column
    else none

/-- xlrd's value of a cell: the empty string for a blank one. -/
def cellValue (cell : Cell) : CellValue := cell.getD (.str "")

def CourseSheet.xlrd (sheet : CourseSheet) : Sheet where
  name := subject sheet.course ++ "考场"
  nrows := sheet.nrows
  ncols := sheet.ncols
  value row column := cellValue (sheet.content row column)

/-- The name and number cells of the rows below the header. -/
def CourseSheet.dataRows (sheet : CourseSheet) : List (Cell × Cell) :=
  (List.range' 1 (sheet.nrows - 1)).map fun i => (sheet.content i 0, sheet.content i 1)

theorem lookup_subject : ∀ course : Fin 7,
    ExamNumbers.sheetMap.lookup (subject course ++ "考号") = some course.val ∧
      sheetMap.lookup (subject course ++ "考场") = some course.val := by
  decide

/-- xlrd files every row. -/
def CourseSheet.xlrdEntries (sheet : CourseSheet) : List (Register.Entry CellValue CellValue) :=
  sheet.dataRows.map fun row => ⟨cellValue row.1, sheet.course, cellValue row.2⟩

/-- openpyxl files the complete rows. -/
def CourseSheet.openpyxlEntries (sheet : CourseSheet) : List (Register.Entry CellValue CellValue) :=
  sheet.dataRows.filterMap fun row =>
    match row with
    | (some name, some number) => some ⟨name, sheet.course, number⟩
    | _ => none

theorem sheetFault_xlrd (sheet : CourseSheet) : sheetFault sheet.xlrd = none := by
  have wide : 2 ≤ sheet.xlrd.ncols := sheet.twoColumns
  have found : sheetMap.lookup sheet.xlrd.name = some sheet.course.val := (lookup_subject sheet.course).2
  rw [sheetFault, if_neg (show sheet.xlrd.ncols ≠ 0 by omega), if_neg (show sheet.xlrd.ncols ≠ 1 by omega),
    found, if_neg (Option.some_ne_none _), ite_self]

theorem sheetEntries_xlrd (sheet : CourseSheet) : sheetEntries sheet.xlrd = sheet.xlrdEntries := by
  have found : sheetMap.lookup sheet.xlrd.name = some sheet.course.val := (lookup_subject sheet.course).2
  rw [sheetEntries, CourseSheet.xlrdEntries, CourseSheet.dataRows, List.map_map]
  refine List.map_congr_left fun i _ => ?_
  rw [rowEntry, found, Option.getD_some]
  rfl

/-- The xlrd run on course sheets never raises, and files every data row. -/
theorem readExcel_eq (sheets : List CourseSheet) :
    readExcel (sheets.map CourseSheet.xlrd) =
      .ok ((sheets.flatMap CourseSheet.xlrdEntries).foldl (Register.file untaken 7) ∅) := by
  have quiet : (sheets.map CourseSheet.xlrd).findSome? sheetFault = none := by
    rw [List.findSome?_map]
    exact List.findSome?_eq_none_iff.mpr fun sheet _ => sheetFault_xlrd sheet
  rw [readExcel_eq_guarded, quiet, List.guarded_none, List.flatMap_map]
  simp only [sheetEntries_xlrd]

private theorem readEntry_inside (sheet : CourseSheet) {i : ℕ} (inside : i < sheet.nrows) :
    readEntry sheet.openpyxl (1 + i) =
      match (sheet.content i 0, sheet.content i 1) with
      | (some name, some number) => some ⟨name, sheet.course, number⟩
      | _ => none := by
  have wide := sheet.twoColumns
  have cell (column : ℕ) (bound : column < sheet.ncols) :
      sheet.openpyxl.cell (1 + i) column = sheet.content i column := by
    simp only [CourseSheet.openpyxl, Nat.add_sub_cancel_left]
    rw [if_pos ⟨by omega, by omega, bound⟩]
  have found : ExamNumbers.sheetMap.lookup sheet.openpyxl.title = some sheet.course.val :=
    (lookup_subject sheet.course).1
  rw [readEntry, cell 0 (by omega), cell 1 (by omega), found]
  cases sheet.content i 0 <;> cases sheet.content i 1 <;> rfl

private theorem readEntry_below (sheet : CourseSheet) {row : ℕ} (below : sheet.nrows < row) :
    readEntry sheet.openpyxl row = none := by
  have blank : sheet.openpyxl.cell row 0 = none := by
    simp only [CourseSheet.openpyxl]
    exact if_neg (by omega)
  rw [readEntry, blank]

/-- The rows 2..145 that openpyxl visits are the data rows and then blank ones. -/
theorem sheetEntries_openpyxl (sheet : CourseSheet) :
    ExamNumbers.sheetEntries sheet.openpyxl = sheet.openpyxlEntries := by
  have limit := sheet.rowLimit
  have visited : iterRows 2 145 =
      List.range' 2 (sheet.nrows - 1) ++ List.range' (2 + (sheet.nrows - 1)) (144 - (sheet.nrows - 1)) := by
    have count : 145 + 1 - 2 = (sheet.nrows - 1) + (144 - (sheet.nrows - 1)) := by omega
    rw [iterRows, count, ← List.range'_append_1]
  have blank : (List.range' (2 + (sheet.nrows - 1)) (144 - (sheet.nrows - 1))).filterMap
      (readEntry sheet.openpyxl) = [] := by
    apply List.filterMap_eq_nil_iff.mpr
    intro row member
    have bounds := List.mem_range'_1.mp member
    exact readEntry_below sheet (by omega)
  rw [ExamNumbers.sheetEntries, visited, List.filterMap_append, blank, List.append_nil,
    CourseSheet.openpyxlEntries, CourseSheet.dataRows, List.filterMap_map,
    ← List.map_add_range' 1 (sheet.nrows - 1) 1, List.filterMap_map]
  apply List.filterMap_congr
  intro i member
  have bounds := List.mem_range'_1.mp member
  exact readEntry_inside sheet (by omega)

/-- The openpyxl run on course sheets never raises, and files every complete row. -/
theorem readExamNumber_eq (sheets : List CourseSheet) :
    readExamNumber (sheets.map CourseSheet.openpyxl) =
      .ok ((sheets.flatMap CourseSheet.openpyxlEntries).foldl
        (Register.file ExamNumbers.untaken 7) ∅) := by
  have known : KnownTitles (sheets.map CourseSheet.openpyxl) := by
    intro view member _
    obtain ⟨sheet, _, rfl⟩ := List.mem_map.mp member
    exact List.mem_map.mpr ⟨_, List.mem_of_lookup_eq_some (lookup_subject sheet.course).1, rfl⟩
  rw [readExamNumber_eq_guarded, findSome?_readFault_eq_none_iff.mpr known, List.guarded_none,
    List.flatMap_map]
  simp only [sheetEntries_openpyxl]

/-- Equal entries, up to how the two scripts spell the untaken mark. -/
def SameEntry (xlrd openpyxl : CellValue) : Prop :=
  xlrd = openpyxl ∨ (xlrd = untaken ∧ openpyxl = ExamNumbers.untaken)

instance (xlrd openpyxl : CellValue) : Decidable (SameEntry xlrd openpyxl) :=
  inferInstanceAs (Decidable (_ ∨ _))

/-- Both readers return, with the same students and the same seven entries for each. -/
def ReadersAgree (sheets : List CourseSheet) : Prop :=
  ∃ xlrd openpyxl, readExcel (sheets.map CourseSheet.xlrd) = .ok xlrd ∧
    readExamNumber (sheets.map CourseSheet.openpyxl) = .ok openpyxl ∧
    (∀ name, name ∈ xlrd ↔ name ∈ openpyxl) ∧
    ∀ name left right, xlrd.lookup name = some left → openpyxl.lookup name = some right →
      left.length = 7 ∧ List.Forall₂ SameEntry left right

/-- Every name xlrd reads is the name of a complete row of some sheet. -/
def NamesComplete (sheets : List CourseSheet) : Prop :=
  ∀ sheet ∈ sheets, ∀ row ∈ sheet.dataRows, ∃ other ∈ sheets, ∃ number,
    (some (cellValue row.1), some number) ∈ other.dataRows

/-- The number in a student's last complete row, or the untaken mark. -/
def lastNumber (rows : List (Cell × Cell)) (name : CellValue) : CellValue :=
  ((rows.filterMap fun row => if row.1 = some name then row.2 else none).getLast?).getD
    ExamNumbers.untaken

/-- A row that is its student's last on the sheet is complete, or repeats what the earlier
complete rows said anyway. -/
def LastRowsKept (sheets : List CourseSheet) : Prop :=
  ∀ sheet ∈ sheets, ∀ before row after, sheet.dataRows = before ++ row :: after →
    (∀ later ∈ after, cellValue later.1 ≠ cellValue row.1) →
    (row.1 ≠ none ∧ row.2 ≠ none) ∨
      SameEntry (cellValue row.2) (lastNumber before (cellValue row.1))

private theorem latest_xlrdEntries {sheet : CourseSheet} {before after : List (Cell × Cell)}
    {row : Cell × Cell} (split : sheet.dataRows = before ++ row :: after)
    (last : ∀ later ∈ after, cellValue later.1 ≠ cellValue row.1) :
    Register.latest sheet.xlrdEntries (cellValue row.1) sheet.course = some (cellValue row.2) := by
  have nothing : Register.latest (after.map fun row =>
      (⟨cellValue row.1, sheet.course, cellValue row.2⟩ : Register.Entry _ _)) (cellValue row.1)
        sheet.course = none := by
    apply Register.latest_eq_none_iff.mpr
    intro entry member same
    obtain ⟨later, inside, rfl⟩ := List.mem_map.mp member
    exact (last later inside same).elim
  rw [CourseSheet.xlrdEntries, split, List.map_append, List.map_cons, Register.latest_append,
    ← List.singleton_append, Register.latest_append, nothing, Register.latest_singleton]
  simp

private theorem latest_openpyxlEntries (sheet : CourseSheet) (name : CellValue) :
    (Register.latest sheet.openpyxlEntries name sheet.course).getD ExamNumbers.untaken =
      lastNumber sheet.dataRows name := by
  unfold Register.latest lastNumber CourseSheet.openpyxlEntries
  rw [List.filterMap_filterMap]
  congr 3
  funext row
  rcases row with ⟨_ | first, _ | second⟩
  · rfl
  · rfl
  · by_cases same : first = name <;> simp [same]
  · by_cases same : first = name <;> simp [same]

/-- A last row decides the student's number when it is complete, and is ignored otherwise. -/
private theorem lastNumber_split {before after : List (Cell × Cell)} {row : Cell × Cell}
    (last : ∀ later ∈ after, cellValue later.1 ≠ cellValue row.1) :
    SameEntry (cellValue row.2) (lastNumber (before ++ row :: after) (cellValue row.1)) ↔
      (row.1 ≠ none ∧ row.2 ≠ none) ∨
        SameEntry (cellValue row.2) (lastNumber before (cellValue row.1)) := by
  have nothing : (after.filterMap fun later => if later.1 = some (cellValue row.1) then later.2 else none) =
      [] := by
    apply List.filterMap_eq_nil_iff.mpr
    intro later member
    have different := last later member
    exact if_neg fun same => different (by rw [same, cellValue, Option.getD_some])
  rw [lastNumber, List.filterMap_append, List.filterMap_cons, nothing]
  rcases row with ⟨_ | name, _ | number⟩
  · simp [lastNumber]
  · simp [lastNumber]
  · simp [lastNumber]
  · simp [cellValue, SameEntry]

private theorem latest_flatMap {entries : CourseSheet → List (Register.Entry CellValue CellValue)}
    (slots : ∀ sheet, ∀ entry ∈ entries sheet, entry.slot = sheet.course) {sheets : List CourseSheet}
    (distinct : (sheets.map CourseSheet.course).Nodup) {sheet : CourseSheet} (member : sheet ∈ sheets)
    (name : CellValue) :
    Register.latest (sheets.flatMap entries) name sheet.course =
      Register.latest (entries sheet) name sheet.course := by
  apply Register.latest_flatMap_of_unique name member distinct.of_map
  intro other otherMem different entry filed same
  have courses : other.course = sheet.course := Fin.ext ((slots other entry filed).symm.trans same)
  exact different (List.inj_on_of_nodup_map distinct otherMem member courses)

theorem slot_of_mem_xlrdEntries (sheet : CourseSheet) :
    ∀ entry ∈ sheet.xlrdEntries, entry.slot = sheet.course := by
  intro entry member
  obtain ⟨row, _, rfl⟩ := List.mem_map.mp member
  rfl

theorem mem_openpyxlEntries {sheet : CourseSheet} {entry : Register.Entry CellValue CellValue} :
    entry ∈ sheet.openpyxlEntries ↔
      entry.slot = sheet.course ∧ (some entry.key, some entry.value) ∈ sheet.dataRows := by
  obtain ⟨name, slot, number⟩ := entry
  simp only [CourseSheet.openpyxlEntries, List.mem_filterMap]
  constructor
  · rintro ⟨row, member, filed⟩
    split at filed
    · obtain ⟨rfl, rfl, rfl⟩ := Register.Entry.mk.inj (Option.some.inj filed)
      exact ⟨rfl, member⟩
    · contradiction
  · rintro ⟨rfl, member⟩
    exact ⟨_, member, rfl⟩

/-- Wherever xlrd files nothing, openpyxl files nothing. -/
private theorem latest_openpyxl_eq_none {sheets : List CourseSheet} {name : CellValue} {slot : ℕ}
    (absent : Register.latest (sheets.flatMap CourseSheet.xlrdEntries) name slot = none) :
    Register.latest (sheets.flatMap CourseSheet.openpyxlEntries) name slot = none := by
  rw [Register.latest_eq_none_iff] at absent ⊢
  intro entry filed same slotEq
  obtain ⟨sheet, member, inSheet⟩ := List.mem_flatMap.mp filed
  obtain ⟨atCourse, complete⟩ := mem_openpyxlEntries.mp inSheet
  have inXlrd : (⟨entry.key, sheet.course, entry.value⟩ : Register.Entry _ _) ∈ sheet.xlrdEntries :=
    List.mem_map.mpr ⟨_, complete, rfl⟩
  exact absent _ (List.mem_flatMap.mpr ⟨sheet, member, inXlrd⟩) same (atCourse ▸ slotEq)

/-- For the student of a last row, the two entries of its sheet agree when the row is kept. -/
private theorem entry_agrees_iff {sheets : List CourseSheet} (distinct : (sheets.map CourseSheet.course).Nodup)
    {sheet : CourseSheet} (member : sheet ∈ sheets) {before after : List (Cell × Cell)} {row : Cell × Cell}
    (split : sheet.dataRows = before ++ row :: after)
    (last : ∀ later ∈ after, cellValue later.1 ≠ cellValue row.1) :
    SameEntry
      ((Register.latest (sheets.flatMap CourseSheet.xlrdEntries) (cellValue row.1) sheet.course).getD untaken)
      ((Register.latest (sheets.flatMap CourseSheet.openpyxlEntries) (cellValue row.1) sheet.course).getD
        ExamNumbers.untaken) ↔
      (row.1 ≠ none ∧ row.2 ≠ none) ∨
        SameEntry (cellValue row.2) (lastNumber before (cellValue row.1)) := by
  have openpyxlSlots (sheet : CourseSheet) : ∀ entry ∈ sheet.openpyxlEntries, entry.slot = sheet.course :=
    fun entry filed => (mem_openpyxlEntries.mp filed).1
  rw [latest_flatMap slot_of_mem_xlrdEntries distinct member,
    latest_flatMap openpyxlSlots distinct member, latest_xlrdEntries split last,
    latest_openpyxlEntries, split, Option.getD_some, lastNumber_split last]

/-- A student's seven entries agree exactly when the student's last rows are kept. -/
theorem entries_agree_iff {sheets : List CourseSheet}
    (distinct : (sheets.map CourseSheet.course).Nodup) (name : CellValue) :
    (∀ slot ∈ List.range 7, SameEntry
      ((Register.latest (sheets.flatMap CourseSheet.xlrdEntries) name slot).getD untaken)
      ((Register.latest (sheets.flatMap CourseSheet.openpyxlEntries) name slot).getD
        ExamNumbers.untaken)) ↔
      ∀ sheet ∈ sheets, ∀ before row after, sheet.dataRows = before ++ row :: after →
        cellValue row.1 = name → (∀ later ∈ after, cellValue later.1 ≠ cellValue row.1) →
        (row.1 ≠ none ∧ row.2 ≠ none) ∨
          SameEntry (cellValue row.2) (lastNumber before (cellValue row.1)) := by
  constructor
  · rintro agree sheet member before row after split rfl last
    apply (entry_agrees_iff distinct member split last).mp
    exact agree sheet.course (List.mem_range.mpr sheet.course.isLt)
  · intro kept slot _
    cases found : Register.latest (sheets.flatMap CourseSheet.xlrdEntries) name slot with
    | none =>
      rw [latest_openpyxl_eq_none found]
      exact .inr ⟨rfl, rfl⟩
    | some number =>
      -- The slot is that of a sheet with a row of the student, and so with a last one.
      obtain ⟨entry, filed, rfl, rfl⟩ := Register.exists_of_latest_eq_some found
      obtain ⟨sheet, member, inSheet⟩ := List.mem_flatMap.mp filed
      obtain ⟨named, inRows, rfl⟩ := List.mem_map.mp inSheet
      obtain ⟨before, row, after, split, same, last⟩ :=
        Register.exists_last (p := fun row => cellValue row.1 = cellValue named.1) ⟨named, inRows, rfl⟩
      rw [← same] at last
      have agree := (entry_agrees_iff distinct member split last).mpr
        (kept sheet member before row after split same last)
      rw [same] at agree
      rw [← found]
      exact agree

theorem mem_xlrd_iff {sheets : List CourseSheet} {xlrd : Students}
    (shown : ∀ name, xlrd.lookup name =
      Register.shown untaken 7 (sheets.flatMap CourseSheet.xlrdEntries) name) (name : CellValue) :
    name ∈ xlrd ↔ ∃ sheet ∈ sheets, ∃ row ∈ sheet.dataRows, cellValue row.1 = name := by
  rw [← Dict.lookup_isSome, shown, Register.shown_isSome_iff]
  constructor
  · rintro ⟨entry, filed, rfl⟩
    obtain ⟨sheet, member, inSheet⟩ := List.mem_flatMap.mp filed
    obtain ⟨row, inRows, rfl⟩ := List.mem_map.mp inSheet
    exact ⟨sheet, member, row, inRows, rfl⟩
  · rintro ⟨sheet, member, row, inRows, rfl⟩
    exact ⟨_, List.mem_flatMap.mpr ⟨sheet, member, List.mem_map.mpr ⟨row, inRows, rfl⟩⟩, rfl⟩

theorem mem_openpyxl_iff {sheets : List CourseSheet} {openpyxl : Students}
    (shown : ∀ name, openpyxl.lookup name =
      Register.shown ExamNumbers.untaken 7 (sheets.flatMap CourseSheet.openpyxlEntries) name)
    (name : CellValue) :
    name ∈ openpyxl ↔ ∃ sheet ∈ sheets, ∃ number, (some name, some number) ∈ sheet.dataRows := by
  rw [← Dict.lookup_isSome, shown, Register.shown_isSome_iff]
  constructor
  · rintro ⟨entry, filed, rfl⟩
    obtain ⟨sheet, member, inSheet⟩ := List.mem_flatMap.mp filed
    exact ⟨sheet, member, entry.value, (mem_openpyxlEntries.mp inSheet).2⟩
  · rintro ⟨sheet, member, number, complete⟩
    exact ⟨⟨name, sheet.course, number⟩, List.mem_flatMap.mpr ⟨sheet, member,
      mem_openpyxlEntries.mpr ⟨rfl, complete⟩⟩, rfl⟩

/-- The same students are listed exactly when every name xlrd reads has a complete row. -/
private theorem keys_agree_iff {sheets : List CourseSheet} {xlrd openpyxl : Students}
    (left : ∀ name, xlrd.lookup name =
      Register.shown untaken 7 (sheets.flatMap CourseSheet.xlrdEntries) name)
    (right : ∀ name, openpyxl.lookup name =
      Register.shown ExamNumbers.untaken 7 (sheets.flatMap CourseSheet.openpyxlEntries) name) :
    (∀ name, name ∈ xlrd ↔ name ∈ openpyxl) ↔ NamesComplete sheets := by
  simp only [mem_xlrd_iff left, mem_openpyxl_iff right]
  constructor
  · intro keys sheet member row inRows
    exact (keys (cellValue row.1)).mp ⟨sheet, member, row, inRows, rfl⟩
  · intro complete name
    constructor
    · rintro ⟨sheet, member, row, inRows, rfl⟩
      exact complete sheet member row inRows
    · rintro ⟨sheet, member, number, inRows⟩
      exact ⟨sheet, member, _, inRows, rfl⟩

/-- Two shown lists agree when their slots do. -/
private theorem shown_sameEntry {leftEntries rightEntries : List (Register.Entry CellValue CellValue)}
    {name : CellValue} {left right : List CellValue}
    (leftShown : Register.shown untaken 7 leftEntries name = some left)
    (rightShown : Register.shown ExamNumbers.untaken 7 rightEntries name = some right) :
    List.Forall₂ SameEntry left right ↔ ∀ slot ∈ List.range 7, SameEntry
      ((Register.latest leftEntries name slot).getD untaken)
      ((Register.latest rightEntries name slot).getD ExamNumbers.untaken) := by
  unfold Register.shown at leftShown rightShown
  split_ifs at leftShown rightShown
  obtain rfl := Option.some.inj leftShown
  obtain rfl := Option.some.inj rightShown
  rw [List.forall₂_map_left_iff, List.forall₂_map_right_iff, List.forall₂_same]

/-- The readers agree exactly when the filter that the xlrd reader lacks would change nothing. -/
theorem readersAgree_iff (sheets : List CourseSheet)
    (distinct : (sheets.map CourseSheet.course).Nodup) :
    ReadersAgree sheets ↔ NamesComplete sheets ∧ LastRowsKept sheets := by
  have left (name : CellValue) := Register.lookup_foldl_file untaken 7
    (sheets.flatMap CourseSheet.xlrdEntries) name
  have right (name : CellValue) := Register.lookup_foldl_file ExamNumbers.untaken 7
    (sheets.flatMap CourseSheet.openpyxlEntries) name
  constructor
  · rintro ⟨xlrd, openpyxl, leftRun, rightRun, keys, entries⟩
    obtain rfl := Except.ok.inj ((readExcel_eq sheets).symm.trans leftRun)
    obtain rfl := Except.ok.inj ((readExamNumber_eq sheets).symm.trans rightRun)
    refine ⟨(keys_agree_iff left right).mp keys, ?_⟩
    intro sheet member before row after split last
    have inXlrd := (mem_xlrd_iff left (cellValue row.1)).mpr
      ⟨sheet, member, row, by rw [split]; simp, rfl⟩
    obtain ⟨numbers, present⟩ := Option.isSome_iff_exists.mp (Dict.lookup_isSome.mpr inXlrd)
    obtain ⟨numbers', present'⟩ :=
      Option.isSome_iff_exists.mp (Dict.lookup_isSome.mpr ((keys _).mp inXlrd))
    have same := (shown_sameEntry ((left _).symm.trans present) ((right _).symm.trans present')).mp
      (entries _ _ _ present present').2
    exact (entries_agree_iff distinct _).mp same sheet member before row after split rfl last
  · rintro ⟨complete, kept⟩
    refine ⟨_, _, readExcel_eq sheets, readExamNumber_eq sheets,
      (keys_agree_iff left right).mpr complete, ?_⟩
    intro name numbers numbers' present present'
    have leftShown := (left name).symm.trans present
    refine ⟨Register.shown_length leftShown, ?_⟩
    apply (shown_sameEntry leftShown ((right name).symm.trans present')).mpr
    apply (entries_agree_iff distinct name).mpr
    intro sheet member before row after split _ last
    exact kept sheet member before row after split last

/-- A physics sheet that lists student A twice, the second time without a number. -/
def blankAfterNumber : CourseSheet where
  course := 1
  nrows := 3
  ncols := 2
  content
    | 1, 0 => some (.str "A")
    | 1, 1 => some (.str "7")
    | 2, 0 => some (.str "A")
    | _, _ => none
  twoColumns := le_rfl
  rowLimit := by decide

/-- The blank overwrites the number for xlrd and is skipped by openpyxl. -/
theorem readers_disagree :
    ([blankAfterNumber].map CourseSheet.course).Nodup ∧ ¬ ReadersAgree [blankAfterNumber] := by
  refine ⟨by decide, ?_⟩
  rintro ⟨xlrd, openpyxl, leftRun, rightRun, _, entries⟩
  obtain rfl := Except.ok.inj ((readExcel_eq _).symm.trans leftRun)
  obtain rfl := Except.ok.inj ((readExamNumber_eq _).symm.trans rightRun)
  have same := (entries (.str "A") _ _ (Register.lookup_foldl_file ..) (Register.lookup_foldl_file ..)).2
  revert same
  decide

/-- Complete rows leave the filter nothing to reject. -/
theorem kept_of_complete {sheets : List CourseSheet}
    (complete : ∀ sheet ∈ sheets, ∀ row ∈ sheet.dataRows, row.1 ≠ none ∧ row.2 ≠ none) :
    NamesComplete sheets ∧ LastRowsKept sheets := by
  constructor
  · rintro sheet member ⟨first, second⟩ inRows
    obtain ⟨named, numbered⟩ := complete sheet member _ inRows
    obtain ⟨name, rfl⟩ := Option.ne_none_iff_exists'.mp named
    obtain ⟨number, rfl⟩ := Option.ne_none_iff_exists'.mp numbered
    exact ⟨sheet, member, number, inRows⟩
  · intro sheet member before row after split _
    exact .inl (complete sheet member row (by rw [split]; simp))

/-- A physics sheet that lists A, then B, then A again. -/
def physicsRows : CourseSheet where
  course := 1
  nrows := 4
  ncols := 2
  content row column := some (if column = 0 then .str (if row = 2 then "B" else "A") else .num row)
  twoColumns := le_rfl
  rowLimit := by decide

/-- A history sheet that lists B. -/
def historyRows : CourseSheet where
  course := 4
  nrows := 2
  ncols := 3
  content _ column := some (if column = 0 then .str "B" else .num 5)
  twoColumns := by decide
  rowLimit := by decide

theorem readersAgree_iff_twoSheets : ReadersAgree [physicsRows, historyRows] := by
  apply (readersAgree_iff [physicsRows, historyRows] (by decide)).mpr
  apply kept_of_complete
  intro sheet member row inRows
  simp only [List.mem_cons, List.not_mem_nil, or_false] at member
  rcases member with rfl | rfl
  all_goals
    obtain ⟨i, _, rfl⟩ := List.mem_map.mp inRows
    exact ⟨Option.some_ne_none _, Option.some_ne_none _⟩

end INote.ExamNumbers.Xlrd
