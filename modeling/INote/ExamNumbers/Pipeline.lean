import INote.ExamNumbers.Columns

/-! # The read-then-write script

The script loads the source workbook, accumulates the exam numbers, loads the class list, writes
the numbers into its active sheet in memory, and saves the result under a third name. Saving is
the last step, so an exception in either loop leaves every file as it was. openpyxl's own loading
and saving are taken to succeed, and `active` to be a worksheet.
-/

namespace INote.ExamNumbers

/-- A loaded workbook with its worksheets in order. -/
structure Workbook where
  sheets : List Worksheet
  activeIndex : Fin sheets.length

namespace Workbook

def active (workBook : Workbook) : Worksheet := workBook.sheets.get workBook.activeIndex

/-- The workbook after edits to its active sheet. -/
def setActive (workBook : Workbook) (sheet : Worksheet) : Workbook where
  sheets := workBook.sheets.set workBook.activeIndex sheet
  activeIndex := workBook.activeIndex.cast (List.length_set).symm

theorem active_setActive (workBook : Workbook) (sheet : Worksheet) :
    (workBook.setActive sheet).active = sheet := by
  simp [active, setActive]

/-- The same sheets in the same order, the active one apart. -/
structure SameOthers (workBook saved : Workbook) : Prop where
  count : saved.sheets.length = workBook.sheets.length
  activeIndex : saved.activeIndex.val = workBook.activeIndex.val
  others : ∀ index, index ≠ workBook.activeIndex.val → saved.sheets[index]? = workBook.sheets[index]?

theorem sameOthers_setActive (workBook : Workbook) (sheet : Worksheet) :
    workBook.SameOthers (workBook.setActive sheet) where
  count := List.length_set
  activeIndex := rfl
  others _ other := List.getElem?_set_ne (Ne.symm other)

end Workbook

/-- The files on disk, by path. -/
abbrev Disk := String → Option Workbook

/-- An exception leaves the files as they were when it was raised. -/
abbrev Script := EStateM PyError Disk

def pathExists (path : String) : Script Bool := do
  return ((← get) path).isSome

def loadWorkbook (path : String) : Script Workbook := do
  match (← get) path with
  | some workBook => return workBook
  | none => throw (.fileNotFound path)

def Workbook.save (workBook : Workbook) (path : String) : Script Unit :=
  modify fun disk => Function.update disk path (some workBook)

def sourceFile : String := "./期中考场安排修改1.xlsx"

def studentsFile : String := "./2022-2023学年第一学期期中高三名单.xlsx"

def outputFile : String := "./2022-2023学年第一学期期中高三名单-考号.xlsx"

def readExamNumberFile (filename : String) : Script Students := do
  let workBook ← loadWorkbook filename
  ofExcept (readExamNumber workBook.sheets)

def writeExamNumberFile (filename : String) (examNumber : Students) : Script Unit := do
  let workBook ← loadWorkbook filename
  let sheet ← ofExcept (writeRows examNumber workBook.active)
  (workBook.setActive sheet).save outputFile

def main : Script Unit := do
  if ← pathExists sourceFile then
    let examNumber ← readExamNumberFile sourceFile
    if ← pathExists studentsFile then
      writeExamNumberFile studentsFile examNumber

theorem bind_of_ok {α β : Type} {first : Script α} {next : α → Script β} {disk after : Disk} {value : α}
    (run : first disk = .ok value after) : (first >>= next) disk = next value after := by
  simp only [bind, EStateM.bind, run]

theorem bind_of_error {α β : Type} {first : Script α} {next : α → Script β} {disk after : Disk}
    {error : PyError} (run : first disk = .error error after) :
    (first >>= next) disk = .error error after := by
  simp only [bind, EStateM.bind, run]

theorem pathExists_of_present {disk : Disk} {path : String} {workBook : Workbook}
    (present : disk path = some workBook) : pathExists path disk = .ok true disk := by
  change EStateM.Result.ok (disk path).isSome disk = _
  rw [present, Option.isSome_some]

theorem loadWorkbook_of_present {disk : Disk} {path : String} {workBook : Workbook}
    (present : disk path = some workBook) : loadWorkbook path disk = .ok workBook disk := by
  have got : (get : Script Disk) disk = .ok disk disk := rfl
  rw [loadWorkbook, bind_of_ok got, present]
  rfl

theorem readExamNumberFile_eq {disk : Disk} {filename : String} {source : Workbook}
    (present : disk filename = some source) :
    readExamNumberFile filename disk =
      match readExamNumber source.sheets with
      | .error error => .error error disk
      | .ok students => .ok students disk := by
  rw [readExamNumberFile, bind_of_ok (loadWorkbook_of_present present)]
  cases readExamNumber source.sheets <;> rfl

theorem writeExamNumberFile_eq {disk : Disk} {filename : String} {target : Workbook}
    (present : disk filename = some target) (students : Students) :
    writeExamNumberFile filename students disk =
      match writeRows students target.active with
      | .error error => .error error disk
      | .ok sheet => .ok () (Function.update disk outputFile (some (target.setActive sheet))) := by
  rw [writeExamNumberFile, bind_of_ok (loadWorkbook_of_present present)]
  cases writeRows students target.active <;> rfl

/-- With both files present, the run is the two loops and one save. -/
theorem main_eq {disk : Disk} {source target : Workbook} (hasSource : disk sourceFile = some source)
    (hasTarget : disk studentsFile = some target) :
    main disk =
      match readExamNumber source.sheets with
      | .error error => .error error disk
      | .ok students =>
        match writeRows students target.active with
        | .error error => .error error disk
        | .ok sheet => .ok () (Function.update disk outputFile (some (target.setActive sheet))) := by
  have read := readExamNumberFile_eq hasSource
  rw [main, bind_of_ok (pathExists_of_present hasSource), if_pos rfl]
  cases run : readExamNumber source.sheets with
  | error error =>
    rw [run] at read
    exact bind_of_error read
  | ok students =>
    rw [run] at read
    rw [bind_of_ok read, bind_of_ok (pathExists_of_present hasTarget), if_pos rfl]
    exact writeExamNumberFile_eq hasTarget students

/-- The name occurs in a complete row of the source. -/
def NameRead (source : Workbook) (name : CellValue) : Prop :=
  ∃ sheet ∈ source.sheets, ∃ row number, sheet.CompleteRow row name number

/-- Every name the row loop will look up occurs in a complete row of the source. -/
def NamesRead (source target : Workbook) : Prop :=
  ∀ row, 3 ≤ row → row ≤ 145 → ∀ name, target.active.cell row 4 = some name → NameRead source name

/-- A complete row of a sheet whose title is not in `sheet_map`. -/
def UnknownComplete (sheet : Worksheet) (row : ℕ) : Prop :=
  (∃ name number, sheet.CompleteRow row name number) ∧ sheet.title ∉ sheetMap.map Prod.fst

/-- What the first loop leaves for the second. -/
theorem readExamNumber_keys {source : Workbook} (known : KnownTitles source.sheets) :
    ∃ students, readExamNumber source.sheets = .ok students ∧ SevenEntries students ∧
      ∀ name, name ∈ students ↔ NameRead source name := by
  obtain ⟨students, run, shown⟩ := readExamNumber_eq_ok known
  refine ⟨students, run, ?_, fun name => ?_⟩
  · exact fun name numbers present => Register.shown_length ((shown name).symm.trans present)
  · rw [← Dict.lookup_isSome, shown, Register.shown_isSome_iff, exists_entry_iff known]
    rfl

/-- The reading loop stops at the first complete row of an unknown sheet. -/
theorem readExamNumber_stops {source : Workbook} (unknown : ¬ KnownTitles source.sheets) :
    ∃ before sheet row after, visits source.sheets = before ++ (sheet, row) :: after ∧
      (∀ earlier ∈ before, ¬ UnknownComplete earlier.1 earlier.2) ∧ UnknownComplete sheet row ∧
      readExamNumber source.sheets = .error (.keyError (.str sheet.title) row) := by
  rw [← findSome?_readFault_eq_none_iff] at unknown
  obtain ⟨error, faulty⟩ := Option.ne_none_iff_exists'.mp unknown
  obtain ⟨before, ⟨sheet, row⟩, after, split, here, quiet⟩ := List.findSome?_eq_some_iff.mp faulty
  have visited (pair : Worksheet × ℕ) (member : pair ∈ visits source.sheets) : 2 ≤ pair.2 ∧ pair.2 ≤ 145 :=
    (mem_visits.mp member).2
  have inside : (sheet, row) ∈ visits source.sheets := by rw [split]; simp
  obtain ⟨complete, title, rfl⟩ := (readFault_eq_some_iff (visited _ inside)).mp here
  refine ⟨before, sheet, row, after, split, ?_, ⟨complete, title⟩, ?_⟩
  · rintro earlier member ⟨complete, title⟩
    have listed : earlier ∈ visits source.sheets := by rw [split]; exact List.mem_append_left _ member
    have fault := (readFault_eq_some_iff (visited earlier listed)).mpr ⟨complete, title, rfl⟩
    rw [quiet earlier member] at fault
    contradiction
  · rw [readExamNumber_eq_guarded, faulty, List.guarded_some]

/-- The writing loop stops at the first row whose name was not read, after editing the rows
before it in memory. -/
theorem writeRows_stops {students : Students} (seven : SevenEntries students) {sheet : Worksheet}
    (unlisted : ¬ NamesListed students sheet) :
    ∃ before row after name edited, iterRows 3 145 = before ++ row :: after ∧
      (∀ earlier ∈ before, ∀ name, sheet.cell earlier 4 = some name → name ∈ students) ∧
      sheet.cell row 4 = some name ∧ name ∉ students ∧
      before.foldlM (writeRow students) sheet = .ok edited ∧
      writeRows students sheet = .error (.keyError name row) := by
  rw [← findSome?_writeFault_eq_none_iff] at unlisted
  obtain ⟨error, faulty⟩ := Option.ne_none_iff_exists'.mp unlisted
  obtain ⟨before, row, after, split, here, quiet⟩ := List.findSome?_eq_some_iff.mp faulty
  have edited := foldlM_writeRow_eq_guarded seven before sheet
  rw [List.findSome?_eq_none_iff.mpr quiet, List.guarded_none] at edited
  have fault := here
  unfold writeFault at fault
  cases named : sheet.cell row 4 with
  | none => simp [named] at fault
  | some name =>
    simp only [named] at fault
    split_ifs at fault with listed
    obtain rfl := Option.some.inj fault
    refine ⟨before, row, after, name, _, split, ?_, named, ?_, edited, ?_⟩
    · exact fun earlier member => writeFault_eq_none_iff.mp (quiet earlier member)
    · exact fun member => listed (Dict.lookup_isSome.mpr member)
    · rw [writeRows, foldlM_writeRow_eq_guarded seven, faulty, List.guarded_some]

section Runs

variable {disk : Disk} {source target : Workbook}

/-- With every name listed, the script saves the class list with the sheet of the row loop. -/
theorem main_of_listed {students : Students} (hasSource : disk sourceFile = some source)
    (hasTarget : disk studentsFile = some target) (run : readExamNumber source.sheets = .ok students)
    (seven : SevenEntries students) (listed : NamesListed students target.active) :
    main disk = .ok () (Function.update disk outputFile
      (some (target.setActive (written students target.active)))) := by
  rw [main_eq hasSource hasTarget, run]
  simp only [writeRows_eq_ok seven listed]

/-- With every lookup successful, the run saves the class list with the sheet of the row loop. -/
theorem main_saves (hasSource : disk sourceFile = some source)
    (hasTarget : disk studentsFile = some target) (known : KnownTitles source.sheets)
    (read : NamesRead source target) :
    ∃ students, readExamNumber source.sheets = .ok students ∧ SevenEntries students ∧
      NamesListed students target.active ∧
      main disk = .ok () (Function.update disk outputFile
        (some (target.setActive (written students target.active)))) := by
  obtain ⟨students, run, seven, keys⟩ := readExamNumber_keys known
  have listed : NamesListed students target.active :=
    fun row lower upper name named => (keys name).mpr (read row lower upper name named)
  exact ⟨students, run, seven, listed, main_of_listed hasSource hasTarget run seven listed⟩

theorem main_unknown (hasSource : disk sourceFile = some source)
    (hasTarget : disk studentsFile = some target) (unknown : ¬ KnownTitles source.sheets) :
    ∃ before sheet row after, visits source.sheets = before ++ (sheet, row) :: after ∧
      (∀ earlier ∈ before, ¬ UnknownComplete earlier.1 earlier.2) ∧ UnknownComplete sheet row ∧
      main disk = .error (.keyError (.str sheet.title) row) disk := by
  obtain ⟨before, sheet, row, after, split, quiet, offending, run⟩ := readExamNumber_stops unknown
  refine ⟨before, sheet, row, after, split, quiet, offending, ?_⟩
  rw [main_eq hasSource hasTarget, run]

theorem main_unread (hasSource : disk sourceFile = some source)
    (hasTarget : disk studentsFile = some target) (known : KnownTitles source.sheets)
    (unread : ¬ NamesRead source target) :
    ∃ students before row after name edited,
      readExamNumber source.sheets = .ok students ∧
      iterRows 3 145 = before ++ row :: after ∧
      (∀ earlier ∈ before, ∀ name, target.active.cell earlier 4 = some name → NameRead source name) ∧
      target.active.cell row 4 = some name ∧ ¬ NameRead source name ∧
      before.foldlM (writeRow students) target.active = .ok edited ∧
      main disk = .error (.keyError name row) disk := by
  obtain ⟨students, run, seven, keys⟩ := readExamNumber_keys known
  have unlisted : ¬ NamesListed students target.active := fun listed =>
    unread fun row lower upper name named => (keys name).mp (listed row lower upper name named)
  obtain ⟨before, row, after, name, edited, split, quiet, named, absent, partly, stops⟩ :=
    writeRows_stops seven unlisted
  refine ⟨students, before, row, after, name, edited, run, split, ?_, named, ?_, partly, ?_⟩
  · exact fun earlier member other atRow => (keys other).mp (quiet earlier member other atRow)
  · exact fun found => absent ((keys name).mpr found)
  · rw [main_eq hasSource hasTarget, run]
    simp only [stops]

/-- A run that returns has met both conditions. -/
theorem conditions_of_ok (hasSource : disk sourceFile = some source)
    (hasTarget : disk studentsFile = some target) {after : Disk} (returned : main disk = .ok () after) :
    KnownTitles source.sheets ∧ NamesRead source target := by
  by_cases known : KnownTitles source.sheets
  · by_cases read : NamesRead source target
    · exact ⟨known, read⟩
    · obtain ⟨_, _, _, _, _, _, _, _, _, _, _, _, stops⟩ := main_unread hasSource hasTarget known read
      rw [stops] at returned
      contradiction
  · obtain ⟨_, _, _, _, _, _, _, stops⟩ := main_unknown hasSource hasTarget known
    rw [stops] at returned
    contradiction

/-- A run that returns has saved the class list with the sheet the row loop wrote. -/
theorem after_of_returned {after : Disk} (hasSource : disk sourceFile = some source)
    (hasTarget : disk studentsFile = some target) (returned : main disk = .ok () after) :
    ∃ students, readExamNumber source.sheets = .ok students ∧ SevenEntries students ∧
      NamesListed students target.active ∧
      after = Function.update disk outputFile (some (target.setActive (written students target.active))) := by
  obtain ⟨known, read⟩ := conditions_of_ok hasSource hasTarget returned
  obtain ⟨students, run, seven, listed, saved⟩ := main_saves hasSource hasTarget known read
  rw [saved] at returned
  cases returned
  exact ⟨students, run, seven, listed, rfl⟩

end Runs

/-- The run saves exactly when both lookups succeed throughout; then the saved workbook is the class list
with every named row of its active sheet processed. Otherwise it stops with a `KeyError` at the first
offending row in iteration order, with every file as it was. -/
theorem main_all_or_nothing (disk : Disk) (source target : Workbook)
    (hasSource : disk sourceFile = some source) (hasTarget : disk studentsFile = some target) :
    ((∃ final, main disk = .ok () (Function.update disk outputFile (some final))) ↔
      KnownTitles source.sheets ∧ NamesRead source target) ∧
    (∀ after, main disk = .ok () after → ∃ students saved,
      readExamNumber source.sheets = .ok students ∧
      after = Function.update disk outputFile (some saved) ∧
      Processed students target.active saved.active ∧ target.SameOthers saved) ∧
    (¬ KnownTitles source.sheets → ∃ before sheet row after,
      visits source.sheets = before ++ (sheet, row) :: after ∧
      (∀ earlier ∈ before, ¬ UnknownComplete earlier.1 earlier.2) ∧ UnknownComplete sheet row ∧
      main disk = .error (.keyError (.str sheet.title) row) disk) ∧
    (KnownTitles source.sheets → ¬ NamesRead source target →
      ∃ students before row after name edited,
        readExamNumber source.sheets = .ok students ∧
        iterRows 3 145 = before ++ row :: after ∧
        (∀ earlier ∈ before, ∀ name, target.active.cell earlier 4 = some name →
          NameRead source name) ∧
        target.active.cell row 4 = some name ∧ ¬ NameRead source name ∧
        before.foldlM (writeRow students) target.active = .ok edited ∧
        main disk = .error (.keyError name row) disk) := by
  refine ⟨⟨?_, ?_⟩, ?_, main_unknown hasSource hasTarget, main_unread hasSource hasTarget⟩
  · rintro ⟨final, returned⟩
    exact conditions_of_ok hasSource hasTarget returned
  · rintro ⟨known, read⟩
    obtain ⟨_, _, _, _, saved⟩ := main_saves hasSource hasTarget known read
    exact ⟨_, saved⟩
  · intro after returned
    obtain ⟨students, run, seven, listed, rfl⟩ := after_of_returned hasSource hasTarget returned
    refine ⟨students, _, run, rfl, ?_, target.sameOthers_setActive _⟩
    rw [Workbook.active_setActive]
    exact processed_written seven listed

/-- The physics and the history sheet. -/
def examSource : Workbook where
  sheets := [physicsSheet, historySheet]
  activeIndex := 0

/-- The list of A and B, behind a sheet of remarks. -/
def classTarget : Workbook where
  sheets := [⟨"remarks", fun _ _ => none⟩, classOfTwo]
  activeIndex := 1

def twoFiles : Disk :=
  Function.update (Function.update (fun _ => none) studentsFile (some classTarget)) sourceFile
    (some examSource)

theorem hasSource_twoFiles : twoFiles sourceFile = some examSource := by simp [twoFiles]

theorem hasTarget_twoFiles : twoFiles studentsFile = some classTarget := by
  simp [twoFiles, studentsFile, sourceFile]

theorem namesRead_classTarget : NamesRead examSource classTarget := by
  intro row _ _ name named
  rcases names_classOfTwo named with ⟨_, rfl⟩ | ⟨_, rfl⟩
  · exact ⟨physicsSheet, List.mem_cons_self, 4, .str "9", by decide, rfl, rfl⟩
  · exact ⟨physicsSheet, List.mem_cons_self, 3, .str "8", by decide, rfl, rfl⟩

theorem main_all_or_nothing_twoFiles :
    ∃ students saved, main twoFiles = .ok () (Function.update twoFiles outputFile (some saved)) ∧
      Processed students classTarget.active saved.active ∧ classTarget.SameOthers saved := by
  obtain ⟨saves, outcome, _⟩ :=
    main_all_or_nothing twoFiles examSource classTarget hasSource_twoFiles hasTarget_twoFiles
  obtain ⟨final, returned⟩ := saves.mpr ⟨knownTitles_twoSheets, namesRead_classTarget⟩
  obtain ⟨students, saved, _, after, processed, others⟩ := outcome _ returned
  rw [after] at returned
  exact ⟨students, saved, returned, processed, others⟩

theorem exists_saved_twoFiles : ∃ after, main twoFiles = .ok () after := by
  obtain ⟨_, _, _, _, saved⟩ :=
    main_saves hasSource_twoFiles hasTarget_twoFiles knownTitles_twoSheets namesRead_classTarget
  exact ⟨_, saved⟩

end INote.ExamNumbers
