import INote.ExamNumbers.Workbook
import INote.Library.Fold
import Mathlib.Data.Nat.Find

/-! # Reading exam numbers from the course sheets

`read_exam_number` visits rows 2..145 of every sheet. A row with a blank name or a blank number is
skipped before its sheet's title is looked up, so an unknown title matters only on a sheet with a
complete row. The whole run is therefore decided in advance: it stops at the first complete row
of an unknown sheet, and otherwise it files one register entry for each complete row.
-/

namespace INote.ExamNumbers

/-- The script's `sheet_map`. -/
def sheetMap : List (String × ℕ) :=
  [("语数外考号", 0), ("物理考号", 1), ("化学考号", 2), ("生物考号", 3), ("历史考号", 4), ("地理考号", 5),
    ("政治考号", 6)]

/-- The mark of a course the student has not taken. -/
def untaken : CellValue := .str "-1"

/-- The body of the row loop, for the row's first two cells. -/
def readRow (sheet : Worksheet) (students : Students) (row : ℕ) : Except PyError Students :=
  match sheet.cell row 0, sheet.cell row 1 with
  | some studentName, some examNumber =>
    match sheetMap.lookup sheet.title with
    | none => .error (.keyError (.str sheet.title) row)
    | some courseIdx => recordNumber untaken students courseIdx studentName examNumber
  | _, _ => .ok students

def readSheet (students : Students) (sheet : Worksheet) : Except PyError Students :=
  (iterRows 2 145).foldlM (readRow sheet) students

def readExamNumber (workBook : List Worksheet) : Except PyError Students :=
  workBook.foldlM readSheet ∅

theorem sheetMap_lt {title : String} {courseIdx : ℕ}
    (found : sheetMap.lookup title = some courseIdx) : courseIdx < 7 := by
  have bounded : ∀ pair ∈ sheetMap, pair.2 < 7 := by decide
  exact bounded _ (List.mem_of_lookup_eq_some found)

/-- No two titles share a course. -/
theorem sheetMap_injective {title other : String} {courseIdx : ℕ}
    (found : sheetMap.lookup title = some courseIdx)
    (again : sheetMap.lookup other = some courseIdx) : title = other :=
  List.lookup_injective (by decide) found again

/-- A row is complete when it is in the visited range and its first two cells are filled. -/
structure Worksheet.CompleteRow (sheet : Worksheet) (row : ℕ) (name number : CellValue) : Prop where
  visited : 2 ≤ row ∧ row ≤ 145
  named : sheet.cell row 0 = some name
  numbered : sheet.cell row 1 = some number

/-- The last complete row of a student on a sheet. -/
def Worksheet.LastComplete (sheet : Worksheet) (row : ℕ) (name number : CellValue) : Prop :=
  sheet.CompleteRow row name number ∧
    ∀ later other, sheet.CompleteRow later name other → later ≤ row

/-- Every sheet with a complete row has a title the script knows. -/
def KnownTitles (workBook : List Worksheet) : Prop :=
  ∀ sheet ∈ workBook, (∃ row name number, sheet.CompleteRow row name number) →
    sheet.title ∈ sheetMap.map Prod.fst

/-- The exception one visited row raises, if any. -/
def readFault (sheet : Worksheet) (row : ℕ) : Option PyError :=
  match sheet.cell row 0, sheet.cell row 1, sheetMap.lookup sheet.title with
  | some _, some _, none => some (.keyError (.str sheet.title) row)
  | _, _, _ => none

/-- The register entry one visited row files, if any. -/
def readEntry (sheet : Worksheet) (row : ℕ) : Option (Register.Entry CellValue CellValue) :=
  match sheet.cell row 0, sheet.cell row 1, sheetMap.lookup sheet.title with
  | some studentName, some examNumber, some courseIdx => some ⟨studentName, courseIdx, examNumber⟩
  | _, _, _ => none

/-- What a visited row does to the dictionary when it raises nothing. -/
def readEffect (sheet : Worksheet) (students : Students) (row : ℕ) : Students :=
  match readEntry sheet row with
  | some entry => Register.file untaken 7 students entry
  | none => students

theorem readRow_eq_guarded (sheet : Worksheet) {students : Students} (seven : SevenEntries students)
    (row : ℕ) :
    readRow sheet students row =
      List.guarded (readFault sheet row) (readEffect sheet students row) := by
  unfold readRow readFault readEffect readEntry
  cases sheet.cell row 0 with
  | none => rfl
  | some studentName =>
    cases sheet.cell row 1 with
    | none => rfl
    | some examNumber =>
      cases found : sheetMap.lookup sheet.title with
      | none => rfl
      | some courseIdx => exact recordNumber_eq_file seven untaken (sheetMap_lt found) _ _

theorem sevenEntries_readEffect (sheet : Worksheet) {students : Students}
    (seven : SevenEntries students) (row : ℕ) : SevenEntries (readEffect sheet students row) := by
  unfold readEffect
  split
  · exact sevenEntries_file seven untaken _
  · exact seven

/-- The (sheet, row) pairs in the order the nested loops visit them. -/
def visits (workBook : List Worksheet) : List (Worksheet × ℕ) :=
  workBook.flatMap fun sheet => (iterRows 2 145).map (Prod.mk sheet)

theorem mem_visits {workBook : List Worksheet} {sheet : Worksheet} {row : ℕ} :
    (sheet, row) ∈ visits workBook ↔ sheet ∈ workBook ∧ 2 ≤ row ∧ row ≤ 145 := by
  simp [visits]

/-- The entries of one sheet, in row order. -/
def sheetEntries (sheet : Worksheet) : List (Register.Entry CellValue CellValue) :=
  (iterRows 2 145).filterMap (readEntry sheet)

private theorem foldl_readEffect {ι : Type} (visit : ι → Worksheet × ℕ) (items : List ι) (students : Students) :
    items.foldl (fun students item => readEffect (visit item).1 students (visit item).2) students =
      (items.filterMap fun item => readEntry (visit item).1 (visit item).2).foldl
        (Register.file untaken 7) students := by
  rw [List.foldl_filterMap]
  congr 1
  funext students item
  unfold readEffect
  cases readEntry (visit item).1 (visit item).2 <;> rfl

/-- One sheet: its first fault, or the register of its complete rows. -/
theorem readSheet_eq_guarded (sheet : Worksheet) {students : Students} (seven : SevenEntries students) :
    readSheet students sheet = List.guarded ((iterRows 2 145).findSome? (readFault sheet))
      ((sheetEntries sheet).foldl (Register.file untaken 7) students) := by
  rw [readSheet, List.foldlM_guarded (readFault sheet) (readEffect sheet) SevenEntries
    (fun students row _ seven => readRow_eq_guarded sheet seven row)
    (fun students row _ seven _ => sevenEntries_readEffect sheet seven row) seven]
  exact congrArg _ (foldl_readEffect (Prod.mk sheet) _ students)

/-- The whole run: the first fault in visiting order, or the register of all complete rows. -/
theorem readExamNumber_eq_guarded (workBook : List Worksheet) :
    readExamNumber workBook =
      List.guarded ((visits workBook).findSome? fun pair => readFault pair.1 pair.2)
        ((workBook.flatMap sheetEntries).foldl (Register.file untaken 7) ∅) := by
  have flat : readExamNumber workBook =
      (visits workBook).foldlM (fun students pair => readRow pair.1 students pair.2) ∅ :=
    List.foldlM_flatMap_pairs readRow _ workBook ∅
  rw [flat, List.foldlM_guarded _ _ SevenEntries
    (fun students pair _ seven => readRow_eq_guarded pair.1 seven pair.2)
    (fun students pair _ seven _ => sevenEntries_readEffect pair.1 seven pair.2)
    sevenEntries_empty, foldl_readEffect fun pair => pair]
  simp only [visits, List.filterMap_flatMap, List.filterMap_map, Function.comp_def]
  rfl

/-- A visited row faults exactly when it is a complete row of an unknown sheet. -/
theorem readFault_eq_some_iff {sheet : Worksheet} {row : ℕ} (visited : 2 ≤ row ∧ row ≤ 145)
    {error : PyError} :
    readFault sheet row = some error ↔
      (∃ name number, sheet.CompleteRow row name number) ∧
        sheet.title ∉ sheetMap.map Prod.fst ∧ error = .keyError (.str sheet.title) row := by
  rw [← List.lookup_eq_none_iff_not_mem]
  unfold readFault
  constructor
  · intro faulty
    split at faulty
    · next name number named numbered unknown =>
      exact ⟨⟨name, number, visited, named, numbered⟩, unknown, (Option.some.inj faulty).symm⟩
    · contradiction
  · rintro ⟨⟨name, number, _, named, numbered⟩, unknown, rfl⟩
    simp only [named, numbered, unknown]

theorem findSome?_readFault_eq_none_iff {workBook : List Worksheet} :
    ((visits workBook).findSome? fun pair => readFault pair.1 pair.2) = none ↔
      KnownTitles workBook := by
  rw [List.findSome?_eq_none_iff]
  constructor
  · rintro quiet sheet member ⟨row, name, number, complete⟩
    by_contra unknown
    have faulty := (readFault_eq_some_iff complete.visited).mpr
      ⟨⟨name, number, complete⟩, unknown, rfl⟩
    rw [quiet (sheet, row) (mem_visits.mpr ⟨member, complete.visited⟩)] at faulty
    contradiction
  · rintro known ⟨sheet, row⟩ member
    obtain ⟨sheetMem, visited⟩ := mem_visits.mp member
    apply Option.eq_none_iff_forall_ne_some.mpr
    intro error faulty
    obtain ⟨⟨name, number, complete⟩, unknown, _⟩ := (readFault_eq_some_iff visited).mp faulty
    exact unknown (known sheet sheetMem ⟨row, name, number, complete⟩)

/-- With known titles the run returns, and the dictionary shows the register of its entries. -/
theorem readExamNumber_eq_ok {workBook : List Worksheet} (known : KnownTitles workBook) :
    ∃ students, readExamNumber workBook = .ok students ∧ ∀ name,
      students.lookup name = Register.shown untaken 7 (workBook.flatMap sheetEntries) name := by
  rw [readExamNumber_eq_guarded, findSome?_readFault_eq_none_iff.mpr known]
  exact ⟨_, rfl, fun name => Register.lookup_foldl_file untaken 7 _ name⟩

/-- A visited row files an entry exactly when it is a complete row of a known sheet. -/
theorem readEntry_eq_some_iff {sheet : Worksheet} {row : ℕ} (visited : 2 ≤ row ∧ row ≤ 145)
    {entry : Register.Entry CellValue CellValue} :
    readEntry sheet row = some entry ↔
      sheetMap.lookup sheet.title = some entry.slot ∧
        sheet.CompleteRow row entry.key entry.value := by
  unfold readEntry
  constructor
  · intro filed
    split at filed
    · next name number courseIdx named numbered found =>
      obtain rfl := Option.some.inj filed
      exact ⟨found, visited, named, numbered⟩
    · contradiction
  · rintro ⟨found, _, named, numbered⟩
    simp only [named, numbered, found]

theorem mem_sheetEntries {sheet : Worksheet} {entry : Register.Entry CellValue CellValue} :
    entry ∈ sheetEntries sheet ↔
      sheetMap.lookup sheet.title = some entry.slot ∧
        ∃ row, sheet.CompleteRow row entry.key entry.value := by
  simp only [sheetEntries, List.mem_filterMap, mem_iterRows]
  constructor
  · rintro ⟨row, visited, filed⟩
    obtain ⟨found, complete⟩ := (readEntry_eq_some_iff visited).mp filed
    exact ⟨found, row, complete⟩
  · rintro ⟨found, row, complete⟩
    exact ⟨row, complete.visited, (readEntry_eq_some_iff complete.visited).mpr ⟨found, complete⟩⟩

/-- The latest entry of a sheet comes from the student's last complete row. -/
theorem latest_sheetEntries {sheet : Worksheet} {courseIdx row : ℕ} {name number : CellValue}
    (found : sheetMap.lookup sheet.title = some courseIdx)
    (last : sheet.LastComplete row name number) :
    Register.latest (sheetEntries sheet) name courseIdx = some number := by
  obtain ⟨complete, newest⟩ := last
  have here : readEntry sheet row = some ⟨name, courseIdx, number⟩ :=
    (readEntry_eq_some_iff complete.visited).mpr ⟨found, complete⟩
  have later : Register.latest ((iterRows (row + 1) 145).filterMap (readEntry sheet)) name courseIdx =
      none := by
    apply Register.latest_eq_none_iff.mpr
    intro entry member same _
    obtain ⟨after, inside, filed⟩ := List.mem_filterMap.mp member
    have bounds := mem_iterRows.mp inside
    have visited := complete.visited
    have other := ((readEntry_eq_some_iff ⟨by omega, bounds.2⟩).mp filed).2
    rw [same] at other
    have := newest after _ other
    omega
  rw [sheetEntries, iterRows_split complete.visited.1 complete.visited.2, List.filterMap_append,
    List.filterMap_cons_some here, Register.latest_append, ← List.singleton_append,
    Register.latest_append, later, Register.latest_singleton]
  simp

theorem Worksheet.CompleteRow.exists_last {sheet : Worksheet} {row : ℕ} {name number : CellValue}
    (complete : sheet.CompleteRow row name number) :
    ∃ last other, sheet.LastComplete last name other := by
  classical
  let Complete (row : ℕ) : Prop := ∃ number, sheet.CompleteRow row name number
  obtain ⟨other, last⟩ : Complete (Nat.findGreatest Complete 145) :=
    Nat.findGreatest_spec complete.visited.2 ⟨number, complete⟩
  exact ⟨_, other, last, fun later number present =>
    Nat.le_findGreatest present.visited.2 ⟨number, present⟩⟩

/-- What a workbook says about one student and one course: the number in the student's last
complete row on the course's sheet, and the untaken mark when there is no such row. -/
def CourseEntry (workBook : List Worksheet) (name : CellValue) (courseIdx : ℕ) (number : CellValue) :
    Prop :=
  (∃ sheet ∈ workBook, sheetMap.lookup sheet.title = some courseIdx ∧
    ∃ row, sheet.LastComplete row name number) ∨
  (number = untaken ∧ ∀ sheet ∈ workBook, sheetMap.lookup sheet.title = some courseIdx →
    ∀ row other, ¬ sheet.CompleteRow row name other)

theorem exists_courseEntry (workBook : List Worksheet) (name : CellValue) (courseIdx : ℕ) :
    ∃ number, CourseEntry workBook name courseIdx number := by
  by_cases seen : ∃ sheet ∈ workBook, sheetMap.lookup sheet.title = some courseIdx ∧
      ∃ row number, sheet.CompleteRow row name number
  · obtain ⟨sheet, member, found, row, number, complete⟩ := seen
    obtain ⟨last, number, newest⟩ := complete.exists_last
    exact ⟨number, .inl ⟨sheet, member, found, last, newest⟩⟩
  · refine ⟨untaken, .inr ⟨rfl, fun sheet member found row number complete => ?_⟩⟩
    exact seen ⟨sheet, member, found, row, number, complete⟩

/-- With distinct titles, a course entry is the latest register entry of its slot. -/
theorem CourseEntry.eq_latest {workBook : List Worksheet}
    (distinct : (workBook.map Worksheet.title).Nodup) {name number : CellValue} {courseIdx : ℕ}
    (entry : CourseEntry workBook name courseIdx number) :
    (Register.latest (workBook.flatMap sheetEntries) name courseIdx).getD untaken = number := by
  rcases entry with ⟨sheet, member, found, row, last⟩ | ⟨rfl, absent⟩
  · have others : ∀ other ∈ workBook, other ≠ sheet → ∀ entry ∈ sheetEntries other,
        entry.slot ≠ courseIdx := by
      rintro other otherMem different entry filed rfl
      have titles := sheetMap_injective (mem_sheetEntries.mp filed).1 found
      exact different (List.inj_on_of_nodup_map distinct otherMem member titles)
    rw [Register.latest_flatMap_of_unique name member distinct.of_map others,
      latest_sheetEntries found last, Option.getD_some]
  · rw [Register.latest_eq_none_iff.mpr, Option.getD_none]
    rintro entry filed rfl rfl
    obtain ⟨sheet, member, inSheet⟩ := List.mem_flatMap.mp filed
    obtain ⟨found, row, complete⟩ := mem_sheetEntries.mp inSheet
    exact absent sheet member found row _ complete

/-- With known titles, the students with an entry are those with a complete row. -/
theorem exists_entry_iff {workBook : List Worksheet} (known : KnownTitles workBook)
    {name : CellValue} :
    (∃ entry ∈ workBook.flatMap sheetEntries, entry.key = name) ↔
      ∃ sheet ∈ workBook, ∃ row number, sheet.CompleteRow row name number := by
  constructor
  · rintro ⟨entry, filed, rfl⟩
    obtain ⟨sheet, member, inSheet⟩ := List.mem_flatMap.mp filed
    obtain ⟨_, row, complete⟩ := mem_sheetEntries.mp inSheet
    exact ⟨sheet, member, row, entry.value, complete⟩
  · rintro ⟨sheet, member, row, number, complete⟩
    have title := known sheet member ⟨row, name, number, complete⟩
    obtain ⟨courseIdx, found⟩ : ∃ courseIdx, sheetMap.lookup sheet.title = some courseIdx :=
      Option.ne_none_iff_exists'.mp fun unknown => List.lookup_eq_none_iff_not_mem.mp unknown title
    refine ⟨⟨name, courseIdx, number⟩, List.mem_flatMap.mpr ⟨sheet, member, ?_⟩, rfl⟩
    exact mem_sheetEntries.mpr ⟨found, row, complete⟩

/-- The finite function a run must return: the keys are the names of the complete rows, and each
list holds the seven course entries. -/
structure Describes (workBook : List Worksheet) (students : Students) : Prop where
  keys : ∀ name, name ∈ students ↔ ∃ sheet ∈ workBook, ∃ row number, sheet.CompleteRow row name number
  length : ∀ name numbers, students.lookup name = some numbers → numbers.length = 7
  entries : ∀ name numbers, students.lookup name = some numbers → ∀ courseIdx < 7,
    ∃ number, numbers[courseIdx]? = some number ∧ CourseEntry workBook name courseIdx number

theorem exists_describes {workBook : List Worksheet}
    (distinct : (workBook.map Worksheet.title).Nodup) (known : KnownTitles workBook) :
    ∃ students, readExamNumber workBook = .ok students ∧ Describes workBook students := by
  obtain ⟨students, run, shown⟩ := readExamNumber_eq_ok known
  refine ⟨students, run, ?_, ?_, ?_⟩
  · intro name
    rw [← Dict.lookup_isSome, shown, Register.shown_isSome_iff, exists_entry_iff known]
  · intro name numbers present
    exact Register.shown_length ((shown name).symm.trans present)
  · intro name numbers present courseIdx bound
    obtain ⟨number, entry⟩ := exists_courseEntry workBook name courseIdx
    refine ⟨number, ?_, entry⟩
    rw [Register.shown_getElem? ((shown name).symm.trans present) bound, entry.eq_latest distinct]

/-- The description determines a student's list from that student's own rows. -/
theorem Describes.lookup_eq {workBook other : List Worksheet} {students others : Students}
    (distinct : (workBook.map Worksheet.title).Nodup)
    (left : Describes workBook students) (right : Describes other others) {name : CellValue}
    (listed : name ∈ students ↔ name ∈ others)
    (entries : ∀ courseIdx number, CourseEntry other name courseIdx number →
      CourseEntry workBook name courseIdx number) :
    others.lookup name = students.lookup name := by
  cases present : students.lookup name with
  | none =>
    rw [Dict.lookup_eq_none] at present ⊢
    exact fun member => present (listed.mpr member)
  | some numbers =>
    have member : name ∈ others :=
      listed.mp (Dict.lookup_isSome.mp (Option.isSome_iff_exists.mpr ⟨numbers, present⟩))
    obtain ⟨numbers', present'⟩ := Option.isSome_iff_exists.mp (Dict.lookup_isSome.mpr member)
    rw [present']
    congr 1
    have length := left.length name numbers present
    have length' := right.length name numbers' present'
    apply List.ext_getElem?
    intro courseIdx
    by_cases bound : courseIdx < 7
    · obtain ⟨number, atIndex, entry⟩ := left.entries name numbers present courseIdx bound
      obtain ⟨number', atIndex', entry'⟩ := right.entries name numbers' present' courseIdx bound
      rw [atIndex, atIndex', ← entry.eq_latest distinct,
        ← (entries courseIdx number' entry').eq_latest distinct]
    · rw [List.getElem?_eq_none (by omega), List.getElem?_eq_none (by omega)]

/-- Both workbooks show the same rows for one student; every other row may differ. -/
def SameRowsFor (name : CellValue) (workBook other : List Worksheet) : Prop :=
  List.Forall₂ (fun sheet sheet' => sheet.title = sheet'.title ∧
    ∀ row number, sheet.CompleteRow row name number ↔ sheet'.CompleteRow row name number)
    workBook other

theorem SameRowsFor.symm {name : CellValue} {workBook other : List Worksheet}
    (same : SameRowsFor name workBook other) : SameRowsFor name other workBook :=
  same.flip.imp fun _ _ agree => ⟨agree.1.symm, fun row number => (agree.2 row number).symm⟩

theorem SameRowsFor.titles {name : CellValue} {workBook other : List Worksheet}
    (same : SameRowsFor name workBook other) :
    workBook.map Worksheet.title = other.map Worksheet.title := by
  induction same with
  | nil => rfl
  | cons agree _ ih => rw [List.map_cons, List.map_cons, agree.1, ih]

theorem SameRowsFor.exists_sheet {name : CellValue} {workBook other : List Worksheet}
    (same : SameRowsFor name workBook other) {sheet : Worksheet} (member : sheet ∈ workBook) :
    ∃ sheet' ∈ other, sheet.title = sheet'.title ∧
      ∀ row number, sheet.CompleteRow row name number ↔ sheet'.CompleteRow row name number := by
  induction same with
  | nil => simp at member
  | @cons head head' rest rest' agree _ ih =>
    rcases List.mem_cons.mp member with rfl | tail
    · exact ⟨head', List.mem_cons_self, agree⟩
    · obtain ⟨sheet', member', agree'⟩ := ih tail
      exact ⟨sheet', List.mem_cons_of_mem _ member', agree'⟩

/-- A student's course entries depend on that student's rows only. -/
theorem CourseEntry.of_sameRows {name number : CellValue} {workBook other : List Worksheet}
    {courseIdx : ℕ} (same : SameRowsFor name workBook other)
    (entry : CourseEntry workBook name courseIdx number) :
    CourseEntry other name courseIdx number := by
  rcases entry with ⟨sheet, member, found, row, complete, newest⟩ | ⟨rfl, absent⟩
  · obtain ⟨sheet', member', title, agree⟩ := same.exists_sheet member
    refine .inl ⟨sheet', member', title ▸ found, row, (agree row number).mp complete, ?_⟩
    exact fun later other present => newest later other ((agree later other).mpr present)
  · refine .inr ⟨rfl, fun sheet' member' found row number complete => ?_⟩
    obtain ⟨sheet, member, title, agree⟩ := same.symm.exists_sheet member'
    exact absent sheet member (title ▸ found) row number ((agree row number).mp complete)

theorem CourseEntry.of_mem_iff {name number : CellValue} {workBook other : List Worksheet}
    {courseIdx : ℕ} (same : ∀ sheet, sheet ∈ workBook ↔ sheet ∈ other)
    (entry : CourseEntry workBook name courseIdx number) :
    CourseEntry other name courseIdx number := by
  simpa only [CourseEntry, same] using entry

/-- `read_exam_number` on any workbook with distinct titles, known wherever a row is complete: the
dictionary it returns, its independence of the sheet order, and its independence, student by
student, of the other students' rows. -/
theorem readExamNumber_spec (workBook : List Worksheet)
    (distinct : (workBook.map Worksheet.title).Nodup) (known : KnownTitles workBook) :
    ∃ students, readExamNumber workBook = .ok students ∧ Describes workBook students ∧
      (∀ shuffled, List.Perm shuffled workBook →
        ∃ reordered, readExamNumber shuffled = .ok reordered ∧
          ∀ name, reordered.lookup name = students.lookup name) ∧
      (∀ name edited, SameRowsFor name workBook edited → KnownTitles edited →
        ∃ others, readExamNumber edited = .ok others ∧
          others.lookup name = students.lookup name) := by
  obtain ⟨students, run, describes⟩ := exists_describes distinct known
  refine ⟨students, run, describes, ?_, ?_⟩
  · intro shuffled perm
    have titles : (shuffled.map Worksheet.title).Nodup := (perm.map _).nodup_iff.mpr distinct
    obtain ⟨reordered, rerun, redescribes⟩ :=
      exists_describes titles (fun sheet member => known sheet (perm.mem_iff.mp member))
    refine ⟨reordered, rerun, fun name => describes.lookup_eq distinct redescribes ?_ ?_⟩
    · simp only [describes.keys, redescribes.keys, perm.mem_iff]
    · exact fun courseIdx number => CourseEntry.of_mem_iff fun sheet => perm.mem_iff
  · intro name edited same knownEdited
    obtain ⟨others, rerun, redescribes⟩ :=
      exists_describes (same.titles ▸ distinct) knownEdited
    refine ⟨others, rerun, describes.lookup_eq distinct redescribes ?_ ?_⟩
    · rw [describes.keys, redescribes.keys]
      constructor
      · rintro ⟨sheet, member, row, number, complete⟩
        obtain ⟨sheet', member', _, agree⟩ := same.exists_sheet member
        exact ⟨sheet', member', row, number, (agree row number).mp complete⟩
      · rintro ⟨sheet', member', row, number, complete⟩
        obtain ⟨sheet, member, _, agree⟩ := same.symm.exists_sheet member'
        exact ⟨sheet, member, row, number, (agree row number).mp complete⟩
    · exact fun courseIdx number => CourseEntry.of_sameRows same.symm

/-- A physics sheet that lists A, then B, then A again. -/
def physicsSheet : Worksheet where
  title := "物理考号"
  cell
    | 2, 0 => some (.str "A")
    | 2, 1 => some (.str "7")
    | 3, 0 => some (.str "B")
    | 3, 1 => some (.str "8")
    | 4, 0 => some (.str "A")
    | 4, 1 => some (.str "9")
    | _, _ => none

/-- A history sheet that lists B, and C without a number. -/
def historySheet : Worksheet where
  title := "历史考号"
  cell
    | 2, 0 => some (.str "B")
    | 2, 1 => some (.str "5")
    | 3, 0 => some (.str "C")
    | _, _ => none

theorem knownTitles_twoSheets : KnownTitles [physicsSheet, historySheet] := by
  intro sheet member _
  simp only [List.mem_cons, List.not_mem_nil, or_false] at member
  rcases member with rfl | rfl <;> decide

theorem readExamNumber_spec_twoSheets :
    ∃ students, readExamNumber [physicsSheet, historySheet] = .ok students ∧
      Describes [physicsSheet, historySheet] students ∧
      ∃ reordered, readExamNumber [historySheet, physicsSheet] = .ok reordered ∧
        ∀ name, reordered.lookup name = students.lookup name := by
  obtain ⟨students, run, describes, orders, _⟩ :=
    readExamNumber_spec [physicsSheet, historySheet] (by decide) knownTitles_twoSheets
  exact ⟨students, run, describes, orders _ (List.Perm.swap ..)⟩

end INote.ExamNumbers
