import INote.Library.Register
import Mathlib.Data.Rat.Defs

/-! # Workbooks and exam-number lists

Cells are blank or filled. A blank cell is `None` for openpyxl; a filled cell carries a value up
to Python's `==`, the equality its dictionaries and comparisons use. Rows are numbered from 1 and
columns from 0, the way the scripts address them, and cells outside the used range are blank.

Both workbook readers accumulate a dictionary from student names to lists of seven exam numbers,
one for each course sheet, and share the dictionary update modelled here. They also print the
dictionary, so it remembers the order in which the names were first seen.
-/

namespace INote.ExamNumbers

/-- The value of a filled cell. Python's `int`, `float` and `bool` are equal when their numeric
values are. -/
inductive CellValue where
  | str (text : String)
  | num (value : ℚ)
  | datetime (microseconds : ℤ)
  | time (microseconds : ℕ)
  | timedelta (microseconds : ℤ)
deriving DecidableEq

abbrev Cell := Option CellValue

/-- One worksheet, with every cell outside its used range blank. -/
@[ext]
structure Worksheet where
  title : String
  cell : ℕ → ℕ → Cell

/-- The exceptions the scripts can raise. A `KeyError` also records the worksheet row its loop
had reached, which the traceback shows and the exception value does not. -/
inductive PyError where
  | keyError (key : CellValue) (row : ℕ)
  | indexError (index : ℕ)
  | fileNotFound (path : String)
deriving DecidableEq

/-- Both bounds of `iter_rows` are inclusive. -/
def iterRows (minRow maxRow : ℕ) : List ℕ := List.range' minRow (maxRow + 1 - minRow)

@[simp] theorem mem_iterRows {minRow maxRow row : ℕ} :
    row ∈ iterRows minRow maxRow ↔ minRow ≤ row ∧ row ≤ maxRow := by
  simp only [iterRows, List.mem_range'_1]
  omega

theorem iterRows_nodup (minRow maxRow : ℕ) : (iterRows minRow maxRow).Nodup := List.nodup_range'

/-- The rows before and after a given one. -/
theorem iterRows_split {minRow maxRow row : ℕ} (lower : minRow ≤ row) (upper : row ≤ maxRow) :
    iterRows minRow maxRow =
      List.range' minRow (row - minRow) ++ row :: iterRows (row + 1) maxRow := by
  obtain ⟨before, rfl⟩ := Nat.exists_eq_add_of_le lower
  obtain ⟨after, rfl⟩ := Nat.exists_eq_add_of_le upper
  have count : minRow + before + after + 1 - minRow = before + (after + 1) := by omega
  have rest : minRow + before + after + 1 - (minRow + before + 1) = after := by omega
  rw [iterRows, iterRows, count, rest, Nat.add_sub_cancel_left, ← List.range'_append_1,
    List.range'_succ]

/-- Student names mapped to their exam numbers, one entry a course, in the order of the first
sightings. -/
abbrev Students := Register.Rows CellValue CellValue

/-- `numbers[index] = value` on a Python list. -/
def setItem (numbers : List CellValue) (index : ℕ) (value : CellValue) :
    Except PyError (List CellValue) :=
  if index < numbers.length then .ok (numbers.set index value) else .error (.indexError index)

theorem setItem_eq_ok {numbers : List CellValue} {index : ℕ} (inRange : index < numbers.length)
    (value : CellValue) : setItem numbers index value = .ok (numbers.set index value) :=
  if_pos inRange

/-- The dictionary update both readers perform: the first sighting of a name creates a list of
seven sentinels, and the course entry is assigned either way. -/
def recordNumber (sentinel : CellValue) (students : Students) (courseIdx : ℕ)
    (studentName examNumber : CellValue) : Except PyError Students :=
  match students.lookup studentName with
  | none => do
      let courseLst ← setItem (List.replicate 7 sentinel) courseIdx examNumber
      .ok (students.set studentName courseLst)
  | some courseLst => do
      let courseLst ← setItem courseLst courseIdx examNumber
      .ok (students.set studentName courseLst)

/-- Every student's list has one entry a course. -/
def SevenEntries (students : Students) : Prop :=
  ∀ name numbers, students.lookup name = some numbers → numbers.length = 7

theorem sevenEntries_empty : SevenEntries ∅ := by
  intro name numbers present
  simp at present

theorem sevenEntries_file {students : Students} (seven : SevenEntries students)
    (sentinel : CellValue) (entry : Register.Entry CellValue CellValue) :
    SevenEntries (Register.file sentinel 7 students entry) := by
  intro name numbers present
  by_cases same : name = entry.key
  · subst same
    rw [Register.file, Dict.lookup_set_self] at present
    obtain rfl := Option.some.inj present
    cases found : students.lookup entry.key with
    | none => simp
    | some courseLst => simpa using seven _ _ found
  · rw [Register.file, Dict.lookup_set_of_ne _ same] at present
    exact seven name numbers present

theorem sevenEntries_foldl_file {students : Students} (seven : SevenEntries students) (sentinel : CellValue)
    (entries : List (Register.Entry CellValue CellValue)) :
    SevenEntries (entries.foldl (Register.file sentinel 7) students) := by
  induction entries generalizing students with
  | nil => exact seven
  | cons entry rest ih => exact ih (sevenEntries_file seven sentinel entry)

/-- The dictionary update never leaves the list and is the register's filing step. -/
theorem recordNumber_eq_file {students : Students} (seven : SevenEntries students)
    (sentinel : CellValue) {courseIdx : ℕ} (inRange : courseIdx < 7)
    (studentName examNumber : CellValue) :
    recordNumber sentinel students courseIdx studentName examNumber =
      .ok (Register.file sentinel 7 students ⟨studentName, courseIdx, examNumber⟩) := by
  unfold recordNumber Register.file
  cases found : students.lookup studentName with
  | none =>
    have blank : courseIdx < (List.replicate 7 sentinel).length := by simpa using inRange
    have assigned := setItem_eq_ok blank examNumber
    simp only [assigned, Option.getD_none]
    rfl
  | some courseLst =>
    have assigned := setItem_eq_ok (by rw [seven _ _ found]; exact inRange) examNumber
    simp only [assigned, Option.getD_some]
    rfl

end INote.ExamNumbers
