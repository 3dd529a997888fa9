import INote.ExamNumbers.Pipeline
import Mathlib.Data.Fin.Basic

/-! # From the source cells to the output cells

The cells of the output file are a function of the two workbooks. A named row gets the numbers of the
student's last complete rows, each course in a column of its own that is two columns early for a student
without a number in the first course; every other cell is that of the class list. So a run on its own
output changes nothing, even when the output takes the place of the class list.
-/

namespace INote.ExamNumbers

/-- The active sheet of the output. -/
structure OutputSheet (source target : Workbook) (final : Worksheet) : Prop where
  title : final.title = target.active.title
  named : ∀ row name number, 3 ≤ row → row ≤ 145 → target.active.cell row 4 = some name →
    (∀ course < 7, CourseEntry source.sheets name course (number course)) →
    final.cell row = outputRow number (target.active.cell row)
  unnamed : ∀ row, (3 ≤ row → row ≤ 145 → target.active.cell row 4 = none) →
    final.cell row = target.active.cell row

/-- An entry of a course is the one the description gives. -/
theorem Describes.getElem? {sheets : List Worksheet} {students : Students}
    (distinct : (sheets.map Worksheet.title).Nodup)
    (describes : Describes sheets students) {name number : CellValue} {numbers : List CellValue} {course : ℕ}
    (found : students.lookup name = some numbers) (bound : course < 7)
    (entry : CourseEntry sheets name course number) : numbers[course]? = some number := by
  obtain ⟨other, present, otherEntry⟩ := describes.entries name numbers found course bound
  rw [present, ← entry.eq_latest distinct, otherEntry.eq_latest distinct]

theorem outputSheet_written {source target : Workbook} {students : Students}
    (distinct : (source.sheets.map Worksheet.title).Nodup) (describes : Describes source.sheets students)
    (listed : NamesListed students target.active) :
    OutputSheet source target (written students target.active) where
  title := rfl
  named row name number lower upper named entries := by
    obtain ⟨numbers, row_listed⟩ := exists_listedRow listed lower upper named
    have found := row_listed.listed
    rw [row_listed.cell_written]
    refine filled_eq_outputRow (describes.length name numbers found) (fun course bound => ?_) _
    exact describes.getElem? distinct found bound (entries course bound)
  unnamed _ blank := cell_written_of_unnamed blank

/-- Every cell of the saved sheet is given by the two workbooks, and the other sheets are those of the class
list. -/
theorem main_output (disk after : Disk) (source target : Workbook) (hasSource : disk sourceFile = some source)
    (hasTarget : disk studentsFile = some target) (distinct : (source.sheets.map Worksheet.title).Nodup)
    (returned : main disk = .ok () after) :
    ∃ saved, after = Function.update disk outputFile (some saved) ∧ OutputSheet source target saved.active ∧
      target.SameOthers saved := by
  obtain ⟨known, _⟩ := conditions_of_ok hasSource hasTarget returned
  obtain ⟨students, run, _, listed, rfl⟩ := after_of_returned hasSource hasTarget returned
  obtain ⟨others, again, describes⟩ := exists_describes distinct known
  obtain rfl := Except.ok.inj (run.symm.trans again)
  refine ⟨_, rfl, ?_, target.sameOthers_setActive _⟩
  rw [Workbook.active_setActive]
  exact outputSheet_written distinct describes listed

theorem main_output_twoFiles :
    ∃ saved, main twoFiles = .ok () (Function.update twoFiles outputFile (some saved)) ∧
      OutputSheet examSource classTarget saved.active ∧ classTarget.SameOthers saved := by
  obtain ⟨after, returned⟩ := exists_saved_twoFiles
  obtain ⟨saved, rfl, output, others⟩ := main_output twoFiles after examSource classTarget hasSource_twoFiles
    hasTarget_twoFiles (by decide) returned
  exact ⟨saved, returned, output, others⟩

/-! ## Another run -/

namespace Workbook

theorem setActive_setActive (workBook : Workbook) (first second : Worksheet) :
    (workBook.setActive first).setActive second = workBook.setActive second := by
  have sheets : ((workBook.setActive first).setActive second).sheets = (workBook.setActive second).sheets :=
    List.set_set ..
  simp only [setActive, mk.injEq] at sheets ⊢
  exact ⟨sheets, (Fin.heq_ext_iff (congrArg List.length sheets)).mpr rfl⟩

end Workbook

theorem namesListed_written {students : Students} {sheet : Worksheet} (listed : NamesListed students sheet) :
    NamesListed students (written students sheet) := by
  intro row lower upper name named
  rw [written_name] at named
  exact listed row lower upper name named

/-- The row loop on its own output saves the same workbook. -/
theorem main_of_written {disk : Disk} {source target : Workbook} {students : Students}
    (hasSource : disk sourceFile = some source)
    (hasTarget : disk studentsFile = some (target.setActive (written students target.active)))
    (run : readExamNumber source.sheets = .ok students) (seven : SevenEntries students)
    (listed : NamesListed students target.active) :
    main disk = .ok () (Function.update disk outputFile
      (some (target.setActive (written students target.active)))) := by
  have active := Workbook.active_setActive target (written students target.active)
  have still : NamesListed students (target.setActive (written students target.active)).active := by
    rw [active]
    exact namesListed_written listed
  rw [main_of_listed hasSource hasTarget run seven still, active, written_written, Workbook.setActive_setActive]

/-- A second run changes nothing, and neither does a run on the output in place of the class list. -/
theorem main_main (disk after : Disk) (source target : Workbook) (hasSource : disk sourceFile = some source)
    (hasTarget : disk studentsFile = some target) (returned : main disk = .ok () after) :
    main after = .ok () after ∧
      main (Function.update after studentsFile (after outputFile)) =
        .ok () (Function.update after studentsFile (after outputFile)) := by
  obtain ⟨students, run, seven, listed, rfl⟩ := after_of_returned hasSource hasTarget returned
  have sourceKept : sourceFile ≠ outputFile := by decide
  have targetKept : studentsFile ≠ outputFile := by decide
  have apart : sourceFile ≠ studentsFile := by decide
  constructor
  · refine (main_of_listed ?_ ?_ run seven listed).trans ?_
    · rw [Function.update_of_ne sourceKept, hasSource]
    · rw [Function.update_of_ne targetKept, hasTarget]
    · rw [Function.update_idem]
  · rw [Function.update_self]
    refine (main_of_written ?_ (Function.update_self ..) run seven listed).trans ?_
    · rw [Function.update_of_ne apart, Function.update_of_ne sourceKept, hasSource]
    · rw [Function.update_comm targetKept, Function.update_idem]

theorem main_main_twoFiles :
    ∃ after, main twoFiles = .ok () after ∧ main after = .ok () after ∧
      main (Function.update after studentsFile (after outputFile)) =
        .ok () (Function.update after studentsFile (after outputFile)) := by
  obtain ⟨after, returned⟩ := exists_saved_twoFiles
  exact ⟨after, returned, main_main twoFiles after examSource classTarget hasSource_twoFiles
    hasTarget_twoFiles returned⟩

end INote.ExamNumbers
