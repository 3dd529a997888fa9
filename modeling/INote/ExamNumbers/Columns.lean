import INote.ExamNumbers.Write

/-! # Where the exam numbers land

Each subject has its own cells: the first course fills columns 19 to 21, and course `c` after it
owns column `21 + c`. The row loop keeps that layout for a student who takes the first course.
For one who does not, every later number lands two columns to the left of its own, so the layout
survives only where the displaced numbers happen to agree with what the cells should hold.

What holds for every student, shifted or not: a row's assignments hit distinct cells inside the
row, nothing outside the nine columns of named rows changes, and a second run changes nothing.
-/

namespace INote.ExamNumbers

/-- Every name in the visited rows is a key of the map. -/
def NamesListed (examNumber : Students) (sheet : Worksheet) : Prop :=
  ∀ row, 3 ≤ row → row ≤ 145 → ∀ name, sheet.cell row 4 = some name → name ∈ examNumber

/-- A visited row with a name, and the numbers the map holds for it. -/
structure ListedRow (examNumber : Students) (sheet : Worksheet) (row : ℕ) (name : CellValue)
    (numbers : List CellValue) : Prop where
  visited : 3 ≤ row ∧ row ≤ 145
  named : sheet.cell row 4 = some name
  listed : examNumber.lookup name = some numbers

/-- The sheet after the row loop. -/
def written (examNumber : Students) (sheet : Worksheet) : Worksheet :=
  { sheet with cell := Writes.sweep (fun _ => rewriteRow examNumber) (iterRows 3 145) sheet.cell }

theorem writeFault_eq_none_iff {examNumber : Students} {sheet : Worksheet} {row : ℕ} :
    writeFault examNumber sheet row = none ↔ ∀ name, sheet.cell row 4 = some name → name ∈ examNumber := by
  unfold writeFault
  cases sheet.cell row 4 with
  | none => simp
  | some name => simp [Dict.lookup_isSome]

theorem findSome?_writeFault_eq_none_iff {examNumber : Students} {sheet : Worksheet} :
    (iterRows 3 145).findSome? (writeFault examNumber sheet) = none ↔ NamesListed examNumber sheet := by
  simp only [List.findSome?_eq_none_iff, mem_iterRows, writeFault_eq_none_iff, NamesListed, and_imp]

theorem writeRows_eq_ok {examNumber : Students} (seven : SevenEntries examNumber) {sheet : Worksheet}
    (listed : NamesListed examNumber sheet) :
    writeRows examNumber sheet = .ok (written examNumber sheet) := by
  rw [writeRows, foldlM_writeRow_eq_guarded seven, findSome?_writeFault_eq_none_iff.mpr listed, List.guarded_none,
    written]

theorem cell_written {examNumber : Students} {sheet : Worksheet} {row : ℕ}
    (visited : 3 ≤ row ∧ row ≤ 145) :
    (written examNumber sheet).cell row = rewriteRow examNumber (sheet.cell row) := by
  have inside : row ∈ iterRows 3 145 := mem_iterRows.mpr visited
  change Writes.sweep (fun _ => rewriteRow examNumber) (iterRows 3 145) sheet.cell row = _
  rw [Writes.sweep_of_mem (iterRows_nodup 3 145) inside]

theorem cell_written_outside {examNumber : Students} {sheet : Worksheet} {row : ℕ}
    (outside : ¬ (3 ≤ row ∧ row ≤ 145)) :
    (written examNumber sheet).cell row = sheet.cell row := by
  have absent : row ∉ iterRows 3 145 := fun inside => outside (mem_iterRows.mp inside)
  change Writes.sweep (fun _ => rewriteRow examNumber) (iterRows 3 145) sheet.cell row = _
  rw [Writes.sweep_of_not_mem absent]

theorem ListedRow.cell_written {examNumber : Students} {sheet : Worksheet} {row : ℕ}
    {name : CellValue} {numbers : List CellValue}
    (row_listed : ListedRow examNumber sheet row name numbers) :
    (written examNumber sheet).cell row = filled (rowWrites numbers) (sheet.cell row) := by
  rw [ExamNumbers.cell_written row_listed.visited]
  simp only [rewriteRow, row_listed.named, Option.bind_some, row_listed.listed]

/-- Rows outside the loop and rows without a listed name keep every cell. -/
theorem cell_written_of_not_listed {examNumber : Students} {sheet : Worksheet} {row : ℕ}
    (unlisted : ∀ name numbers, ¬ ListedRow examNumber sheet row name numbers) :
    (written examNumber sheet).cell row = sheet.cell row := by
  by_cases visited : 3 ≤ row ∧ row ≤ 145
  · rw [cell_written visited, rewriteRow]
    cases found : (sheet.cell row 4).bind fun name => examNumber.lookup name with
    | none => rfl
    | some numbers =>
      obtain ⟨name, named, listed⟩ := Option.bind_eq_some_iff.mp found
      exact (unlisted name numbers ⟨visited, named, listed⟩).elim
  · exact cell_written_outside visited

/-- A subject's own cells. -/
def ownColumns : ℕ → List ℕ
  | 0 => [19, 20, 21]
  | course + 1 => [21 + (course + 1)]

/-- Every subject's own cells hold the student's number for it, or keep their content. -/
def FixedColumns (examNumber : Students) (sheet : Worksheet) : Prop :=
  ∃ final, writeRows examNumber sheet = .ok final ∧
    ∀ row name numbers, ListedRow examNumber sheet row name numbers →
      ∀ course code, numbers[course]? = some code → ∀ column ∈ ownColumns course,
        final.cell row column = if code = untaken then sheet.cell row column else some code

/-- The two-column shift goes unnoticed: for each taken course after the first, the cell its
number is shifted to was to hold that number anyway, from the course owning that cell or from
before, and so does its own cell, from the course shifted onto it or from before. -/
def ShiftHidden (numbers : List CellValue) (cells : ℕ → Cell) : Prop :=
  ∀ course code, 1 ≤ course → numbers[course]? = some code → code ≠ untaken →
    (if 3 ≤ course then taken numbers (course - 2) else none).or (cells (19 + course)) = some code ∧
      (taken numbers (course + 2)).or (cells (21 + course)) = some code

theorem taken_eq {numbers : List CellValue} {course : ℕ} {code : CellValue}
    (entry : numbers[course]? = some code) :
    taken numbers course = if code = untaken then none else some code := by
  rw [taken, entry]
  split_ifs with skip <;> simp [skip]

theorem taken_eq_some_iff {numbers : List CellValue} {course : ℕ} {code : CellValue} :
    taken numbers course = some code ↔ numbers[course]? = some code ∧ code ≠ untaken := by
  simp [taken, Option.filter_eq_some_iff]

/-- With the first course taken, the layout of the row is kept. -/
theorem own_columns_of_taken {first : CellValue} (isTaken : first ≠ untaken) (rest : List CellValue)
    (cells : ℕ → Cell) {course : ℕ} {code : CellValue} (entry : (first :: rest)[course]? = some code)
    {column : ℕ} (own : column ∈ ownColumns course) :
    filled (rowWrites (first :: rest)) cells column =
      if code = untaken then cells column else some code := by
  rw [filled_of_taken isTaken]
  cases course with
  | zero =>
    obtain rfl := Option.some.inj entry
    rw [if_pos (by simpa [ownColumns] using own), if_neg isTaken]
  | succ course =>
    obtain rfl : column = 21 + (course + 1) := by simpa [ownColumns] using own
    have back : 21 + (course + 1) - 21 = course + 1 := by omega
    rw [if_neg (by omega), if_pos (by omega), back, taken_eq entry]
    split_ifs <;> rfl

/-- Without the first course, a later course lands two columns before its own. -/
theorem filled_shifted (rest : List CellValue) (cells : ℕ → Cell) {course : ℕ} (later : 1 ≤ course) :
    filled (rowWrites (untaken :: rest)) cells (19 + course) =
      (taken (untaken :: rest) course).or (cells (19 + course)) := by
  rw [filled_of_untaken, if_pos (by omega), Nat.add_sub_cancel_left]

/-- A hidden shift shows in every cell what the course owning it was to show. -/
theorem ShiftHidden.filled_eq {rest : List CellValue} {cells : ℕ → Cell}
    (hidden : ShiftHidden (untaken :: rest) cells) {course : ℕ} (later : 1 ≤ course) :
    filled (rowWrites (untaken :: rest)) cells (19 + course) =
      (if 3 ≤ course then taken (untaken :: rest) (course - 2) else none).or (cells (19 + course)) := by
  rw [filled_shifted rest cells later]
  cases landed : taken (untaken :: rest) course with
  | some code =>
    obtain ⟨entry, isTaken⟩ := taken_eq_some_iff.mp landed
    exact (hidden course code later entry isTaken).1.symm
  | none =>
    split
    · next owned =>
      cases owner : taken (untaken :: rest) (course - 2) with
      | none => rfl
      | some code =>
        obtain ⟨entry, isTaken⟩ := taken_eq_some_iff.mp owner
        have shown := (hidden (course - 2) code (by omega) entry isTaken).2
        have back : course - 2 + 2 = course := by omega
        have column : 21 + (course - 2) = 19 + course := by omega
        rw [back, landed, column] at shown
        exact shown
    · rfl

theorem ShiftHidden.own_columns {rest : List CellValue} {cells : ℕ → Cell}
    (hidden : ShiftHidden (untaken :: rest) cells) {course : ℕ} {code : CellValue}
    (entry : (untaken :: rest)[course]? = some code) {column : ℕ} (own : column ∈ ownColumns course) :
    filled (rowWrites (untaken :: rest)) cells column =
      if code = untaken then cells column else some code := by
  cases course with
  | zero =>
    obtain rfl := Option.some.inj entry
    rw [if_pos rfl]
    simp only [ownColumns, List.mem_cons, List.not_mem_nil, or_false] at own
    rcases own with rfl | rfl | rfl
    · rw [filled_of_untaken]
      rfl
    · exact hidden.filled_eq (show 1 ≤ 1 by decide)
    · exact hidden.filled_eq (show 1 ≤ 2 by decide)
  | succ k =>
    obtain rfl : column = 19 + (k + 3) := by
      rw [ownColumns, List.mem_singleton] at own
      omega
    have owner : k + 3 - 2 = k + 1 := by omega
    rw [hidden.filled_eq (by omega), if_pos (by omega), owner, taken_eq entry]
    split <;> rfl

/-- The cell where a course lands has an owner, and the course has its own cell; both show its number. -/
theorem shiftHidden_of_own_columns {rest : List CellValue} {cells : ℕ → Cell}
    (kept : ∀ course code, (untaken :: rest)[course]? = some code → ∀ column ∈ ownColumns course,
      filled (rowWrites (untaken :: rest)) cells column =
        if code = untaken then cells column else some code) : ShiftHidden (untaken :: rest) cells := by
  intro course code later entry isTaken
  have landed : filled (rowWrites (untaken :: rest)) cells (19 + course) = some code := by
    rw [filled_shifted rest cells later, taken_eq entry, if_neg isTaken, Option.some_or]
  constructor
  · split
    · next owned =>
      have bound := (List.getElem?_eq_some_iff.mp entry).1
      obtain ⟨k, rfl⟩ := Nat.exists_eq_add_of_le' owned
      have owner : (untaken :: rest)[k + 1]? = some (untaken :: rest)[k + 1] :=
        List.getElem?_eq_getElem (by omega)
      have own : 19 + (k + 3) ∈ ownColumns (k + 1) := by
        rw [ownColumns, List.mem_singleton]
        omega
      have back : k + 3 - 2 = k + 1 := by omega
      rw [← landed, kept (k + 1) _ owner _ own, back, taken_eq owner]
      split <;> rfl
    · next free =>
      have own : 19 + course ∈ ownColumns 0 := by
        simp only [ownColumns, List.mem_cons, List.not_mem_nil, or_false]
        omega
      rw [← landed, kept 0 untaken rfl _ own, if_pos rfl]
      rfl
  · obtain ⟨k, rfl⟩ := Nat.exists_eq_add_of_le' later
    have shown := kept (k + 1) code entry (21 + (k + 1)) (List.mem_singleton_self _)
    have column : 21 + (k + 1) = 19 + (k + 1 + 2) := by omega
    rw [if_neg isTaken, column, filled_shifted rest cells (by omega)] at shown
    rw [column]
    exact shown

/-- Without the first course, the layout of the row is kept only if the shift is hidden. -/
theorem own_columns_of_untaken (rest : List CellValue) (cells : ℕ → Cell) :
    (∀ course code, (untaken :: rest)[course]? = some code → ∀ column ∈ ownColumns course,
      filled (rowWrites (untaken :: rest)) cells column =
        if code = untaken then cells column else some code) ↔
      ShiftHidden (untaken :: rest) cells :=
  ⟨shiftHidden_of_own_columns, fun hidden _ _ entry _ own => hidden.own_columns entry own⟩

/-- The layout is kept exactly in the rows whose student takes the first course and in those
where the shift is hidden. -/
theorem fixedColumns_iff (examNumber : Students) (sheet : Worksheet) (seven : SevenEntries examNumber)
    (listed : NamesListed examNumber sheet) :
    FixedColumns examNumber sheet ↔
      ∀ row name numbers, ListedRow examNumber sheet row name numbers →
        numbers[0]? ≠ some untaken ∨ ShiftHidden numbers (sheet.cell row) := by
  have atRow {row : ℕ} {name : CellValue} {numbers : List CellValue}
      (row_listed : ListedRow examNumber sheet row name numbers) :
      (∀ course code, numbers[course]? = some code → ∀ column ∈ ownColumns course,
        (written examNumber sheet).cell row column =
          if code = untaken then sheet.cell row column else some code) ↔
        numbers[0]? ≠ some untaken ∨ ShiftHidden numbers (sheet.cell row) := by
    rw [row_listed.cell_written]
    obtain ⟨first, rest, rfl⟩ := List.exists_cons_of_length_eq_add_one (seven _ _ row_listed.listed)
    by_cases skip : first = untaken
    · subst skip
      rw [own_columns_of_untaken]
      simp
    · simp only [List.getElem?_cons_zero, ne_eq, Option.some.injEq, skip, not_false_eq_true, true_or,
        iff_true]
      intro course code entry column own
      exact own_columns_of_taken skip rest _ entry own
  constructor
  · rintro ⟨final, run, kept⟩ row name numbers row_listed
    obtain rfl := Except.ok.inj ((writeRows_eq_ok seven listed).symm.trans run)
    exact (atRow row_listed).mp (kept row name numbers row_listed)
  · intro fine
    refine ⟨_, writeRows_eq_ok seven listed, fun row name numbers row_listed => ?_⟩
    exact (atRow row_listed).mpr (fine row name numbers row_listed)

/-- A map with one student, A. -/
def studentA (numbers : List CellValue) : Students := (∅ : Students).set (.str "A") numbers

/-- A class list whose only name is A, in row 3. -/
def classOfA : Worksheet where
  title := "class"
  cell row column := if row = 3 ∧ column = 4 then some (.str "A") else none

theorem lookup_studentA {numbers : List CellValue} {name : CellValue} {found : List CellValue}
    (present : (studentA numbers).lookup name = some found) : name = .str "A" ∧ found = numbers :=
  Prod.mk.inj (List.mem_singleton.mp (Dict.mem_items_iff.mpr present))

theorem sevenEntries_studentA {numbers : List CellValue} (seven : numbers.length = 7) :
    SevenEntries (studentA numbers) := by
  intro name found present
  rw [(lookup_studentA present).2, seven]

theorem namesListed_classOfA (numbers : List CellValue) : NamesListed (studentA numbers) classOfA := by
  intro row _ _ name named
  simp only [classOfA] at named
  split_ifs at named
  obtain rfl := Option.some.inj named
  exact List.mem_singleton_self _

theorem listedRow_classOfA (numbers : List CellValue) :
    ListedRow (studentA numbers) classOfA 3 (.str "A") numbers where
  visited := by decide
  named := rfl
  listed := Dict.lookup_set_self _ _ _

/-- Physics without the first course lands in column 20, and its own column 22 stays blank. -/
theorem physics_alone_misplaced :
    let numbers := [untaken, .str "7", untaken, untaken, untaken, untaken, untaken]
    SevenEntries (studentA numbers) ∧ NamesListed (studentA numbers) classOfA ∧
      ¬ FixedColumns (studentA numbers) classOfA := by
  intro numbers
  have seven : SevenEntries (studentA numbers) := sevenEntries_studentA rfl
  refine ⟨seven, namesListed_classOfA numbers, ?_⟩
  rintro ⟨final, run, kept⟩
  obtain rfl := Except.ok.inj ((writeRows_eq_ok seven (namesListed_classOfA numbers)).symm.trans run)
  have own := kept 3 (.str "A") numbers (listedRow_classOfA numbers) 1 (.str "7") rfl 22 (by decide)
  rw [(listedRow_classOfA numbers).cell_written, filled_of_untaken] at own
  revert own
  decide

/-- A takes the first course, and B physics alone. -/
def twoStudents : Students :=
  ((∅ : Students).set (.str "A") [.str "5", .str "7", untaken, untaken, .str "9", untaken, untaken]).set
    (.str "B") [untaken, .str "7", untaken, untaken, untaken, untaken, untaken]

/-- A class list with A in row 3 and B in row 4, where B's number stands in both columns already. -/
def classOfTwo : Worksheet where
  title := "class"
  cell
    | 3, 4 => some (.str "A")
    | 4, 4 => some (.str "B")
    | 4, 20 => some (.str "7")
    | 4, 22 => some (.str "7")
    | _, _ => none

theorem names_classOfTwo {row : ℕ} {name : CellValue} (named : classOfTwo.cell row 4 = some name) :
    (row = 3 ∧ name = .str "A") ∨ (row = 4 ∧ name = .str "B") := by
  unfold classOfTwo at named
  dsimp only at named
  split at named
  · exact .inl ⟨rfl, (Option.some.inj named).symm⟩
  · exact .inr ⟨rfl, (Option.some.inj named).symm⟩
  all_goals contradiction

theorem fixedColumns_iff_twoStudents : FixedColumns twoStudents classOfTwo := by
  have items {name : CellValue} {numbers : List CellValue} (found : twoStudents.lookup name = some numbers) :
      (name, numbers) ∈ twoStudents.items := Dict.mem_items_iff.mpr found
  refine (fixedColumns_iff _ _ ?_ ?_).mpr ?_
  · intro name numbers found
    have seven : ∀ item ∈ twoStudents.items, item.2.length = 7 := by decide
    exact seven _ (items found)
  · intro row _ _ name named
    rcases names_classOfTwo named with ⟨_, rfl⟩ | ⟨_, rfl⟩ <;> decide
  · intro row name numbers row_listed
    rcases names_classOfTwo row_listed.named with ⟨rfl, rfl⟩ | ⟨rfl, rfl⟩
    · have taken : ∀ item ∈ twoStudents.items, item.1 = .str "A" → item.2[0]? ≠ some untaken := by decide
      exact .inl (taken _ (items row_listed.listed) rfl)
    · obtain rfl := Option.some.inj row_listed.listed
      refine .inr fun course code later entry isTaken => ?_
      -- Physics is the one course taken.
      match course, later with
      | 1, _ =>
        obtain rfl := Option.some.inj entry
        exact ⟨rfl, rfl⟩
      | course + 2, _ =>
        have others : ∀ other ∈ List.replicate 5 untaken, other = untaken :=
          fun other member => List.eq_of_mem_replicate member
        exact (isTaken (others code (List.mem_of_getElem? entry))).elim

/-- What the course loop assigns for one entry: the first course three times, the others once. -/
def entryCodes : CellValue × ℕ → List CellValue
  | (code, idx) => if code = untaken then [] else if idx = 0 then [code, code, code] else [code]

theorem tailWrites_codes (column : ℕ) (codes : List CellValue) {idx : ℕ} (later : 0 < idx) :
    (tailWrites column codes).map Prod.snd = (codes.zipIdx idx).flatMap entryCodes := by
  induction codes generalizing column idx with
  | nil => rfl
  | cons code rest ih =>
    rw [tailWrites, List.zipIdx_cons, List.flatMap_cons, entryCodes, ← ih (column + 1) (by omega)]
    split_ifs with skip first
    · rfl
    · omega
    · rfl

/-- The codes a row assigns are its taken entries, in order. -/
theorem rowWrites_codes (numbers : List CellValue) :
    (rowWrites numbers).map Prod.snd = numbers.zipIdx.flatMap entryCodes := by
  cases numbers with
  | nil => rfl
  | cons first rest =>
    rw [rowWrites, List.zipIdx_cons, List.flatMap_cons, entryCodes]
    by_cases skip : first = untaken
    · rw [if_pos skip, if_pos skip]
      exact tailWrites_codes _ rest Nat.one_pos
    · rw [if_neg skip, if_neg skip, if_pos rfl]
      simp only [List.map_cons, tailWrites_codes _ rest Nat.one_pos]
      rfl

/-- What the row loop does to a sheet, whatever courses each student takes. -/
structure NumbersOnly (examNumber : Students) (sheet final : Worksheet) : Prop where
  title : final.title = sheet.title
  frame : ∀ row column, final.cell row column ≠ sheet.cell row column →
    (3 ≤ row ∧ row ≤ 145) ∧ (19 ≤ column ∧ column ≤ 27) ∧ sheet.cell row 4 ≠ none
  names : ∀ row, final.cell row 4 = sheet.cell row 4
  unnamed : ∀ row, sheet.cell row 4 = none → final.cell row = sheet.cell row
  assigned : ∀ row name numbers, ListedRow examNumber sheet row name numbers → ∀ current,
    ∃ loop, writeNumbers row numbers current = .ok loop ∧
      (loop.assigned.map Prod.fst).Nodup ∧ (∀ write ∈ loop.assigned, write.1 < maxCol) ∧
      loop.assigned.map Prod.snd = numbers.zipIdx.flatMap entryCodes ∧
      ∀ write ∈ loop.assigned, final.cell row write.1 = some write.2
  present : ∀ row name numbers, ListedRow examNumber sheet row name numbers →
    ∀ course code, numbers[course]? = some code → code ≠ untaken →
      (course = 0 → ∀ column ∈ [19, 20, 21], final.cell row column = some code) ∧
      ∃ column, (19 ≤ column ∧ column ≤ 27) ∧ final.cell row column = some code

/-- A performed assignment survives the row. -/
theorem filled_of_mem {numbers : List CellValue} {write : ℕ × CellValue}
    (member : write ∈ rowWrites numbers) (cells : ℕ → Cell) :
    filled (rowWrites numbers) cells write.1 = some write.2 := by
  have distinct : (((rowWrites numbers).map (Prod.map id some)).map Prod.fst).Nodup := by
    rw [List.map_map]
    exact rowWrites_nodup numbers
  exact Writes.perform_of_mem distinct (List.mem_map.mpr ⟨write, member, rfl⟩) cells

/-- A column outside the row's writes keeps its content. -/
theorem filled_of_outside {numbers : List CellValue} (seven : numbers.length = 7) {column : ℕ}
    (outside : ¬ (19 ≤ column ∧ column ≤ 27)) (cells : ℕ → Cell) :
    filled (rowWrites numbers) cells column = cells column := by
  apply Writes.perform_of_not_mem
  rw [List.map_map]
  intro member
  obtain ⟨write, inside, rfl⟩ := List.mem_map.mp member
  have bounds := rowWrites_columns write inside
  unfold startCol at bounds
  exact outside ⟨bounds.1, by simp only [Function.comp_apply, Prod.map_fst, id_eq]; omega⟩

/-- The first course's three cells. -/
theorem first_mem_rowWrites {first : CellValue} (isTaken : first ≠ untaken) (rest : List CellValue) :
    ∀ column ∈ [19, 20, 21], (column, first) ∈ rowWrites (first :: rest) := by
  intro column member
  rw [rowWrites, if_neg isTaken]
  simp only [List.mem_cons, List.not_mem_nil, or_false] at member
  rcases member with rfl | rfl | rfl <;> simp [startCol]

/-- Every taken entry is assigned to some cell. -/
theorem exists_mem_rowWrites {numbers : List CellValue} {course : ℕ} {code : CellValue}
    (entry : numbers[course]? = some code) (isTaken : code ≠ untaken) :
    ∃ column, (column, code) ∈ rowWrites numbers := by
  have inCodes : code ∈ (rowWrites numbers).map Prod.snd := by
    rw [rowWrites_codes]
    refine List.mem_flatMap.mpr ⟨(code, course), List.mem_zipIdx_iff_getElem?.mpr entry, ?_⟩
    rw [entryCodes, if_neg isTaken]
    split_ifs <;> simp
  obtain ⟨⟨column, _⟩, member, rfl⟩ := List.mem_map.mp inCodes
  exact ⟨column, member⟩

theorem written_name (examNumber : Students) (sheet : Worksheet) (row : ℕ) :
    (written examNumber sheet).cell row 4 = sheet.cell row 4 := by
  by_cases visited : 3 ≤ row ∧ row ≤ 145
  · rw [cell_written visited, rewriteRow_name]
  · rw [cell_written_outside visited]

theorem written_numbersOnly {examNumber : Students} (seven : SevenEntries examNumber)
    (sheet : Worksheet) : NumbersOnly examNumber sheet (written examNumber sheet) where
  title := rfl
  frame row column changed := by
    by_cases listed : ∃ name numbers, ListedRow examNumber sheet row name numbers
    · obtain ⟨name, numbers, row_listed⟩ := listed
      refine ⟨row_listed.visited, ?_, by simp [row_listed.named]⟩
      by_contra outside
      rw [row_listed.cell_written] at changed
      exact changed (filled_of_outside (seven _ _ row_listed.listed) outside _)
    · rw [cell_written_of_not_listed fun name numbers found => listed ⟨name, numbers, found⟩] at changed
      exact (changed rfl).elim
  names := written_name examNumber sheet
  unnamed row blank := by
    apply cell_written_of_not_listed
    intro name numbers row_listed
    rw [row_listed.named] at blank
    contradiction
  assigned row name numbers row_listed current := by
    have length := seven _ _ row_listed.listed
    have short : numbers.length ≤ 9 := by omega
    obtain ⟨colOffset, run⟩ := writeNumbers_eq_ok row short current
    refine ⟨_, run, rowWrites_nodup numbers, ?_, rowWrites_codes numbers, ?_⟩
    · intro write member
      have bounds := rowWrites_columns write member
      unfold startCol at bounds
      unfold maxCol
      omega
    · intro write member
      rw [row_listed.cell_written]
      exact filled_of_mem member _
  present row name numbers row_listed course code entry isTaken := by
    have length := seven _ _ row_listed.listed
    rw [row_listed.cell_written]
    constructor
    · rintro rfl column member
      obtain ⟨first, rest, rfl⟩ := List.exists_cons_of_length_eq_add_one length
      obtain rfl := Option.some.inj entry
      exact filled_of_mem (first_mem_rowWrites isTaken rest column member) _
    · obtain ⟨column, member⟩ := exists_mem_rowWrites entry isTaken
      have bounds := rowWrites_columns (column, code) member
      unfold startCol at bounds
      exact ⟨column, ⟨bounds.1, by dsimp only at bounds; omega⟩, filled_of_mem member _⟩

theorem written_written (examNumber : Students) (sheet : Worksheet) :
    written examNumber (written examNumber sheet) = written examNumber sheet := by
  apply Worksheet.ext
  · rfl
  · funext row
    by_cases visited : 3 ≤ row ∧ row ≤ 145
    · rw [cell_written visited, cell_written visited, rewriteRow_rewriteRow]
    · rw [cell_written_outside visited]

/-- The row loop returns, loses no number, touches nothing else, and is idempotent. -/
theorem writeRows_numbersOnly (examNumber : Students) (sheet : Worksheet)
    (seven : SevenEntries examNumber) (listed : NamesListed examNumber sheet) :
    ∃ final, writeRows examNumber sheet = .ok final ∧ NumbersOnly examNumber sheet final ∧
      writeRows examNumber final = .ok final := by
  refine ⟨written examNumber sheet, writeRows_eq_ok seven listed, written_numbersOnly seven sheet, ?_⟩
  have again : NamesListed examNumber (written examNumber sheet) := by
    intro row lower upper name named
    rw [written_name] at named
    exact listed row lower upper name named
  rw [writeRows_eq_ok seven again, written_written]

theorem writeRows_numbersOnly_physics :
    let examNumber := studentA [untaken, .str "7", untaken, untaken, untaken, untaken, untaken]
    ∃ final, writeRows examNumber classOfA = .ok final ∧ NumbersOnly examNumber classOfA final ∧
      writeRows examNumber final = .ok final :=
  writeRows_numbersOnly _ classOfA (sevenEntries_studentA rfl) (namesListed_classOfA _)

/-! ## The cells after the loop -/

/-- A row after the loop, from the numbers of its student and the row before: without a number in the first
course, every later one stands two columns early. -/
def outputRow (number : ℕ → CellValue) (cells : ℕ → Cell) (column : ℕ) : Cell :=
  if number 0 = untaken then
    if 20 ≤ column ∧ column ≤ 25 ∧ number (column - 19) ≠ untaken then some (number (column - 19))
    else cells column
  else if 19 ≤ column ∧ column ≤ 21 then some (number 0)
  else if 22 ≤ column ∧ column ≤ 27 ∧ number (column - 21) ≠ untaken then some (number (column - 21))
  else cells column

/-- The taken courses of a list of seven numbers. -/
theorem taken_of_number {numbers : List CellValue} {number : ℕ → CellValue} (seven : numbers.length = 7)
    (entries : ∀ course < 7, numbers[course]? = some (number course)) (course : ℕ) :
    taken numbers course = if course < 7 ∧ number course ≠ untaken then some (number course) else none := by
  rw [taken]
  split
  · next isTaken =>
    rw [entries course isTaken.1, Option.filter_some, if_pos (decide_eq_true isTaken.2)]
  · next notTaken =>
    by_cases inside : course < 7
    · rw [entries course inside, Option.filter_some, if_neg]
      rw [decide_eq_true_iff]
      exact fun isTaken => notTaken ⟨inside, isTaken⟩
    · rw [List.getElem?_eq_none (by omega)]
      rfl

theorem filled_eq_outputRow {numbers : List CellValue} {number : ℕ → CellValue} (seven : numbers.length = 7)
    (entries : ∀ course < 7, numbers[course]? = some (number course)) (cells : ℕ → Cell) :
    filled (rowWrites numbers) cells = outputRow number cells := by
  funext column
  have taken := taken_of_number seven entries
  have first := entries 0 (by decide)
  obtain ⟨head, rest, rfl⟩ := List.exists_cons_of_length_eq_add_one seven
  obtain rfl : head = number 0 := Option.some.inj first
  rw [outputRow]
  split
  · next isUntaken =>
    rw [isUntaken] at taken ⊢
    rw [filled_of_untaken, taken]
    by_cases own : 20 ≤ column ∧ column ≤ 25 ∧ number (column - 19) ≠ untaken
    · rw [if_pos own, if_pos own.1, if_pos ⟨by omega, own.2.2⟩, Option.some_or]
    · rw [if_neg own]
      by_cases later : 20 ≤ column
      · rw [if_pos later, if_neg (fun course => own ⟨later, by omega, course.2⟩), Option.none_or]
      · rw [if_neg later, Option.none_or]
  · next isTaken =>
    rw [filled_of_taken isTaken, taken]
    by_cases firstCourse : 19 ≤ column ∧ column ≤ 21
    · rw [if_pos firstCourse, if_pos (by omega)]
    · rw [if_neg firstCourse, if_neg (by omega)]
      by_cases own : 22 ≤ column ∧ column ≤ 27 ∧ number (column - 21) ≠ untaken
      · rw [if_pos own, if_pos own.1, if_pos ⟨by omega, own.2.2⟩, Option.some_or]
      · rw [if_neg own]
        by_cases later : 22 ≤ column
        · rw [if_pos later, if_neg (fun course => own ⟨later, by omega, course.2⟩), Option.none_or]
        · rw [if_neg later, Option.none_or]

/-- The sheet once every named row has been processed: the numbers of the student stand where the course loop
leaves them, and every other row is as it was. -/
structure Processed (examNumber : Students) (sheet final : Worksheet) : Prop where
  title : final.title = sheet.title
  named : ∀ row name, 3 ≤ row → row ≤ 145 → sheet.cell row 4 = some name →
    ∃ numbers loop, examNumber.lookup name = some numbers ∧
      writeNumbers row numbers sheet = .ok loop ∧ final.cell row = loop.sheet.cell row ∧
      final.cell row = outputRow (fun course => numbers.getD course untaken) (sheet.cell row)
  others : ∀ row, (3 ≤ row → row ≤ 145 → sheet.cell row 4 = none) → final.cell row = sheet.cell row

theorem exists_listedRow {examNumber : Students} {sheet : Worksheet} (listed : NamesListed examNumber sheet)
    {row : ℕ} {name : CellValue} (lower : 3 ≤ row) (upper : row ≤ 145) (named : sheet.cell row 4 = some name) :
    ∃ numbers, ListedRow examNumber sheet row name numbers := by
  obtain ⟨numbers, found⟩ :=
    Option.isSome_iff_exists.mp (Dict.lookup_isSome.mpr (listed row lower upper name named))
  exact ⟨numbers, ⟨lower, upper⟩, named, found⟩

theorem cell_written_of_unnamed {examNumber : Students} {sheet : Worksheet} {row : ℕ}
    (blank : 3 ≤ row → row ≤ 145 → sheet.cell row 4 = none) :
    (written examNumber sheet).cell row = sheet.cell row := by
  apply cell_written_of_not_listed
  intro name numbers row_listed
  have named := row_listed.named
  rw [blank row_listed.visited.1 row_listed.visited.2] at named
  contradiction

theorem processed_written {examNumber : Students} (seven : SevenEntries examNumber) {sheet : Worksheet}
    (listed : NamesListed examNumber sheet) : Processed examNumber sheet (written examNumber sheet) where
  title := rfl
  named row name lower upper named := by
    obtain ⟨numbers, row_listed⟩ := exists_listedRow listed lower upper named
    have length := seven name numbers row_listed.listed
    have short : numbers.length ≤ 9 := by omega
    obtain ⟨colOffset, loop⟩ := writeNumbers_eq_ok row short sheet
    refine ⟨numbers, _, row_listed.listed, loop, ?_, ?_⟩
    · exact row_listed.cell_written.trans (cell_assignAll sheet row _).symm
    · rw [row_listed.cell_written]
      refine filled_eq_outputRow length (fun course bound => ?_) _
      rw [List.getD_eq_getElem?_getD, List.getElem?_eq_getElem (by omega), Option.getD_some]
  others _ blank := cell_written_of_unnamed blank

end INote.ExamNumbers
