import INote.ExamNumbers.Read
import INote.Library.Writes

/-! # Writing exam numbers into the class list

`write_exam_number` visits rows 3..145 of the target sheet and copies the seven entries of each
named student into columns 19..27. The column is carried in a running offset. A first course that
is taken fills three columns and sets the offset to 3, and every other course advances it by one,
also when it is skipped. A skipped first course therefore advances the offset by one only, and
every later number of that row lands two columns to the left of its own.

The loop state keeps the assignments performed so far, in order, next to the sheet they changed.
-/

namespace INote.ExamNumbers

/-- `start_col`: column T. -/
def startCol : ℕ := 19

/-- The number of cells `iter_rows` hands out for a row. -/
def maxCol : ℕ := 30

def Worksheet.setCell (sheet : Worksheet) (row column : ℕ) (value : CellValue) : Worksheet :=
  { sheet with
    cell := Function.update sheet.cell row (Function.update (sheet.cell row) column (some value)) }

/-- The state of the course loop of one row. -/
structure RowLoop where
  sheet : Worksheet
  colOffset : ℕ
  assigned : List (ℕ × CellValue)

/-- `row[column].value = code`, where `row` is a tuple of `maxCol` cells. -/
def assign (row column : ℕ) (code : CellValue) (loop : RowLoop) : Except PyError RowLoop :=
  if column < maxCol then
    .ok { loop with
      sheet := loop.sheet.setCell row column code
      assigned := loop.assigned ++ [(column, code)] }
  else .error (.indexError column)

/-- The body of the course loop, for the entry `code` at index `idx`. -/
def courseStep (row : ℕ) (loop : RowLoop) : CellValue × ℕ → Except PyError RowLoop
  | (code, idx) =>
    if code = untaken then .ok { loop with colOffset := loop.colOffset + 1 }
    else if idx = 0 then do
      let loop ← assign row startCol code loop
      let loop ← assign row (startCol + 1) code loop
      let loop ← assign row (startCol + 2) code loop
      .ok { loop with colOffset := 3 }
    else do
      let loop ← assign row (startCol + loop.colOffset) code loop
      .ok { loop with colOffset := loop.colOffset + 1 }

def writeNumbers (row : ℕ) (numbers : List CellValue) (sheet : Worksheet) : Except PyError RowLoop :=
  numbers.zipIdx.foldlM (courseStep row) ⟨sheet, 0, []⟩

/-- The body of the row loop; the student's name is in column 4. -/
def writeRow (examNumber : Students) (sheet : Worksheet) (row : ℕ) : Except PyError Worksheet :=
  match sheet.cell row 4 with
  | none => .ok sheet
  | some name =>
    match examNumber.lookup name with
    | none => .error (.keyError name row)
    | some numbers => do
      let loop ← writeNumbers row numbers sheet
      .ok loop.sheet

def writeRows (examNumber : Students) (sheet : Worksheet) : Except PyError Worksheet :=
  (iterRows 3 145).foldlM (writeRow examNumber) sheet

/-- The entry of a course, when the course is taken. -/
def taken (numbers : List CellValue) (course : ℕ) : Option CellValue :=
  numbers[course]?.filter (· ≠ untaken)

/-- The writes of the courses after the first, the next one due in `column`. -/
def tailWrites : ℕ → List CellValue → List (ℕ × CellValue)
  | _, [] => []
  | column, code :: rest =>
    if code = untaken then tailWrites (column + 1) rest
    else (column, code) :: tailWrites (column + 1) rest

/-- The assignments a row performs, in order. -/
def rowWrites : List CellValue → List (ℕ × CellValue)
  | [] => []
  | first :: rest =>
    if first = untaken then tailWrites (startCol + 1) rest
    else (startCol, first) :: (startCol + 1, first) :: (startCol + 2, first) ::
      tailWrites (startCol + 3) rest

/-- Perform a row's assignments on the sheet. -/
def Worksheet.assignAll (sheet : Worksheet) (row : ℕ) (writes : List (ℕ × CellValue)) : Worksheet :=
  writes.foldl (fun sheet write => sheet.setCell row write.1 write.2) sheet

/-- The row's cells after the assignments. -/
def filled (writes : List (ℕ × CellValue)) (cells : ℕ → Cell) : ℕ → Cell :=
  Writes.perform (writes.map (Prod.map id some)) cells

theorem assignAll_eq (sheet : Worksheet) (row : ℕ) (writes : List (ℕ × CellValue)) :
    sheet.assignAll row writes =
      { sheet with cell := Function.update sheet.cell row (filled writes (sheet.cell row)) } := by
  induction writes generalizing sheet with
  | nil => simp [Worksheet.assignAll, filled]
  | cons write rest ih =>
    change (sheet.setCell row write.1 write.2).assignAll row rest = _
    rw [ih]
    simp [Worksheet.setCell, filled]

theorem cell_assignAll (sheet : Worksheet) (row : ℕ) (writes : List (ℕ × CellValue)) :
    (sheet.assignAll row writes).cell row = filled writes (sheet.cell row) := by
  rw [assignAll_eq]
  exact Function.update_self ..

theorem assign_eq_ok {row column : ℕ} (inside : column < maxCol) (code : CellValue) (loop : RowLoop) :
    assign row column code loop =
      .ok ⟨loop.sheet.assignAll row [(column, code)], loop.colOffset,
        loop.assigned ++ [(column, code)]⟩ :=
  if_pos inside

/-- After the first course the offset advances by one a course, taken or not. -/
theorem foldlM_courseStep_tail (row : ℕ) (codes : List CellValue) {idx : ℕ} (later : 0 < idx)
    (loop : RowLoop) (room : startCol + loop.colOffset + codes.length ≤ maxCol) :
    (codes.zipIdx idx).foldlM (courseStep row) loop =
      .ok ⟨loop.sheet.assignAll row (tailWrites (startCol + loop.colOffset) codes),
        loop.colOffset + codes.length,
        loop.assigned ++ tailWrites (startCol + loop.colOffset) codes⟩ := by
  induction codes generalizing idx loop with
  | nil => simp [tailWrites, Worksheet.assignAll]; rfl
  | cons code rest ih =>
    rw [List.length_cons] at room
    rw [List.zipIdx_cons, List.foldlM_cons, courseStep]
    by_cases skip : code = untaken
    · rw [if_pos skip]
      change (rest.zipIdx (idx + 1)).foldlM (courseStep row) _ = _
      rw [ih (by omega) _ (by dsimp only; omega), tailWrites, if_pos skip]
      simp only [List.length_cons, Nat.add_assoc, Nat.add_comm 1 rest.length]
    · rw [if_neg skip, if_neg (by omega), assign_eq_ok (by omega)]
      change (rest.zipIdx (idx + 1)).foldlM (courseStep row) _ = _
      rw [ih (by omega) _ (by dsimp only; omega), tailWrites, if_neg skip]
      simp only [List.length_cons, Nat.add_assoc, Nat.add_comm 1 rest.length, List.append_assoc,
        List.singleton_append]
      rfl

/-- The course loop stays inside the row and performs exactly the row's writes. -/
theorem writeNumbers_eq_ok (row : ℕ) {numbers : List CellValue} (short : numbers.length ≤ 9)
    (sheet : Worksheet) :
    ∃ colOffset, writeNumbers row numbers sheet =
      .ok ⟨sheet.assignAll row (rowWrites numbers), colOffset, rowWrites numbers⟩ := by
  cases numbers with
  | nil => exact ⟨0, rfl⟩
  | cons first rest =>
    rw [List.length_cons] at short
    unfold writeNumbers
    rw [List.zipIdx_cons, List.foldlM_cons, courseStep, rowWrites]
    have room : startCol + 3 + rest.length ≤ maxCol := by unfold startCol maxCol; omega
    by_cases skip : first = untaken
    · rw [if_pos skip, if_pos skip]
      refine ⟨1 + rest.length, ?_⟩
      exact foldlM_courseStep_tail row rest Nat.one_pos ⟨sheet, 1, []⟩ (by dsimp only; omega)
    · rw [if_neg skip, if_pos rfl, if_neg skip]
      refine ⟨3 + rest.length, ?_⟩
      have inside : startCol < maxCol ∧ startCol + 1 < maxCol ∧ startCol + 2 < maxCol := by decide
      simp only [assign_eq_ok inside.1, assign_eq_ok inside.2.1, assign_eq_ok inside.2.2, bind,
        Except.bind]
      exact foldlM_courseStep_tail row rest Nat.one_pos ⟨_, 3, _⟩ room

theorem tailWrites_columns {column : ℕ} {codes : List CellValue} :
    ∀ write ∈ tailWrites column codes, column ≤ write.1 ∧ write.1 < column + codes.length := by
  induction codes generalizing column with
  | nil => simp [tailWrites]
  | cons code rest ih =>
    intro write member
    rw [tailWrites] at member
    rw [List.length_cons]
    split_ifs at member
    · have := ih write member
      omega
    · rcases List.mem_cons.mp member with rfl | later
      · dsimp only
        omega
      · have := ih write later
        omega

theorem tailWrites_nodup (column : ℕ) (codes : List CellValue) :
    ((tailWrites column codes).map Prod.fst).Nodup := by
  induction codes generalizing column with
  | nil => exact List.nodup_nil
  | cons code rest ih =>
    rw [tailWrites]
    split_ifs
    · exact ih _
    · rw [List.map_cons, List.nodup_cons]
      refine ⟨fun again => ?_, ih _⟩
      obtain ⟨write, member, same⟩ := List.mem_map.mp again
      have := tailWrites_columns write member
      omega

/-- The columns a row assigns are those of the subjects, and each is assigned once. -/
theorem rowWrites_columns {numbers : List CellValue} :
    ∀ write ∈ rowWrites numbers, startCol ≤ write.1 ∧ write.1 < startCol + 2 + numbers.length := by
  intro write member
  cases numbers with
  | nil => simp [rowWrites] at member
  | cons first rest =>
    rw [rowWrites] at member
    rw [List.length_cons]
    split_ifs at member
    · have := tailWrites_columns write member
      omega
    · simp only [List.mem_cons] at member
      rcases member with rfl | rfl | rfl | later
      · dsimp only
        omega
      · dsimp only
        omega
      · dsimp only
        omega
      · have := tailWrites_columns write later
        omega

theorem rowWrites_nodup (numbers : List CellValue) : ((rowWrites numbers).map Prod.fst).Nodup := by
  cases numbers with
  | nil => exact List.nodup_nil
  | cons first rest =>
    rw [rowWrites]
    split_ifs
    · exact tailWrites_nodup _ _
    · have above : ∀ column ∈ (tailWrites (startCol + 3) rest).map Prod.fst, startCol + 3 ≤ column := by
        intro column member
        obtain ⟨write, inside, rfl⟩ := List.mem_map.mp member
        exact (tailWrites_columns write inside).1
      simp only [List.map_cons, List.nodup_cons, List.mem_cons, not_or]
      refine ⟨⟨by omega, by omega, fun again => ?_⟩, ⟨by omega, fun again => ?_⟩, fun again => ?_,
        tailWrites_nodup _ _⟩
      all_goals
        have := above _ again
        omega

/-- A column at or after the due one shows the taken course due there, or its old content. -/
theorem filled_tailWrites (column : ℕ) (codes : List CellValue) (cells : ℕ → Cell) (other : ℕ) :
    filled (tailWrites column codes) cells other =
      (if column ≤ other then taken codes (other - column) else none).or (cells other) := by
  induction codes generalizing column cells with
  | nil => simp [tailWrites, filled, taken]
  | cons code rest ih =>
    have shift : column + 1 ≤ other → other - column = other - (column + 1) + 1 := by omega
    rw [tailWrites]
    by_cases skip : code = untaken
    · rw [if_pos skip, ih]
      rcases lt_trichotomy other column with before | rfl | after
      · rw [if_neg (by omega), if_neg (by omega)]
      · rw [if_neg (by omega), if_pos le_rfl]
        simp [taken, skip, Option.filter]
      · rw [if_pos (by omega), if_pos (by omega), shift (by omega)]
        rfl
    · rw [if_neg skip]
      change filled (tailWrites (column + 1) rest) (Function.update cells column (some code)) other = _
      rw [ih]
      rcases lt_trichotomy other column with before | rfl | after
      · rw [if_neg (by omega), if_neg (by omega), Function.update_of_ne (by omega)]
      · rw [if_neg (by omega), if_pos le_rfl]
        simp [taken, skip, Option.filter]
      · rw [if_pos (by omega), if_pos (by omega), shift (by omega), Function.update_of_ne (by omega)]
        rfl

/-- The row after its writes, column by column, when the first course is taken. -/
theorem filled_of_taken {first : CellValue} (isTaken : first ≠ untaken) (rest : List CellValue)
    (cells : ℕ → Cell) (column : ℕ) :
    filled (rowWrites (first :: rest)) cells column =
      if column = 19 ∨ column = 20 ∨ column = 21 then some first
      else (if 22 ≤ column then taken (first :: rest) (column - 21) else none).or (cells column) := by
  rw [rowWrites, if_neg isTaken]
  change filled (tailWrites 22 rest) (Function.update (Function.update (Function.update cells 19
    (some first)) 20 (some first)) 21 (some first)) column = _
  rw [filled_tailWrites]
  split_ifs with later own
  · omega
  · have shift : column - 21 = column - 22 + 1 := by omega
    rw [shift, Function.update_of_ne (by omega), Function.update_of_ne (by omega),
      Function.update_of_ne (by omega)]
    rfl
  · rcases ‹column = 19 ∨ column = 20 ∨ column = 21› with rfl | rfl | rfl <;> rfl
  · rw [Function.update_of_ne (by omega), Function.update_of_ne (by omega),
      Function.update_of_ne (by omega)]

/-- The row after its writes when the first course is not taken: every later course lands in
column `19 + course`. -/
theorem filled_of_untaken (rest : List CellValue) (cells : ℕ → Cell) (column : ℕ) :
    filled (rowWrites (untaken :: rest)) cells column =
      (if 20 ≤ column then taken (untaken :: rest) (column - 19) else none).or (cells column) := by
  rw [rowWrites, if_pos rfl, filled_tailWrites]
  change (if 20 ≤ column then _ else none).or _ = _
  split_ifs with later
  · have shift : column - 19 = column - 20 + 1 := by omega
    rw [shift]
    rfl
  · rfl

/-- The exception one visited row raises, if any. -/
def writeFault (examNumber : Students) (sheet : Worksheet) (row : ℕ) : Option PyError :=
  match sheet.cell row 4 with
  | none => none
  | some name => if (examNumber.lookup name).isSome then none else some (.keyError name row)

/-- What a visited row does to its own cells when it raises nothing. -/
def rewriteRow (examNumber : Students) (cells : ℕ → Cell) : ℕ → Cell :=
  match (cells 4).bind fun name => examNumber.lookup name with
  | none => cells
  | some numbers => filled (rowWrites numbers) cells

/-- The name column lies outside the written range. -/
theorem filled_name (numbers : List CellValue) (cells : ℕ → Cell) :
    filled (rowWrites numbers) cells 4 = cells 4 := by
  apply Writes.perform_of_not_mem
  intro member
  rw [List.map_map] at member
  obtain ⟨write, inside, same⟩ := List.mem_map.mp member
  have bounds := (rowWrites_columns write inside).1
  simp only [Function.comp_apply, Prod.map_fst, id_eq] at same
  unfold startCol at bounds
  omega

theorem rewriteRow_name (examNumber : Students) (cells : ℕ → Cell) :
    rewriteRow examNumber cells 4 = cells 4 := by
  cases found : (cells 4).bind fun name => examNumber.lookup name with
  | none => simp only [rewriteRow, found]
  | some numbers =>
    simp only [rewriteRow, found]
    exact filled_name numbers cells

theorem rewriteRow_rewriteRow (examNumber : Students) (cells : ℕ → Cell) :
    rewriteRow examNumber (rewriteRow examNumber cells) = rewriteRow examNumber cells := by
  rw [rewriteRow, rewriteRow_name]
  cases found : (cells 4).bind fun name => examNumber.lookup name with
  | none => rfl
  | some numbers =>
    simp only [rewriteRow, found]
    exact Writes.perform_perform _ _

def rewriteSheet (examNumber : Students) (sheet : Worksheet) (row : ℕ) : Worksheet :=
  { sheet with cell := Function.update sheet.cell row (rewriteRow examNumber (sheet.cell row)) }

/-- A visited row faults on its name or rewrites its own cells. -/
theorem writeRow_eq_guarded {examNumber : Students} (seven : SevenEntries examNumber)
    (sheet : Worksheet) (row : ℕ) :
    writeRow examNumber sheet row =
      List.guarded (writeFault examNumber sheet row) (rewriteSheet examNumber sheet row) := by
  unfold writeRow writeFault rewriteSheet rewriteRow
  cases named : sheet.cell row 4 with
  | none => simp
  | some name =>
    cases found : examNumber.lookup name with
    | none => simp [found]
    | some numbers =>
      have short : numbers.length ≤ 9 := by rw [seven name numbers found]; decide
      obtain ⟨colOffset, run⟩ := writeNumbers_eq_ok row short sheet
      simp only [run, Option.isSome_some, ↓reduceIte, List.guarded_none, Option.bind_some, found]
      simp only [bind, Except.bind, assignAll_eq]

private theorem foldl_rewriteSheet (examNumber : Students) (rows : List ℕ) (sheet : Worksheet) :
    rows.foldl (rewriteSheet examNumber) sheet =
      { sheet with cell := Writes.sweep (fun _ => rewriteRow examNumber) rows sheet.cell } := by
  induction rows generalizing sheet with
  | nil => rfl
  | cons row rest ih =>
    rw [List.foldl_cons, ih]
    rfl

/-- The row loop over any rows: the first missing name, or every visited row rewritten. -/
theorem foldlM_writeRow_eq_guarded {examNumber : Students} (seven : SevenEntries examNumber)
    (rows : List ℕ) (sheet : Worksheet) :
    rows.foldlM (writeRow examNumber) sheet =
      List.guarded (rows.findSome? (writeFault examNumber sheet))
        { sheet with cell := Writes.sweep (fun _ => rewriteRow examNumber) rows sheet.cell } := by
  rw [List.foldlM_guarded (writeFault examNumber sheet) (rewriteSheet examNumber)
    (fun current => ∀ row, current.cell row 4 = sheet.cell row 4), foldl_rewriteSheet]
  · intro current row _ names
    rw [writeRow_eq_guarded seven, writeFault, writeFault, names]
  · intro current row _ names _ other
    dsimp only [rewriteSheet]
    by_cases same : other = row
    · subst same
      rw [Function.update_self, rewriteRow_name, names]
    · rw [Function.update_of_ne same, names]
  · exact fun _ => rfl

end INote.ExamNumbers
