import INote.Library.ByteMemory
import INote.SwiftNote.HexString

/-! # The dump loops of the playground

Five loops print bytes in groups of eight: two copies of `dumpMemory`, which loads its bytes through
a raw pointer, and three loops of the pointer page over a buffer. Their index tests differ at the
first byte only. What they print is the text of `hexString` with the default separator, up to the
letter case and one leading space.
-/

namespace INote.SwiftNote

open ByteMemory (Memory Holds)

/-- The digits of `%X`. -/
def upperDigit (value : ℕ) : Char := "0123456789ABCDEF".toList.getD value '0'

/-- `String(format: "%02X", byte)`. -/
def formatHexUpper (byte : UInt8) : String :=
  String.ofList [upperDigit (byte.toNat / 16), upperDigit (byte.toNat % 16)]

/-- The body of a dump loop: the format with a space in it is used where the test holds. -/
def printByte (test : ℕ → Bool) (format : UInt8 → String) (printed : String) (index : ℕ)
    (byte : UInt8) : String :=
  if test index then printed ++ (" " ++ format byte) else printed ++ format byte

/-- A dump loop over the bytes from an index on. -/
def printBytesFrom (test : ℕ → Bool) (format : UInt8 → String) : ℕ → List UInt8 → String → String
  | _, [], printed => printed
  | index, byte :: rest, printed =>
    printBytesFrom test format (index + 1) rest (printByte test format printed index byte)

/-- A dump loop over a buffer, and the newline after it. -/
def printBytes (test : ℕ → Bool) (format : UInt8 → String) (bytes : List UInt8) : String :=
  printBytesFrom test format 0 bytes "" ++ "\n"

/-- A dump loop over `0..<size`, and the newline after it. There is no result where the program
stops: at a range with a negative end, or at a load from memory that cannot be read. -/
def printMemory (test : ℕ → Bool) (format : UInt8 → String) (memory : Memory) (ptr : ℕ) (size : ℤ) :
    Option String := do
  guard (0 ≤ size)
  let printed ← (List.range size.toNat).foldlM (fun printed index => do
    let value ← memory (ptr + index)
    return printByte test format printed index value) ""
  return printed ++ "\n"

/-- `i % 8 == 0`. -/
def startsGroup (index : ℕ) : Bool := index % 8 == 0

/-- `index > 0, index % 8 == 0`. -/
def startsLaterGroup (index : ℕ) : Bool := decide (index > 0) && index % 8 == 0

/-- The function of the memory layout page. -/
def MemoryLayoutPage.dumpMemory (memory : Memory) (ptr : ℕ) (size : ℤ) : Option String :=
  printMemory startsGroup formatHexUpper memory ptr size

/-- Its copy in the contents of the pages. -/
def Contents.dumpMemory (memory : Memory) (ptr : ℕ) (size : ℤ) : Option String :=
  printMemory startsGroup formatHexUpper memory ptr size

/-- The loop over the raw buffer. -/
def UnsafePointerPage.printPtrBuffer (ptrBuffer : List UInt8) : String :=
  printBytes startsLaterGroup formatHex ptrBuffer

/-- The loop over the bytes of `puppy1`. -/
def UnsafePointerPage.printPuppy1 (bytes : List UInt8) : String :=
  printBytes startsLaterGroup formatHexUpper bytes

/-- The loop over the bytes of `puppy2`. -/
def UnsafePointerPage.printPuppy2 (bytes : List UInt8) : String :=
  printBytes startsLaterGroup formatHexUpper bytes

/-! ## The two cases -/

theorem upperDigit_eq {value : ℕ} (small : value < 16) :
    upperDigit value = (Nat.digitChar value).toUpper := by
  have digits : ∀ value < 16, upperDigit value = (Nat.digitChar value).toUpper := by decide
  exact digits value small

theorem toList_formatHexUpper (byte : UInt8) :
    (formatHexUpper byte).toList = (hexDigits byte).map Char.toUpper := by
  have bound := byte.toNat_lt
  rw [formatHexUpper, String.toList_ofList, upperDigit_eq (by omega), upperDigit_eq (by omega)]
  rfl

theorem toList_toUpper_hexString (bytes : List UInt8) :
    (hexString bytes none " ").toUpper.toList =
      Grouping.write 8 [' '] (fun byte => (formatHexUpper byte).toList) 0 bytes := by
  rw [String.toUpper, String.toList_map, toList_hexString_none, Grouping.map_write]
  simp only [toList_formatHexUpper]
  rfl

/-! ## The loops -/

/-- From an index on, the test is true at the positive multiples of eight. -/
def TestsFrom (test : ℕ → Bool) (index : ℕ) : Prop :=
  ∀ later, index ≤ later → (test later ↔ 0 < later ∧ later % 8 = 0)

theorem TestsFrom.next {test : ℕ → Bool} {index : ℕ} (tests : TestsFrom test index) :
    TestsFrom test (index + 1) :=
  fun later above => tests later (Nat.le_of_succ_le above)

theorem testsFrom_startsLaterGroup : TestsFrom startsLaterGroup 0 := by
  intro later _
  simp [startsLaterGroup]

/-- The tests differ at the first byte only. -/
theorem testsFrom_startsGroup : TestsFrom startsGroup 1 := by
  intro later above
  simp only [startsGroup, beq_iff_eq]
  omega

theorem toList_printByte {test : ℕ → Bool} {index : ℕ} (tests : TestsFrom test index)
    (format : UInt8 → String) (printed : String) (byte : UInt8) :
    (printByte test format printed index byte).toList =
      printed.toList ++ (Grouping.gap 8 [' '] index ++ (format byte).toList) := by
  have same := tests index le_rfl
  rw [printByte, Grouping.gap]
  split
  · next starts =>
    rw [if_pos (same.mp starts), String.toList_append, String.toList_append]
    rfl
  · next inside =>
    rw [if_neg (fun starts => inside (same.mpr starts)), String.toList_append, List.nil_append]

/-- A loop started at any index with any text. -/
theorem toList_printBytesFrom {test : ℕ → Bool} {index : ℕ} (tests : TestsFrom test index)
    (format : UInt8 → String) (bytes : List UInt8) (printed : String) :
    (printBytesFrom test format index bytes printed).toList =
      printed.toList ++ Grouping.write 8 [' '] (fun byte => (format byte).toList) index bytes := by
  induction bytes generalizing index printed with
  | nil => exact (List.append_nil _).symm
  | cons byte rest ih =>
    rw [printBytesFrom, ih tests.next, toList_printByte tests, Grouping.write]
    simp only [List.append_assoc]

/-- A loop whose test holds at the first byte already. -/
theorem toList_printBytesFrom_startsGroup (format : UInt8 → String) (bytes : List UInt8) :
    (printBytesFrom startsGroup format 0 bytes "").toList =
      (if bytes = [] then [] else [' ']) ++
        Grouping.write 8 [' '] (fun byte => (format byte).toList) 0 bytes := by
  cases bytes with
  | nil => rfl
  | cons byte rest =>
    have first : printByte startsGroup format "" 0 byte = "" ++ (" " ++ format byte) := rfl
    rw [printBytesFrom, toList_printBytesFrom testsFrom_startsGroup, first, if_neg (List.cons_ne_nil _ _),
      Grouping.write, String.toList_append, String.toList_append]
    rfl

/-- Loading byte by byte prints what the loop over the buffer prints. -/
theorem foldlM_load (test : ℕ → Bool) (format : UInt8 → String) {memory : Memory} {ptr : ℕ}
    {bytes : List UInt8} (index : ℕ) (loaded : Holds memory (ptr + index) bytes) (printed : String) :
    (List.range' index bytes.length).foldlM (fun printed index => do
        let value ← memory (ptr + index)
        return printByte test format printed index value) printed =
      some (printBytesFrom test format index bytes printed) := by
  induction bytes generalizing index printed with
  | nil => rfl
  | cons byte rest ih =>
    rw [List.length_cons, List.range'_succ, List.foldlM_cons, loaded.head]
    exact ih (index + 1) loaded.tail _

theorem printMemory_of_holds (test : ℕ → Bool) (format : UInt8 → String) {memory : Memory} {ptr : ℕ}
    {bytes : List UInt8} (loaded : Holds memory ptr bytes) :
    printMemory test format memory ptr bytes.length = some (printBytes test format bytes) := by
  have nonneg : (0 : ℤ) ≤ bytes.length := Int.natCast_nonneg _
  rw [printMemory, guard, if_pos nonneg, Int.toNat_natCast, List.range_eq_range', printBytes]
  change Option.bind (List.foldlM _ _ _) _ = _
  rw [foldlM_load test format 0 loaded ""]
  rfl

/-! ## The lines -/

/-- A loop that tests for a positive index prints the text of the groups. -/
theorem printBytes_startsLaterGroup {format : UInt8 → String} {text : String} {bytes : List UInt8}
    (written : text.toList = Grouping.write 8 [' '] (fun byte => (format byte).toList) 0 bytes) :
    printBytes startsLaterGroup format bytes = text ++ "\n" := by
  rw [printBytes, ← String.toList_inj, String.toList_append, String.toList_append,
    toList_printBytesFrom testsFrom_startsLaterGroup, written]
  rfl

/-- Without that test there is one space before it. -/
theorem printBytes_startsGroup {format : UInt8 → String} {text : String} {bytes : List UInt8}
    (written : text.toList = Grouping.write 8 [' '] (fun byte => (format byte).toList) 0 bytes) :
    printBytes startsGroup format bytes = (if bytes = [] then "" else " " ++ text) ++ "\n" := by
  rw [printBytes, ← String.toList_inj, String.toList_append, String.toList_append,
    toList_printBytesFrom_startsGroup, ← written]
  split
  · next empty => rw [written, empty]; rfl
  · rw [String.toList_append]; rfl

/-- Every loop prints the text of `hexString`, up to the letter case and one leading space. -/
theorem dumps_eq_hexString (memory : Memory) (ptr : ℕ) (bytes : List UInt8)
    (loaded : Holds memory ptr bytes) :
    MemoryLayoutPage.dumpMemory memory ptr bytes.length =
        some ((if bytes = [] then "" else " " ++ (hexString bytes none " ").toUpper) ++ "\n") ∧
      Contents.dumpMemory memory ptr bytes.length =
        some ((if bytes = [] then "" else " " ++ (hexString bytes none " ").toUpper) ++ "\n") ∧
      UnsafePointerPage.printPtrBuffer bytes = hexString bytes none " " ++ "\n" ∧
      UnsafePointerPage.printPuppy1 bytes = (hexString bytes none " ").toUpper ++ "\n" ∧
      UnsafePointerPage.printPuppy2 bytes = (hexString bytes none " ").toUpper ++ "\n" := by
  have upper := toList_toUpper_hexString bytes
  have lower : (hexString bytes none " ").toList =
      Grouping.write 8 [' '] (fun byte => (formatHex byte).toList) 0 bytes := by
    rw [toList_hexString_none]
    simp only [toList_formatHex]
    rfl
  have dumped := (printMemory_of_holds startsGroup formatHexUpper loaded).trans
    (congrArg some (printBytes_startsGroup upper))
  refine ⟨dumped, dumped, ?_, ?_, ?_⟩
  · exact printBytes_startsLaterGroup lower
  · exact printBytes_startsLaterGroup upper
  · exact printBytes_startsLaterGroup upper

/-- Nine bytes at address 16. -/
theorem dumps_eq_hexString_nine :
    let bytes : List UInt8 := [1, 2, 3, 4, 5, 6, 7, 8, 0xAB]
    let memory : Memory := fun address => if 16 ≤ address then bytes[address - 16]? else none
    MemoryLayoutPage.dumpMemory memory 16 9 = some " 0102030405060708 AB\n" ∧
      Contents.dumpMemory memory 16 9 = some " 0102030405060708 AB\n" ∧
      UnsafePointerPage.printPtrBuffer bytes = "0102030405060708 ab\n" ∧
      UnsafePointerPage.printPuppy1 bytes = "0102030405060708 AB\n" ∧
      UnsafePointerPage.printPuppy2 bytes = "0102030405060708 AB\n" := by
  intro bytes memory
  have loaded : Holds memory 16 bytes := by
    intro index byte found
    rw [← found]
    simp only [memory, if_pos (Nat.le_add_right 16 index), Nat.add_sub_cancel_left]
  have text : hexString bytes none " " = "0102030405060708 ab" := by decide
  have upper : (hexString bytes none " ").toUpper = "0102030405060708 AB" := by
    rw [← String.toList_inj, String.toUpper, String.toList_map, text]
    decide
  have dumped := dumps_eq_hexString memory 16 bytes loaded
  rw [upper, text] at dumped
  exact dumped

end INote.SwiftNote
