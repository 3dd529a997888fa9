import INote.Library.ByteMemory
import INote.Library.LittleEndian
import INote.SwiftNote.DumpLines

/-! # Raw and typed pointers

The pointer page stores integers through a raw pointer, through a typed one, and through a typed view of
a raw one, and reads them back. All three leave the same bytes, whatever was in the memory before, and the
dump of the raw buffer shows one group for each integer.
-/

namespace INote.SwiftNote

open ByteMemory

/-- `bytes(of:)` of an `Int`. -/
def bytesOf (value : Int64) : List UInt8 := LittleEndian.encode 8 value.toUInt64.toNat

def intOf (bytes : List UInt8) : Int64 := (UInt64.ofNat (LittleEndian.decode bytes)).toInt64

/-- `MemoryLayout<Int>.stride`. -/
def stride : ℕ := 8

/-- `MemoryLayout<Int>.alignment`. -/
def alignment : ℕ := 8

/-- Store integers at one stride after another. -/
def storeInts : ℕ → List Int64 → Memory → Memory
  | _, [], memory => memory
  | ptr, value :: rest, memory => storeInts (ptr + stride) rest (storeBytes memory ptr (bytesOf value))

/-- `load(as: Int.self)`, which stops the program at a misaligned pointer. -/
def loadInt (memory : Memory) (ptr : ℕ) : Option Int64 := do
  guard (ptr % alignment = 0)
  let bytes ← loadBytes memory ptr 8
  return intOf bytes

def loadInts (memory : Memory) : ℕ → ℕ → Option (List Int64)
  | _, 0 => some []
  | ptr, count + 1 => do
    let value ← loadInt memory ptr
    let rest ← loadInts memory (ptr + stride) count
    return value :: rest

/-- The raw pointer, for any integers: the memory, what is loaded, and what is printed. -/
def rawPointer (ptr : ℕ) (values : List Int64) (memory : Memory) : Option (Memory × List Int64 × String) := do
  let memory := storeInts ptr values memory
  let loaded ← loadInts memory ptr values.length
  let ptrBuffer ← loadBytes memory ptr (stride * values.length)
  return (memory, loaded, UnsafePointerPage.printPtrBuffer ptrBuffer)

/-- The loop over a typed buffer, from an index on. -/
def printIntsFrom (count : ℕ) : ℕ → List Int64 → String → String
  | _, [], printed => printed
  | index, value :: rest, printed =>
    let printed := printed ++ (toString value.toInt ++ " ")
    printIntsFrom count (index + 1) rest (if (index : ℤ) = count - 1 then printed ++ "\n" else printed)

/-- The typed pointer, for any integers. The memory that is bound to integers behaves the same. -/
def typedPointer (ptr : ℕ) (values : List Int64) (memory : Memory) : Option (Memory × List Int64 × String) := do
  let count := values.length
  let memory := storeInts ptr (List.replicate count 0) memory
  let memory := storeInts ptr values memory
  let loaded ← loadInts memory ptr count
  return (memory, loaded, printIntsFrom count 0 loaded "")

/-! ## Integers -/

theorem length_bytesOf (value : Int64) : (bytesOf value).length = 8 := LittleEndian.length_encode ..

theorem intOf_bytesOf (value : Int64) : intOf (bytesOf value) = value := by
  have fits : value.toUInt64.toNat < 256 ^ 8 := value.toUInt64.toNat_lt
  rw [intOf, bytesOf, LittleEndian.decode_encode fits, UInt64.ofNat_toNat, Int64.toInt64_toUInt64]

theorem length_flatMap_bytesOf (values : List Int64) :
    (values.flatMap bytesOf).length = stride * values.length := by
  induction values with
  | nil => rfl
  | cons value rest ih =>
    rw [List.flatMap_cons, List.length_append, ih, length_bytesOf, List.length_cons, stride]
    omega

/-- The integers are stored as one sequence of bytes. -/
theorem storeInts_eq (ptr : ℕ) (values : List Int64) (memory : Memory) :
    storeInts ptr values memory = storeBytes memory ptr (values.flatMap bytesOf) := by
  induction values generalizing ptr memory with
  | nil =>
    funext address
    exact (storeBytes_of_outside (by rw [List.flatMap_nil, List.length_nil]; omega)).symm
  | cons value rest ih =>
    rw [storeInts, ih, List.flatMap_cons, ← storeBytes_append, length_bytesOf, stride]

theorem loadInts_of_holds {memory : Memory} {ptr : ℕ} {values : List Int64} (aligned : ptr % alignment = 0)
    (stored : Holds memory ptr (values.flatMap bytesOf)) : loadInts memory ptr values.length = some values := by
  induction values generalizing ptr with
  | nil => rfl
  | cons value rest ih =>
    obtain ⟨first, later⟩ := stored.of_append
    rw [length_bytesOf] at later
    have further : (ptr + stride) % alignment = 0 := (Nat.add_mod_right ptr 8).trans aligned
    have next : loadInts memory (ptr + stride) rest.length = some rest := ih further later
    have here := loadBytes_of_holds first
    rw [length_bytesOf] at here
    rw [List.length_cons, loadInts, next, loadInt, guard, if_pos aligned, here]
    change some (intOf (bytesOf value) :: rest) = _
    rw [intOf_bytesOf]

/-- The raw dump has one group for each integer. -/
theorem printPtrBuffer_flatMap (values : List Int64) :
    UnsafePointerPage.printPtrBuffer (values.flatMap bytesOf) =
      " ".intercalate (values.map fun value => hexString (bytesOf value) none " ") ++ "\n" := by
  have space : " ".toList = [' '] := rfl
  apply printBytes_startsLaterGroup
  have full : ∀ group ∈ values.map bytesOf, group.length = 8 := by
    intro group member
    obtain ⟨value, _, rfl⟩ := List.mem_map.mp member
    exact length_bytesOf value
  have group (value : Int64) : (hexString (bytesOf value) none " ").toList =
      Grouping.write 8 [' '] (fun byte => (formatHex byte).toList) 0 (bytesOf value) := by
    rw [toList_hexString_none, space]
    simp only [toList_formatHex]
  rw [String.toList_intercalate, List.map_map, List.flatMap_def, Grouping.write_flatten (by decide) full,
    List.map_map, space]
  exact congrArg _ (List.map_congr_left fun value _ => group value)

theorem printIntsFrom_eq (count index : ℕ) (values : List Int64) (printed : String)
    (ends : index + values.length = count) :
    printIntsFrom count index values printed =
      printed ++ String.join (values.map fun value => toString value.toInt ++ " ") ++
      (if values = [] then "" else "\n") := by
  induction values generalizing index printed with
  | nil =>
    rw [printIntsFrom, List.map_nil, if_pos rfl, String.append_empty]
    exact String.append_empty.symm
  | cons value rest ih =>
    rw [List.length_cons] at ends
    rw [printIntsFrom, ih (index + 1) _ (by omega), List.map_cons, if_neg (List.cons_ne_nil _ _), String.join_cons]
    cases rest with
    | nil =>
      rw [List.length_nil] at ends
      have join : String.join (([] : List Int64).map fun value => toString value.toInt ++ " ") = "" := rfl
      rw [if_pos (by omega), join, if_pos rfl, String.append_empty, String.append_empty, String.append_empty]
    | cons other others =>
      rw [List.length_cons] at ends
      rw [if_neg (by omega), if_neg (List.cons_ne_nil _ _)]
      simp only [String.append_assoc]

/-- What the loop over a typed buffer prints. -/
def typedText (values : List Int64) : String :=
  String.join (values.map fun value => toString value.toInt ++ " ") ++ (if values = [] then "" else "\n")

/-- Both kinds of pointers leave the same memory, load what was stored and print it, whatever the
memory was before. -/
theorem pointers_spec (ptr : ℕ) (aligned : ptr % alignment = 0) (values : List Int64) (memory : Memory) :
    ∃ after, Holds after ptr (values.flatMap bytesOf) ∧
      (∀ address, address < ptr ∨ ptr + stride * values.length ≤ address → after address = memory address) ∧
      rawPointer ptr values memory = some (after, values,
        " ".intercalate (values.map fun value => hexString (bytesOf value) none " ") ++ "\n") ∧
      typedPointer ptr values memory = some (after, values, typedText values) := by
  have stored := holds_storeBytes memory ptr (values.flatMap bytesOf)
  have loaded := loadInts_of_holds aligned stored
  have buffer := loadBytes_of_holds stored
  have zeros : ((List.replicate values.length (0 : Int64)).flatMap bytesOf).length =
      (values.flatMap bytesOf).length := by
    rw [length_flatMap_bytesOf, length_flatMap_bytesOf, List.length_replicate]
  have typed : storeInts ptr values (storeInts ptr (List.replicate values.length 0) memory) =
      storeBytes memory ptr (values.flatMap bytesOf) := by
    rw [storeInts_eq, storeInts_eq, storeBytes_storeBytes _ _ zeros]
  rw [length_flatMap_bytesOf] at buffer
  refine ⟨_, stored, fun address outside => ?_, ?_, ?_⟩
  · rw [storeBytes_of_outside (length_flatMap_bytesOf values ▸ outside)]
  · rw [rawPointer]
    simp only [storeInts_eq, loaded, buffer, Option.bind_eq_bind, Option.bind_some, printPtrBuffer_flatMap]
    rfl
  · have printed := printIntsFrom_eq values.length 0 values "" (Nat.zero_add _)
    rw [String.empty_append] at printed
    rw [typedPointer]
    simp only [typed, loaded, Option.bind_eq_bind, Option.bind_some, printed]
    rfl

/-- The two integers of the page. -/
theorem pointers_spec_page :
    ∃ after, rawPointer 4096 [42, 6] (fun _ => none) =
        some (after, [42, 6], "2a00000000000000 0600000000000000\n") ∧
      typedPointer 4096 [42, 6] (fun _ => none) = some (after, [42, 6], "42 6 \n") := by
  obtain ⟨after, _, _, raw, typed⟩ := pointers_spec 4096 (by decide) [42, 6] fun _ => none
  have groups :
      " ".intercalate (([42, 6] : List Int64).map fun value => hexString (bytesOf value) none " ") ++ "\n" =
      "2a00000000000000 0600000000000000\n" := by decide
  have integers : typedText [42, 6] = "42 6 \n" := by decide
  rw [groups] at raw
  rw [integers] at typed
  exact ⟨after, raw, typed⟩

end INote.SwiftNote
