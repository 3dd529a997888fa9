import INote.SwiftNote.DumpMemory

/-! # What a dump tells

A dump with a limit tells the bytes it shows and whether there are more, whatever the separator is.
The other dump loops of the playground have no limit, and each of their lines tells the bytes. The loops
over memory stop exactly at a negative size or a byte that cannot be loaded.
-/

namespace INote.SwiftNote

open ByteMemory (Memory Holds)

/-! ## Dumps with a limit -/

theorem hexDigits_injective : Function.Injective hexDigits := by
  intro left right same
  have byte := congrArg byteOfDigits same
  rw [byteOfDigits_hexDigits, byteOfDigits_hexDigits] at byte
  exact Option.some.inj byte

/-- There are bytes that are not shown. -/
def Cut (bytes : List UInt8) (limit : Option ℤ) : Prop := (dumped bytes limit).length < bytes.length

theorem dots_of_cut {bytes : List UInt8} {limit : Option ℤ} (cut : Cut bytes limit) :
    dots bytes limit = "..." := by
  cases limit with
  | none => exact absurd cut (Nat.lt_irrefl _)
  | some limit => exact if_pos ⟨rfl, cut⟩

theorem dots_of_not_cut {bytes : List UInt8} {limit : Option ℤ} (whole : ¬ Cut bytes limit) :
    dots bytes limit = "" := if_neg fun more => whole more.2

/-- Where bytes are cut off, no dump shows more. -/
theorem Cut.length_le {left right : List UInt8} {limit : Option ℤ} (cut : Cut left limit) :
    (dumped right limit).length ≤ (dumped left limit).length := by
  cases limit with
  | none => exact absurd cut (Nat.lt_irrefl _)
  | some limit =>
    simp only [Cut, dumped, List.length_take] at cut ⊢
    omega

theorem length_hexDigits (byte : UInt8) : (hexDigits byte).length = 2 := rfl

/-- A dump that is cut off is no whole dump. -/
theorem Cut.hexString_ne {left right : List UInt8} {limit : Option ℤ} (cut : Cut left limit)
    (whole : ¬ Cut right limit) (separator : String) :
    hexString left limit separator ≠ hexString right limit separator := by
  intro same
  have lengths := congrArg (fun text => text.toList.length) same
  simp only [toList_hexString, dots_of_cut cut, dots_of_not_cut whole, List.length_append] at lengths
  have fewer : (Grouping.write 8 separator.toList hexDigits 0 (dumped right limit)).length ≤
      (Grouping.write 8 separator.toList hexDigits 0 (dumped left limit)).length :=
    Grouping.length_write_le length_hexDigits 0 cut.length_le
  have three : ("...".toList).length = 3 := rfl
  have none : ("".toList).length = 0 := rfl
  omega

/-- Two sequences have one dump exactly when the same bytes are shown and both or neither go on. -/
theorem hexString_eq_iff (limit : Option ℤ) (separator : String) (left right : List UInt8) :
    hexString left limit separator = hexString right limit separator ↔
      dumped left limit = dumped right limit ∧ (Cut left limit ↔ Cut right limit) := by
  have shown (same : (hexString left limit separator).toList = (hexString right limit separator).toList)
      (ends : dots left limit = dots right limit) : dumped left limit = dumped right limit := by
    rw [toList_hexString, toList_hexString, ends] at same
    exact Grouping.write_injective (by decide : 0 < 2) length_hexDigits hexDigits_injective 0
      (List.append_cancel_right same)
  constructor
  · intro same
    by_cases cut : Cut left limit
    · by_cases other : Cut right limit
      · exact ⟨shown (congrArg _ same) ((dots_of_cut cut).trans (dots_of_cut other).symm),
          iff_of_true cut other⟩
      · exact absurd same (cut.hexString_ne other separator)
    · by_cases other : Cut right limit
      · exact absurd same.symm (other.hexString_ne cut separator)
      · exact ⟨shown (congrArg _ same) ((dots_of_not_cut cut).trans (dots_of_not_cut other).symm),
          iff_of_false cut other⟩
  · rintro ⟨same, more⟩
    have ends : dots left limit = dots right limit := by
      by_cases cut : Cut left limit
      · rw [dots_of_cut cut, dots_of_cut (more.mp cut)]
      · rw [dots_of_not_cut cut, dots_of_not_cut (fun other => cut (more.mpr other))]
    rw [← String.toList_inj, toList_hexString, toList_hexString, same, ends]

/-! ## The other loops of the pointer page -/

/-- The loop over the bytes of `i`: no byte starts a group. -/
def UnsafePointerPage.printInt (bytes : List UInt8) : String :=
  printBytes (fun _ => false) formatHexUpper bytes

/-- `print(String(format: "%02X", byte), terminator: " ")`. -/
def formatTerminated (byte : UInt8) : String := formatHexUpper byte ++ " "

/-- The loop over the bytes of the reference `obj`. -/
def UnsafePointerPage.printClassPointer (bytes : List UInt8) : String :=
  printBytes (fun _ => false) formatTerminated bytes

/-- The loops over the contents of `obj` and of `obj2`, as long as `malloc_size` says. -/
def UnsafePointerPage.printInstance (memory : Memory) (ptr : ℕ) (size : ℤ) : Option String :=
  printMemory (fun _ => false) formatTerminated memory ptr size

/-! ## Lines tell the bytes -/

/-- What a dump loop adds from an index on. -/
def pieces (test : ℕ → Bool) (format : UInt8 → String) : ℕ → List UInt8 → List Char
  | _, [] => []
  | index, byte :: rest =>
    ((if test index then [' '] else []) ++ (format byte).toList) ++ pieces test format (index + 1) rest

theorem toList_printBytesFrom_eq_pieces (test : ℕ → Bool) (format : UInt8 → String) (index : ℕ)
    (bytes : List UInt8) (printed : String) :
    (printBytesFrom test format index bytes printed).toList =
      printed.toList ++ pieces test format index bytes := by
  induction bytes generalizing index printed with
  | nil => exact (List.append_nil _).symm
  | cons byte rest ih =>
    rw [printBytesFrom, ih, pieces, printByte]
    split
    · rw [String.toList_append, String.toList_append, List.append_assoc, List.append_assoc]
      rfl
    · rw [String.toList_append, List.nil_append, List.append_assoc]

/-- Every byte is printed at one width, and different bytes differently. -/
structure Readable (format : UInt8 → String) (width : ℕ) : Prop where
  positive : 0 < width
  uniform : ∀ byte, (format byte).toList.length = width
  injective : Function.Injective format

/-- Whether a byte starts a group depends on its index only, so the bytes are read off from the left. -/
theorem pieces_injective {format : UInt8 → String} {width : ℕ} (readable : Readable format width)
    (test : ℕ → Bool) (index : ℕ) : Function.Injective (pieces test format index) := by
  have nonempty (index : ℕ) (byte : UInt8) (rest : List UInt8) : pieces test format index (byte :: rest) ≠ [] := by
    intro empty
    have wide := readable.uniform byte
    rw [pieces, List.append_eq_nil_iff, List.append_eq_nil_iff] at empty
    rw [empty.1.2] at wide
    exact Nat.ne_of_gt readable.positive wide.symm
  intro left
  induction left generalizing index with
  | nil =>
    intro right same
    cases right with
    | nil => rfl
    | cons byte rest => exact absurd same.symm (nonempty index byte rest)
  | cons byte rest ih =>
    intro right same
    cases right with
    | nil => exact absurd same (nonempty index byte rest)
    | cons other others =>
      rw [pieces, pieces] at same
      obtain ⟨first, later⟩ := List.append_inj same (by
        rw [List.length_append, List.length_append, readable.uniform, readable.uniform])
      rw [readable.injective (String.toList_inj.mp (List.append_cancel_left first)), ih (index + 1) later]

theorem printBytes_injective {format : UInt8 → String} {width : ℕ} (readable : Readable format width)
    (test : ℕ → Bool) : Function.Injective (printBytes test format) := by
  intro left right same
  have same := congrArg String.toList same
  rw [printBytes, printBytes, String.toList_append, String.toList_append,
    toList_printBytesFrom_eq_pieces, toList_printBytesFrom_eq_pieces] at same
  exact pieces_injective readable test 0 (List.append_cancel_left (List.append_cancel_right same))

theorem upperDigit_injective {left right : ℕ} (small : left < 16) (other : right < 16)
    (same : upperDigit left = upperDigit right) : left = right := by
  have digits : ∀ left < 16, ∀ right < 16, upperDigit left = upperDigit right → left = right := by decide
  exact digits left small right other same

theorem readable_formatHexUpper : Readable formatHexUpper 2 where
  positive := by decide
  uniform := by
    intro byte
    rw [formatHexUpper, String.toList_ofList]
    rfl
  injective := by
    intro left right same
    have bound := left.toNat_lt
    have other := right.toNat_lt
    have same := congrArg String.toList same
    rw [formatHexUpper, formatHexUpper, String.toList_ofList, String.toList_ofList, List.cons.injEq,
      List.cons.injEq] at same
    have high := upperDigit_injective (by omega) (by omega) same.1
    have low := upperDigit_injective (by omega) (by omega) same.2.1
    exact UInt8.toNat_inj.mp (by omega)

theorem readable_formatTerminated : Readable formatTerminated 3 where
  positive := by decide
  uniform := by
    intro byte
    rw [formatTerminated, String.toList_append, List.length_append, readable_formatHexUpper.uniform]
    rfl
  injective := by
    intro left right same
    have same := congrArg String.toList same
    rw [formatTerminated, formatTerminated, String.toList_append, String.toList_append] at same
    exact readable_formatHexUpper.injective (String.toList_inj.mp (List.append_cancel_right same))

/-! ## Loops over memory -/

/-- The bytes that a loop asks for. -/
def Loadable (memory : Memory) (ptr : ℕ) (size : ℤ) : Prop :=
  0 ≤ size ∧ ∀ index < size.toNat, (memory (ptr + index)).isSome

/-- All that a loop asks for, in order. -/
theorem Loadable.exists_bytes {memory : Memory} {ptr : ℕ} {size : ℤ} (loadable : Loadable memory ptr size) :
    ∃ bytes : List UInt8, (bytes.length : ℤ) = size ∧ Holds memory ptr bytes := by
  obtain ⟨bytes, long, held⟩ := ByteMemory.exists_holds loadable.2
  exact ⟨bytes, long ▸ Int.toNat_of_nonneg loadable.1, held⟩

theorem loadable_of_foldlM {test : ℕ → Bool} {format : UInt8 → String} {memory : Memory} {ptr : ℕ}
    {indices : List ℕ} {printed line : String}
    (run : indices.foldlM (fun printed index => do
        let value ← memory (ptr + index)
        return printByte test format printed index value) printed = some line) :
    ∀ index ∈ indices, (memory (ptr + index)).isSome := by
  induction indices generalizing printed with
  | nil => exact fun _ member => nomatch member
  | cons index rest ih =>
    intro asked member
    rw [List.foldlM_cons] at run
    obtain ⟨next, first, later⟩ := Option.bind_eq_some_iff.mp run
    obtain ⟨value, loaded, _⟩ := Option.bind_eq_some_iff.mp first
    cases member with
    | head => rw [loaded]; rfl
    | tail _ member => exact ih later asked member

/-- A loop over memory prints a line exactly when all its bytes can be loaded. -/
theorem isSome_printMemory (test : ℕ → Bool) (format : UInt8 → String) (memory : Memory) (ptr : ℕ) (size : ℤ) :
    (printMemory test format memory ptr size).isSome ↔ Loadable memory ptr size := by
  constructor
  · intro prints
    obtain ⟨line, run⟩ := Option.isSome_iff_exists.mp prints
    rw [printMemory, guard] at run
    split at run
    · next nonneg =>
      obtain ⟨_, _, run⟩ := Option.bind_eq_some_iff.mp run
      obtain ⟨printed, loop, _⟩ := Option.bind_eq_some_iff.mp run
      exact ⟨nonneg, fun index below => loadable_of_foldlM loop index (List.mem_range.mpr below)⟩
    · cases run
  · intro loadable
    obtain ⟨bytes, rfl, loaded⟩ := loadable.exists_bytes
    rw [printMemory_of_holds test format loaded]
    rfl

/-- Both loops ask for the same number of bytes and load the same. -/
def SameBytes (memory : Memory) (ptr : ℕ) (size : ℤ) (other : Memory) (there : ℕ) (length : ℤ) : Prop :=
  size = length ∧ ∀ index < size.toNat, memory (ptr + index) = other (there + index)

theorem sameBytes_iff_of_holds {memory other : Memory} {ptr there : ℕ} {left right : List UInt8}
    (here : Holds memory ptr left) (away : Holds other there right) :
    SameBytes memory ptr left.length other there right.length ↔ left = right := by
  constructor
  · rintro ⟨long, same⟩
    have long : left.length = right.length := by omega
    refine List.ext_getElem long fun index below above => ?_
    have loaded := same index (by rw [Int.toNat_natCast]; exact below)
    rw [here index _ (List.getElem?_eq_getElem below), away index _ (List.getElem?_eq_getElem above)] at loaded
    exact Option.some.inj loaded
  · rintro rfl
    refine ⟨rfl, fun index below => ?_⟩
    rw [Int.toNat_natCast] at below
    rw [here index _ (List.getElem?_eq_getElem below), away index _ (List.getElem?_eq_getElem below)]

theorem printMemory_eq_iff {format : UInt8 → String} {width : ℕ} (readable : Readable format width)
    (test : ℕ → Bool) {memory other : Memory} {ptr there : ℕ} {size length : ℤ}
    (loadable : Loadable memory ptr size) (loadable' : Loadable other there length) :
    printMemory test format memory ptr size = printMemory test format other there length ↔
      SameBytes memory ptr size other there length := by
  obtain ⟨left, rfl, here⟩ := loadable.exists_bytes
  obtain ⟨right, rfl, away⟩ := loadable'.exists_bytes
  rw [printMemory_of_holds test format here, printMemory_of_holds test format away,
    sameBytes_iff_of_holds here away, Option.some.injEq]
  exact (printBytes_injective readable test).eq_iff

/-- The loops over memory of the three pages. -/
inductive MemoryDump : (Memory → ℕ → ℤ → Option String) → Prop
  | memoryLayout : MemoryDump MemoryLayoutPage.dumpMemory
  | contents : MemoryDump Contents.dumpMemory
  | unsafePointer : MemoryDump UnsafePointerPage.printInstance

/-- Each loop over memory is one dump loop with a format that can be read. -/
theorem MemoryDump.eq_printMemory {dump : Memory → ℕ → ℤ → Option String} (loop : MemoryDump dump) :
    ∃ test format width, Readable format width ∧ dump = printMemory test format := by
  cases loop with
  | memoryLayout => exact ⟨_, _, _, readable_formatHexUpper, rfl⟩
  | contents => exact ⟨_, _, _, readable_formatHexUpper, rfl⟩
  | unsafePointer => exact ⟨_, _, _, readable_formatTerminated, rfl⟩

/-- Every loop over memory prints a line exactly when its size is not negative and all its bytes can be
loaded, and two of its lines are equal exactly when they show the same bytes. -/
theorem memoryDump_spec {dump : Memory → ℕ → ℤ → Option String} (loop : MemoryDump dump)
    (memory other : Memory) (ptr there : ℕ) (size length : ℤ) :
    ((dump memory ptr size).isSome ↔ Loadable memory ptr size) ∧
      (Loadable memory ptr size → Loadable other there length →
        (dump memory ptr size = dump other there length ↔ SameBytes memory ptr size other there length)) := by
  obtain ⟨test, format, width, readable, rfl⟩ := loop.eq_printMemory
  exact ⟨isSome_printMemory test format memory ptr size, printMemory_eq_iff readable test⟩

/-- Two bytes at address 16 are dumped as their copy at address 32 is, and no third byte can be loaded. -/
theorem memoryDump_spec_copy :
    let memory : Memory := fun address => if address ∈ [16, 32] then some 0xAB else
      if address ∈ [17, 33] then some 7 else none
    ¬ (UnsafePointerPage.printInstance memory 16 3).isSome ∧
      UnsafePointerPage.printInstance memory 16 2 = UnsafePointerPage.printInstance memory 32 2 := by
  intro memory
  have loadable (ptr : ℕ) (member : ptr ∈ [16, 32]) : Loadable memory ptr 2 := by
    refine ⟨by decide, ?_⟩
    rw [List.mem_cons, List.mem_singleton] at member
    obtain rfl | rfl := member <;> decide
  constructor
  · rw [(memoryDump_spec .unsafePointer memory memory 16 32 3 2).1]
    rintro ⟨_, loaded⟩
    exact absurd (loaded 2 (by decide)) (by decide)
  · rw [(memoryDump_spec .unsafePointer memory memory 16 32 2 2).2 (loadable 16 (by decide))
      (loadable 32 (by decide))]
    exact ⟨rfl, by decide⟩

end INote.SwiftNote
