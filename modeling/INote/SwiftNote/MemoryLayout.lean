import INote.Library.ByteMemory
import INote.SwiftNote.Pointers

/-! # Memory layout

`MemoryLayout` places the stored properties in the order of their declarations, after the header in an
instance of a class. The page compares declarations in different orders; the one with decreasing
alignments is never larger. The dump of an instance tells all its properties.
-/

namespace INote.SwiftNote

open ByteMemory RecordLayout

/-- The types of the page. -/
inductive SwiftType where
  | bool
  | int16
  | int
  | float
  | double
  | reference
deriving DecidableEq

def SwiftType.layout : SwiftType → Extent
  | .bool => ⟨1, 0⟩
  | .int16 => ⟨2, 1⟩
  | .float => ⟨4, 2⟩
  | .int | .double | .reference => ⟨8, 3⟩

/-- The stored properties of a declaration. -/
abbrev Declaration := List SwiftType

def Declaration.layouts (declaration : Declaration) : List Extent := declaration.map SwiftType.layout

/-- `MemoryLayout` of a struct. -/
def memoryLayout (declaration : Declaration) : Extent := record 0 declaration.layouts

/-- The header of an instance of a class. -/
def headerSize : ℕ := 16

/-- Where the properties of an instance are. -/
def propertyOffsets (declaration : Declaration) : List ℕ := offsets headerSize declaration.layouts

/-- `class_getInstanceSize`, in whole words. -/
def instanceSize (declaration : Declaration) : ℕ := roundUp (finish headerSize declaration.layouts) 8

def emptyStruct : Declaration := []

def puppy : Declaration := [.int, .bool]

def anotherPuppy : Declaration := [.bool, .int]

def certifiedPuppy : Declaration := [.int, .bool, .bool]

def anotherCertifiedPuppy : Declaration := [.bool, .int, .bool]

/-- The sizes, strides and alignments that the page notes. -/
example : [emptyStruct, puppy, anotherPuppy, certifiedPuppy, anotherCertifiedPuppy].map
    (fun declaration => let layout := memoryLayout declaration; (layout.size, layout.stride, layout.alignment)) =
      [(0, 1, 1), (9, 16, 8), (16, 16, 8), (10, 16, 8), (17, 24, 8)] := by decide

def emptyClass : Declaration := []

def puppyClass : Declaration := [.bool, .int]

def anotherPuppyClass : Declaration := [.int, .bool]

def classB : Declaration := [.bool, .int, .bool]

def classC : Declaration := [.bool, .int, .bool, .bool, .bool, .bool, .bool, .bool, .bool]

/-- The instance sizes that the page notes. -/
example : [emptyClass, puppyClass, anotherPuppyClass, classB, classC].map instanceSize = [16, 32, 32, 40, 40] := by
  decide

/-! ## Structs -/

/-- Sizes are multiples of alignments. -/
theorem SwiftType.alignment_dvd_size (type : SwiftType) : type.layout.alignment ∣ type.layout.size := by
  cases type <;> decide

theorem SwiftType.size_pos (type : SwiftType) : 0 < type.layout.size := by cases type <;> decide

/-- The alignment of a property divides that of the struct. -/
theorem alignment_dvd_memoryLayout {declaration : Declaration} {type : SwiftType}
    (member : type ∈ declaration) :
    type.layout.alignment ∣ (memoryLayout declaration).alignment :=
  alignment_dvd_record (List.mem_map.mpr ⟨type, member, rfl⟩)

/-- In every element of an array of structs each property is aligned and inside the struct, the properties
do not overlap, and no placement in the order of the declaration is smaller. -/
theorem memoryLayout_spec (declaration : Declaration) :
    (∀ (index : ℕ) (type : SwiftType) (offset : ℕ), declaration[index]? = some type →
      (offsets 0 declaration.layouts)[index]? = some offset →
      offset + type.layout.size ≤ (memoryLayout declaration).size ∧
      (∀ element, type.layout.alignment ∣ element * (memoryLayout declaration).stride + offset) ∧
      ∀ (later : ℕ) (next : ℕ), index < later → (offsets 0 declaration.layouts)[later]? = some next →
        offset + type.layout.size ≤ next) ∧
    ∀ places stop, Placed 0 declaration.layouts places stop → (memoryLayout declaration).size ≤ stop := by
  have placed := placed_offsets 0 declaration.layouts
  refine ⟨fun index type offset found place => ?_, fun places stop other => other.finish_le le_rfl⟩
  have field : declaration.layouts[index]? = some type.layout := by
    rw [Declaration.layouts, List.getElem?_map, found, Option.map_some]
  obtain ⟨_, aligned, inside⟩ := placed.field field place
  have nonempty : 0 < (memoryLayout declaration).size :=
    (Nat.add_pos_right offset type.size_pos).trans_le inside
  have member := List.mem_of_getElem? found
  refine ⟨inside, fun element => ?_, fun later next order nextPlace => placed.apart order field place nextPlace⟩
  have stride := (alignment_dvd_memoryLayout member).trans (Extent.alignment_dvd_stride nonempty)
  exact Nat.dvd_add (Dvd.dvd.mul_left stride element) aligned

/-! ## The order of the declaration -/

/-- No order of the properties is smaller than one with decreasing alignments, in a struct or in a class. -/
theorem memoryLayout_decreasing (declaration others : Declaration) (perm : declaration.Perm others)
    (decreasing : declaration.Pairwise fun left right => right.layout.shift ≤ left.layout.shift) :
    (memoryLayout declaration).alignment = (memoryLayout others).alignment ∧
      (memoryLayout declaration).size ≤ (memoryLayout others).size ∧
      (memoryLayout declaration).stride ≤ (memoryLayout others).stride ∧
      instanceSize declaration ≤ instanceSize others := by
  have layouts : declaration.layouts.Perm others.layouts := perm.map _
  have pairwise : declaration.layouts.Pairwise fun left right => right.shift ≤ left.shift :=
    List.pairwise_map.mpr decreasing
  have whole : ∀ field ∈ declaration.layouts, field.alignment ∣ field.size := by
    intro field member
    obtain ⟨type, _, rfl⟩ := List.mem_map.mp member
    exact type.alignment_dvd_size
  have header : ∀ field ∈ declaration.layouts, field.alignment ∣ headerSize := by
    intro field member
    obtain ⟨type, _, rfl⟩ := List.mem_map.mp member
    cases type <;> decide
  have shifts : (memoryLayout declaration).shift = (memoryLayout others).shift :=
    (layouts.map Extent.shift).foldr_eq 0
  have alignments : (memoryLayout declaration).alignment = (memoryLayout others).alignment :=
    congrArg (2 ^ ·) shifts
  have sizes : (memoryLayout declaration).size ≤ (memoryLayout others).size :=
    finish_le_of_perm pairwise whole (fun _ _ => Nat.dvd_zero _) layouts
  refine ⟨alignments, sizes, ?_, ?_⟩
  · rw [Extent.stride, Extent.stride, alignments]
    exact max_le_max le_rfl (roundUp_mono (Extent.alignment_pos _) sizes)
  · exact roundUp_mono (by decide) (finish_le_of_perm pairwise whole header layouts)

/-- The two puppies with three properties. -/
theorem memoryLayout_decreasing_certifiedPuppy :
    (memoryLayout certifiedPuppy).size ≤ (memoryLayout anotherCertifiedPuppy).size ∧
      instanceSize certifiedPuppy ≤ instanceSize anotherCertifiedPuppy := by
  have perm : certifiedPuppy.Perm anotherCertifiedPuppy :=
    List.Perm.swap SwiftType.bool SwiftType.int [SwiftType.bool]
  obtain ⟨_, sizes, _, instances⟩ := memoryLayout_decreasing certifiedPuppy anotherCertifiedPuppy perm (by decide)
  exact ⟨sizes, instances⟩

/-! ## Instances of classes -/

/-- The initializer of a class: its header is there already. -/
def initInstance (ptr : ℕ) (declaration : Declaration) (values : List (List UInt8)) (memory : Memory) :
    Memory :=
  storeFields ptr (propertyOffsets declaration) values memory

/-- The values have the sizes of the properties. -/
def Values (declaration : Declaration) (values : List (List UInt8)) : Prop :=
  List.Forall₂ (fun type value => value.length = type.layout.size) declaration values

theorem Values.layouts {declaration : Declaration} {values : List (List UInt8)}
    (valid : Values declaration values) :
    List.Forall₂ (fun (field : Extent) value => value.length = field.size) declaration.layouts values :=
  List.forall₂_map_left_iff.mpr valid

theorem finish_le_instanceSize (declaration : Declaration) :
    finish headerSize declaration.layouts ≤ instanceSize declaration := le_roundUp (by decide)

/-- After the initializer every property is loaded from its offset, and nothing outside the properties has
changed, not the header either. -/
theorem initInstance_spec (ptr : ℕ) (declaration : Declaration) (values : List (List UInt8)) (memory : Memory)
    (valid : Values declaration values) :
    (∀ (index offset : ℕ) (value : List UInt8), (propertyOffsets declaration)[index]? = some offset →
      values[index]? = some value →
      loadBytes (initInstance ptr declaration values memory) (ptr + offset) value.length = some value) ∧
    ∀ address, address < ptr + headerSize ∨ ptr + instanceSize declaration ≤ address →
      initInstance ptr declaration values memory address = memory address := by
  obtain ⟨outside, stored⟩ :=
    storeFields_spec ptr (placed_offsets headerSize declaration.layouts) valid.layouts memory
  have rounded := finish_le_instanceSize declaration
  refine ⟨fun index offset value place found => loadBytes_of_holds (stored index offset value place found), ?_⟩
  exact fun address away => outside address (by omega)

/-- The age of a puppy. -/
theorem initInstance_spec_puppyClass :
    loadBytes (initInstance 16 puppyClass [[0], bytesOf 3] fun _ => some 0) 40 8 = some (bytesOf 3) := by
  have valid : Values puppyClass [[0], bytesOf 3] := .cons rfl (.cons (length_bytesOf 3) .nil)
  exact (initInstance_spec 16 puppyClass _ (fun _ => some 0) valid).1 1 24 (bytesOf 3) rfl rfl

/-- Two memories that look the same from two addresses look the same at an offset. -/
theorem SameBytes.at_offset {memory other : Memory} {ptr there size : ℕ}
    (same : SameBytes memory ptr size other there size)
    {offset length : ℕ} (inside : offset + length ≤ size) :
    SameBytes memory (ptr + offset) length other (there + offset) length := by
  refine ⟨rfl, fun index below => ?_⟩
  rw [Int.toNat_natCast] at below
  rw [Nat.add_assoc, Nat.add_assoc]
  exact same.2 (offset + index) (by rw [Int.toNat_natCast]; omega)

theorem Loadable.initInstance {memory : Memory} {ptr : ℕ} {size : ℤ} (loadable : Loadable memory ptr size)
    (declaration : Declaration) (values : List (List UInt8)) :
    Loadable (initInstance ptr declaration values memory) ptr size :=
  ⟨loadable.1, fun index below => isSome_storeFields ptr (loadable.2 index below) _ values⟩

/-- Instances of one class with the same dump have the same properties, whatever else is in their memory. -/
theorem values_eq_of_dump_eq {dump : Memory → ℕ → ℤ → Option String} (loop : MemoryDump dump)
    (declaration : Declaration)
    {values others : List (List UInt8)} (valid : Values declaration values) (valid' : Values declaration others)
    {memory other : Memory} {ptr there size : ℕ} (fits : instanceSize declaration ≤ size)
    (loadable : Loadable memory ptr size) (loadable' : Loadable other there size)
    (same : dump (initInstance ptr declaration values memory) ptr size =
      dump (initInstance there declaration others other) there size) : values = others := by
  obtain ⟨test, format, width, readable, rfl⟩ := loop.eq_printMemory
  have bytes := (printMemory_eq_iff readable test (loadable.initInstance declaration values)
    (loadable'.initInstance declaration others)).mp same
  have placed := placed_offsets headerSize declaration.layouts
  have rounded := finish_le_instanceSize declaration
  obtain ⟨_, stored⟩ := storeFields_spec ptr placed valid.layouts memory
  obtain ⟨_, stored'⟩ := storeFields_spec there placed valid'.layouts other
  have lengths : values.length = others.length := valid.length_eq.symm.trans valid'.length_eq
  refine List.ext_getElem lengths fun index below above => ?_
  have declared : index < declaration.layouts.length := by
    rw [Declaration.layouts, List.length_map, valid.length_eq]
    exact below
  have placedAt : index < (propertyOffsets declaration).length := placed.length_eq.symm ▸ declared
  have place := List.getElem?_eq_getElem placedAt
  have inside := (placed.field (List.getElem?_eq_getElem declared) place).2.2
  have wide : values[index].length = declaration.layouts[index].size := valid.layouts.get declared below
  have wide' : others[index].length = declaration.layouts[index].size := valid'.layouts.get declared above
  have here := stored index _ _ place (List.getElem?_eq_getElem below)
  have away := stored' index _ _ place (List.getElem?_eq_getElem above)
  rw [← sameBytes_iff_of_holds here away, wide, wide']
  exact bytes.at_offset (by omega)

/-- Puppies at two addresses: the dumps of two of age 3 are the same, and those of one of age 3 and one of
age 4 are not. -/
theorem values_eq_of_dump_eq_puppies :
    let memory : Memory := fun _ => some 0
    let dump (ptr : ℕ) (age : Int64) :=
      MemoryLayoutPage.dumpMemory (initInstance ptr puppyClass [[0], bytesOf age] memory) ptr 32
    dump 16 3 = dump 64 3 ∧ (∀ age, dump 16 3 = dump 64 age → bytesOf 3 = bytesOf age) ∧
      dump 16 3 ≠ dump 64 4 := by
  intro memory dump
  have valid (age : Int64) : Values puppyClass [[0], bytesOf age] := .cons rfl (.cons (length_bytesOf age) .nil)
  have loadable (ptr : ℕ) : Loadable memory ptr 32 := ⟨by decide, fun _ _ => rfl⟩
  have ages (age : Int64) (same : dump 16 3 = dump 64 age) : bytesOf 3 = bytesOf age := by
    have values := values_eq_of_dump_eq .memoryLayout puppyClass (valid 3) (valid age) (by decide) (loadable 16)
      (loadable 64) same
    exact (List.cons.inj (List.cons.inj values).2).1
  have twins : dump 16 3 = dump 64 3 := by
    obtain ⟨test, format, width, readable, print⟩ := MemoryDump.memoryLayout.eq_printMemory
    simp only [dump, print]
    rw [printMemory_eq_iff readable test ((loadable 16).initInstance _ _) ((loadable 64).initInstance _ _)]
    exact ⟨rfl, by decide⟩
  exact ⟨twins, ages, fun same => absurd (ages 4 same) (by decide)⟩

end INote.SwiftNote
