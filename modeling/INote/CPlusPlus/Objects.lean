import INote.Library.ByteMemory
import INote.Library.LittleEndian
import INote.Library.Writes
import INote.CPlusPlus.ClassLayout

/-! # Objects

An object is made of zero bytes, its constructors set the pointers to the vtables, and members are assigned. Each
field is then what it was given last, whatever bases it comes from.
-/

namespace INote.CPlusPlus

open RecordLayout ByteMemory
open LittleEndian (encodeInt encodePtr length_encodeInt length_encodePtr)

def Field.extent : Field → Extent
  | .vptr => pointer
  | .member _ => int

/-- What a field holds, given the addresses of the vtables and the values of the members. -/
def fieldBytes (vtable : Label → ℕ) (values : Label → Int32) (label : Label) : List UInt8 :=
  match label.field with
  | .vptr => encodePtr (vtable label)
  | .member _ => encodeInt (values label).toInt

/-! ## The programs -/

/-- The constructor of the class or base that has the field. -/
def construct (vtable : Label → ℕ) (ptr : ℕ) (memory : Memory) (part : LaidPart Label) : Memory :=
  match part.label.field with
  | .vptr => storeBytes memory (ptr + part.offset) (encodePtr (vtable part.label))
  | .member _ => memory

/-- `new cls()` at an address. -/
def new (vtable : Label → ℕ) (cls : Class) (ptr : ℕ) (memory : Memory) : Memory :=
  cls.complete.parts.foldl (construct vtable ptr) (storeBytes memory ptr (List.replicate cls.sizeof 0))

/-- `ptr->var = value` -/
def assign (cls : Class) (ptr : ℕ) (memory : Memory) (assignment : Label × Int32) : Option Memory :=
  match assignment.1.field with
  | .vptr => none
  | .member _ => (cls.complete.part? assignment.1).map fun part =>
    storeBytes memory (ptr + part.offset) (encodeInt assignment.2.toInt)

def main (vtable : Label → ℕ) (cls : Class) (ptr : ℕ) (assignments : List (Label × Int32)) (memory : Memory) :
    Option Memory :=
  assignments.foldlM (assign cls ptr) (new vtable cls ptr memory)

/-! ## The extents of fields -/

/-- Each part has the extent of its field. -/
def Typed (laid : Laid Label) : Prop := ∀ part ∈ laid.parts, part.extent = part.label.field.extent

theorem Typed.record {fields : List (Laid Label)} (each : ∀ field ∈ fields, Typed field) :
    Typed (.record fields) := by
  intro part member
  obtain ⟨field, found, inner, within, offset, rfl, _⟩ := exists_of_mem_nested member
  exact each field found inner within

theorem typed_leaf (field : Field) : Typed (.leaf ⟨[], field⟩ field.extent) :=
  List.forall_mem_singleton.mpr rfl

theorem typed_fields {dynamic : Bool} {direct : List (Bool × Laid Label)} {members : List String}
    (each : ∀ base ∈ direct, Typed base.2) : ∀ field ∈ fields dynamic direct members, Typed field := by
  intro field member
  rw [(fields_perm ..).mem_iff, List.mem_append, List.mem_append] at member
  rcases member with (own | other) | named
  · rw [ownPointer] at own
    split at own
    · rw [List.mem_singleton.mp own]
      exact typed_leaf .vptr
    · cases own
  · obtain ⟨base, found, rfl⟩ := List.mem_map.mp other
    exact each base found
  · obtain ⟨name, _, rfl⟩ := List.mem_map.mp named
    exact typed_leaf (.member name)

mutual

theorem Class.typed : ∀ cls : Class, Typed cls.nonVirtual
  | .declare _ _ bases _ => by
    intro part member
    obtain ⟨inner, within, rfl⟩ := List.mem_map.mp member
    exact Typed.record (typed_fields fun base found => Bases.typed found) inner within

theorem Bases.typed : ∀ {bases : Bases} {base : Bool × Laid Label}, base ∈ bases.nonVirtual → Typed base.2
  | .none, _, member => nomatch member
  | .base true _ rest, _, member => by
    change _ ∈ rest.nonVirtual at member
    exact Bases.typed member
  | .base false cls rest, _, member => by
    rcases List.mem_cons.mp member with rfl | later
    · exact cls.typed
    · exact Bases.typed later

end

theorem Class.complete_typed (cls : Class) : Typed cls.complete := by
  refine .record fun field member => ?_
  rcases List.mem_cons.mp member with rfl | base
  · exact cls.typed
  · obtain ⟨virtualBase, _, rfl⟩ := List.mem_map.mp base
    exact virtualBase.typed

/-! ## Construction -/

theorem length_fieldBytes (vtable : Label → ℕ) (values : Label → Int32) (label : Label) :
    (fieldBytes vtable values label).length = label.field.extent.size := by
  rw [fieldBytes]
  split
  · next vptr =>
    rw [vptr, length_encodePtr]
    rfl
  · next name member =>
    rw [member, length_encodeInt]
    rfl

section Construct

variable {vtable : Label → ℕ} {values : Label → Int32} {ptr address : ℕ} {part other : LaidPart Label}
  {memory : Memory}

theorem construct_of_outside (typed : part.extent = part.label.field.extent)
    (outside : address < ptr + part.offset ∨ ptr + part.finish ≤ address) :
    construct vtable ptr memory part address = memory address := by
  rw [construct]
  cases field : part.label.field with
  | vptr =>
    rw [field] at typed
    apply storeBytes_of_outside
    rw [length_encodePtr]
    rw [LaidPart.finish, typed] at outside
    change _ ∨ ptr + (part.offset + 8) ≤ address at outside
    omega
  | member => rfl

/-- A field is kept by the constructors of others. -/
theorem holds_construct (held : Holds memory (ptr + part.offset) (fieldBytes vtable values part.label))
    (typed : part.extent = part.label.field.extent) (otherTyped : other.extent = other.label.field.extent)
    (apart : part.Apart other) :
    Holds (construct vtable ptr memory other) (ptr + part.offset) (fieldBytes vtable values part.label) := by
  intro index byte found
  have bound := (List.getElem?_eq_some_iff.mp found).1
  rw [length_fieldBytes, ← typed] at bound
  rw [construct_of_outside otherTyped]
  · exact held index byte found
  · rw [LaidPart.Apart, LaidPart.finish] at apart
    omega

theorem holds_foldl_of_apart {parts : List (LaidPart Label)}
    (held : Holds memory (ptr + part.offset) (fieldBytes vtable values part.label))
    (typed : part.extent = part.label.field.extent)
    (othersTyped : ∀ other ∈ parts, other.extent = other.label.field.extent)
    (apart : ∀ other ∈ parts, part.Apart other) :
    Holds (parts.foldl (construct vtable ptr) memory) (ptr + part.offset)
      (fieldBytes vtable values part.label) := by
  induction parts generalizing memory with
  | nil => exact held
  | cons other rest ih =>
    rw [List.forall_mem_cons] at othersTyped apart
    exact ih (holds_construct held typed othersTyped.1 apart.1) othersTyped.2 apart.2

/-- The constructors set the pointers, and the members stay. -/
theorem holds_foldl_construct {parts : List (LaidPart Label)}
    (typed : ∀ part ∈ parts, part.extent = part.label.field.extent) (apart : parts.Pairwise LaidPart.Apart)
    (start : ∀ part ∈ parts, part.label.field ≠ .vptr →
      Holds memory (ptr + part.offset) (fieldBytes vtable values part.label)) :
    ∀ part ∈ parts, Holds (parts.foldl (construct vtable ptr) memory) (ptr + part.offset)
      (fieldBytes vtable values part.label) := by
  induction parts generalizing memory with
  | nil => exact List.forall_mem_nil _
  | cons part rest ih =>
    rw [List.forall_mem_cons] at typed start
    rw [List.pairwise_cons] at apart
    refine List.forall_mem_cons.mpr ⟨?_, ih typed.2 apart.2 fun other member named => ?_⟩
    · have made : Holds (construct vtable ptr memory part) (ptr + part.offset)
          (fieldBytes vtable values part.label) := by
        rw [construct]
        cases field : part.label.field with
        | vptr =>
          rw [fieldBytes, field]
          exact holds_storeBytes _ _ _
        | member => exact start.1 (field ▸ Field.noConfusion)
      rw [List.foldl_cons]
      exact holds_foldl_of_apart made typed.1 typed.2 apart.1
    · exact holds_construct (start.2 other member named) (typed.2 other member) typed.1 (apart.1 other member).symm

/-- Zero bytes are members that are zero. -/
theorem holds_zeros (named : part.label.field ≠ .vptr) {size : ℕ} (inside : part.offset + 4 ≤ size) :
    Holds (storeBytes memory ptr (List.replicate size 0)) (ptr + part.offset)
      (fieldBytes vtable (fun _ => 0) part.label) := by
  have zeros : fieldBytes vtable (fun _ => 0) part.label = List.replicate 4 0 := by
    rw [fieldBytes]
    cases field : part.label.field with
    | vptr => exact absurd field named
    | member => rfl
  rw [zeros]
  intro index byte found
  obtain ⟨below, rfl⟩ := List.getElem?_eq_some_iff.mp found
  rw [List.length_replicate] at below
  rw [Nat.add_assoc]
  apply holds_storeBytes
  rw [List.getElem?_replicate_of_lt (by omega), List.getElem_replicate]

/-! ## Objects in memory -/

/-- The fields of the object hold the values. -/
def Represents (vtable : Label → ℕ) (cls : Class) (ptr : ℕ) (values : Label → Int32) (memory : Memory) : Prop :=
  ∀ label part, cls.complete.part? label = some part →
    Holds memory (ptr + part.offset) (fieldBytes vtable values label)

variable {cls : Class} {label : Label}

theorem offset_le_sizeof (member : part ∈ cls.complete.parts) :
    part.offset + part.label.field.extent.size ≤ cls.sizeof := by
  have ends := (cls.complete.inside part member).finish_le.trans (Extent.size_le_stride _)
  rw [LaidPart.finish, cls.complete_typed part member] at ends
  exact ends

/-- A new object has pointers to its vtables, and members that are zero. -/
theorem represents_new (vtable : Label → ℕ) (cls : Class) (ptr : ℕ) (memory : Memory) :
    Represents vtable cls ptr (fun _ => 0) (new vtable cls ptr memory) := by
  intro label part found
  obtain ⟨member, rfl⟩ := Laid.part?_eq_some found
  refine holds_foldl_construct cls.complete_typed cls.complete.apart (fun other within named => ?_) part member
  apply holds_zeros named
  have ends := offset_le_sizeof within
  cases field : other.label.field with
  | vptr => exact absurd field named
  | member =>
    rw [field] at ends
    exact ends

/-- An assignment changes the one member. -/
theorem Represents.assign (represents : Represents vtable cls ptr values memory) {name : String}
    (field : label.field = .member name) (found : cls.complete.part? label = some part) (value : Int32) :
    ∃ next, assign cls ptr memory (label, value) = some next ∧
      Represents vtable cls ptr (Function.update values label value) next ∧
      ∀ address, address < ptr ∨ ptr + cls.sizeof ≤ address → next address = memory address := by
  have long : (encodeInt value.toInt).length = part.extent.size := by
    obtain ⟨member, rfl⟩ := Laid.part?_eq_some found
    rw [cls.complete_typed part member, field, length_encodeInt]
    rfl
  refine ⟨storeBytes memory (ptr + part.offset) (encodeInt value.toInt), ?_, ?_, fun address outside => ?_⟩
  · simp only [CPlusPlus.assign, field, found, Option.map_some]
  · intro other otherPart otherFound
    by_cases same : other = label
    · subst same
      obtain rfl := Option.some.inj (found.symm.trans otherFound)
      rw [fieldBytes, field, Function.update_self]
      exact holds_storeBytes _ _ _
    · have apart := Laid.apart_of_ne same otherFound found
      have kept : fieldBytes vtable (Function.update values label value) other =
          fieldBytes vtable values other := by
        rw [fieldBytes, fieldBytes, Function.update_of_ne same]
      obtain ⟨otherMember, rfl⟩ := Laid.part?_eq_some otherFound
      rw [kept]
      apply (represents _ otherPart otherFound).storeBytes_of_apart
      rw [length_fieldBytes, ← cls.complete_typed otherPart otherMember, long]
      rw [LaidPart.Apart, LaidPart.finish, LaidPart.finish] at apart
      omega
  · obtain ⟨member, rfl⟩ := Laid.part?_eq_some found
    have ends := (cls.complete.inside part member).finish_le.trans (Extent.size_le_stride _)
    rw [LaidPart.finish] at ends
    change _ ≤ cls.sizeof at ends
    apply storeBytes_of_outside
    omega

theorem foldl_construct_of_outside {parts : List (LaidPart Label)}
    (typed : ∀ part ∈ parts, part.extent = part.label.field.extent)
    (outside : ∀ part ∈ parts, address < ptr + part.offset ∨ ptr + part.finish ≤ address) (memory : Memory) :
    parts.foldl (construct vtable ptr) memory address = memory address := by
  induction parts generalizing memory with
  | nil => rfl
  | cons part rest ih =>
    rw [List.forall_mem_cons] at typed outside
    rw [List.foldl_cons, ih typed.2 outside.2, construct_of_outside typed.1 outside.1]

theorem new_of_outside (outside : address < ptr ∨ ptr + cls.sizeof ≤ address) (memory : Memory) :
    new vtable cls ptr memory address = memory address := by
  rw [new, foldl_construct_of_outside cls.complete_typed, storeBytes_of_outside]
  · rw [List.length_replicate]
    exact outside
  · intro part member
    have ends := (cls.complete.inside part member).finish_le.trans (Extent.size_le_stride _)
    change _ ≤ cls.sizeof at ends
    omega

/-- Assignments in order are writes to the members. -/
theorem Represents.foldlM_assign {assignments : List (Label × Int32)}
    (members : ∀ assignment ∈ assignments, (∃ name, assignment.1.field = .member name) ∧
      (cls.complete.part? assignment.1).isSome)
    (represents : Represents vtable cls ptr values memory) :
    ∃ last, assignments.foldlM (CPlusPlus.assign cls ptr) memory = some last ∧
      Represents vtable cls ptr (Writes.perform assignments values) last ∧
      ∀ address, address < ptr ∨ ptr + cls.sizeof ≤ address → last address = memory address := by
  induction assignments generalizing memory values with
  | nil => exact ⟨memory, rfl, represents, fun _ _ => rfl⟩
  | cons assignment rest ih =>
    rw [List.forall_mem_cons] at members
    obtain ⟨⟨⟨name, field⟩, known⟩, later⟩ := members
    obtain ⟨part, found⟩ := Option.isSome_iff_exists.mp known
    obtain ⟨next, assigned, kept, unchanged⟩ := represents.assign field found assignment.2
    obtain ⟨last, run, holds, outside⟩ := ih later kept
    refine ⟨last, ?_, holds, fun address away => (outside address away).trans (unchanged address away)⟩
    rw [List.foldlM_cons, assigned]
    exact run

end Construct

/-- After any assignments each member is what was assigned to it last, and the pointers to the vtables are
those that the constructors set. -/
theorem main_spec (vtable : Label → ℕ) (cls : Class) (ptr : ℕ) (memory : Memory)
    (assignments : List (Label × Int32))
    (members : ∀ assignment ∈ assignments, (∃ name, assignment.1.field = .member name) ∧
      (cls.complete.part? assignment.1).isSome) :
    ∃ last, main vtable cls ptr assignments memory = some last ∧
      Represents vtable cls ptr (Writes.perform assignments fun _ => 0) last ∧
      ∀ address, address < ptr ∨ ptr + cls.sizeof ≤ address → last address = memory address := by
  obtain ⟨last, run, holds, outside⟩ := (represents_new vtable cls ptr memory).foldlM_assign members
  exact ⟨last, run, holds, fun address away => (outside address away).trans (new_of_outside away memory)⟩

/-- The members of an object. -/
def Class.members (cls : Class) : List Label := cls.complete.labels.filter fun label => label.field ≠ .vptr

theorem Class.isSome_of_mem_members {cls : Class} {label : Label} (member : label ∈ cls.members) :
    (∃ name, label.field = .member name) ∧ (cls.complete.part? label).isSome := by
  obtain ⟨known, named⟩ := List.mem_filter.mp member
  constructor
  · cases field : label.field with
    | vptr => simp [field] at named
    | member name => exact ⟨name, rfl⟩
  · obtain ⟨part, within, rfl⟩ := List.mem_map.mp known
    rw [Laid.part?, List.find?_isSome]
    exact ⟨part, within, decide_eq_true rfl⟩

/-- A base is at one distance in all objects of a class: from there on each field that the base has alone
is loaded as it was assigned last, or constructed. -/
theorem exists_distance (cls start sub : Class) (path : List String) (valid : cls.Valid)
    (root : start = cls ∨ start ∈ cls.virtualBases) (reaches : Reaches start path sub) :
    ∃ distance, ∀ (vtable : Label → ℕ) (ptr : ℕ) (memory : Memory) (assignments : List (Label × Int32)),
      (∀ assignment ∈ assignments, assignment.1 ∈ cls.members) →
      ∃ last, main vtable cls ptr assignments memory = some last ∧
        (∀ part ∈ sub.nonVirtual.parts, loadBytes last (ptr + distance + part.offset) part.extent.size =
          some (fieldBytes vtable (Writes.perform assignments fun _ => 0) (part.label.under path))) ∧
        ∀ address, address < ptr ∨ ptr + cls.sizeof ≤ address → last address = memory address := by
  obtain ⟨distance, moved⟩ := exists_move_complete cls start sub path root reaches
  refine ⟨distance, fun vtable ptr memory assignments members => ?_⟩
  obtain ⟨last, run, represents, outside⟩ := main_spec vtable cls ptr memory assignments
    fun assignment member => Class.isSome_of_mem_members (members assignment member)
  refine ⟨last, run, fun part member => ?_, outside⟩
  have found := Laid.part?_of_mem (Class.nodup_complete_labels valid) (moved part member)
  have loaded := loadBytes_of_holds (represents _ _ found)
  rw [length_fieldBytes] at loaded
  change loadBytes last (ptr + (distance + part.offset)) part.label.field.extent.size = _ at loaded
  rw [sub.typed part member, Nat.add_assoc]
  exact loaded

namespace Diamond

def assignments : List (Label × Int32) :=
  [(⟨["A"], .member "var_a"⟩, 0xaa), (⟨["D", "B"], .member "var_b"⟩, 0xbb),
    (⟨["D", "C"], .member "var_c"⟩, 0xcc), (⟨["D"], .member "var_d"⟩, 0xdd)]

end Diamond

/-- The base `C` of the diamond. -/
theorem exists_distance_diamond :
    Diamond.classD.Valid ∧ Reaches Diamond.classD ["D"] Diamond.classC ∧
      ∃ distance last,
        main (fun _ => 0x4030) Diamond.classD 0x6000 Diamond.assignments (fun _ => none) = some last ∧
        ∀ part ∈ Diamond.classC.nonVirtual.parts,
          loadBytes last (0x6000 + distance + part.offset) part.extent.size =
            some (fieldBytes (fun _ => 0x4030) (Writes.perform Diamond.assignments fun _ => 0)
              (part.label.under ["D"])) := by
  have reaches : Reaches Diamond.classD ["D"] Diamond.classC :=
    .base (List.mem_cons_of_mem _ List.mem_cons_self) (.self _)
  obtain ⟨distance, runs⟩ :=
    exists_distance Diamond.classD Diamond.classD Diamond.classC ["D"] Diamond.valid_classD (.inl rfl) reaches
  obtain ⟨last, run, loaded, _⟩ := runs (fun _ => 0x4030) 0x6000 (fun _ => none) Diamond.assignments (by decide)
  exact ⟨Diamond.valid_classD, reaches, distance, last, run, loaded⟩

-- The words of the object that the debugger shows in the comment of the program.
example : (main (fun label => if label.path = ["C", "A"] then 0x100004100 else 0x100004120)
      MultipleInheritance01.classC 0x208000
      [(⟨["C", "A"], .member "var_a"⟩, 0xaa), (⟨["C", "B"], .member "var_b"⟩, 0xbb),
        (⟨["C"], .member "var_c"⟩, 0xcc)]
      fun _ => none).bind (loadBytes · 0x208000 32) =
    some (([0x0000000100004100, 0x00000000000000aa, 0x0000000100004120, 0x000000cc000000bb] : List ℕ).flatMap
      encodePtr) := by decide

end INote.CPlusPlus
