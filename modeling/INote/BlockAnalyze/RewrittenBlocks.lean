import INote.BlockAnalyze.BlockTests
import INote.Library.ByteMemory
import INote.Library.LittleEndian

/-! # Rewritten blocks

`main.cpp` is the program as the compiler rewrites it. A block is a structure: a `__block_impl`, a
descriptor, and what the block captures, static variables by their address. It is called through the
function pointer of its `__block_impl`. The structures are stored byte by byte in a memory that has the
objects that are alive, and no more.
-/

namespace INote.BlockAnalyze.Rewritten

open BlockTests (Line StaticVar checked)
open ByteMemory RecordLayout
open LittleEndian (encodeInt encodePtr length_encodeInt length_encodePtr)

/-! ## Structures -/

/-- The block literals of the tests. -/
inductive Literal where
  | testBlockAllocation0
  | testBlockAllocation1
  | testBlockAllocation2
  | testBlockCaptureVar0
deriving DecidableEq

/-- `struct __block_impl`: `isa`, `Flags`, `Reserved`, `FuncPtr`. -/
def blockImpl : List Extent := [pointer, int, int, pointer]

/-- What the structure of a literal has after `impl` and `Desc`. -/
def Literal.captured : Literal → List Extent
  | .testBlockAllocation0 | .testBlockAllocation1 => [int]
  | .testBlockAllocation2 => []
  | .testBlockCaptureVar0 => [int, pointer]

/-- `struct __testBlockCaptureVar_block_impl_0` and the others. -/
def Literal.members (literal : Literal) : List Extent := record 0 blockImpl :: pointer :: literal.captured

/-- `sizeof` of the structure. -/
def Literal.size (literal : Literal) : ℕ := (record 0 literal.members).stride

def isa : ℕ := 0

def flagsOffset : ℕ := 8

def funcPtr : ℕ := 16

def descOffset : ℕ := 24

def capturedStart : ℕ := 32

def Literal.capturedOffsets (literal : Literal) : List ℕ := offsets capturedStart literal.captured

/-- Where the member of an index among what is captured is. -/
def Literal.member (literal : Literal) (index : ℕ) : ℕ := literal.capturedOffsets.getD index 0

theorem offsets_blockImpl : offsets 0 blockImpl = [isa, flagsOffset, 12, funcPtr] := by decide

theorem offsets_members (literal : Literal) :
    offsets 0 literal.members = isa :: descOffset :: literal.capturedOffsets := by
  cases literal <;> decide

/-- Where functions and variables are. Functions are at different addresses, variables do not overlap. -/
structure Image where
  staticVar : StaticVar → ℕ
  func : Literal → ℕ
  desc : Literal → ℕ
  stackBlock : ℕ
  mallocBlock : ℕ
  staticVar_lt (static : StaticVar) : staticVar static < 256 ^ 8
  func_lt (literal : Literal) : func literal < 256 ^ 8
  desc_lt (literal : Literal) : desc literal < 256 ^ 8
  func_injective : Function.Injective func
  apart (static other : StaticVar) (differ : static ≠ other) :
    staticVar static + 4 ≤ staticVar other ∨ staticVar other + 4 ≤ staticVar static

/-! ## Programs -/

structure World where
  memory : Memory
  console : List Line

/-- A program has no meaning where an `int` overflows, or where there is no object, or no function. -/
abbrev Program := StateT World Option

def print (line : Line) : Program Unit := modify fun world => { world with console := world.console ++ [line] }

/-- `NSLog`. -/
def log (text : String) : Program Unit := print (.log text)

def printVar (var1 var2 var3 var4 : ℤ) : Program Unit := print (.printVar var1 var2 var3 var4)

def load (ptr size : ℕ) : Program (List UInt8) := do
  let world ← get
  loadBytes world.memory ptr size

def store (ptr : ℕ) (bytes : List UInt8) : Program Unit := do
  let _ ← load ptr bytes.length
  modify fun world => { world with memory := storeBytes world.memory ptr bytes }

def readInt (ptr : ℕ) : Program ℤ := do
  let bytes ← load ptr 4
  return LittleEndian.decodeInt bytes

def readPtr (ptr : ℕ) : Program ℕ := do
  let bytes ← load ptr 8
  return LittleEndian.decode bytes

/-- `++` of an `int` in memory. -/
def increment (ptr : ℕ) : Program ℤ := do
  let value ← readInt ptr
  let value ← checked (value + 1)
  store ptr (encodeInt value)
  return value

/-- An object that is new: its address, and what its bytes happen to be. -/
structure Object where
  address : ℕ
  content : List UInt8

def allocate (object : Object) : Program Unit :=
  modify fun world => { world with memory := storeBytes world.memory object.address object.content }

/-- The object is gone. -/
def leave (ptr size : ℕ) : Program Unit :=
  modify fun world => { world with memory := free world.memory ptr size }

/-- The initializers of the members that are captured. -/
def storeCaptured (block : ℕ) : List ℕ → List (List UInt8) → Program Unit
  | offset :: offsets, value :: values => do
    store (block + offset) value
    storeCaptured block offsets values
  | _, _ => return

/-- The constructors of the structures, which differ in what is captured. -/
def construct (image : Image) (literal : Literal) (block fp desc : ℕ)
    (captured : List (List UInt8)) (flags : ℕ) : Program Unit := do
  storeCaptured block literal.capturedOffsets captured
  store (block + isa) (encodePtr image.stackBlock)
  store (block + flagsOffset) (LittleEndian.encode 4 flags)
  store (block + funcPtr) (encodePtr fp)
  store (block + descOffset) (encodePtr desc)

/-- The end of a temporary: C++ has it at the end of the declaration that takes its address, a block literal of
`main.m` lasts until the function returns. -/
inductive Lifetime where
  | declaration
  | function
deriving DecidableEq

/-- A temporary of a lifetime is gone at the end of it. -/
def leaveAt (place lifetime : Lifetime) (ptr size : ℕ) : Program Unit :=
  if place = lifetime then leave ptr size else return

/-- `((void (*)())&literal(...))`: the address of a temporary structure. -/
def blockLiteral (image : Image) (lifetime : Lifetime) (literal : Literal) (object : Object)
    (captured : List (List UInt8)) : Program ℕ := do
  allocate object
  construct image literal object.address (image.func literal) (image.desc literal) captured 0
  leaveAt .declaration lifetime object.address literal.size
  return object.address

/-- `[blk copy]` of a block on the stack, as the runtime has it: an object on the heap, of `Block_size`
bytes, with the same content but for its class and flags. -/
def copy (image : Image) (heap : Object) (flags : ℕ) (blk : ℕ) : Program ℕ := do
  let desc ← readPtr (blk + descOffset)
  let blockSize ← readPtr (desc + 8)
  guard (heap.content.length = blockSize)
  allocate heap
  let content ← load blk blockSize
  store heap.address content
  store (heap.address + isa) (encodePtr image.mallocBlock)
  store (heap.address + flagsOffset) (LittleEndian.encode 4 flags)
  return heap.address

/-! ## The functions of the blocks -/

def testBlockAllocationBlockFunc0 (cself : ℕ) : Program Unit := do
  let var0 ← readInt (cself + Literal.testBlockAllocation0.member 0)
  log s!"var0 = {var0}"

def testBlockAllocationBlockFunc1 (cself : ℕ) : Program Unit := do
  let var0 ← readInt (cself + Literal.testBlockAllocation1.member 0)
  log s!"var1 = {var0}"

/-- `__func__` in the function that the block has become. -/
def func : String := "__testBlockAllocation_block_func_2"

def testBlockAllocationBlockFunc2 (_cself : ℕ) : Program Unit := print (.function func)

def testBlockCaptureVarBlockFunc0 (image : Image) (cself : ℕ) : Program Unit := do
  let var3 ← readInt (cself + Literal.testBlockCaptureVar0.member 0)
  let var4 ← readPtr (cself + Literal.testBlockCaptureVar0.member 1)
  log "blk capture var value:"
  printVar (← readInt (image.staticVar .gVar1)) (← readInt (image.staticVar .gVar2)) var3 (← readInt var4)
  log "increment var inside block:"
  printVar (← increment (image.staticVar .gVar1)) (← increment (image.staticVar .gVar2)) var3 (← increment var4)

/-- The function at an address. -/
def Image.function? (image : Image) (address : ℕ) : Option Literal :=
  [.testBlockAllocation0, .testBlockAllocation1, .testBlockAllocation2, .testBlockCaptureVar0].find? fun literal =>
    image.func literal = address

def callFunction (image : Image) (cself : ℕ) : Option Literal → Program Unit
  | some .testBlockAllocation0 => testBlockAllocationBlockFunc0 cself
  | some .testBlockAllocation1 => testBlockAllocationBlockFunc1 cself
  | some .testBlockAllocation2 => testBlockAllocationBlockFunc2 cself
  | some .testBlockCaptureVar0 => testBlockCaptureVarBlockFunc0 image cself
  | none => failure

/-- `((__block_impl *)blk)->FuncPtr((__block_impl *)blk)`. -/
def invoke (image : Image) (blk : ℕ) : Program Unit := do
  let function ← readPtr (blk + funcPtr)
  callFunction image blk (image.function? function)

/-! ## The memory of a state -/

def Image.IsStatic (image : Image) (address : ℕ) : Prop :=
  ∃ static, image.staticVar static ≤ address ∧ address < image.staticVar static + 4

/-- A line of `main.m` as the rewritten program prints it. -/
def rewrittenLine : Line → Line
  | .function _ => .function func
  | line => line

/-- The memory has the values of the static variables, and is the rest elsewhere. -/
structure Represents (image : Image) (rest : Memory) (state : BlockTests.State) (world : World) : Prop where
  value (static : StaticVar) : Holds world.memory (image.staticVar static) (encodeInt (state.value static))
  lower (static : StaticVar) : -2 ^ 31 ≤ state.value static
  upper (static : StaticVar) : state.value static < 2 ^ 31
  elsewhere {address : ℕ} (other : ¬ image.IsStatic address) : world.memory address = rest address
  noStatic {address : ℕ} (inside : image.IsStatic address) : rest address = none
  console : world.console = state.console.map rewrittenLine

variable {image : Image} {rest mid last : Memory} {state : BlockTests.State} {world : World}

theorem Represents.not_static (represents : Represents image rest state world) {address : ℕ}
    (loaded : (rest address).isSome) : ¬ image.IsStatic address := by
  intro inside
  rw [represents.noStatic inside] at loaded
  cases loaded

theorem Represents.holds (represents : Represents image rest state world) {ptr : ℕ} {bytes : List UInt8}
    (held : Holds rest ptr bytes) : Holds world.memory ptr bytes := by
  intro index byte found
  have here := held index byte found
  rw [represents.elsewhere (represents.not_static (here ▸ rfl)), here]

/-- What changes no static variable, and elsewhere each byte by itself, changes the rest. -/
theorem Represents.change (represents : Represents image rest state world) {change : Memory → Memory}
    (kept : ∀ memory address, image.IsStatic address → change memory address = memory address)
    (bytewise : ∀ memory other address, memory address = other address →
      change memory address = change other address) :
    Represents image (change rest) state { world with memory := change world.memory } where
  value static index byte found := by
    have bound := (List.getElem?_eq_some_iff.mp found).1
    rw [length_encodeInt] at bound
    have inside : image.IsStatic (image.staticVar static + index) := ⟨static, by omega, by omega⟩
    exact (kept _ _ inside).trans (represents.value static index byte found)
  lower := represents.lower
  upper := represents.upper
  elsewhere other := bytewise _ _ _ (represents.elsewhere other)
  noStatic inside := (kept _ _ inside).trans (represents.noStatic inside)
  console := represents.console

theorem Represents.storeBytes (represents : Represents image rest state world) {ptr : ℕ} {bytes : List UInt8}
    (away : ∀ address, ptr ≤ address → address < ptr + bytes.length → ¬ image.IsStatic address) :
    Represents image (storeBytes rest ptr bytes) state
      { world with memory := storeBytes world.memory ptr bytes } := by
  have kept (memory : Memory) (address : ℕ) (inside : image.IsStatic address) :
      ByteMemory.storeBytes memory ptr bytes address = memory address := by
    apply storeBytes_of_outside
    by_contra within
    exact away address (by omega) (by omega) inside
  apply represents.change kept
  intro memory other address same
  simp only [ByteMemory.storeBytes, same]

theorem Represents.free (represents : Represents image rest state world) {ptr size : ℕ}
    (away : ∀ address, ptr ≤ address → address < ptr + size → ¬ image.IsStatic address) :
    Represents image (free rest ptr size) state { world with memory := free world.memory ptr size } := by
  have kept (memory : Memory) (address : ℕ) (inside : image.IsStatic address) :
      ByteMemory.free memory ptr size address = memory address :=
    if_neg fun within => away address within.1 within.2 inside
  apply represents.change kept
  intro memory other address same
  simp only [ByteMemory.free, same]

/-- There is nothing from an address on. -/
def Room (image : Image) (rest : Memory) (ptr size : ℕ) : Prop :=
  ∀ address, ptr ≤ address → address < ptr + size → rest address = none ∧ ¬ image.IsStatic address

/-- An object that was made where there was nothing leaves nothing. -/
theorem Room.free_eq {ptr size : ℕ} (room : Room image rest ptr size)
    (outside : ∀ address, address < ptr ∨ ptr + size ≤ address → mid address = rest address) :
    free mid ptr size = rest := by
  funext address
  rw [ByteMemory.free]
  split
  · next within => exact ((room address within.1 within.2).1).symm
  · exact outside address (by omega)

theorem load_run (ptr size : ℕ) (world : World) :
    (load ptr size).run world = (loadBytes world.memory ptr size).map fun bytes => (bytes, world) := by
  simp only [load, StateT.run_bind, StateT.run_get, StateT.run_monadLift, monadLift_self, Option.pure_def,
    Option.bind_eq_bind, Option.bind_some]
  cases loadBytes world.memory ptr size <;> rfl

/-! ## Steps in the rest of the memory -/

/-- From every state the program returns the value and takes one rest to the other; the static variables stay. -/
def Moves {α : Type} (image : Image) (rest last : Memory) (program : Program α) (value : α) : Prop :=
  ∀ state world, Represents image rest state world →
    ∃ next, program.run world = some (value, next) ∧ Represents image last state next

namespace Moves

variable {α β : Type} {first : Program α} {value : α} {result : β}

theorem pure (value : α) : Moves image rest rest (Pure.pure value) value := fun _ world represents =>
  ⟨world, rfl, represents⟩

theorem bind {next : α → Program β} (moves : Moves image rest mid first value)
    (later : Moves image mid last (next value) result) : Moves image rest last (first >>= next) result := by
  intro state world represents
  obtain ⟨between, run, here⟩ := moves state world represents
  obtain ⟨after, runs, there⟩ := later state between here
  refine ⟨after, ?_, there⟩
  rw [StateT.run_bind, run]
  exact runs

theorem load {ptr size : ℕ} {bytes : List UInt8} (held : Holds rest ptr bytes) (long : bytes.length = size) :
    Moves image rest rest (load ptr size) bytes := by
  intro state world represents
  have loaded := loadBytes_of_holds (represents.holds held)
  rw [long] at loaded
  exact ⟨world, by rw [load_run, loaded]; rfl, represents⟩

theorem readPtr {ptr address : ℕ} (fits : address < 256 ^ 8) (held : Holds rest ptr (encodePtr address)) :
    Moves image rest rest (readPtr ptr) address := by
  have decoded : LittleEndian.decode (encodePtr address) = address := LittleEndian.decode_encodePtr fits
  have returned : Moves image rest rest (Pure.pure (LittleEndian.decode (encodePtr address))) address := by
    rw [decoded]
    exact pure address
  exact bind (load held (length_encodePtr address)) returned

/-- The object that is stored to is there, so it is no static variable. -/
theorem store {ptr : ℕ} {bytes : List UInt8}
    (mapped : ∀ address, ptr ≤ address → address < ptr + bytes.length → (rest address).isSome) :
    Moves image rest (storeBytes rest ptr bytes) (store ptr bytes) () := by
  intro state world represents
  have loadable (index : ℕ) (below : index < bytes.length) : (rest (ptr + index)).isSome :=
    mapped _ (Nat.le_add_right ..) (by omega)
  obtain ⟨content, long, held⟩ := exists_holds loadable
  have loaded := loadBytes_of_holds (represents.holds held)
  rw [long] at loaded
  refine ⟨{ world with memory := storeBytes world.memory ptr bytes }, ?_, ?_⟩
  · rw [Rewritten.store, StateT.run_bind, load_run, loaded]
    rfl
  · exact represents.storeBytes fun address above below => represents.not_static (mapped address above below)

theorem allocate {object : Object}
    (room : Room image rest object.address object.content.length) :
    Moves image rest (storeBytes rest object.address object.content) (allocate object) () :=
  fun _ _ represents => ⟨_, rfl, represents.storeBytes fun address above below => (room address above below).2⟩

theorem leave {ptr size : ℕ} (mapped : ∀ address, ptr ≤ address → address < ptr + size → (rest address).isSome) :
    Moves image rest (free rest ptr size) (leave ptr size) () :=
  fun _ _ represents =>
    ⟨_, rfl, represents.free fun address above below => represents.not_static (mapped address above below)⟩

end Moves

/-! ## Programs that come to use what is not there -/

/-- The program has no meaning in any state. -/
def Stuck {α : Type} (image : Image) (rest : Memory) (program : Program α) : Prop :=
  ∀ state world, Represents image rest state world → program.run world = none

namespace Stuck

variable {α β : Type} {first : Program α}

theorem bind (stuck : Stuck image rest first) (next : α → Program β) : Stuck image rest (first >>= next) := by
  intro state world represents
  rw [StateT.run_bind, stuck state world represents]
  rfl

theorem after {value : α} {next : α → Program β} (moves : Moves image rest mid first value)
    (stuck : Stuck image mid (next value)) : Stuck image rest (first >>= next) := by
  intro state world represents
  obtain ⟨between, run, here⟩ := moves state world represents
  rw [StateT.run_bind, run]
  exact stuck state between here

/-- A pointer cannot be read where there is room for an object. -/
theorem readPtr {ptr size offset : ℕ} (room : Room image rest ptr size) (inside : offset < size) :
    Stuck image rest (readPtr (ptr + offset)) := by
  obtain ⟨missing, other⟩ := room (ptr + offset) (Nat.le_add_right ..) (by omega)
  apply bind
  intro state world represents
  rw [load_run, loadBytes_eq_none ((represents.elsewhere other).trans missing) (by decide)]
  rfl

end Stuck

/-! ## Blocks in memory -/

/-- The structure of a literal, with what it has captured. -/
structure BlockAt (image : Image) (rest : Memory) (literal : Literal) (block : ℕ)
    (captured : List (List UInt8)) : Prop where
  valid : List.Forall₂ (fun (field : Extent) value => value.length = field.size) literal.captured captured
  function : Holds rest (block + funcPtr) (encodePtr (image.func literal))
  desc : Holds rest (block + descOffset) (encodePtr (image.desc literal))
  member {index offset : ℕ} {value : List UInt8} (place : literal.capturedOffsets[index]? = some offset)
    (found : captured[index]? = some value) : Holds rest (block + offset) value
  mapped (address : ℕ) (above : block ≤ address) (below : address < block + literal.size) : (rest address).isSome

variable {literal : Literal} {block : ℕ} {captured : List (List UInt8)}

/-- The structure is long enough for what it captures, and not too long for its descriptor. -/
theorem Literal.finish_le (literal : Literal) :
    finish capturedStart literal.captured ≤ literal.size ∧ literal.size ≤ 48 := by
  cases literal <;> decide

theorem Literal.placed (literal : Literal) :
    Placed capturedStart literal.captured literal.capturedOffsets (finish capturedStart literal.captured) :=
  placed_offsets ..

/-- A memory with more objects has the block. -/
theorem BlockAt.mono (held : BlockAt image rest literal block captured)
    (more : ∀ address byte, rest address = some byte → last address = some byte) :
    BlockAt image last literal block captured where
  valid := held.valid
  function := held.function.mono more
  desc := held.desc.mono more
  member place found := (held.member place found).mono more
  mapped address above below := by
    obtain ⟨byte, loaded⟩ := Option.isSome_iff_exists.mp (held.mapped address above below)
    rw [more address byte loaded]
    rfl

/-- What is captured is in the structure, after the descriptor. -/
theorem BlockAt.inside (held : BlockAt image rest literal block captured) {index offset : ℕ}
    {value : List UInt8}
    (place : literal.capturedOffsets[index]? = some offset) (found : captured[index]? = some value) :
    capturedStart ≤ offset ∧ offset + value.length ≤ literal.size := by
  have placed := literal.placed
  have declared : index < literal.captured.length := placed.length_eq ▸ (List.getElem?_eq_some_iff.mp place).1
  obtain ⟨below, rfl⟩ := List.getElem?_eq_some_iff.mp found
  have wide : captured[index].length = literal.captured[index].size := held.valid.get declared below
  obtain ⟨after, _, ends⟩ := placed.field (List.getElem?_eq_getElem declared) place
  exact ⟨after, by rw [wide]; exact ends.trans literal.finish_le.1⟩

theorem BlockAt.value (held : BlockAt image rest literal block captured) (index : ℕ) {value : List UInt8}
    (found : captured[index]? = some value) : Holds rest (block + literal.member index) value := by
  have declared : index < literal.capturedOffsets.length := by
    rw [literal.placed.length_eq, held.valid.length_eq]
    exact (List.getElem?_eq_some_iff.mp found).1
  rw [Literal.member, List.getD_eq_getElem?_getD, List.getElem?_eq_getElem declared, Option.getD_some]
  exact held.member (List.getElem?_eq_getElem declared) found

namespace Moves

theorem storeCaptured {start stop : ℕ} {fields : List Extent} {places : List ℕ}
    (placed : Placed start fields places stop) {values : List (List UInt8)}
    (valid : List.Forall₂ (fun (field : Extent) value => value.length = field.size) fields values)
    (mapped : ∀ address, block + start ≤ address → address < block + stop → (rest address).isSome) :
    Moves image rest (storeFields block places values rest) (storeCaptured block places values) () := by
  induction placed generalizing values rest with
  | nil =>
    cases valid
    exact pure ()
  | @cons start offset stop field fields others above aligned later ih =>
    cases valid with
    | @cons _ value _ values long valid =>
      have bound := later.start_le_stop
      apply bind (store fun address above below => mapped address (by omega) (by omega))
      apply ih valid
      exact fun address above below => isSome_storeBytes (mapped address (by omega) below) _ _

/-- The constructor makes the block and changes nothing outside of the structure. -/
theorem construct (image : Image) (flags : ℕ)
    (valid : List.Forall₂ (fun (field : Extent) value => value.length = field.size) literal.captured captured)
    (mapped : ∀ address, block ≤ address → address < block + literal.size → (rest address).isSome) :
    ∃ last, Moves image rest last
        (construct image literal block (image.func literal) (image.desc literal) captured flags) () ∧
      BlockAt image last literal block captured ∧
      ∀ address, address < block ∨ block + literal.size ≤ address → last address = rest address := by
  have fits := literal.finish_le.1
  have placed := literal.placed
  have room : capturedStart ≤ finish capturedStart literal.captured := placed.start_le_stop
  obtain ⟨outside, stored⟩ := storeFields_spec block placed valid rest
  have mapped₁ (address : ℕ) (above : block ≤ address) (below : address < block + literal.size) :=
    isSome_storeFields block (mapped address above below) literal.capturedOffsets captured
  have mapped₂ (address : ℕ) (above : block ≤ address) (below : address < block + literal.size) :=
    isSome_storeBytes (mapped₁ address above below) (block + isa) (encodePtr image.stackBlock)
  have mapped₃ (address : ℕ) (above : block ≤ address) (below : address < block + literal.size) :=
    isSome_storeBytes (mapped₂ address above below) (block + flagsOffset) (LittleEndian.encode 4 flags)
  have mapped₄ (address : ℕ) (above : block ≤ address) (below : address < block + literal.size) :=
    isSome_storeBytes (mapped₃ address above below) (block + funcPtr) (encodePtr (image.func literal))
  simp only [capturedStart] at room fits
  refine ⟨_, bind (storeCaptured placed valid fun address above below => mapped address ?_ ?_)
    (bind (store fun address above below => mapped₁ address ?_ ?_)
      (bind (store fun address above below => mapped₂ address ?_ ?_)
        (bind (store fun address above below => mapped₃ address ?_ ?_)
          (store fun address above below => mapped₄ address ?_ ?_)))), ⟨valid, ?_, ?_, ?_, ?_⟩, ?_⟩
  any_goals
    simp only [capturedStart, isa, flagsOffset, funcPtr, descOffset, length_encodePtr, LittleEndian.length_encode]
      at above below
    omega
  · apply (holds_storeBytes _ _ _).storeBytes_of_apart
    simp only [funcPtr, descOffset, length_encodePtr]
    omega
  · exact holds_storeBytes _ _ _
  · intro index offset value place found
    have above : capturedStart ≤ offset := placed.start_le place
    have held := stored index offset value place found
    simp only [capturedStart] at above
    refine (((held.storeBytes_of_apart ?_).storeBytes_of_apart ?_).storeBytes_of_apart ?_).storeBytes_of_apart ?_
    all_goals
      simp only [isa, flagsOffset, funcPtr, descOffset, length_encodePtr, LittleEndian.length_encode]
      omega
  · exact fun address above below => isSome_storeBytes (mapped₄ address above below) _ _
  · intro address away
    rw [storeBytes_of_outside, storeBytes_of_outside, storeBytes_of_outside, storeBytes_of_outside, outside]
    all_goals
      simp only [capturedStart, isa, flagsOffset, funcPtr, descOffset, length_encodePtr,
        LittleEndian.length_encode]
      omega

end Moves

namespace Moves

theorem check {condition : Prop} [Decidable condition] (holds : condition) :
    Moves image rest rest (guard condition) () := by
  rw [guard, if_pos holds]
  exact pure ()

/-- The structure of a block literal is made in a new object. -/
theorem newStructure {object : Object} (room : Room image rest object.address literal.size)
    (long : object.content.length = literal.size)
    (valid : List.Forall₂ (fun (field : Extent) value => value.length = field.size) literal.captured captured) :
    ∃ between last, Moves image rest between (Rewritten.allocate object) () ∧
      Moves image between last (Rewritten.construct image literal object.address (image.func literal)
        (image.desc literal) captured 0) () ∧
      BlockAt image last literal object.address captured ∧
      ∀ address, address < object.address ∨ object.address + literal.size ≤ address →
        last address = rest address := by
  have mapped (address : ℕ) (above : object.address ≤ address) (below : address < object.address + literal.size) :
      (storeBytes rest object.address object.content address).isSome := by
    rw [storeBytes, if_pos ⟨above, long ▸ below⟩, List.getElem?_eq_getElem (by omega)]
    rfl
  obtain ⟨last, constructed, made, outside⟩ := construct image 0 valid mapped
  refine ⟨_, last, allocate (long ▸ room), constructed, made, fun address away => ?_⟩
  rw [outside address away, storeBytes_of_outside (long ▸ away)]

/-- A block that lasts until the function returns. -/
theorem blockLiteral {object : Object} (room : Room image rest object.address literal.size)
    (long : object.content.length = literal.size)
    (valid : List.Forall₂ (fun (field : Extent) value => value.length = field.size) literal.captured captured) :
    ∃ last, Moves image rest last (blockLiteral image .function literal object captured) object.address ∧
      BlockAt image last literal object.address captured ∧
      ∀ address, address < object.address ∨ object.address + literal.size ≤ address →
        last address = rest address := by
  obtain ⟨_, last, allocated, constructed, made, outside⟩ := Moves.newStructure room long valid
  exact ⟨last, allocated.bind (constructed.bind ((pure ()).bind (pure _))), made, outside⟩

/-- A block that is gone when its declaration ends. -/
theorem blockLiteral_declaration {object : Object} (room : Room image rest object.address literal.size)
    (long : object.content.length = literal.size)
    (valid : List.Forall₂ (fun (field : Extent) value => value.length = field.size) literal.captured captured) :
    Moves image rest rest (Rewritten.blockLiteral image .declaration literal object captured) object.address := by
  obtain ⟨_, last, allocated, constructed, made, outside⟩ := Moves.newStructure room long valid
  have left : Moves image last rest (Rewritten.leave object.address literal.size) () :=
    room.free_eq outside ▸ leave made.mapped
  exact allocated.bind (constructed.bind (left.bind (pure _)))

/-- The copy on the heap is a block of the same literal with the same content. -/
theorem copy {heap : Object} (held : BlockAt image rest literal block captured)
    (described : Holds rest (image.desc literal + 8) (encodePtr literal.size))
    (room : Room image rest heap.address literal.size) (long : heap.content.length = literal.size) (flags : ℕ) :
    ∃ last, Moves image rest last (copy image heap flags block) heap.address ∧
      BlockAt image last literal heap.address captured ∧
      ∀ address, address < heap.address ∨ heap.address + literal.size ≤ address → last address = rest address := by
  obtain ⟨fits, small⟩ := literal.finish_le
  have placed := literal.placed
  have enough : capturedStart ≤ finish capturedStart literal.captured := placed.start_le_stop
  simp only [capturedStart] at enough fits
  have loadable (index : ℕ) (below : index < literal.size) : (rest (block + index)).isSome :=
    held.mapped _ (Nat.le_add_right ..) (by omega)
  obtain ⟨content, whole, loaded⟩ := exists_holds loadable
  have more (address : ℕ) (byte : UInt8) (there : rest address = some byte) :
      storeBytes rest heap.address heap.content address = some byte := by
    rw [storeBytes_of_outside, there]
    by_contra within
    rw [(room address (by omega) (by omega)).1] at there
    cases there
  have mapped (address : ℕ) (above : heap.address ≤ address) (below : address < heap.address + literal.size) :
      (storeBytes rest heap.address heap.content address).isSome := by
    rw [storeBytes, if_pos ⟨above, long ▸ below⟩, List.getElem?_eq_getElem (by omega)]
    rfl
  have mapped₁ (address : ℕ) (above : heap.address ≤ address) (below : address < heap.address + literal.size) :=
    isSome_storeBytes (mapped address above below) heap.address content
  have mapped₂ (address : ℕ) (above : heap.address ≤ address) (below : address < heap.address + literal.size) :=
    isSome_storeBytes (mapped₁ address above below) (heap.address + isa) (encodePtr image.mallocBlock)
  -- What follows the class and the flags is what was copied.
  have copied {offset : ℕ} {bytes : List UInt8} (after : funcPtr ≤ offset)
      (inside : offset + bytes.length ≤ literal.size) (there : Holds rest (block + offset) bytes) :
      Holds (storeBytes (storeBytes (storeBytes (storeBytes rest heap.address heap.content) heap.address content)
        (heap.address + isa) (encodePtr image.mallocBlock)) (heap.address + flagsOffset)
        (LittleEndian.encode 4 flags))
        (heap.address + offset) bytes := by
    simp only [funcPtr] at after
    have moved : Holds (storeBytes (storeBytes rest heap.address heap.content) heap.address content)
        (heap.address + offset) bytes := by
      intro index byte found
      have bound := (List.getElem?_eq_some_iff.mp found).1
      have here := there index byte found
      have shown : content[offset + index]? = some byte := by
        rw [List.getElem?_eq_getElem (by omega)]
        have same := loaded (offset + index) _ (List.getElem?_eq_getElem (by omega))
        rw [← Nat.add_assoc, here] at same
        exact same.symm
      rw [Nat.add_assoc]
      exact holds_storeBytes _ _ content (offset + index) byte shown
    refine (moved.storeBytes_of_apart ?_).storeBytes_of_apart ?_
    all_goals
      simp only [isa, flagsOffset, length_encodePtr, LittleEndian.length_encode]
      omega
  have sized : Moves image rest rest (Rewritten.readPtr (image.desc literal + 8)) literal.size :=
    readPtr (Nat.lt_of_le_of_lt small (by decide)) described
  have allocated : Moves image rest _ (Rewritten.allocate heap) () := allocate (long ▸ room)
  have filled : Moves image _ _ (Rewritten.store heap.address content) () :=
    store fun address above below => mapped address above (whole ▸ below)
  refine ⟨_, bind (readPtr (image.desc_lt literal) held.desc) (bind sized (bind (check long)
    (bind allocated (bind (load (loaded.mono more) whole) (bind filled
      (bind (store fun address above below => mapped₁ address ?_ ?_)
        (bind (store fun address above below => mapped₂ address ?_ ?_) (pure _)))))))),
    ⟨held.valid, ?_, ?_, ?_, ?_⟩, ?_⟩
  any_goals
    simp only [isa, flagsOffset, length_encodePtr, LittleEndian.length_encode] at above below
    omega
  · exact copied le_rfl (by simp only [funcPtr, length_encodePtr]; omega) held.function
  · exact copied (by decide) (by simp only [descOffset, length_encodePtr]; omega) held.desc
  · intro index offset value place found
    obtain ⟨after, inside⟩ := held.inside place found
    exact copied (le_trans (by decide) after) inside (held.member place found)
  · exact fun address above below => isSome_storeBytes (mapped₂ address above below) _ _
  · intro address away
    have header : isa + (encodePtr image.mallocBlock).length ≤ 8 ∧
        flagsOffset + (LittleEndian.encode 4 flags).length ≤ 12 := by
      rw [length_encodePtr, LittleEndian.length_encode]
      decide
    rw [storeBytes_of_outside (by omega), storeBytes_of_outside (by omega), storeBytes_of_outside (by omega),
      storeBytes_of_outside (by omega)]

end Moves

end INote.BlockAnalyze.Rewritten
