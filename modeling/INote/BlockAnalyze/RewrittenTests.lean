import INote.BlockAnalyze.RewrittenBlocks
import INote.Library.Refinement

/-! # The rewritten tests

As long as their blocks last, the rewritten functions do what the functions of `main.m` do. Where a block of
`main.m` has a copy of a variable, the rewritten one loads it from its structure; where it shares a variable, it
goes through the address in its structure; and a copy on the heap does what the block on the stack does. But the
blocks are temporaries, and with the lifetime that C++ gives these, each function goes on to use a block that is
gone.
-/

namespace INote.BlockAnalyze.Rewritten

open BlockTests (Line StaticVar LocBlk checked)
open ByteMemory RecordLayout
open LittleEndian (encodeInt encodePtr length_encodeInt length_encodePtr)

/-! ## The functions -/

/-- The rewritten function. Its block is stored in a new object. -/
def testBlockCaptureVar (image : Image) (lifetime : Lifetime) (object : Object) : Program Unit := do
  let var3 : ℤ := 0
  log "before blcok declaration:"
  printVar (← readInt (image.staticVar .gVar1)) (← readInt (image.staticVar .gVar2)) var3
    (← readInt (image.staticVar .var4))
  let locBlk ← blockLiteral image lifetime .testBlockCaptureVar0 object
    [encodeInt var3, encodePtr (image.staticVar .var4)]
  let _ ← increment (image.staticVar .gVar1)
  let _ ← increment (image.staticVar .gVar2)
  let var3 ← checked (var3 + 1)
  let _ ← increment (image.staticVar .var4)
  log "after var increment:"
  printVar (← readInt (image.staticVar .gVar1)) (← readInt (image.staticVar .gVar2)) var3
    (← readInt (image.staticVar .var4))
  invoke image locBlk
  leaveAt .function lifetime object.address Literal.testBlockCaptureVar0.size

/-- The objects of a call of `testBlockAllocation`, three on the stack and one on the heap, and the flags
of the copy. -/
structure Frame where
  blk0 : Object
  blk1 : Object
  blk2 : Object
  heap : Object
  flags : ℕ

/-- The rewritten function. The copy stays on the heap. -/
def testBlockAllocation (image : Image) (lifetime : Lifetime) (frame : Frame) : Program Unit := do
  let var0 : ℤ := 0
  let blk0 ← blockLiteral image lifetime .testBlockAllocation0 frame.blk0 [encodeInt var0]
  let blk1 ← blockLiteral image lifetime .testBlockAllocation1 frame.blk1 [encodeInt var0]
  let blk2 ← blockLiteral image lifetime .testBlockAllocation2 frame.blk2 []
  let blk4 ← copy image frame.heap frame.flags blk0
  invoke image blk0
  invoke image blk1
  invoke image blk2
  invoke image blk4
  leaveAt .function lifetime frame.blk0.address Literal.testBlockAllocation0.size
  leaveAt .function lifetime frame.blk1.address Literal.testBlockAllocation1.size
  leaveAt .function lifetime frame.blk2.address Literal.testBlockAllocation2.size

/-! ## Following a program -/

/-- From every state both programs are stuck, or both return the same and leave the memory it shall be
elsewhere. -/
def Follows {α : Type} (image : Image) (rest last : Memory) (abstract : BlockTests.Program α)
    (concrete : Program α) : Prop :=
  Refines (Represents image rest) abstract concrete fun value other state world =>
    value = other ∧ Represents image last state world

variable {image : Image} {rest mid last : Memory} {literal : Literal} {block : ℕ} {captured : List (List UInt8)}

namespace Follows

variable {α β : Type}

theorem bind {abstract : BlockTests.Program α} {concrete : Program α} {abstractNext : α → BlockTests.Program β}
    {concreteNext : α → Program β} (first : Follows image rest mid abstract concrete)
    (next : ∀ value, Follows image mid last (abstractNext value) (concreteNext value)) :
    Follows image rest last (abstract >>= abstractNext) (concrete >>= concreteNext) := by
  apply Refines.bind first
  intro value other state world ⟨same, represents⟩
  exact same ▸ next value state world represents

theorem step {value : β} {abstract : BlockTests.Program α} {concrete : Program β} {concreteNext : β → Program α}
    (moves : Moves image rest mid concrete value) (next : Follows image mid last abstract (concreteNext value)) :
    Follows image rest last abstract (concrete >>= concreteNext) := by
  have taken (state : BlockTests.State) (world : World) (represents : Represents image rest state world) :
      ∃ other reached, concrete.run world = some (other, reached) ∧
        (other = value ∧ Represents image mid state reached) := by
    obtain ⟨reached, run, here⟩ := moves state world represents
    exact ⟨value, reached, run, rfl, here⟩
  apply Refines.step taken
  rintro other state world ⟨rfl, represents⟩
  exact next state world represents

/-- A step after the last one of the abstract program. -/
theorem close {abstract : BlockTests.Program Unit} {concrete : Program Unit} {next : Program Unit}
    (first : Follows image rest mid abstract concrete) (moves : Moves image mid last next ()) :
    Follows image rest last abstract (concrete >>= fun _ => next) := by
  have same : abstract = abstract >>= fun _ => pure () := bind_pure_unit.symm
  rw [same]
  refine first.bind fun _ state world represents => ?_
  obtain ⟨reached, run, here⟩ := moves state world represents
  rw [run]
  exact .some ⟨rfl, here⟩

theorem lift (result : Option α) : Follows image rest rest (liftM result) (liftM result) := by
  intro state world represents
  cases result with
  | none => exact .none
  | some value => exact .some ⟨rfl, represents⟩

theorem print (line : Line) : Follows image rest rest (BlockTests.print line) (print (rewrittenLine line)) := by
  intro state world represents
  refine .some ⟨rfl, represents.value, represents.lower, represents.upper, represents.elsewhere,
    represents.noStatic, ?_⟩
  change world.console ++ [rewrittenLine line] = (state.console ++ [line]).map rewrittenLine
  rw [represents.console, List.map_append, List.map_singleton]

/-- What follows a program that is followed may be stuck. -/
theorem stuck {abstract : BlockTests.Program α} {concrete : Program α} {next : α → Program β}
    (first : Follows image rest mid abstract concrete) (later : ∀ value, Stuck image mid (next value)) :
    Stuck image rest (concrete >>= next) := by
  intro state world represents
  have ends := first state world represents
  rw [StateT.run_bind]
  generalize abstract.run state = left at ends
  generalize concrete.run world = right at ends
  cases ends with
  | none => rfl
  | some related => exact later _ _ _ related.2

end Follows

/-! ## Static variables -/

theorem readInt_run {ptr : ℕ} {value : ℤ} {world : World} (held : Holds world.memory ptr (encodeInt value))
    (lower : -2 ^ 31 ≤ value) (upper : value < 2 ^ 31) : (readInt ptr).run world = some (value, world) := by
  have decoded := LittleEndian.decodeInt_encodeInt lower upper
  have loaded := loadBytes_of_holds held
  rw [length_encodeInt] at loaded
  rw [readInt, StateT.run_bind, load_run, loaded]
  exact congrArg (fun value => some (value, world)) decoded

/-- An `int` in the rest of the memory. -/
theorem Moves.readInt {ptr : ℕ} {value : ℤ} (lower : -2 ^ 31 ≤ value) (upper : value < 2 ^ 31)
    (held : Holds rest ptr (encodeInt value)) : Moves image rest rest (readInt ptr) value :=
  fun _ world represents => ⟨world, readInt_run (represents.holds held) lower upper, represents⟩

theorem read_follows (static : StaticVar) :
    Follows image rest rest (BlockTests.read static) (readInt (image.staticVar static)) := by
  intro state world represents
  rw [readInt_run (represents.value static) (represents.lower static) (represents.upper static)]
  exact .some ⟨rfl, represents⟩

theorem store_run {ptr : ℕ} {bytes content : List UInt8} {world : World} (held : Holds world.memory ptr content)
    (long : content.length = bytes.length) :
    (store ptr bytes).run world = some ((), { world with memory := storeBytes world.memory ptr bytes }) := by
  have loaded := loadBytes_of_holds held
  rw [long] at loaded
  rw [store, StateT.run_bind, load_run, loaded]
  rfl

/-- A store to a static variable. -/
theorem Represents.assign {state : BlockTests.State} {world : World}
    (represents : Represents image rest state world)
    (static : StaticVar) {value : ℤ} (lower : -2 ^ 31 ≤ value) (upper : value < 2 ^ 31) :
    Represents image rest { state with value := Function.update state.value static value }
      { world with memory := ByteMemory.storeBytes world.memory (image.staticVar static) (encodeInt value) } where
  value other := by
    obtain rfl | differ := eq_or_ne other static
    · simp only [Function.update_self]
      exact holds_storeBytes _ _ _
    · simp only [Function.update_of_ne differ]
      apply (represents.value other).storeBytes_of_apart
      rw [length_encodeInt, length_encodeInt]
      exact image.apart other static differ
  lower other := by
    obtain rfl | differ := eq_or_ne other static
    · simpa only [Function.update_self] using lower
    · simpa only [Function.update_of_ne differ] using represents.lower other
  upper other := by
    obtain rfl | differ := eq_or_ne other static
    · simpa only [Function.update_self] using upper
    · simpa only [Function.update_of_ne differ] using represents.upper other
  elsewhere {address} other := by
    refine (storeBytes_of_outside ?_).trans (represents.elsewhere other)
    rw [length_encodeInt]
    by_contra within
    exact other ⟨static, by omega, by omega⟩
  noStatic := represents.noStatic
  console := represents.console

theorem increment_follows (static : StaticVar) :
    Follows image rest rest (BlockTests.increment static) (increment (image.staticVar static)) := by
  intro state world represents
  have lower := represents.lower static
  rw [BlockTests.increment_run, increment, StateT.run_bind,
    readInt_run (represents.value static) lower (represents.upper static), Option.bind_eq_bind, Option.bind_some]
  by_cases small : state.value static + 1 < 2 ^ 31
  · have stored := store_run (represents.value static)
      ((length_encodeInt _).trans (length_encodeInt (state.value static + 1)).symm)
    simp only [BlockTests.checked_of_lt small, StateT.run_bind, StateT.run_monadLift, monadLift_self,
      Option.pure_def, Option.bind_eq_bind, Option.bind_some, stored]
    exact .some ⟨rfl, represents.assign static (by omega) small⟩
  · rw [BlockTests.checked_of_not_lt small]
    exact .none

/-! ## Blocks -/

theorem Image.function?_func (image : Image) (literal : Literal) :
    image.function? (image.func literal) = some literal := by
  cases literal <;> simp [Image.function?, image.func_injective.eq_iff]

/-- A call through the pointer of a block is a call of the function of its literal. -/
theorem BlockAt.invoke {abstract : BlockTests.Program Unit} (held : BlockAt image rest literal block captured)
    (body : Follows image rest last abstract (callFunction image block (some literal))) :
    Follows image rest last abstract (invoke image block) := by
  apply Follows.step (Moves.readPtr (image.func_lt literal) held.function)
  rw [image.function?_func]
  exact body

/-- The function of the block of `testBlockCaptureVar`. -/
theorem testBlockCaptureVarBlockFunc0_follows {var3 : ℤ} (lower : -2 ^ 31 ≤ var3) (upper : var3 < 2 ^ 31)
    (held : BlockAt image rest .testBlockCaptureVar0 block [encodeInt var3, encodePtr (image.staticVar .var4)]) :
    Follows image rest rest (LocBlk.invoke ⟨var3⟩) (testBlockCaptureVarBlockFunc0 image block) := by
  refine .step (Moves.readInt lower upper (held.value 0 rfl)) ?_
  refine .step (Moves.readPtr (image.staticVar_lt .var4) (held.value 1 rfl)) ?_
  refine (Follows.print _).bind fun _ => ?_
  refine (read_follows .gVar1).bind fun var1 => (read_follows .gVar2).bind fun var2 => ?_
  refine (read_follows .var4).bind fun var4 => (Follows.print _).bind fun _ => ?_
  refine (Follows.print _).bind fun _ => ?_
  refine (increment_follows .gVar1).bind fun var1 => (increment_follows .gVar2).bind fun var2 => ?_
  exact (increment_follows .var4).bind fun var4 => Follows.print _

theorem captured_var0 (image : Image) :
    List.Forall₂ (fun (field : Extent) value => value.length = field.size) Literal.testBlockCaptureVar0.captured
      [encodeInt 0, encodePtr (image.staticVar .var4)] :=
  .cons (length_encodeInt _) (.cons (length_encodePtr _) .nil)

/-- The rewritten `testBlockCaptureVar` does what `testBlockCaptureVar` does, and leaves no object behind. -/
theorem testBlockCaptureVar_follows {object : Object}
    (room : Room image rest object.address Literal.testBlockCaptureVar0.size)
    (long : object.content.length = Literal.testBlockCaptureVar0.size) :
    Follows image rest rest BlockTests.testBlockCaptureVar (testBlockCaptureVar image .function object) := by
  obtain ⟨mid, made, held, outside⟩ := Moves.blockLiteral room long (captured_var0 image)
  have freed := room.free_eq outside
  refine (Follows.print _).bind fun _ => ?_
  refine (read_follows .gVar1).bind fun var1 => (read_follows .gVar2).bind fun var2 => ?_
  refine (read_follows .var4).bind fun var4 => (Follows.print _).bind fun _ => ?_
  refine .step made ?_
  refine (increment_follows .gVar1).bind fun _ => (increment_follows .gVar2).bind fun _ => ?_
  refine (Follows.lift _).bind fun var3 => (increment_follows .var4).bind fun _ => ?_
  refine (Follows.print _).bind fun _ => ?_
  refine (read_follows .gVar1).bind fun var1 => (read_follows .gVar2).bind fun var2 => ?_
  refine (read_follows .var4).bind fun var4 => (Follows.print _).bind fun _ => ?_
  refine Follows.close (held.invoke (testBlockCaptureVarBlockFunc0_follows (by decide) (by decide) held)) ?_
  exact freed ▸ Moves.leave held.mapped

/-- With the lifetime of C++, the rewritten `testBlockCaptureVar` calls a block that is gone. -/
theorem testBlockCaptureVar_stuck {object : Object}
    (room : Room image rest object.address Literal.testBlockCaptureVar0.size)
    (long : object.content.length = Literal.testBlockCaptureVar0.size) :
    Stuck image rest (testBlockCaptureVar image .declaration object) := by
  have made := Moves.blockLiteral_declaration room long (captured_var0 image)
  refine (Follows.print (.log _)).stuck fun _ => ?_
  refine (read_follows .gVar1).stuck fun var1 => (read_follows .gVar2).stuck fun var2 => ?_
  refine (read_follows .var4).stuck fun var4 => (Follows.print (.printVar ..)).stuck fun _ => ?_
  refine .after made ?_
  refine (increment_follows .gVar1).stuck fun _ => (increment_follows .gVar2).stuck fun _ => ?_
  refine (Follows.lift _).stuck fun var3 => (increment_follows .var4).stuck fun _ => ?_
  refine (Follows.print (.log _)).stuck fun _ => ?_
  refine (read_follows .gVar1).stuck fun var1 => (read_follows .gVar2).stuck fun var2 => ?_
  refine (read_follows .var4).stuck fun var4 => (Follows.print (.printVar ..)).stuck fun _ => ?_
  exact ((Stuck.readPtr room (by decide)).bind _).bind _

/-! ## Blocks on the stack and on the heap -/

/-- What an object is made in does not matter elsewhere. -/
theorem Room.of_eq {ptr size : ℕ} (room : Room image rest ptr size)
    (same : ∀ address, ptr ≤ address → address < ptr + size → mid address = rest address) :
    Room image mid ptr size :=
  fun address above below =>
    ⟨(same address above below).trans (room address above below).1, (room address above below).2⟩

/-- What was there is there when an object is made where there was room. -/
theorem Room.mono {ptr size : ℕ} (room : Room image rest ptr size)
    (outside : ∀ address, address < ptr ∨ ptr + size ≤ address → mid address = rest address)
    (address : ℕ) (byte : UInt8) (there : rest address = some byte) : mid address = some byte := by
  rw [outside address, there]
  by_contra within
  rw [(room address (by omega) (by omega)).1] at there
  cases there

/-- The objects of a call, with their sizes. -/
def Frame.objects (frame : Frame) : List (Object × ℕ) :=
  [(frame.blk0, Literal.testBlockAllocation0.size), (frame.blk1, Literal.testBlockAllocation1.size),
    (frame.blk2, Literal.testBlockAllocation2.size), (frame.heap, Literal.testBlockAllocation0.size)]

def Apart (left right : Object × ℕ) : Prop :=
  left.1.address + left.2 ≤ right.1.address ∨ right.1.address + right.2 ≤ left.1.address

theorem testBlockAllocationBlockFunc0_follows
    (held : BlockAt image rest .testBlockAllocation0 block [encodeInt 0]) :
    Follows image rest rest (BlockTests.log s!"var0 = {(0 : ℤ)}") (testBlockAllocationBlockFunc0 block) :=
  .step (Moves.readInt (by decide) (by decide) (held.value 0 rfl)) (Follows.print _)

theorem testBlockAllocationBlockFunc1_follows
    (held : BlockAt image rest .testBlockAllocation1 block [encodeInt 0]) :
    Follows image rest rest (BlockTests.log s!"var1 = {(0 : ℤ)}") (testBlockAllocationBlockFunc1 block) :=
  .step (Moves.readInt (by decide) (by decide) (held.value 0 rfl)) (Follows.print _)

/-- The descriptors give the sizes of the structures. -/
def Described (image : Image) (rest : Memory) : Prop :=
  ∀ literal : Literal, Holds rest (image.desc literal + 8) (encodePtr literal.size)

/-- The rewritten `testBlockAllocation` does what `testBlockAllocation` does, and leaves only the copy behind. -/
theorem testBlockAllocation_follows (func : String) {frame : Frame} (described : Described image rest)
    (room : ∀ object ∈ frame.objects,
      Room image rest object.1.address object.2 ∧ object.1.content.length = object.2)
    (apart : frame.objects.Pairwise Apart) :
    ∃ last, Follows image rest last (BlockTests.testBlockAllocation func)
        (testBlockAllocation image .function frame) ∧
      ∀ address, address < frame.heap.address ∨ frame.heap.address + Literal.testBlockAllocation0.size ≤ address →
        last address = rest address := by
  simp only [Frame.objects, List.forall_mem_cons, List.not_mem_nil, false_imp_iff, implies_true, and_true] at room
  simp only [Frame.objects, List.pairwise_cons, List.forall_mem_cons, List.not_mem_nil, false_imp_iff,
    implies_true, and_true, List.Pairwise.nil, Apart] at apart
  obtain ⟨⟨room0, long0⟩, ⟨room1, long1⟩, ⟨room2, long2⟩, roomHeap, longHeap⟩ := room
  obtain ⟨⟨apart01, apart02, apart0h⟩, ⟨apart12, apart1h⟩, apart2h⟩ := apart
  have one (literal : Literal) (captures : literal.captured = [int]) :
      List.Forall₂ (fun (field : Extent) value => value.length = field.size) literal.captured [encodeInt 0] :=
    captures ▸ .cons (length_encodeInt _) .nil
  -- The three blocks on the stack, and the copy on the heap.
  obtain ⟨rest1, made0, held0, outside0⟩ := Moves.blockLiteral room0 long0 (one _ rfl)
  have further1 := room1.of_eq fun address _ _ => outside0 address (by omega)
  obtain ⟨rest2, made1, held1, outside1⟩ := Moves.blockLiteral further1 long1 (one _ rfl)
  have further2 := (room2.of_eq fun address _ _ => outside0 address (by omega)).of_eq fun address _ _ =>
    outside1 address (by omega)
  obtain ⟨rest3, made2, held2, outside2⟩ := Moves.blockLiteral further2 long2 .nil
  have furtherHeap := ((roomHeap.of_eq fun address _ _ => outside0 address (by omega)).of_eq fun address _ _ =>
    outside1 address (by omega)).of_eq fun address _ _ => outside2 address (by omega)
  have held0 := (held0.mono (further1.mono outside1)).mono (further2.mono outside2)
  have described :=
    (((described .testBlockAllocation0).mono (room0.mono outside0)).mono (further1.mono outside1)).mono
    (further2.mono outside2)
  obtain ⟨rest4, copied, heldHeap, outsideHeap⟩ := Moves.copy held0 described furtherHeap longHeap frame.flags
  have held0 := held0.mono (furtherHeap.mono outsideHeap)
  have held1 := (held1.mono (further2.mono outside2)).mono (furtherHeap.mono outsideHeap)
  have held2 := held2.mono (furtherHeap.mono outsideHeap)
  have mapped1 (address : ℕ) (above : frame.blk1.address ≤ address)
      (below : address < frame.blk1.address + Literal.testBlockAllocation1.size) :
      (free rest4 frame.blk0.address Literal.testBlockAllocation0.size address).isSome := by
    rw [free_of_outside (by omega)]
    exact held1.mapped address above below
  have mapped2 (address : ℕ) (above : frame.blk2.address ≤ address)
      (below : address < frame.blk2.address + Literal.testBlockAllocation2.size) :
      (free (free rest4 frame.blk0.address Literal.testBlockAllocation0.size) frame.blk1.address
        Literal.testBlockAllocation1.size address).isSome := by
    rw [free_of_outside (by omega), free_of_outside (by omega)]
    exact held2.mapped address above below
  have left : Moves image rest4
      (free (free (free rest4 frame.blk0.address Literal.testBlockAllocation0.size) frame.blk1.address
        Literal.testBlockAllocation1.size) frame.blk2.address Literal.testBlockAllocation2.size)
      (do
        leave frame.blk0.address Literal.testBlockAllocation0.size
        leave frame.blk1.address Literal.testBlockAllocation1.size
        leave frame.blk2.address Literal.testBlockAllocation2.size) () :=
    (Moves.leave held0.mapped).bind ((Moves.leave mapped1).bind (Moves.leave mapped2))
  have called0 := held0.invoke (testBlockAllocationBlockFunc0_follows held0)
  have called1 := held1.invoke (testBlockAllocationBlockFunc1_follows held1)
  have called2 := held2.invoke (Follows.print (.function func))
  have calledHeap := heldHeap.invoke (testBlockAllocationBlockFunc0_follows heldHeap)
  refine ⟨_, .step made0 (.step made1 (.step made2 (.step copied (called0.bind fun _ => called1.bind fun _ =>
    called2.bind fun _ => calledHeap.close left)))), ?_⟩
  intro address away
  by_cases in2 : frame.blk2.address ≤ address ∧ address < frame.blk2.address + Literal.testBlockAllocation2.size
  · rw [free, if_pos in2, (room2 address in2.1 in2.2).1]
  · by_cases in1 : frame.blk1.address ≤ address ∧ address < frame.blk1.address + Literal.testBlockAllocation1.size
    · rw [free_of_outside (by omega), free, if_pos in1, (room1 address in1.1 in1.2).1]
    · by_cases in0 :
        frame.blk0.address ≤ address ∧ address < frame.blk0.address + Literal.testBlockAllocation0.size
      · rw [free_of_outside (by omega), free_of_outside (by omega), free, if_pos in0,
          (room0 address in0.1 in0.2).1]
      · rw [free_of_outside (by omega), free_of_outside (by omega), free_of_outside (by omega),
          outsideHeap address away,
          outside2 address (by omega), outside1 address (by omega), outside0 address (by omega)]

/-- With the lifetime of C++, the rewritten `testBlockAllocation` copies a block that is gone. -/
theorem testBlockAllocation_stuck {frame : Frame}
    (room : ∀ object ∈ frame.objects,
      Room image rest object.1.address object.2 ∧ object.1.content.length = object.2) :
    Stuck image rest (testBlockAllocation image .declaration frame) := by
  simp only [Frame.objects, List.forall_mem_cons, List.not_mem_nil, false_imp_iff, implies_true, and_true] at room
  obtain ⟨⟨room0, long0⟩, ⟨room1, long1⟩, ⟨room2, long2⟩, _⟩ := room
  refine .after (Moves.blockLiteral_declaration room0 long0 (.cons (length_encodeInt _) .nil)) ?_
  refine .after (Moves.blockLiteral_declaration room1 long1 (.cons (length_encodeInt _) .nil)) ?_
  refine .after (Moves.blockLiteral_declaration room2 long2 .nil) ?_
  exact ((Stuck.readPtr room0 (by decide)).bind _).bind _

/-! ## Runs -/

/-- A call of a test, with the objects it makes. -/
inductive Call where
  | testBlockAllocation (frame : Frame)
  | testBlockCaptureVar (object : Object)

def Call.objects : Call → List (Object × ℕ)
  | .testBlockAllocation frame => frame.objects
  | .testBlockCaptureVar object => [(object, Literal.testBlockCaptureVar0.size)]

def Call.run (image : Image) (lifetime : Lifetime) : Call → Program Unit
  | .testBlockAllocation frame => Rewritten.testBlockAllocation image lifetime frame
  | .testBlockCaptureVar object => Rewritten.testBlockCaptureVar image lifetime object

/-- The call of `main.m`. -/
def Call.source (func : String) : Call → BlockTests.Program Unit
  | .testBlockAllocation _ => BlockTests.testBlockAllocation func
  | .testBlockCaptureVar _ => BlockTests.testBlockCaptureVar

/-- There is nothing where the objects will be, and they do not overlap. -/
structure Call.Available (call : Call) (memory : Memory) : Prop where
  new : ∀ object ∈ call.objects, object.1.content.length = object.2 ∧
    ∀ address, object.1.address ≤ address → address < object.1.address + object.2 → memory address = none
  apart : call.objects.Pairwise Apart

/-- A number of calls, each with new objects, whose blocks last until the functions return. -/
inductive Run (image : Image) (start : World) : List Call → World → Prop where
  | start : Run image start [] start
  | call {calls : List Call} {world next : World} {call : Call} (run : Run image start calls world)
      (available : call.Available world.memory)
      (returns : (call.run image .function).run world = some ((), next)) :
      Run image start (calls ++ [call]) next

theorem Represents.room {state : BlockTests.State} {world : World}
    (represents : Represents image rest state world)
    {ptr size : ℕ} (new : ∀ address, ptr ≤ address → address < ptr + size → world.memory address = none) :
    Room image rest ptr size := by
  intro address above below
  have missing := new address above below
  have other : ¬ image.IsStatic address := by
    rintro ⟨static, after, before⟩
    obtain ⟨byte, found⟩ :
        ∃ byte, (encodeInt (state.value static))[address - image.staticVar static]? = some byte :=
      ⟨_, List.getElem?_eq_getElem (by rw [length_encodeInt]; omega)⟩
    have held := represents.value static _ byte found
    rw [Nat.add_sub_cancel' after, missing] at held
    cases held
  exact ⟨(represents.elsewhere other).symm.trans missing, other⟩

theorem Call.Available.room {state : BlockTests.State} {world : World} {call : Call}
    (available : call.Available world.memory) (represents : Represents image rest state world) :
    ∀ object ∈ call.objects, Room image rest object.1.address object.2 ∧ object.1.content.length = object.2 :=
  fun object member => ⟨represents.room (available.new object member).2, (available.new object member).1⟩

/-- One call. -/
theorem Call.follows (func : String) {state : BlockTests.State} {world : World} (described : Described image rest)
    (represents : Represents image rest state world) {call : Call} (available : call.Available world.memory) :
    ∃ last, Follows image rest last (call.source func) (call.run image .function) ∧
      ∀ address byte, rest address = some byte → last address = some byte := by
  have room := available.room represents
  cases call with
  | testBlockAllocation frame =>
    obtain ⟨last, follows, outside⟩ := testBlockAllocation_follows func described room available.apart
    have heap : (frame.heap, Literal.testBlockAllocation0.size) ∈ frame.objects := by simp [Frame.objects]
    exact ⟨last, follows, (room _ heap).1.mono outside⟩
  | testBlockCaptureVar object =>
    obtain ⟨free, long⟩ := room _ (List.mem_singleton_self _)
    exact ⟨rest, testBlockCaptureVar_follows free long, fun _ _ there => there⟩

/-- One call whose blocks are gone after their declarations. -/
theorem Call.stuck {state : BlockTests.State} {world : World} (represents : Represents image rest state world)
    {call : Call} (available : call.Available world.memory) : Stuck image rest (call.run image .declaration) := by
  have room := available.room represents
  cases call with
  | testBlockAllocation frame => exact testBlockAllocation_stuck room
  | testBlockCaptureVar object =>
    obtain ⟨free, long⟩ := room _ (List.mem_singleton_self _)
    exact testBlockCaptureVar_stuck free long

/-- What the run of the calls of `main.m` reaches is what the memory represents. -/
theorem Run.reached (func : String) {state : BlockTests.State} {start world : World} {calls : List Call}
    (described : Described image rest)
    (represents : Represents image rest state start) (run : Run image start calls world) :
    ∃ last after, (forM calls (Call.source func)).run state = some ((), after) ∧
      Represents image last after world ∧ ∀ address byte, rest address = some byte → last address = some byte := by
  induction run with
  | start => exact ⟨rest, state, rfl, represents, fun _ _ there => there⟩
  | @call calls world next call run available returns ih =>
    obtain ⟨mid, between, ran, here, more⟩ := ih
    obtain ⟨last, follows, further⟩ :=
      Call.follows func (fun literal => (described literal).mono more) here available
    have ends := follows between world here
    rw [returns] at ends
    obtain ⟨⟨_, after⟩, source, _, there⟩ : ∃ left, (call.source func).run between = some left ∧
        left.1 = () ∧ Represents image last left.2 next := by
      generalize (call.source func).run between = left at ends
      cases ends with
      | some both => exact ⟨_, rfl, both⟩
    refine ⟨last, after, ?_, there, fun address byte held => further address byte (more address byte held)⟩
    rw [List.forM_append, StateT.run_bind, ran, List.forM_cons, List.forM_nil, bind_pure_unit, Option.bind_eq_bind,
      Option.bind_some, source]

/-- However often the tests are called, with blocks that last until the functions return the rewritten calls print
what the calls of `main.m` print, but for the name of a function, leave the static variables with the same values,
and leave the rest of the memory intact; a further call then returns exactly when that of `main.m` does. With the
lifetime of C++, no further call has a meaning. -/
theorem rewritten_run (func : String) {state : BlockTests.State} {start world : World} {calls : List Call}
    (described : Described image rest) (represents : Represents image rest state start)
    (run : Run image start calls world) :
    ∃ last after, (forM calls (Call.source func)).run state = some ((), after) ∧
      Represents image last after world ∧
      (∀ address byte, rest address = some byte → last address = some byte) ∧
      ∀ call : Call, call.Available world.memory →
        ((call.run image .function).run world).isSome = ((call.source func).run after).isSome ∧
        (call.run image .declaration).run world = none := by
  obtain ⟨last, after, ran, here, more⟩ := run.reached func described represents
  refine ⟨last, after, ran, here, more, fun call available => ⟨?_, Call.stuck here available after world here⟩⟩
  obtain ⟨_, follows, _⟩ := Call.follows func (fun literal => (described literal).mono more) here available
  have ends := follows after world here
  generalize (call.run image .function).run world = right at ends
  generalize (call.source func).run after = left at ends
  cases ends <;> rfl

/-- The variables and the descriptors, one after another. -/
def dataSegment : List UInt8 :=
  List.replicate 16 0 ++ [40, 40, 32, 48].flatMap fun size => encodePtr 0 ++ encodePtr size

/-- An image with the data segment at 0. -/
def imageAtZero : Image where
  staticVar
    | .gVar1 => 0
    | .gVar2 => 4
    | .var4 => 8
  func
    | .testBlockAllocation0 => 4096
    | .testBlockAllocation1 => 4160
    | .testBlockAllocation2 => 4224
    | .testBlockCaptureVar0 => 4288
  desc
    | .testBlockAllocation0 => 16
    | .testBlockAllocation1 => 32
    | .testBlockAllocation2 => 48
    | .testBlockCaptureVar0 => 64
  stackBlock := 8192
  mallocBlock := 8448
  staticVar_lt static := by cases static <;> decide
  func_lt literal := by cases literal <;> decide
  desc_lt literal := by cases literal <;> decide
  func_injective left right := by cases left <;> cases right <;> decide
  apart static other := by cases static <;> cases other <;> decide

/-- The world before the first call. -/
def worldAtZero : World := ⟨(dataSegment[·]?), []⟩

/-- The data segment without the variables. -/
def restAtZero : Memory := fun address => if address < 12 then none else dataSegment[address]?

theorem represents_atZero : Represents imageAtZero restAtZero {} worldAtZero where
  value static := by
    apply holds_iff.mp
    cases static <;> decide
  lower _ := show -2 ^ 31 ≤ (0 : ℤ) by decide
  upper _ := show (0 : ℤ) < 2 ^ 31 by decide
  elsewhere {address} other := by
    refine (if_neg fun small => other ?_).symm
    obtain low | ⟨_, middle⟩ | ⟨_, high⟩ :
        address < 4 ∨ (4 ≤ address ∧ address < 8) ∨ (8 ≤ address ∧ address < 12) := by omega
    · exact ⟨.gVar1, Nat.zero_le _, low⟩
    · exact ⟨.gVar2, by assumption, middle⟩
    · exact ⟨.var4, by assumption, high⟩
  noStatic {address} := by
    rintro ⟨static, _, below⟩
    refine if_pos (Nat.lt_of_lt_of_le below ?_)
    cases static <;> decide
  console := rfl

/-- The first call of `testBlockCaptureVar`. -/
theorem rewritten_run_first :
    let call : Call := .testBlockCaptureVar ⟨1024, List.replicate 48 0xAA⟩
    (∃ world, Run imageAtZero worldAtZero [call] world ∧ world.console = BlockTests.lines 0) ∧
      (call.run imageAtZero .declaration).run worldAtZero = none := by
  intro call
  have described : Described imageAtZero restAtZero := by
    intro literal
    apply holds_iff.mp
    cases literal <;> decide
  have available : call.Available worldAtZero.memory := by
    refine ⟨fun object member => ?_, List.pairwise_singleton ..⟩
    obtain rfl := List.mem_singleton.mp member
    refine ⟨rfl, fun address above _ => List.getElem?_eq_none ?_⟩
    have long : dataSegment.length = 80 := by decide
    rw [long]
    exact le_trans (by decide) above
  have started : Run imageAtZero worldAtZero [] worldAtZero := .start
  obtain ⟨_, _, ran, _, _, further⟩ := rewritten_run "block" described represents_atZero started
  cases ran
  obtain ⟨same, gone⟩ := further call available
  obtain ⟨⟨_, world⟩, returns⟩ := Option.isSome_iff_exists.mp (same.trans (by decide))
  have run := started.call available returns
  obtain ⟨_, after, ran, here, _⟩ := rewritten_run "block" described represents_atZero run
  cases ran
  exact ⟨⟨world, run, here.console⟩, gone⟩

end INote.BlockAnalyze.Rewritten
