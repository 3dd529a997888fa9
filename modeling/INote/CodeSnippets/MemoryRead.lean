import INote.Library.LittleEndian
import INote.Library.Writes
import Mathlib.Data.List.Nodup
import Mathlib.Data.List.Range

/-! # Reading memory through a buffer

`read_memory` copies eight bytes at a time into a buffer and reads each pointer from there. What it prints is
what the chain of pointers in its comment gives.
-/

namespace INote.CodeSnippets.MemoryRead

/-- The bytes that can be read, by address. -/
abbrev Memory := UInt64 → Option UInt8

/-- The addresses of an object. -/
def span (address : UInt64) (size : ℕ) : List UInt64 :=
  (List.range size).map fun offset => address + UInt64.ofNat offset

/-- `*(unsigned long *)address`. -/
def load64 (memory : Memory) (address : UInt64) : Option UInt64 :=
  (Writes.load (span address 8) memory).map fun bytes => UInt64.ofNat (LittleEndian.decode bytes)

/-- What `malloc` returns. -/
structure Buffer where
  address : UInt64
  size : ℕ

/-- `malloc`: the addresses of the buffer can be read, with any content. -/
def malloc (buffer : Buffer) (content : List UInt8) (memory : Memory) : Memory :=
  Writes.perform ((span buffer.address buffer.size).zip (content.map some)) memory

def free (buffer : Buffer) (memory : Memory) : Memory := fun address =>
  if address ∈ span buffer.address buffer.size then none else memory address

/-- `memcpy(buffer, ptr, size)`. The buffer has room, and the two do not overlap. -/
def memcpy (buffer : Buffer) (ptr : UInt64) (size : ℕ) (memory : Memory) : Option Memory := do
  guard (size ≤ buffer.size ∧ (span ptr size).all fun address => address ∉ span buffer.address size)
  let bytes ← Writes.load (span ptr size) memory
  return Writes.perform ((span buffer.address size).zip (bytes.map some)) memory

/-- `*(unsigned long *)buffer`. The buffer is as long as the number. -/
def Buffer.load64 (buffer : Buffer) (memory : Memory) : Option UInt64 := do
  guard (8 ≤ buffer.size)
  MemoryRead.load64 memory buffer.address

/-- `read_memory`: the number it prints, and the memory it leaves. There is no result where the program has no
meaning. -/
def readMemory (buffer : UInt64) (content : List UInt8) (addr : UInt64) (memory : Memory) :
    Option (UInt64 × Memory) := do
  let ptr := addr
  let size := 8
  let buffer : Buffer := ⟨buffer, size⟩
  let memory := malloc buffer content memory
  let memory ← memcpy buffer ptr size memory
  let var0 ← buffer.load64 memory
  let var0 := var0 + 0x68
  let memory ← memcpy buffer var0 size memory
  let var1 ← buffer.load64 memory
  let var1 := var1 + 0xe0
  let memory ← memcpy buffer var1 size memory
  let uid ← buffer.load64 memory
  return (uid, free buffer memory)

/-- `*(_QWORD *)(*(_QWORD *)(*(_QWORD *)arg + 104LL) + 224LL)`. -/
def pointerChain (arg : UInt64) (memory : Memory) : Option UInt64 := do
  let first ← load64 memory arg
  let second ← load64 memory (first + 104)
  load64 memory (second + 224)

/-! ## One copy -/

theorem nodup_span (address : UInt64) {size : ℕ} (small : size ≤ UInt64.size) : (span address size).Nodup := by
  refine List.Nodup.map_on ?_ List.nodup_range
  intro left leftMem right rightMem same
  rw [List.mem_range] at leftMem rightMem
  have offsets := congrArg UInt64.toNat (UInt64.add_right_inj address |>.mp same)
  rwa [UInt64.toNat_ofNat_of_lt' (Nat.lt_of_lt_of_le leftMem small),
    UInt64.toNat_ofNat_of_lt' (Nat.lt_of_lt_of_le rightMem small)] at offsets

theorem length_span (address : UInt64) (size : ℕ) : (span address size).length = size := by
  rw [span, List.length_map, List.length_range]

/-- The memory is as it was before the buffer was there, except in the buffer. -/
def Outside (buffer : Buffer) (before memory : Memory) : Prop :=
  ∀ address ∉ span buffer.address buffer.size, memory address = before address

/-- Writing to the buffer changes nothing else. -/
theorem Outside.perform {buffer : Buffer} {before memory : Memory} (outside : Outside buffer before memory)
    (bytes : List UInt8) {size : ℕ} (room : size ≤ buffer.size) :
    Outside buffer before (Writes.perform ((span buffer.address size).zip (bytes.map some)) memory) := by
  intro address away
  rw [Writes.perform_of_not_mem, outside address away]
  intro written
  obtain ⟨write, member, rfl⟩ := List.mem_map.mp written
  obtain ⟨offset, below, here⟩ := List.mem_map.mp (List.of_mem_zip member).1
  refine away (List.mem_map.mpr ⟨offset, ?_, here⟩)
  rw [List.mem_range] at below ⊢
  omega

/-- Copying eight bytes and loading them from the buffer is loading them from where they were. -/
theorem memcpy_load64 {buffer : Buffer} {before memory : Memory} (size : buffer.size = 8)
    (fresh : ∀ address ∈ span buffer.address buffer.size, before address = none)
    (outside : Outside buffer before memory) (ptr : UInt64) :
    match load64 before ptr with
    | none => memcpy buffer ptr 8 memory = none
    | some value => ∃ next, memcpy buffer ptr 8 memory = some next ∧ buffer.load64 next = some value ∧
        Outside buffer before next := by
  rw [size] at fresh
  by_cases apart : (span ptr 8).all fun address => address ∉ span buffer.address 8
  · have away : ∀ address ∈ span ptr 8, address ∉ span buffer.address 8 := by
      simpa only [List.all_eq_true, decide_eq_true_eq] using apart
    have same : Writes.load (span ptr 8) memory = Writes.load (span ptr 8) before :=
      Writes.load_congr fun address member => outside address (size ▸ away address member)
    have copied : memcpy buffer ptr 8 memory = (Writes.load (span ptr 8) before).map fun bytes =>
        Writes.perform ((span buffer.address 8).zip (bytes.map some)) memory := by
      rw [memcpy, guard, if_pos ⟨size.ge, apart⟩, same]
      cases Writes.load (span ptr 8) before <;> rfl
    rw [copied, load64]
    cases loaded : Writes.load (span ptr 8) before with
    | none => rfl
    | some bytes =>
      have long := (Writes.length_of_load loaded).trans (length_span ptr 8)
      refine ⟨_, rfl, ?_, outside.perform bytes size.ge⟩
      rw [Buffer.load64, guard, if_pos size.ge]
      change (Writes.load (span buffer.address 8) _).map _ = _
      rw [Writes.load_perform (nodup_span _ (by decide)) (long.trans (length_span _ 8).symm)]
      rfl
  · obtain ⟨address, read, inside⟩ : ∃ address ∈ span ptr 8, address ∈ span buffer.address 8 := by
      simpa only [List.all_eq_true, decide_eq_true_eq, not_forall, not_not, exists_prop] using apart
    have missing : load64 before ptr = none := by
      rw [load64, Writes.load_eq_none read (fresh address inside), Option.map_none]
    rw [missing]
    simp only
    rw [memcpy, guard, if_neg fun both => apart both.2]
    rfl

/-- What follows a copy and a load depends on the loaded number only. -/
theorem bind_memcpy_load64 {α : Type} {buffer : Buffer} {before memory : Memory} (size : buffer.size = 8)
    (fresh : ∀ address ∈ span buffer.address buffer.size, before address = none)
    (outside : Outside buffer before memory) (ptr : UInt64) {next : UInt64 → Memory → Option α}
    {plain : UInt64 → Option α}
    (same : ∀ value memory, Outside buffer before memory → next value memory = plain value) :
    (do
      let memory ← memcpy buffer ptr 8 memory
      let value ← buffer.load64 memory
      next value memory) = (load64 before ptr).bind plain := by
  have copied := memcpy_load64 size fresh outside ptr
  cases loaded : load64 before ptr with
  | none =>
    rw [loaded] at copied
    simp only at copied
    rw [copied]
    rfl
  | some value =>
    rw [loaded] at copied
    obtain ⟨after, copy, read, kept⟩ := copied
    rw [copy, Option.bind_eq_bind, Option.bind_some, read, Option.bind_eq_bind, Option.bind_some, Option.bind_some,
      same value after kept]

/-! ## The chain -/

/-- When the buffer is freed, the memory is what it was. -/
theorem Outside.free {buffer : Buffer} {before memory : Memory} (outside : Outside buffer before memory)
    (fresh : ∀ address ∈ span buffer.address buffer.size, before address = none) :
    free buffer memory = before := by
  funext address
  by_cases inside : address ∈ span buffer.address buffer.size
  · rw [MemoryRead.free, if_pos inside, fresh address inside]
  · rw [MemoryRead.free, if_neg inside, outside address inside]

/-- With a buffer where nothing was before, `read_memory` prints what the chain of pointers gives and leaves
the memory as it was; it has no meaning exactly when the chain has none. -/
theorem readMemory_eq_pointerChain (buffer addr : UInt64) (content : List UInt8) (memory : Memory)
    (fresh : ∀ address ∈ span buffer 8, memory address = none) :
    readMemory buffer content addr memory = (pointerChain addr memory).map fun uid => (uid, memory) := by
  have outside : Outside ⟨buffer, 8⟩ memory (malloc ⟨buffer, 8⟩ content memory) :=
    Outside.perform (fun _ _ => rfl) content le_rfl
  have chain : ((pointerChain addr memory).map fun uid => (uid, memory)) =
      (load64 memory addr).bind fun var0 => (load64 memory (var0 + 0x68)).bind fun var1 =>
        (load64 memory (var1 + 0xe0)).bind fun uid => some (uid, memory) := by
    simp only [pointerChain, Option.bind_eq_bind, Option.map_eq_bind, Option.bind_assoc]
    rfl
  rw [chain, readMemory]
  refine bind_memcpy_load64 rfl fresh outside addr fun var0 memory₁ outside₁ => ?_
  refine bind_memcpy_load64 rfl fresh outside₁ (var0 + 0x68) fun var1 memory₂ outside₂ => ?_
  refine bind_memcpy_load64 rfl fresh outside₂ (var1 + 0xe0) fun uid memory₃ outside₃ => ?_
  rw [outside₃.free fresh]
  rfl

/-- A page with a pointer to 64 at 16, a pointer to 8 at 168 and a 7 at 232. -/
def page : Memory := fun address =>
  if address < 4096 then
    some (if address = 16 then 64 else if address = 168 then 8 else if address = 232 then 7 else 0)
  else none

theorem readMemory_eq_pointerChain_page :
    (∀ address ∈ span 8192 8, page address = none) ∧
      readMemory 8192 (List.replicate 8 0xAA) 16 page = some (7, page) := by
  have fresh : ∀ address ∈ span 8192 8, page address = none := by
    simp only [span, List.forall_mem_map, List.mem_range]
    decide
  have chain : pointerChain 16 page = some 7 := by decide
  refine ⟨fresh, ?_⟩
  rw [readMemory_eq_pointerChain 8192 16 (List.replicate 8 0xAA) page fresh, chain]
  rfl

end INote.CodeSnippets.MemoryRead
