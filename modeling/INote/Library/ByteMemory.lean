import INote.Library.RecordLayout
import Mathlib.Data.List.OfFn

/-! # Byte memory

A memory gives the bytes that can be loaded, by address. Bytes that are stored are loaded again, and a
store changes nothing outside of them. The fields of a record are stored one after another; they do not
overlap, so each is loaded from its offset.
-/

namespace ByteMemory

open RecordLayout

abbrev Memory := ℕ → Option UInt8

/-- The bytes are there from an address on. -/
def Holds (memory : Memory) (ptr : ℕ) (bytes : List UInt8) : Prop :=
  ∀ index byte, bytes[index]? = some byte → memory (ptr + index) = some byte

/-- Store bytes from an address on. -/
def storeBytes (memory : Memory) (ptr : ℕ) (bytes : List UInt8) : Memory := fun address =>
  if ptr ≤ address ∧ address < ptr + bytes.length then bytes[address - ptr]? else memory address

/-- Load bytes from an address on. -/
def loadBytes (memory : Memory) (ptr size : ℕ) : Option (List UInt8) :=
  (List.range' ptr size).mapM memory

/-- The object at an address is gone. -/
def free (memory : Memory) (ptr size : ℕ) : Memory := fun address =>
  if ptr ≤ address ∧ address < ptr + size then none else memory address

variable {memory : Memory} {ptr : ℕ} {bytes : List UInt8}

/-! ## Stores and loads -/

theorem Holds.head {byte : UInt8} (held : Holds memory ptr (byte :: bytes)) :
    memory ptr = some byte := held 0 byte rfl

theorem Holds.tail {byte : UInt8} (held : Holds memory ptr (byte :: bytes)) : Holds memory (ptr + 1) bytes := by
  intro index other found
  rw [Nat.add_assoc, Nat.add_comm 1]
  exact held (index + 1) other found

theorem loadBytes_of_holds (held : Holds memory ptr bytes) :
    loadBytes memory ptr bytes.length = some bytes := by
  unfold loadBytes
  induction bytes generalizing ptr with
  | nil => rfl
  | cons byte rest ih =>
    rw [List.length_cons, List.range'_succ, List.mapM_cons, held.head, ih held.tail]
    rfl

/-- Nothing is loaded where there is no object. -/
theorem loadBytes_eq_none {size : ℕ} (missing : memory ptr = none) (positive : 0 < size) :
    loadBytes memory ptr size = none := by
  obtain ⟨rest, rfl⟩ := Nat.exists_eq_add_of_le' positive
  rw [loadBytes, List.range'_succ, List.mapM_cons, missing]
  rfl

/-- What is loaded is there. -/
theorem holds_iff : loadBytes memory ptr bytes.length = some bytes ↔ Holds memory ptr bytes := by
  refine ⟨fun loaded => ?_, loadBytes_of_holds⟩
  unfold loadBytes at loaded
  induction bytes generalizing ptr with
  | nil => exact fun _ _ found => nomatch found
  | cons byte rest ih =>
    rw [List.length_cons, List.range'_succ, List.mapM_cons] at loaded
    obtain ⟨first, here, later⟩ := Option.bind_eq_some_iff.mp loaded
    obtain ⟨others, there, last⟩ := Option.bind_eq_some_iff.mp later
    cases last
    intro index other found
    cases index with
    | zero =>
      cases found
      exact here
    | succ index =>
      rw [Nat.add_comm index, ← Nat.add_assoc]
      exact ih there index other found

/-- What can be loaded byte by byte is there. -/
theorem exists_holds {size : ℕ} (loadable : ∀ index < size, (memory (ptr + index)).isSome) :
    ∃ bytes : List UInt8, bytes.length = size ∧ Holds memory ptr bytes := by
  refine ⟨List.ofFn fun index : Fin size => (memory (ptr + index)).get (loadable index index.2),
    List.length_ofFn, ?_⟩
  intro index byte found
  rw [List.getElem?_ofFn] at found
  split at found
  · rw [← Option.some.inj found, Option.some_get]
  · cases found

/-- A memory with more objects has those that were there. -/
theorem Holds.mono {other : Memory} (held : Holds memory ptr bytes)
    (more : ∀ address byte, memory address = some byte → other address = some byte) : Holds other ptr bytes :=
  fun index byte found => more _ _ (held index byte found)

theorem Holds.of_append {first second : List UInt8} (held : Holds memory ptr (first ++ second)) :
    Holds memory ptr first ∧ Holds memory (ptr + first.length) second := by
  constructor
  · intro index byte found
    have bound := (List.getElem?_eq_some_iff.mp found).1
    exact held index byte (by rw [List.getElem?_append_left bound, found])
  · intro index byte found
    rw [Nat.add_assoc]
    exact held (first.length + index) byte (by
      rw [List.getElem?_append_right (Nat.le_add_right ..), Nat.add_sub_cancel_left, found])

theorem holds_storeBytes (memory : Memory) (ptr : ℕ) (bytes : List UInt8) :
    Holds (storeBytes memory ptr bytes) ptr bytes := by
  intro index byte found
  have bound := (List.getElem?_eq_some_iff.mp found).1
  rw [storeBytes, if_pos ⟨Nat.le_add_right .., Nat.add_lt_add_left bound _⟩, Nat.add_sub_cancel_left, found]

/-- A store changes nothing outside. -/
theorem storeBytes_of_outside {address : ℕ} (outside : address < ptr ∨ ptr + bytes.length ≤ address) :
    storeBytes memory ptr bytes address = memory address := by
  rw [storeBytes, if_neg (by omega)]

theorem Holds.storeBytes_of_apart {other : ℕ} {kept : List UInt8} (held : Holds memory other kept)
    (apart : other + kept.length ≤ ptr ∨ ptr + bytes.length ≤ other) :
    Holds (storeBytes memory ptr bytes) other kept := by
  intro index byte found
  have bound := (List.getElem?_eq_some_iff.mp found).1
  rw [storeBytes_of_outside (by omega)]
  exact held index byte found

/-- Two stores side by side are one. -/
theorem storeBytes_append (memory : Memory) (ptr : ℕ) (first second : List UInt8) :
    storeBytes (storeBytes memory ptr first) (ptr + first.length) second =
      storeBytes memory ptr (first ++ second) := by
  funext address
  simp only [storeBytes, List.length_append]
  by_cases later : ptr + first.length ≤ address
  · by_cases within : address < ptr + first.length + second.length
    · rw [if_pos ⟨later, within⟩, if_pos (by omega), List.getElem?_append_right (by omega), Nat.sub_add_eq]
    · rw [if_neg (by omega), if_neg (by omega), if_neg (by omega)]
  · rw [if_neg (by omega)]
    by_cases within : ptr ≤ address
    · rw [if_pos (by omega), if_pos (by omega), List.getElem?_append_left (by omega)]
    · rw [if_neg (by omega), if_neg (by omega)]

/-- A store of the same length forgets the one before it. -/
theorem storeBytes_storeBytes (memory : Memory) (ptr : ℕ) {first second : List UInt8}
    (long : first.length = second.length) :
    storeBytes (storeBytes memory ptr first) ptr second = storeBytes memory ptr second := by
  funext address
  simp only [storeBytes, long]
  split <;> rfl

/-- Stores keep what can be loaded. -/
theorem isSome_storeBytes {address : ℕ} (loaded : (memory address).isSome) (ptr : ℕ) (bytes : List UInt8) :
    (storeBytes memory ptr bytes address).isSome := by
  rw [storeBytes]
  split
  · next inside =>
    rw [List.getElem?_eq_getElem (by omega)]
    rfl
  · exact loaded

theorem free_of_outside {size address : ℕ} (outside : address < ptr ∨ ptr + size ≤ address) :
    free memory ptr size address = memory address := by
  rw [free, if_neg (by omega)]

/-! ## Fields -/

/-- Store the fields at their offsets. -/
def storeFields (ptr : ℕ) : List ℕ → List (List UInt8) → Memory → Memory
  | offset :: offsets, value :: values, memory =>
    storeFields ptr offsets values (storeBytes memory (ptr + offset) value)
  | _, _, memory => memory

/-- Storing fields changes nothing outside of their places, and each is where it was put. -/
theorem storeFields_spec (ptr : ℕ) {start stop : ℕ} {fields : List Extent} {places : List ℕ}
    (placed : Placed start fields places stop) {values : List (List UInt8)}
    (long : List.Forall₂ (fun (field : Extent) value => value.length = field.size) fields values)
    (memory : Memory) :
    (∀ address, address < ptr + start ∨ ptr + stop ≤ address →
      storeFields ptr places values memory address = memory address) ∧
    ∀ (index : ℕ) (offset : ℕ) (value : List UInt8), places[index]? = some offset → values[index]? = some value →
      Holds (storeFields ptr places values memory) (ptr + offset) value := by
  induction placed generalizing values memory with
  | nil =>
    cases long
    exact ⟨fun _ _ => rfl, fun _ _ _ place => nomatch place⟩
  | @cons start offset stop field fields others above aligned rest ih =>
    cases long with
    | @cons _ value _ values here later =>
      obtain ⟨outside, stored⟩ := ih later (storeBytes memory (ptr + offset) value)
      have bound := rest.start_le_stop
      constructor
      · intro address away
        rw [storeFields, outside address (by omega), storeBytes_of_outside (by omega)]
      · intro index place found at_place at_value
        cases index with
        | zero =>
          cases at_place
          cases at_value
          intro byteIndex byte at_byte
          have inside := (List.getElem?_eq_some_iff.mp at_byte).1
          rw [storeFields, outside _ (by omega)]
          exact holds_storeBytes memory _ value byteIndex byte at_byte
        | succ index => exact stored index place found at_place at_value

theorem isSome_storeFields (ptr : ℕ) {address : ℕ} (loaded : (memory address).isSome) (places : List ℕ)
    (values : List (List UInt8)) : (storeFields ptr places values memory address).isSome := by
  induction places generalizing values memory with
  | nil => exact loaded
  | cons offset places ih =>
    cases values with
    | nil => exact loaded
    | cons value values => exact ih (isSome_storeBytes loaded _ value) values

end ByteMemory
