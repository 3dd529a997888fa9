import INote.Library.RecordLayout
import Mathlib.Data.List.Nodup
import Mathlib.Data.List.Pairwise

/-! # Records of records

The parts of a record are those of its fields, moved to where the fields are. A layout carries that its parts
are aligned, inside and apart, so a record of layouts is a layout.
-/

namespace RecordLayout

/-- A part of a record. -/
structure LaidPart (ι : Type) where
  label : ι
  offset : ℕ
  extent : Extent
deriving DecidableEq

variable {ι κ : Type}

namespace LaidPart

def finish (part : LaidPart ι) : ℕ := part.offset + part.extent.size

def move (distance : ℕ) (part : LaidPart ι) : LaidPart ι := { part with offset := distance + part.offset }

def relabel (rename : ι → κ) (part : LaidPart ι) : LaidPart κ := ⟨rename part.label, part.offset, part.extent⟩

@[simp] theorem finish_move (distance : ℕ) (part : LaidPart ι) :
    (part.move distance).finish = distance + part.finish :=
  Nat.add_assoc ..

/-- The part is aligned wherever the extent is, and inside of it. -/
structure Inside (extent : Extent) (part : LaidPart ι) : Prop where
  shift_le : part.extent.shift ≤ extent.shift
  aligned : part.extent.alignment ∣ part.offset
  finish_le : part.finish ≤ extent.size

def Apart (first second : LaidPart ι) : Prop := first.finish ≤ second.offset ∨ second.finish ≤ first.offset

instance : Std.Symm (@Apart ι) := ⟨fun _ _ apart => apart.symm⟩

theorem Apart.move {first second : LaidPart ι} (distance : ℕ) (apart : Apart first second) :
    Apart (first.move distance) (second.move distance) := by
  rw [Apart, finish_move, finish_move]
  exact apart.imp (Nat.add_le_add_left · distance) (Nat.add_le_add_left · distance)

end LaidPart

/-- An extent and its parts. -/
structure Laid (ι : Type) where
  extent : Extent
  parts : List (LaidPart ι)
  inside : ∀ part ∈ parts, part.Inside extent
  apart : parts.Pairwise LaidPart.Apart

/-- The parts of fields that are placed from an offset on. -/
def nested : ℕ → List (Laid ι) → List (LaidPart ι)
  | _, [] => []
  | start, field :: fields =>
    let offset := roundUp start field.extent.alignment
    field.parts.map (LaidPart.move offset) ++ nested (offset + field.extent.size) fields

def Laid.labels (laid : Laid ι) : List ι := laid.parts.map LaidPart.label

theorem labels_nested (start : ℕ) (fields : List (Laid ι)) :
    (nested start fields).map LaidPart.label = fields.flatMap Laid.labels := by
  induction fields generalizing start with
  | nil => rfl
  | cons field fields ih =>
    rw [nested, List.map_append, ih, List.map_map, List.flatMap_cons]
    rfl

/-- A part of a field is where the field is, at its place there. -/
theorem exists_of_mem_nested {start : ℕ} {fields : List (Laid ι)} {part : LaidPart ι}
    (member : part ∈ nested start fields) :
    ∃ field ∈ fields, ∃ inner ∈ field.parts, ∃ offset, part = inner.move offset ∧
      start ≤ offset ∧ field.extent.alignment ∣ offset ∧
      offset + field.extent.size ≤ finish start (fields.map Laid.extent) := by
  induction fields generalizing start with
  | nil => cases member
  | cons field fields ih =>
    have above : start ≤ roundUp start field.extent.alignment := le_roundUp field.extent.alignment_pos
    rcases List.mem_append.mp member with here | later
    · obtain ⟨inner, found, rfl⟩ := List.mem_map.mp here
      refine ⟨field, List.mem_cons_self, inner, found, _, rfl, above, dvd_roundUp .., ?_⟩
      exact (placed_offsets _ (fields.map Laid.extent)).start_le_stop
    · obtain ⟨other, found, inner, within, offset, moved, after, aligned, ends⟩ := ih later
      exact ⟨other, List.mem_cons_of_mem _ found, inner, within, offset, moved, by omega, aligned, ends⟩

/-- Each field is somewhere. -/
theorem exists_move_mem_nested (start : ℕ) {fields : List (Laid ι)} {field : Laid ι} (member : field ∈ fields) :
    ∃ offset, ∀ part ∈ field.parts, part.move offset ∈ nested start fields := by
  induction fields generalizing start with
  | nil => cases member
  | cons other fields ih =>
    rcases List.mem_cons.mp member with rfl | later
    · exact ⟨_, fun part found => List.mem_append_left _ (List.mem_map_of_mem found)⟩
    · obtain ⟨offset, moved⟩ := ih _ later
      exact ⟨offset, fun part found => List.mem_append_right _ (moved part found)⟩

theorem nested_apart (start : ℕ) (fields : List (Laid ι)) : (nested start fields).Pairwise LaidPart.Apart := by
  induction fields generalizing start with
  | nil => exact .nil
  | cons field fields ih =>
    refine List.pairwise_append.mpr ⟨?_, ih _, ?_⟩
    · exact List.pairwise_map.mpr (field.apart.imp fun apart => apart.move _)
    · intro first here second later
      obtain ⟨inner, found, rfl⟩ := List.mem_map.mp here
      obtain ⟨_, _, other, _, offset, rfl, after, _⟩ := exists_of_mem_nested later
      have ends := (field.inside inner found).finish_le
      left
      rw [LaidPart.finish_move]
      change _ ≤ offset + other.offset
      omega

namespace Laid

def leaf (label : ι) (extent : Extent) : Laid ι where
  extent := extent
  parts := [⟨label, 0, extent⟩]
  inside := List.forall_mem_singleton.mpr ⟨le_rfl, Nat.dvd_zero _, (Nat.zero_add _).le⟩
  apart := List.pairwise_singleton ..

/-- The layouts in order, each at the next multiple of its alignment. -/
def record (fields : List (Laid ι)) : Laid ι where
  extent := RecordLayout.record 0 (fields.map Laid.extent)
  parts := nested 0 fields
  inside := by
    intro part member
    obtain ⟨field, found, inner, within, offset, rfl, _, aligned, ends⟩ := exists_of_mem_nested member
    have inside := field.inside inner within
    refine ⟨?_, ?_, ?_⟩
    · exact inside.shift_le.trans (shift_le_foldr_max (List.mem_map_of_mem (List.mem_map_of_mem found)))
    · exact Nat.dvd_add ((Extent.alignment_dvd inside.shift_le).trans aligned) inside.aligned
    · rw [LaidPart.finish_move]
      exact (Nat.add_le_add_left inside.finish_le offset).trans ends
  apart := nested_apart 0 fields

def relabel (rename : ι → κ) (laid : Laid ι) : Laid κ where
  extent := laid.extent
  parts := laid.parts.map (LaidPart.relabel rename)
  inside := by
    intro part member
    obtain ⟨inner, found, rfl⟩ := List.mem_map.mp member
    obtain ⟨shift_le, aligned, finish_le⟩ := laid.inside inner found
    exact ⟨shift_le, aligned, finish_le⟩
  apart := List.pairwise_map.mpr laid.apart

theorem labels_record (fields : List (Laid ι)) : (record fields).labels = fields.flatMap labels :=
  labels_nested 0 fields

theorem labels_relabel (rename : ι → κ) (laid : Laid ι) :
    (laid.relabel rename).labels = laid.labels.map rename := by
  rw [labels, relabel, labels, List.map_map, List.map_map]
  rfl

/-- The part of a label. -/
def part? [DecidableEq ι] (laid : Laid ι) (label : ι) : Option (LaidPart ι) :=
  laid.parts.find? fun part => part.label = label

theorem part?_eq_some [DecidableEq ι] {laid : Laid ι} {label : ι} {part : LaidPart ι}
    (found : laid.part? label = some part) : part ∈ laid.parts ∧ part.label = label := by
  have same := List.find?_some found
  exact ⟨List.mem_of_find?_eq_some found, of_decide_eq_true same⟩

/-- With different labels every part is found. -/
theorem part?_of_mem [DecidableEq ι] {laid : Laid ι} (distinct : laid.labels.Nodup) {part : LaidPart ι}
    (member : part ∈ laid.parts) : laid.part? part.label = some part := by
  obtain ⟨other, found⟩ : ∃ other, laid.part? part.label = some other := by
    rw [← Option.isSome_iff_exists, part?, List.find?_isSome]
    exact ⟨part, member, decide_eq_true rfl⟩
  obtain ⟨otherMember, same⟩ := part?_eq_some found
  rw [found, List.inj_on_of_nodup_map distinct otherMember member same]

/-- Parts of different labels are apart. -/
theorem apart_of_ne [DecidableEq ι] {laid : Laid ι} {label other : ι} {part otherPart : LaidPart ι}
    (ne : label ≠ other) (found : laid.part? label = some part)
    (otherFound : laid.part? other = some otherPart) : part.Apart otherPart := by
  obtain ⟨member, rfl⟩ := part?_eq_some found
  obtain ⟨otherMember, rfl⟩ := part?_eq_some otherFound
  exact laid.apart.forall member otherMember fun same => ne (congrArg LaidPart.label same)

end Laid

end RecordLayout
