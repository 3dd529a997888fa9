import Mathlib.Algebra.BigOperators.Group.List.Basic
import Mathlib.Algebra.Order.Ring.Nat
import Mathlib.Data.List.Perm.Basic
import Mathlib.Order.Lattice

/-! # Record layout

The fields of a record are placed in order, each at the next multiple of its alignment. No other
placement in this order ends earlier, and no order ends earlier than one in which alignments
decrease. Fields do not overlap, so what is stored in them is read back from the bytes of the record.
-/

namespace RecordLayout

/-- The next multiple of an alignment. -/
def roundUp (offset alignment : ℕ) : ℕ := (offset + (alignment - 1)) / alignment * alignment

section RoundUp

variable {offset alignment : ℕ}

theorem dvd_roundUp (offset alignment : ℕ) : alignment ∣ roundUp offset alignment := Nat.dvd_mul_left ..

theorem le_roundUp (positive : 0 < alignment) : offset ≤ roundUp offset alignment := by
  have split := Nat.div_add_mod (offset + (alignment - 1)) alignment
  have rest := Nat.mod_lt (offset + (alignment - 1)) positive
  rw [roundUp, Nat.mul_comm]
  omega

/-- There is no multiple in between. -/
theorem roundUp_le {multiple : ℕ} (above : offset ≤ multiple) (divides : alignment ∣ multiple) :
    roundUp offset alignment ≤ multiple := by
  obtain ⟨count, rfl⟩ := divides
  obtain rfl | positive := Nat.eq_zero_or_pos alignment
  · rw [roundUp, Nat.mul_zero]
    exact Nat.zero_le _
  · have fits : (offset + (alignment - 1)) / alignment < count + 1 := by
      rw [Nat.div_lt_iff_lt_mul positive, Nat.mul_comm, Nat.mul_succ]
      omega
    rw [roundUp, Nat.mul_comm]
    exact Nat.mul_le_mul_left _ (Nat.le_of_lt_succ fits)

theorem roundUp_of_dvd (positive : 0 < alignment) (divides : alignment ∣ offset) :
    roundUp offset alignment = offset :=
  Nat.le_antisymm (roundUp_le le_rfl divides) (le_roundUp positive)

theorem roundUp_mono {other : ℕ} (positive : 0 < alignment) (below : offset ≤ other) :
    roundUp offset alignment ≤ roundUp other alignment :=
  roundUp_le (below.trans (le_roundUp positive)) (dvd_roundUp ..)

end RoundUp

/-- The size of a type, and its alignment, which is a power of two. -/
structure Extent where
  size : ℕ
  shift : ℕ
deriving DecidableEq

namespace Extent

def alignment (extent : Extent) : ℕ := 2 ^ extent.shift

/-- The distance of neighbours in an array. -/
def stride (extent : Extent) : ℕ := max 1 (roundUp extent.size extent.alignment)

theorem alignment_pos (extent : Extent) : 0 < extent.alignment := Nat.two_pow_pos _

theorem alignment_dvd {left right : Extent} (below : left.shift ≤ right.shift) :
    left.alignment ∣ right.alignment :=
  Nat.pow_dvd_pow 2 below

theorem size_le_stride (extent : Extent) : extent.size ≤ extent.stride :=
  (le_roundUp extent.alignment_pos).trans (le_max_right ..)

/-- A type that is not empty takes a multiple of its alignment. -/
theorem alignment_dvd_stride {extent : Extent} (nonempty : 0 < extent.size) :
    extent.alignment ∣ extent.stride := by
  have positive : 1 ≤ roundUp extent.size extent.alignment :=
    nonempty.trans_le (le_roundUp extent.alignment_pos)
  rw [stride, max_eq_right positive]
  exact dvd_roundUp ..

end Extent

/-- `int` and pointers, where a pointer has eight bytes. -/
def int : Extent := ⟨4, 2⟩

def pointer : Extent := ⟨8, 3⟩

/-- Where the fields are placed from an offset on. -/
def offsets : ℕ → List Extent → List ℕ
  | _, [] => []
  | start, field :: fields =>
    let offset := roundUp start field.alignment
    offset :: offsets (offset + field.size) fields

/-- Where the last of them ends. -/
def finish : ℕ → List Extent → ℕ
  | start, [] => start
  | start, field :: fields => finish (roundUp start field.alignment + field.size) fields

/-- The record with fields from an offset on. -/
def record (start : ℕ) (fields : List Extent) : Extent where
  size := finish start fields
  shift := (fields.map Extent.shift).foldr max 0

theorem shift_le_foldr_max {shifts : List ℕ} {shift : ℕ} (member : shift ∈ shifts) :
    shift ≤ shifts.foldr max 0 := by
  induction shifts with
  | nil => cases member
  | cons head rest ih =>
    rw [List.foldr_cons]
    cases member with
    | head => exact le_max_left ..
    | tail _ later => exact (ih later).trans (le_max_right ..)

/-- The alignment of a field divides that of the record. -/
theorem alignment_dvd_record {start : ℕ} {fields : List Extent} {field : Extent} (member : field ∈ fields) :
    field.alignment ∣ (record start fields).alignment :=
  Extent.alignment_dvd (shift_le_foldr_max (List.mem_map.mpr ⟨field, member, rfl⟩))

/-! ## Placements -/

/-- The fields are at multiples of their alignments, one after another between two offsets. -/
inductive Placed : ℕ → List Extent → List ℕ → ℕ → Prop
  | nil {start stop : ℕ} (room : start ≤ stop) : Placed start [] [] stop
  | cons {start offset stop : ℕ} {field : Extent} {fields : List Extent} {others : List ℕ} (above : start ≤ offset)
      (aligned : field.alignment ∣ offset) (rest : Placed (offset + field.size) fields others stop) :
      Placed start (field :: fields) (offset :: others) stop

theorem placed_offsets (start : ℕ) (fields : List Extent) :
    Placed start fields (offsets start fields) (finish start fields) := by
  induction fields generalizing start with
  | nil => exact .nil le_rfl
  | cons field fields ih => exact .cons (le_roundUp field.alignment_pos) (dvd_roundUp ..) (ih _)

theorem Placed.start_le_stop {start stop : ℕ} {fields : List Extent} {places : List ℕ}
    (placed : Placed start fields places stop) : start ≤ stop := by
  induction placed with
  | nil room => exact room
  | cons above _ _ ih => omega

/-- No placement ends earlier. -/
theorem Placed.finish_le {start stop : ℕ} {fields : List Extent} {places : List ℕ}
    (placed : Placed start fields places stop) {before : ℕ} (below : before ≤ start) :
    finish before fields ≤ stop := by
  induction placed generalizing before with
  | nil room => exact below.trans room
  | cons above aligned _ ih => exact ih (Nat.add_le_add_right (roundUp_le (below.trans above) aligned) _)

theorem Placed.start_le {start stop : ℕ} {fields : List Extent} {places : List ℕ}
    (placed : Placed start fields places stop) {index offset : ℕ} (place : places[index]? = some offset) :
    start ≤ offset := by
  induction placed generalizing index with
  | nil => cases place
  | cons above _ _ ih =>
    cases index with
    | zero =>
      cases place
      exact above
    | succ index => exact (above.trans (Nat.le_add_right ..)).trans (ih place)

theorem Placed.length_eq {start stop : ℕ} {fields : List Extent} {places : List ℕ}
    (placed : Placed start fields places stop) : places.length = fields.length := by
  induction placed with
  | nil => rfl
  | cons _ _ _ ih => rw [List.length_cons, List.length_cons, ih]

/-- A field and its place. -/
theorem Placed.field {start stop : ℕ} {fields : List Extent} {places : List ℕ}
    (placed : Placed start fields places stop)
    {index offset : ℕ} {field : Extent} (found : fields[index]? = some field)
    (place : places[index]? = some offset) :
    start ≤ offset ∧ field.alignment ∣ offset ∧ offset + field.size ≤ stop := by
  induction placed generalizing index with
  | nil => cases found
  | cons above aligned rest ih =>
    cases index with
    | zero =>
      cases found
      cases place
      exact ⟨above, aligned, rest.start_le_stop⟩
    | succ index =>
      obtain ⟨after, divides, ends⟩ := ih found place
      exact ⟨by omega, divides, ends⟩

/-- An earlier field ends before a later one begins. -/
theorem Placed.apart {start stop : ℕ} {fields : List Extent} {places : List ℕ}
    (placed : Placed start fields places stop)
    {index later offset next : ℕ} {field : Extent} (order : index < later) (found : fields[index]? = some field)
    (place : places[index]? = some offset) (nextPlace : places[later]? = some next) :
    offset + field.size ≤ next := by
  induction placed generalizing index later with
  | nil => cases found
  | cons above aligned rest ih =>
    obtain ⟨later, rfl⟩ := Nat.exists_eq_add_one_of_ne_zero (Nat.ne_of_gt (Nat.zero_lt_of_lt order))
    cases index with
    | zero =>
      cases found
      cases place
      exact rest.start_le nextPlace
    | succ index => exact ih (Nat.lt_of_succ_lt_succ order) found place nextPlace

/-- Every placement has room for all fields. -/
theorem Placed.sum_le {start stop : ℕ} {fields : List Extent} {places : List ℕ}
    (placed : Placed start fields places stop) : start + (fields.map Extent.size).sum ≤ stop := by
  induction placed with
  | nil room => exact room
  | cons above _ _ ih =>
    rw [List.map_cons, List.sum_cons]
    omega

/-! ## Decreasing alignments -/

/-- With decreasing alignments, and sizes that are multiples of them, there is no padding. -/
theorem finish_of_pairwise {start : ℕ} {fields : List Extent}
    (decreasing : fields.Pairwise fun left right => right.shift ≤ left.shift)
    (whole : ∀ field ∈ fields, field.alignment ∣ field.size)
    (aligned : ∀ field ∈ fields, field.alignment ∣ start) :
    finish start fields = start + (fields.map Extent.size).sum := by
  induction fields generalizing start with
  | nil => rfl
  | cons field fields ih =>
    rw [List.pairwise_cons] at decreasing
    rw [List.forall_mem_cons] at whole aligned
    rw [finish, roundUp_of_dvd field.alignment_pos aligned.1, ih decreasing.2 whole.2, List.map_cons,
      List.sum_cons, Nat.add_assoc]
    intro other member
    exact (Extent.alignment_dvd (decreasing.1 other member)).trans (Nat.dvd_add aligned.1 whole.1)

/-- No order of the fields ends earlier than one with decreasing alignments. -/
theorem finish_le_of_perm {start : ℕ} {fields others : List Extent}
    (decreasing : fields.Pairwise fun left right => right.shift ≤ left.shift)
    (whole : ∀ field ∈ fields, field.alignment ∣ field.size) (aligned : ∀ field ∈ fields, field.alignment ∣ start)
    (perm : fields.Perm others) : finish start fields ≤ finish start others := by
  rw [finish_of_pairwise decreasing whole aligned, (perm.map Extent.size).sum_eq]
  exact (placed_offsets start others).sum_le

end RecordLayout
