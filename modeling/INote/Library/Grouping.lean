import Mathlib.Data.List.Basic
import Mathlib.Data.List.Defs

/-! # Texts in groups

A loop that appends one text after another and puts a separator before every position that is a
positive multiple of the group size writes the groups joined by the separator. When all texts have
one width, the position alone tells where the separators are, so the texts can be read back
whatever the separator is.
-/

namespace List

variable {β : Type*}

private theorem toChunks_go {size : ℕ} (positive : 0 < size) (rest : List β) (chunk : Array β)
    (chunks : Array (List β)) (room : chunk.size ≤ size) :
    toChunks.go size rest chunk chunks =
      chunks.toList ++ (chunk.toList ++ rest.take (size - chunk.size)) ::
        (rest.drop (size - chunk.size)).toChunks size := by
  induction rest generalizing chunk chunks with
  | nil => simp [toChunks.go, toChunks]
  | cons item rest ih =>
    obtain ⟨count, rfl⟩ := Nat.exists_eq_add_one_of_ne_zero (Nat.ne_of_gt positive)
    have single : ∀ chunks, toChunks.go (count + 1) rest #[item] chunks =
        chunks.toList ++ (item :: rest.take count) :: (rest.drop count).toChunks (count + 1) :=
      fun chunks => ih #[item] chunks (by simp)
    rw [toChunks.go]
    split
    case isTrue full =>
      have full : chunk.size = count + 1 := by simpa using full
      have again : (item :: rest).toChunks (count + 1) =
          (item :: rest.take count) :: (rest.drop count).toChunks (count + 1) := single #[]
      rw [full, Nat.sub_self, List.take_zero, List.drop_zero, List.append_nil, again]
      simpa using single (chunks.push chunk.toList)
    case isFalse partly =>
      have below : chunk.size < count + 1 := by
        have other : chunk.size ≠ count + 1 := by simpa using partly
        omega
      rw [ih (chunk.push item) chunks (by rw [Array.size_push]; omega), Array.size_push,
        show count + 1 - chunk.size = count + 1 - (chunk.size + 1) + 1 by omega]
      simp

/-- The first chunk has the first `size` elements. -/
theorem toChunks_eq_cons {size : ℕ} (positive : 0 < size) {items : List β} (nonempty : items ≠ []) :
    items.toChunks size = items.take size :: (items.drop size).toChunks size := by
  obtain ⟨item, rest, rfl⟩ := List.exists_cons_of_ne_nil nonempty
  obtain ⟨count, rfl⟩ := Nat.exists_eq_add_one_of_ne_zero (Nat.ne_of_gt positive)
  exact toChunks_go positive rest #[item] #[] (by simp)

/-- Chunks of the full size are found again. -/
theorem toChunks_flatten {size : ℕ} (positive : 0 < size) {groups : List (List β)}
    (full : ∀ group ∈ groups, group.length = size) : groups.flatten.toChunks size = groups := by
  induction groups with
  | nil => rfl
  | cons group groups ih =>
    rw [List.forall_mem_cons] at full
    have nonempty : (group :: groups).flatten ≠ [] := by
      rw [List.flatten_cons, ne_eq, List.append_eq_nil_iff]
      rintro ⟨rfl, _⟩
      exact Nat.ne_of_lt positive full.1
    rw [toChunks_eq_cons positive nonempty, List.flatten_cons, List.take_left' full.1, List.drop_left' full.1,
      ih full.2]

end List

namespace Grouping

variable {α β : Type*} {size : ℕ} {separator : List α} {text : β → List α}

/-- What is written before the text at a position. -/
def gap (size : ℕ) (separator : List α) (index : ℕ) : List α :=
  if 0 < index ∧ index % size = 0 then separator else []

/-- Write the texts from a position on. -/
def write (size : ℕ) (separator : List α) (text : β → List α) : ℕ → List β → List α
  | _, [] => []
  | index, item :: rest => gap size separator index ++ text item ++ write size separator text (index + 1) rest

theorem write_append (index : ℕ) (first second : List β) :
    write size separator text index (first ++ second) =
      write size separator text index first ++ write size separator text (index + first.length) second := by
  induction first generalizing index with
  | nil => rfl
  | cons item rest ih =>
    rw [List.cons_append, write, ih, write, List.append_assoc _ (write _ _ _ _ _), List.length_cons,
      Nat.add_right_comm, Nat.add_assoc index]

/-- Changing every character changes the separator and the texts. -/
theorem map_write {γ : Type*} (change : α → γ) (index : ℕ) (items : List β) :
    (write size separator text index items).map change =
      write size (separator.map change) (fun item => (text item).map change) index items := by
  induction items generalizing index with
  | nil => rfl
  | cons item rest ih =>
    rw [write, write, List.map_append, List.map_append, ih, gap, gap]
    split <;> rfl

/-- No separator is written inside a group. -/
theorem write_of_inside {index : ℕ} {items : List β} (inside : 0 < index % size)
    (room : index % size + items.length ≤ size) :
    write size separator text index items = items.flatMap text := by
  induction items generalizing index with
  | nil => rfl
  | cons item rest ih =>
    rw [write, gap, if_neg (by omega), List.nil_append, List.flatMap_cons]
    congr 1
    rw [List.length_cons] at room
    cases rest with
    | nil => rfl
    | cons next rest =>
      rw [List.length_cons] at room
      have successor : (index + 1) % size = index % size + 1 := by
        rw [Nat.add_mod, Nat.mod_eq_of_lt (a := 1) (by omega), Nat.mod_eq_of_lt (by omega)]
      exact ih (by omega) (by rw [successor, List.length_cons]; omega)

theorem write_group {index : ℕ} {group : List β} (aligned : index % size = 0) (nonempty : group ≠ [])
    (room : group.length ≤ size) :
    write size separator text index group = gap size separator index ++ group.flatMap text := by
  obtain ⟨item, rest, rfl⟩ := List.exists_cons_of_ne_nil nonempty
  rw [write, List.flatMap_cons, List.append_assoc]
  rw [List.length_cons] at room
  cases rest with
  | nil => rfl
  | cons next rest =>
    rw [List.length_cons] at room
    have successor : (index + 1) % size = 1 := by
      rw [Nat.add_mod, aligned, Nat.zero_add, Nat.mod_mod, Nat.mod_eq_of_lt (by omega)]
    rw [write_of_inside (by omega) (by rw [successor, List.length_cons]; omega)]

theorem write_aligned (positive : 0 < size) {index : ℕ} (aligned : index % size = 0) {items : List β}
    (nonempty : items ≠ []) :
    write size separator text index items = gap size separator index ++
      separator.intercalate ((items.toChunks size).map (·.flatMap text)) := by
  -- One group per step: the next one starts at the next multiple of the size.
  generalize count : items.length = length
  induction length using Nat.strongRecOn generalizing index items with
  | ind length ih =>
  subst count
  have longer := List.length_pos_of_ne_nil nonempty
  have first : items.take size ≠ [] := by
    rw [ne_eq, List.take_eq_nil_iff, not_or]
    exact ⟨Nat.ne_of_gt positive, nonempty⟩
  rw [List.toChunks_eq_cons positive nonempty, List.map_cons]
  nth_rewrite 1 [← List.take_append_drop size items]
  rw [write_append, write_group aligned first (List.length_take_le _ _), List.append_assoc]
  congr 1
  by_cases short : items.drop size = []
  · rw [short, write, List.append_nil, List.toChunks, List.map_nil, List.intercalate_singleton]
  · have full : (items.take size).length = size := by
      rw [List.drop_eq_nil_iff] at short
      rw [List.length_take]
      omega
    have further : gap size separator (index + size) = separator :=
      if_pos ⟨by omega, by rw [Nat.add_mod_right, aligned]⟩
    have chunks : ((items.drop size).toChunks size).map (·.flatMap text) ≠ [] := by
      rw [List.toChunks_eq_cons positive short]
      exact List.cons_ne_nil _ _
    rw [full, ih _ (by rw [List.length_drop]; omega) (by rw [Nat.add_mod_right, aligned]) short rfl,
      further, List.intercalate_cons_of_ne_nil chunks, List.append_assoc]

/-- The loop writes the groups joined by the separator. -/
theorem write_eq_intercalate (positive : 0 < size) (items : List β) :
    write size separator text 0 items =
      separator.intercalate ((items.toChunks size).map (·.flatMap text)) := by
  by_cases nonempty : items = []
  · rw [nonempty]
    rfl
  · exact write_aligned positive (Nat.zero_mod size) nonempty

/-- Full groups are written one by one. -/
theorem write_flatten (positive : 0 < size) {groups : List (List β)}
    (full : ∀ group ∈ groups, group.length = size) :
    write size separator text 0 groups.flatten =
      separator.intercalate (groups.map (write size separator text 0)) := by
  rw [write_eq_intercalate positive, List.toChunks_flatten positive full]
  congr 1
  refine List.map_congr_left fun group member => ?_
  by_cases nonempty : group = []
  · rw [nonempty]
    rfl
  · rw [write_group (Nat.zero_mod size) nonempty (Nat.le_of_eq (full group member)), gap,
      if_neg (fun inside => Nat.lt_irrefl _ inside.1),
      List.nil_append]

/-! ## Reading back -/

/-- Read texts of one width from a position on, at most `fuel` of them. -/
def read (size gapWidth width : ℕ) : ℕ → ℕ → List α → List (List α)
  | 0, _, _ => []
  | _ + 1, _, [] => []
  | fuel + 1, index, written =>
    let written := written.drop (if 0 < index ∧ index % size = 0 then gapWidth else 0)
    written.take width :: read size gapWidth width fuel (index + 1) (written.drop width)

theorem read_of_ne_nil {gapWidth width fuel index : ℕ} {written : List α} (nonempty : written ≠ []) :
    read size gapWidth width (fuel + 1) index written =
      (written.drop (if 0 < index ∧ index % size = 0 then gapWidth else 0)).take width ::
        read size gapWidth width fuel (index + 1)
          ((written.drop (if 0 < index ∧ index % size = 0 then gapWidth else 0)).drop width) := by
  cases written with
  | nil => contradiction
  | cons => rfl

theorem length_gap (index : ℕ) :
    (gap size separator index).length = if 0 < index ∧ index % size = 0 then separator.length else 0 := by
  rw [gap]
  split <;> rfl

/-- Whatever the separator is, texts of one positive width are read back. -/
theorem read_write {width : ℕ} (positive : 0 < width) {fuel : ℕ} {items : List β}
    (uniform : ∀ item ∈ items, (text item).length = width) (index : ℕ) (enough : items.length ≤ fuel) :
    read size separator.length width fuel index (write size separator text index items) = items.map text := by
  induction items generalizing fuel index with
  | nil => cases fuel <;> rfl
  | cons item rest ih =>
    obtain ⟨fuel, rfl⟩ : ∃ less, fuel = less + 1 :=
      Nat.exists_eq_add_one_of_ne_zero (Nat.ne_of_gt (Nat.lt_of_lt_of_le (Nat.succ_pos _) enough))
    have long := uniform item List.mem_cons_self
    have nonempty : write size separator text index (item :: rest) ≠ [] := by
      rw [write, ne_eq, List.append_eq_nil_iff, List.append_eq_nil_iff]
      rintro ⟨⟨_, empty⟩, _⟩
      rw [empty] at long
      exact Nat.ne_of_gt positive long.symm
    rw [read_of_ne_nil nonempty, write, ← length_gap, List.append_assoc, List.drop_left' rfl,
      List.take_left' long, List.drop_left' long, List.map_cons,
      ih (fun other member => uniform other (List.mem_cons_of_mem _ member)) (index + 1)
        (Nat.le_of_succ_le_succ enough)]

/-- There are no more texts than characters. -/
theorem length_le_length_write {width : ℕ} (positive : 0 < width) {items : List β}
    (uniform : ∀ item ∈ items, (text item).length = width) (index : ℕ) :
    items.length ≤ (write size separator text index items).length := by
  induction items generalizing index with
  | nil => exact Nat.zero_le _
  | cons item rest ih =>
    have long := uniform item List.mem_cons_self
    have tail := ih (fun other member => uniform other (List.mem_cons_of_mem _ member)) (index + 1)
    rw [write, List.length_append, List.length_append, List.length_cons]
    omega

/-- Texts of one width that tell the items apart still do so in groups. -/
theorem write_injective {width : ℕ} (positive : 0 < width) (uniform : ∀ item, (text item).length = width)
    (injective : Function.Injective text) (index : ℕ) :
    Function.Injective (write size separator text index) := by
  intro left right same
  let fuel := left.length + right.length
  have back (items : List β) (enough : items.length ≤ fuel) :
      read size separator.length width fuel index (write size separator text index items) = items.map text :=
    read_write positive (fun item _ => uniform item) index enough
  apply List.map_injective_iff.mpr injective
  rw [← back left (Nat.le_add_right _ _), ← back right (Nat.le_add_left _ _), same]

/-- More texts need no less room. -/
theorem length_write_le {width : ℕ} (uniform : ∀ item, (text item).length = width) (index : ℕ)
    {left right : List β} (shorter : left.length ≤ right.length) :
    (write size separator text index left).length ≤ (write size separator text index right).length := by
  induction left generalizing right index with
  | nil => exact Nat.zero_le _
  | cons other others ih =>
    obtain ⟨item, rest, rfl⟩ := List.exists_cons_of_length_pos (Nat.lt_of_lt_of_le (Nat.succ_pos _) shorter)
    have tail := ih (index + 1) (Nat.le_of_succ_le_succ shorter)
    rw [write, write, List.length_append, List.length_append, List.length_append, List.length_append, uniform,
      uniform]
    omega

end Grouping
