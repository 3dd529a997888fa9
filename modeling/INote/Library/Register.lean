import INote.Library.Dict
import Mathlib.Data.List.Induction

/-! # Registers filled by a stream of entries

A register keeps one row of `width` slots for each key it has seen. An entry files a value under
a key and a slot: the first sighting of a key creates a blank row, and every later entry updates
the row in place. What the register holds after any stream of entries is a function of the
stream alone: each slot shows the latest value filed there, and a blank if there is none.
-/

namespace Register

variable {κ υ : Type*} [DecidableEq κ]

/-- One value to be filed under a key and a slot. -/
structure Entry (κ υ : Type*) where
  key : κ
  slot : ℕ
  value : υ
deriving DecidableEq

/-- The latest value filed under a key and a slot, if any. -/
def latest (entries : List (Entry κ υ)) (key : κ) (slot : ℕ) : Option υ :=
  (entries.filterMap fun entry =>
    if entry.key = key ∧ entry.slot = slot then some entry.value else none).getLast?

/-- An item with a property has a last occurrence of that property. -/
theorem exists_last {α : Type*} {p : α → Prop} {items : List α} (present : ∃ item ∈ items, p item) :
    ∃ before item after, items = before ++ item :: after ∧ p item ∧ ∀ later ∈ after, ¬ p later := by
  induction items with
  | nil => simp at present
  | cons head rest ih =>
    by_cases again : ∃ item ∈ rest, p item
    · obtain ⟨before, item, after, rfl, holds, last⟩ := ih again
      exact ⟨head :: before, item, after, rfl, holds, last⟩
    · obtain ⟨item, member, holds⟩ := present
      rcases List.mem_cons.mp member with rfl | tail
      · exact ⟨[], item, rest, rfl, holds, fun later member found => again ⟨later, member, found⟩⟩
      · exact (again ⟨item, tail, holds⟩).elim

theorem latest_append (first second : List (Entry κ υ)) (key : κ) (slot : ℕ) :
    latest (first ++ second) key slot = (latest second key slot).or (latest first key slot) := by
  simp only [latest, List.filterMap_append, List.getLast?_append]

theorem latest_singleton (entry : Entry κ υ) (key : κ) (slot : ℕ) :
    latest [entry] key slot =
      if entry.key = key ∧ entry.slot = slot then some entry.value else none := by
  unfold latest
  split_ifs with same <;> simp [same]

theorem latest_eq_none_iff {entries : List (Entry κ υ)} {key : κ} {slot : ℕ} :
    latest entries key slot = none ↔ ∀ entry ∈ entries, entry.key = key → entry.slot ≠ slot := by
  simp [latest]

/-- A latest value was filed by some entry. -/
theorem exists_of_latest_eq_some {entries : List (Entry κ υ)} {key : κ} {slot : ℕ} {value : υ}
    (found : latest entries key slot = some value) :
    ∃ entry ∈ entries, entry.key = key ∧ entry.slot = slot := by
  have member := List.mem_of_getLast? found
  obtain ⟨entry, inside, filed⟩ := List.mem_filterMap.mp member
  split_ifs at filed with same
  exact ⟨entry, inside, same⟩

/-- When one batch alone files under a slot, the other batches are irrelevant to it. -/
theorem latest_flatMap_of_unique {β : Type*} {batches : List β} {file : β → List (Entry κ υ)}
    {batch : β} (key : κ) {slot : ℕ} (member : batch ∈ batches) (unique : batches.Nodup)
    (others : ∀ other ∈ batches, other ≠ batch → ∀ entry ∈ file other, entry.slot ≠ slot) :
    latest (batches.flatMap file) key slot = latest (file batch) key slot := by
  obtain ⟨before, after, rfl⟩ := List.append_of_mem member
  have absent (side : List β) (inside : ∀ other ∈ side, other ∈ before ++ batch :: after ∧ other ≠ batch) :
      latest (side.flatMap file) key slot = none := by
    apply latest_eq_none_iff.mpr
    intro entry entryMem _
    obtain ⟨other, otherMem, filed⟩ := List.mem_flatMap.mp entryMem
    exact others other (inside other otherMem).1 (inside other otherMem).2 entry filed
  have distinct := List.nodup_middle.mp unique
  have notBefore : latest (before.flatMap file) key slot = none := absent before (by
    intro other otherMem
    refine ⟨List.mem_append_left _ otherMem, ?_⟩
    rintro rfl
    exact (List.nodup_cons.mp distinct).1 (List.mem_append_left _ otherMem))
  have notAfter : latest (after.flatMap file) key slot = none := absent after (by
    intro other otherMem
    refine ⟨List.mem_append_right _ (List.mem_cons_of_mem _ otherMem), ?_⟩
    rintro rfl
    exact (List.nodup_cons.mp distinct).1 (List.mem_append_right _ otherMem))
  simp only [List.flatMap_append, List.flatMap_cons, latest_append, notBefore, notAfter,
    Option.none_or, Option.or_none]

/-- What a register shows for a key: nothing before the first sighting, then a full row. -/
def shown (blank : υ) (width : ℕ) (entries : List (Entry κ υ)) (key : κ) : Option (List υ) :=
  if ∃ entry ∈ entries, entry.key = key then
    some ((List.range width).map fun slot => (latest entries key slot).getD blank)
  else none

theorem shown_isSome_iff {blank : υ} {width : ℕ} {entries : List (Entry κ υ)} {key : κ} :
    (shown blank width entries key).isSome ↔ ∃ entry ∈ entries, entry.key = key := by
  unfold shown
  split_ifs with seen <;> simp [seen]

theorem shown_length {blank : υ} {width : ℕ} {entries : List (Entry κ υ)} {key : κ} {row : List υ}
    (present : shown blank width entries key = some row) : row.length = width := by
  unfold shown at present
  split_ifs at present
  obtain rfl := Option.some.inj present
  simp

theorem shown_getElem? {blank : υ} {width slot : ℕ} {entries : List (Entry κ υ)} {key : κ}
    {row : List υ} (present : shown blank width entries key = some row) (bound : slot < width) :
    row[slot]? = some ((latest entries key slot).getD blank) := by
  unfold shown at present
  split_ifs at present
  obtain rfl := Option.some.inj present
  simp [bound]

/-- The concrete register: a dictionary of rows. -/
abbrev Rows (κ υ : Type*) := Dict κ (List υ)

/-- File one entry, creating a blank row at the first sighting of its key. -/
def file (blank : υ) (width : ℕ) (rows : Rows κ υ) (entry : Entry κ υ) : Rows κ υ :=
  rows.set entry.key
    (((rows.lookup entry.key).getD (List.replicate width blank)).set entry.slot entry.value)

/-- Filing one more entry changes the shown row of its own key, in its own slot. -/
theorem shown_concat (blank : υ) (width : ℕ) (entries : List (Entry κ υ)) (entry : Entry κ υ) :
    shown blank width (entries ++ [entry]) entry.key =
      some (((shown blank width entries entry.key).getD (List.replicate width blank)).set
        entry.slot entry.value) := by
  have seen : ∃ other ∈ entries ++ [entry], other.key = entry.key := ⟨entry, by simp, rfl⟩
  rw [shown, if_pos seen]
  congr 1
  apply List.ext_getElem?
  intro slot
  have blankRow : (shown blank width entries entry.key).getD (List.replicate width blank) =
      (List.range width).map fun slot => (latest entries entry.key slot).getD blank := by
    unfold shown
    split_ifs with earlier
    · rfl
    · have none (slot : ℕ) : latest entries entry.key slot = none :=
        latest_eq_none_iff.mpr fun other member same => (earlier ⟨other, member, same⟩).elim
      simp [none]
  rw [blankRow, List.getElem?_set]
  by_cases inside : slot < width
  · by_cases same : entry.slot = slot
    · subst same
      simp [inside, latest_append, latest_singleton]
    · simp [inside, same, latest_append, latest_singleton]
  · by_cases same : entry.slot = slot <;> simp [inside, same]

theorem shown_concat_of_ne (blank : υ) (width : ℕ) (entries : List (Entry κ υ)) {entry : Entry κ υ}
    {key : κ} (different : entry.key ≠ key) :
    shown blank width (entries ++ [entry]) key = shown blank width entries key := by
  simp [shown, latest_append, latest_singleton, different]

/-- The concrete register shows exactly what the stream of entries determines. -/
theorem lookup_foldl_file (blank : υ) (width : ℕ) (entries : List (Entry κ υ)) (key : κ) :
    (entries.foldl (file blank width) (∅ : Rows κ υ)).lookup key = shown blank width entries key := by
  induction entries using List.reverseRecOn generalizing key with
  | nil => simp [shown]
  | append_singleton entries entry ih =>
    rw [List.foldl_concat]
    by_cases same : entry.key = key
    · subst same
      rw [file, Dict.lookup_set_self, ih, shown_concat]
    · rw [file, Dict.lookup_set_of_ne _ (Ne.symm same), ih, shown_concat_of_ne _ _ _ same]

/-- The keys are listed in the order of their first entries. -/
theorem keys_foldl_file (blank : υ) (width : ℕ) (entries : List (Entry κ υ)) :
    (entries.foldl (file blank width) (∅ : Rows κ υ)).keys = (entries.map Entry.key).eraseDups := by
  induction entries using List.reverseRecOn with
  | nil => rfl
  | append_singleton entries entry ih =>
    rw [List.foldl_concat, file, Dict.keys_set, ih, List.map_append, List.eraseDups_append, List.map_singleton]
    by_cases member : entry.key ∈ entries.map Entry.key
    · have nothing : [entry.key].removeAll (entries.map Entry.key) = [] := by
        rw [List.removeAll, List.filter_singleton, List.elem_eq_mem, decide_eq_true member]
        rfl
      rw [if_pos (List.mem_eraseDups.mpr member), nothing, List.eraseDups_nil, List.append_nil]
    · have itself : [entry.key].removeAll (entries.map Entry.key) = [entry.key] := by
        rw [List.removeAll, List.filter_singleton, List.elem_eq_mem, decide_eq_false member]
        rfl
      rw [if_neg (mt List.mem_eraseDups.mp member), itself]
      rfl

end Register
