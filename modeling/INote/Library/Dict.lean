import Mathlib.Data.List.Basic
import Mathlib.Data.List.Nodup

/-! # Dictionaries in insertion order

Assigning to a key that is present changes its value in place; assigning to another one appends it.
So a dictionary lists every key once, in the order of the first assignments, and with the last value.
-/

/-! ## Literal tables -/

namespace List

variable {κ υ : Type*} [DecidableEq κ]

theorem mem_of_lookup_eq_some {table : List (κ × υ)} {key : κ} {value : υ}
    (found : table.lookup key = some value) : (key, value) ∈ table := by
  obtain ⟨before, after, rfl, _⟩ := lookup_eq_some_iff.mp found
  simp

theorem lookup_eq_none_iff_not_mem {table : List (κ × υ)} {key : κ} :
    table.lookup key = none ↔ key ∉ table.map Prod.fst := by
  rw [lookup_eq_none_iff]
  simp only [mem_map, not_exists, not_and, bne_iff_ne]
  exact forall₂_congr fun pair _ => ne_comm

/-- Without a repeated value, no two keys share one. -/
theorem lookup_injective {table : List (κ × υ)} (distinct : (table.map Prod.snd).Nodup) {key other : κ}
    {value : υ} (found : table.lookup key = some value) (again : table.lookup other = some value) :
    key = other :=
  congrArg Prod.fst
    (inj_on_of_nodup_map distinct (mem_of_lookup_eq_some found) (mem_of_lookup_eq_some again) rfl)

end List

/-! ## Dictionaries -/

/-- The items of a dictionary, with distinct keys. -/
structure Dict (κ υ : Type*) where
  items : List (κ × υ)
  distinct : (items.map Prod.fst).Nodup

namespace Dict

variable {κ υ : Type*}

@[ext] theorem ext {first second : Dict κ υ} (same : first.items = second.items) : first = second := by
  cases first
  cases second
  congr

instance : EmptyCollection (Dict κ υ) := ⟨⟨[], List.nodup_nil⟩⟩

def keys (dict : Dict κ υ) : List κ := dict.items.map Prod.fst

def length (dict : Dict κ υ) : ℕ := dict.items.length

instance : Membership κ (Dict κ υ) := ⟨fun dict key => key ∈ dict.keys⟩

@[simp] theorem not_mem_empty (key : κ) : key ∉ (∅ : Dict κ υ) := List.not_mem_nil

variable [DecidableEq κ]

instance (key : κ) (dict : Dict κ υ) : Decidable (key ∈ dict) := inferInstanceAs (Decidable (key ∈ dict.keys))

def lookup (dict : Dict κ υ) (key : κ) : Option υ := dict.items.lookup key

theorem lookup_eq_none {dict : Dict κ υ} {key : κ} : dict.lookup key = none ↔ key ∉ dict :=
  List.lookup_eq_none_iff_not_mem

theorem lookup_isSome {dict : Dict κ υ} {key : κ} : (dict.lookup key).isSome ↔ key ∈ dict := by
  rw [Option.isSome_iff_ne_none, ne_eq, lookup_eq_none, not_not]

@[simp] theorem lookup_empty (key : κ) : (∅ : Dict κ υ).lookup key = none := rfl

/-- Assign to a key of a list of items. -/
def assign (key : κ) (value : υ) : List (κ × υ) → List (κ × υ)
  | [] => [(key, value)]
  | (other, old) :: rest =>
    if other = key then (other, value) :: rest else (other, old) :: assign key value rest

theorem map_fst_assign (key : κ) (value : υ) (items : List (κ × υ)) :
    (assign key value items).map Prod.fst =
      if key ∈ items.map Prod.fst then items.map Prod.fst else items.map Prod.fst ++ [key] := by
  induction items with
  | nil => rfl
  | cons item rest ih =>
    rw [assign]
    split
    · next same => simp [same]
    · next other =>
      rw [List.map_cons, ih, List.map_cons]
      by_cases member : key ∈ rest.map Prod.fst
      · rw [if_pos member, if_pos (List.mem_cons_of_mem _ member)]
      · rw [if_neg member, if_neg (List.not_mem_cons_of_ne_of_not_mem (Ne.symm other) member), List.cons_append]

theorem nodup_assign {key : κ} {value : υ} {items : List (κ × υ)} (distinct : (items.map Prod.fst).Nodup) :
    ((assign key value items).map Prod.fst).Nodup := by
  rw [map_fst_assign]
  split
  · exact distinct
  · next absent =>
    refine List.nodup_append.mpr ⟨distinct, List.nodup_singleton _, ?_⟩
    rintro other member _ single rfl
    exact absent (List.mem_singleton.mp single ▸ member)

theorem lookup_assign_self (key : κ) (value : υ) (items : List (κ × υ)) :
    (assign key value items).lookup key = some value := by
  induction items with
  | nil => exact List.lookup_cons_self
  | cons item rest ih =>
    rw [assign]
    split
    · next same => rw [same, List.lookup_cons_self]
    · next other =>
      rw [List.lookup_cons, beq_false_of_ne (Ne.symm other)]
      exact ih

theorem lookup_assign_of_ne {key other : κ} (different : other ≠ key) (value : υ) (items : List (κ × υ)) :
    (assign key value items).lookup other = items.lookup other := by
  induction items with
  | nil => rw [assign, List.lookup_cons, beq_false_of_ne different]
  | cons item rest ih =>
    rw [assign]
    split
    · next same =>
      rw [List.lookup_cons, List.lookup_cons, same, beq_false_of_ne different]
    · rw [List.lookup_cons, List.lookup_cons, ih]

def set (dict : Dict κ υ) (key : κ) (value : υ) : Dict κ υ :=
  ⟨assign key value dict.items, nodup_assign dict.distinct⟩

@[simp] theorem lookup_set_self (dict : Dict κ υ) (key : κ) (value : υ) :
    (dict.set key value).lookup key = some value := lookup_assign_self key value dict.items

theorem lookup_set_of_ne (dict : Dict κ υ) {key other : κ} (different : other ≠ key) (value : υ) :
    (dict.set key value).lookup other = dict.lookup other := lookup_assign_of_ne different value dict.items

theorem keys_set (dict : Dict κ υ) (key : κ) (value : υ) :
    (dict.set key value).keys = if key ∈ dict.keys then dict.keys else dict.keys ++ [key] :=
  map_fst_assign key value dict.items

/-- An item is a key with the value that is found there. -/
theorem mem_items_iff {dict : Dict κ υ} {key : κ} {value : υ} :
    (key, value) ∈ dict.items ↔ dict.lookup key = some value := by
  constructor
  · intro member
    obtain ⟨before, after, split⟩ := List.append_of_mem member
    refine List.lookup_eq_some_iff.mpr ⟨before, after, split, fun item earlier => ?_⟩
    have distinct := dict.distinct
    rw [split, List.map_append, List.map_cons, List.nodup_append] at distinct
    exact bne_iff_ne.mpr (distinct.2.2 item.1 (List.mem_map_of_mem earlier) key List.mem_cons_self).symm
  · exact List.mem_of_lookup_eq_some

end Dict
