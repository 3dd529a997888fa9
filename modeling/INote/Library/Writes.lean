import Mathlib.Data.List.Nodup
import Mathlib.Logic.Function.Basic

/-! # Sequences of writes to a store

A store maps addresses to values; a sequence of writes is performed in order, so the last write
to an address wins. Addresses no write mentions keep their value, writes to distinct addresses
all survive, and performing the same sequence twice is performing it once. What is written to
distinct addresses is loaded from them again. A sweep visits addresses in turn and rewrites each
from its own content; over distinct addresses the visits are independent of each other.
-/

namespace Writes

variable {κ β : Type*} [DecidableEq κ]

/-- Perform the writes in order. -/
def perform (writes : List (κ × β)) (store : κ → β) : κ → β :=
  writes.foldl (fun store write => Function.update store write.1 write.2) store

@[simp] theorem perform_nil (store : κ → β) : perform [] store = store := rfl

@[simp] theorem perform_cons (write : κ × β) (writes : List (κ × β)) (store : κ → β) :
    perform (write :: writes) store = perform writes (Function.update store write.1 write.2) := rfl

/-- Addresses that no write mentions are untouched. -/
theorem perform_of_not_mem {writes : List (κ × β)} {key : κ} (absent : key ∉ writes.map Prod.fst)
    (store : κ → β) : perform writes store key = store key := by
  induction writes generalizing store with
  | nil => rfl
  | cons write rest ih =>
    simp only [List.map_cons, List.mem_cons, not_or] at absent
    rw [perform_cons, ih absent.2, Function.update_of_ne absent.1]

/-- A mentioned address forgets its old content. -/
theorem perform_congr_of_mem {writes : List (κ × β)} {key : κ} (member : key ∈ writes.map Prod.fst)
    (store other : κ → β) : perform writes store key = perform writes other key := by
  induction writes generalizing store other with
  | nil => simp at member
  | cons write rest ih =>
    rw [perform_cons, perform_cons]
    by_cases again : key ∈ rest.map Prod.fst
    · exact ih again _ _
    · have here : key = write.1 := (List.mem_cons.mp member).resolve_right again
      rw [perform_of_not_mem again, perform_of_not_mem again, here, Function.update_self,
        Function.update_self]

/-- What an address holds after the writes depends on what it held before. -/
theorem perform_congr {key : κ} {store other : κ → β} (same : store key = other key) (writes : List (κ × β)) :
    perform writes store key = perform writes other key := by
  by_cases member : key ∈ writes.map Prod.fst
  · exact perform_congr_of_mem member store other
  · rw [perform_of_not_mem member, perform_of_not_mem member, same]

/-- Writes to distinct addresses all survive. -/
theorem perform_of_mem {writes : List (κ × β)} (distinct : (writes.map Prod.fst).Nodup)
    {key : κ} {value : β} (member : (key, value) ∈ writes) (store : κ → β) :
    perform writes store key = value := by
  induction writes generalizing store with
  | nil => simp at member
  | cons write rest ih =>
    rw [List.map_cons, List.nodup_cons] at distinct
    rcases List.mem_cons.mp member with rfl | tail
    · rw [perform_cons, perform_of_not_mem distinct.1, Function.update_self]
    · exact ih distinct.2 tail _

/-- When the writes to an address all agree, the address holds their value. -/
theorem perform_of_agree {writes : List (κ × β)} {key : κ} {value : β} (member : key ∈ writes.map Prod.fst)
    (agree : ∀ write ∈ writes, write.1 = key → write.2 = value) (store : κ → β) :
    perform writes store key = value := by
  induction writes generalizing store with
  | nil => simp at member
  | cons write rest ih =>
    rw [List.forall_mem_cons] at agree
    rw [perform_cons]
    by_cases again : key ∈ rest.map Prod.fst
    · exact ih again agree.2 _
    · have here : key = write.1 := (List.mem_cons.mp member).resolve_right again
      rw [perform_of_not_mem again, here, Function.update_self, agree.1 here.symm]

theorem perform_append (first second : List (κ × β)) (store : κ → β) :
    perform (first ++ second) store = perform second (perform first store) := List.foldl_append

/-- Of the writes to one address the last stays. -/
theorem perform_one_key (key : κ) (values : List β) (store : κ → β) :
    perform (values.map fun value => (key, value)) store =
      values.getLast?.elim store (Function.update store key) := by
  obtain rfl | ⟨earlier, value, rfl⟩ := values.eq_nil_or_concat'
  · rfl
  · rw [List.getLast?_concat, List.map_append, perform_append, Option.elim_some]
    change Function.update (perform (earlier.map fun value => (key, value)) store) key value = _
    funext other
    by_cases same : other = key
    · rw [same, Function.update_self, Function.update_self]
    · rw [Function.update_of_ne same, Function.update_of_ne same]
      apply perform_of_not_mem
      rw [List.map_map]
      rintro written
      obtain ⟨_, _, here⟩ := List.mem_map.mp written
      exact same here.symm

/-- Performing the same writes again changes nothing. -/
theorem perform_perform (writes : List (κ × β)) (store : κ → β) :
    perform writes (perform writes store) = perform writes store := by
  funext key
  by_cases member : key ∈ writes.map Prod.fst
  · exact perform_congr_of_mem member _ _
  · exact perform_of_not_mem member _

/-! ## Loads from a partial store -/

/-- Load from the addresses in order; there is no result when one of them holds nothing. -/
def load (keys : List κ) (store : κ → Option β) : Option (List β) := keys.mapM store

omit [DecidableEq κ] in
theorem load_congr {keys : List κ} {store other : κ → Option β} (agree : ∀ key ∈ keys, store key = other key) :
    load keys store = load keys other := by
  unfold load
  induction keys with
  | nil => rfl
  | cons key rest ih =>
    rw [List.forall_mem_cons] at agree
    rw [List.mapM_cons, List.mapM_cons, agree.1, ih agree.2]

omit [DecidableEq κ] in
theorem load_eq_none {keys : List κ} {store : κ → Option β} {key : κ} (member : key ∈ keys)
    (missing : store key = none) : load keys store = none := by
  unfold load
  induction keys with
  | nil => cases member
  | cons head rest ih =>
    rw [List.mapM_cons]
    cases member with
    | head => rw [missing]; rfl
    | tail _ later =>
      rw [ih later]
      cases store head <;> rfl

omit [DecidableEq κ] in
theorem length_of_load {keys : List κ} {store : κ → Option β} {values : List β}
    (loaded : load keys store = some values) : values.length = keys.length := by
  unfold load at loaded
  induction keys generalizing values with
  | nil =>
    cases loaded
    rfl
  | cons key rest ih =>
    rw [List.mapM_cons] at loaded
    obtain ⟨value, _, later⟩ := Option.bind_eq_some_iff.mp loaded
    obtain ⟨others, others_loaded, last⟩ := Option.bind_eq_some_iff.mp later
    cases last
    rw [List.length_cons, List.length_cons, ih others_loaded]

/-- What is written to distinct addresses is loaded from them. -/
theorem load_perform {keys : List κ} {values : List β} (distinct : keys.Nodup)
    (long : values.length = keys.length) (store : κ → Option β) :
    load keys (perform (keys.zip (values.map some)) store) = some values := by
  induction keys generalizing values store with
  | nil => rw [List.eq_nil_of_length_eq_zero long]; rfl
  | cons key rest ih =>
    obtain ⟨value, others, rfl⟩ := List.exists_cons_of_length_eq_add_one long
    have long : others.length = rest.length := Nat.add_right_cancel long
    rw [List.nodup_cons] at distinct
    rw [List.map_cons, List.zip_cons_cons, perform_cons]
    have first :
        perform (rest.zip (others.map some)) (Function.update store key (some value)) key = some value := by
      rw [perform_of_not_mem, Function.update_self]
      rw [List.map_fst_zip (by rw [List.length_map]; exact Nat.le_of_eq long.symm)]
      exact distinct.1
    have later := ih distinct.2 long (Function.update store key (some value))
    unfold load at later ⊢
    rw [List.mapM_cons, first, later]
    rfl

/-- Visit the addresses in turn, rewriting each from its own content. -/
def sweep (rewrite : κ → β → β) (keys : List κ) (store : κ → β) : κ → β :=
  keys.foldl (fun store key => Function.update store key (rewrite key (store key))) store

theorem sweep_of_not_mem {rewrite : κ → β → β} {keys : List κ} {key : κ} (absent : key ∉ keys)
    (store : κ → β) : sweep rewrite keys store key = store key := by
  unfold sweep
  induction keys generalizing store with
  | nil => rfl
  | cons head rest ih =>
    have other : key ≠ head := by rintro rfl; exact absent List.mem_cons_self
    rw [List.foldl_cons, ih (fun later => absent (List.mem_cons_of_mem _ later)),
      Function.update_of_ne other]

/-- Over distinct addresses, a visit sees the original content of its address. -/
theorem sweep_of_mem {rewrite : κ → β → β} {keys : List κ} (distinct : keys.Nodup) {key : κ}
    (member : key ∈ keys) (store : κ → β) :
    sweep rewrite keys store key = rewrite key (store key) := by
  induction keys generalizing store with
  | nil => simp at member
  | cons head rest ih =>
    change sweep rewrite rest (Function.update store head (rewrite head (store head))) key = _
    rw [List.nodup_cons] at distinct
    rcases List.mem_cons.mp member with rfl | tail
    · rw [sweep_of_not_mem distinct.1, Function.update_self]
    · have other : key ≠ head := by rintro rfl; exact distinct.1 tail
      rw [ih distinct.2 tail, Function.update_of_ne other]

end Writes
