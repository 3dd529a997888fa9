import Mathlib.Data.List.Basic
import Mathlib.Order.Lattice

/-! # Cutting a sequence of intervals

A cut of a sequence of intervals is a point that none of them straddles, the sequence split
accordingly. The cut determines the split, the first interval that ends after it is the head of
the part behind it, and replacing every interval by intervals inside it keeps the cut.
-/

namespace Intervals

variable {α β κ : Type*} [LinearOrder κ] {lower upper : α → κ}

/-- Everything before the point ends by it, everything after starts at it or later. -/
structure Cut (lower upper : α → κ) (before after : List α) (point : κ) : Prop where
  ends : ∀ interval ∈ before, upper interval ≤ point
  starts : ∀ interval ∈ after, point ≤ lower interval

theorem Cut.find?_eq_head? {before after : List α} {point : κ} (cut : Cut lower upper before after point)
    (proper : ∀ interval ∈ after, lower interval < upper interval) :
    (before ++ after).find? (fun interval => point < upper interval) = after.head? := by
  have none : before.find? (fun interval => decide (point < upper interval)) = none := by
    rw [List.find?_eq_none]
    intro interval member
    simpa using cut.ends interval member
  rw [List.find?_append, none, Option.none_or]
  cases after with
  | nil => rfl
  | cons first rest =>
    have reaches : point < upper first :=
      lt_of_le_of_lt (cut.starts first List.mem_cons_self) (proper first List.mem_cons_self)
    rw [List.find?_cons_of_pos (by simpa using reaches), List.head?_cons]

/-- The part before the cut is determined by the whole sequence. -/
theorem Cut.filter_eq {before after : List α} {point : κ} (cut : Cut lower upper before after point)
    (proper : ∀ interval ∈ after, lower interval < upper interval) :
    (before ++ after).filter (fun interval => upper interval ≤ point) = before := by
  have kept : before.filter (fun interval => decide (upper interval ≤ point)) = before := by
    rw [List.filter_eq_self]
    intro interval member
    simpa using cut.ends interval member
  have dropped : after.filter (fun interval => decide (upper interval ≤ point)) = [] := by
    rw [List.filter_eq_nil_iff]
    intro interval member
    simpa using lt_of_le_of_lt (cut.starts interval member) (proper interval member)
  rw [List.filter_append, kept, dropped, List.append_nil]

/-- The end of the interval behind a cut is a cut. -/
theorem Cut.next {before after : List α} {first : α} {point : κ}
    (cut : Cut lower upper before (first :: after) point)
    (proper : lower first < upper first)
    (ordered : (first :: after).Pairwise fun left right => upper left ≤ lower right) :
    Cut lower upper (before ++ [first]) after (upper first) := by
  refine ⟨?_, (List.pairwise_cons.mp ordered).1⟩
  intro interval member
  rcases List.mem_append.mp member with earlier | last
  · exact (cut.ends interval earlier).trans ((cut.starts first List.mem_cons_self).trans proper.le)
  · rw [List.mem_singleton.mp last]

/-- The start of the interval behind a cut is a cut. -/
theorem Cut.advance {before after : List α} {first : α} {point : κ}
    (cut : Cut lower upper before (first :: after) point)
    (proper : lower first < upper first)
    (ordered : (first :: after).Pairwise fun left right => upper left ≤ lower right) :
    Cut lower upper before (first :: after) (lower first) := by
  refine ⟨fun interval member => (cut.ends interval member).trans (cut.starts first List.mem_cons_self), ?_⟩
  intro interval member
  rcases List.mem_cons.mp member with rfl | later
  · exact le_rfl
  · exact proper.le.trans ((List.pairwise_cons.mp ordered).1 interval later)

/-- Replacing intervals by intervals inside them keeps the cut. -/
theorem Cut.flatMap {lower' upper' : β → κ} {refine : α → List β} {before after : List α} {point : κ}
    (cut : Cut lower upper before after point)
    (inside : ∀ interval ∈ before ++ after, ∀ part ∈ refine interval,
      lower interval ≤ lower' part ∧ upper' part ≤ upper interval) :
    Cut lower' upper' (before.flatMap refine) (after.flatMap refine) point := by
  constructor
  · intro part member
    obtain ⟨interval, earlier, within⟩ := List.mem_flatMap.mp member
    exact (inside interval (List.mem_append_left _ earlier) part within).2.trans (cut.ends interval earlier)
  · intro part member
    obtain ⟨interval, later, within⟩ := List.mem_flatMap.mp member
    exact (cut.starts interval later).trans (inside interval (List.mem_append_right _ later) part within).1

end Intervals
