import INote.Library.Intervals
import Mathlib.Algebra.Group.Nat.Defs
import Mathlib.Order.Nat

/-! # The address map of a task

A map is a finite sequence of disjoint regions in address order, where a submap is a region that
contains a sequence of its own. Looking through at most `depth` submap levels shows the regions up
to that level, and at that level the submaps themselves. Looking one level deeper opens exactly the
submaps shown, so every depth shows the same regions, in the same order, at its own resolution.
-/

namespace INote.CodeSnippets

/-- A region and the number of submaps around it. -/
structure Region where
  start : UInt64
  size : UInt64
  level : ℕ
deriving DecidableEq

def Region.lower (region : Region) : ℕ := region.start.toNat

def Region.upper (region : Region) : ℕ := region.start.toNat + region.size.toNat

/-- The entries of a map or of a submap, in address order. -/
inductive Entries where
  | nil
  | region (start size : UInt64) (rest : Entries)
  | submap (start size : UInt64) (inside rest : Entries)

/-- A region that is shown; a submap comes with its entries. -/
structure Shown extends Region where
  inside : Option Entries

abbrev Shown.lower (shown : Shown) : ℕ := shown.toRegion.lower

abbrev Shown.upper (shown : Shown) : ℕ := shown.toRegion.upper

namespace Entries

/-- Entries have a positive size, follow each other within the bounds and contain their own. -/
def WellFormed (upper : ℕ) : ℕ → Entries → Prop
  | _, nil => True
  | lower, region start size rest =>
    lower ≤ start.toNat ∧ 0 < size.toNat ∧ start.toNat + size.toNat ≤ upper ∧
      rest.WellFormed upper (start.toNat + size.toNat)
  | lower, submap start size inside rest =>
    lower ≤ start.toNat ∧ 0 < size.toNat ∧ start.toNat + size.toNat ≤ upper ∧
      inside.WellFormed (start.toNat + size.toNat) start.toNat ∧
      rest.WellFormed upper (start.toNat + size.toNat)

/-- The regions that are no submaps. -/
def regions (level : ℕ) : Entries → List Region
  | nil => []
  | region start size rest => ⟨start, size, level⟩ :: rest.regions level
  | submap _ _ inside rest => inside.regions (level + 1) ++ rest.regions level

/-- How many submaps are nested in each other. -/
def submapDepth : Entries → ℕ
  | nil => 0
  | region _ _ rest => rest.submapDepth
  | submap _ _ inside rest => max (inside.submapDepth + 1) rest.submapDepth

/-- What is shown when submaps above level `depth` are descended. -/
def visible (depth level : ℕ) : Entries → List Shown
  | nil => []
  | region start size rest => ⟨⟨start, size, level⟩, none⟩ :: rest.visible depth level
  | submap start size inside rest =>
    (if level < depth then inside.visible depth (level + 1) else [⟨⟨start, size, level⟩, some inside⟩]) ++
      rest.visible depth level

end Entries

namespace Shown

/-- The regions a shown region stands for. -/
def regions (shown : Shown) : List Region :=
  match shown.inside with
  | none => [shown.toRegion]
  | some inside => inside.regions (shown.level + 1)

/-- What a shown region becomes one level deeper. -/
def opened (shown : Shown) : List Shown :=
  match shown.inside with
  | none => [shown]
  | some inside => inside.visible (shown.level + 1) (shown.level + 1)

end Shown

namespace Entries

/-! ## Order -/

theorem visible_bounds {depth level lower upper : ℕ} {entries : Entries}
    (wellFormed : entries.WellFormed upper lower) {shown : Shown}
    (member : shown ∈ entries.visible depth level) :
    lower ≤ shown.lower ∧ shown.lower < shown.upper ∧ shown.upper ≤ upper := by
  induction entries generalizing lower upper level with
  | nil => exact absurd member List.not_mem_nil
  | region start size rest ih =>
    obtain ⟨above, positive, below, restFormed⟩ := wellFormed
    rcases List.mem_cons.mp member with rfl | later
    · simp only [Shown.lower, Shown.upper, Region.lower, Region.upper]
      omega
    · obtain ⟨after, proper, within⟩ := ih restFormed later
      exact ⟨by omega, proper, within⟩
  | submap start size inside rest ihInside ihRest =>
    obtain ⟨above, positive, below, insideFormed, restFormed⟩ := wellFormed
    rcases List.mem_append.mp member with here | later
    · split at here
      · obtain ⟨after, proper, within⟩ := ihInside insideFormed here
        exact ⟨by omega, proper, by omega⟩
      · obtain rfl := List.mem_singleton.mp here
        simp only [Shown.lower, Shown.upper, Region.lower, Region.upper]
        omega
    · obtain ⟨after, proper, within⟩ := ihRest restFormed later
      exact ⟨by omega, proper, within⟩

theorem visible_ordered {depth level lower upper : ℕ} {entries : Entries}
    (wellFormed : entries.WellFormed upper lower) :
    (entries.visible depth level).Pairwise fun left right => left.upper ≤ right.lower := by
  induction entries generalizing lower upper level with
  | nil => exact List.Pairwise.nil
  | region start size rest ih =>
    obtain ⟨_, _, _, restFormed⟩ := wellFormed
    exact List.pairwise_cons.mpr ⟨fun right later => (visible_bounds restFormed later).1, ih restFormed⟩
  | submap start size inside rest ihInside ihRest =>
    obtain ⟨_, _, _, insideFormed, restFormed⟩ := wellFormed
    refine List.pairwise_append.mpr ⟨?_, ihRest restFormed, ?_⟩
    · split
      · exact ihInside insideFormed
      · exact List.pairwise_singleton _ _
    · intro left here right later
      refine Nat.le_trans ?_ (visible_bounds restFormed later).1
      split at here
      · exact (visible_bounds insideFormed here).2.2
      · rw [List.mem_singleton.mp here]
        exact le_rfl

theorem wellFormed_of_visible {depth level lower upper : ℕ} {entries inside : Entries}
    (wellFormed : entries.WellFormed upper lower) {shown : Shown}
    (member : shown ∈ entries.visible depth level) (submap : shown.inside = some inside) :
    inside.WellFormed shown.upper shown.lower := by
  induction entries generalizing lower upper level with
  | nil => exact absurd member List.not_mem_nil
  | region start size rest ih =>
    rcases List.mem_cons.mp member with rfl | later
    · contradiction
    · exact ih wellFormed.2.2.2 later
  | submap start size inner rest ihInside ihRest =>
    obtain ⟨_, _, _, insideFormed, restFormed⟩ := wellFormed
    rcases List.mem_append.mp member with here | later
    · split at here
      · exact ihInside insideFormed here
      · obtain rfl := List.mem_singleton.mp here
        obtain rfl := Option.some.inj submap
        exact insideFormed
    · exact ihRest restFormed later

/-! ## Resolution -/

theorem regions_eq_flatMap (depth level : ℕ) (entries : Entries) :
    entries.regions level = (entries.visible depth level).flatMap Shown.regions := by
  induction entries generalizing level with
  | nil => rfl
  | region start size rest ih =>
    rw [regions, visible, List.flatMap_cons, ih]
    rfl
  | submap start size inside rest ihInside ihRest =>
    rw [regions, visible, List.flatMap_append, ihRest]
    congr 1
    split
    · exact ihInside (level + 1)
    · rw [List.flatMap_singleton]
      rfl

/-- One level deeper, exactly the shown submaps are opened. -/
theorem visible_succ {depth level : ℕ} (within : level ≤ depth) (entries : Entries) :
    entries.visible (depth + 1) level = (entries.visible depth level).flatMap Shown.opened := by
  induction entries generalizing level with
  | nil => rfl
  | region start size rest ih =>
    rw [visible, visible, List.flatMap_cons, ih within]
    rfl
  | submap start size inside rest ihInside ihRest =>
    rw [visible, visible, List.flatMap_append, ihRest within, if_pos (by omega)]
    congr 1
    split
    case isTrue above => exact ihInside above
    case isFalse last =>
      obtain rfl : level = depth := by omega
      rw [List.flatMap_singleton]
      rfl

/-- Deep enough, nothing but the regions is shown. -/
theorem visible_of_submapDepth_le {depth level : ℕ} {entries : Entries}
    (deep : level + entries.submapDepth ≤ depth) :
    entries.visible depth level = (entries.regions level).map fun region => ⟨region, none⟩ := by
  induction entries generalizing level with
  | nil => rfl
  | region start size rest ih =>
    rw [visible, regions, List.map_cons, ih deep]
  | submap start size inside rest ihInside ihRest =>
    rw [submapDepth] at deep
    rw [visible, regions, List.map_append, if_pos (by omega), ihInside (by omega), ihRest (by omega)]

theorem regions_bounds {level lower upper : ℕ} {entries : Entries}
    (wellFormed : entries.WellFormed upper lower) {region : Region}
    (member : region ∈ entries.regions level) :
    lower ≤ region.lower ∧ region.lower < region.upper ∧ region.upper ≤ upper := by
  have shown : (⟨region, none⟩ : Shown) ∈ entries.visible (level + entries.submapDepth) level := by
    rw [visible_of_submapDepth_le le_rfl]
    exact List.mem_map_of_mem member
  exact visible_bounds wellFormed shown

theorem regions_ordered {level lower upper : ℕ} {entries : Entries}
    (wellFormed : entries.WellFormed upper lower) :
    (entries.regions level).Pairwise fun left right => left.upper ≤ right.lower := by
  have ordered : (entries.visible (level + entries.submapDepth) level).Pairwise
      fun left right => left.upper ≤ right.lower := visible_ordered wellFormed
  rw [visible_of_submapDepth_le le_rfl, List.pairwise_map] at ordered
  exact ordered

/-! ## Levels -/

theorem level_of_visible {depth level : ℕ} (within : level ≤ depth) {entries : Entries} {shown : Shown}
    (member : shown ∈ entries.visible depth level) : level ≤ shown.level ∧ shown.level ≤ depth := by
  induction entries generalizing level with
  | nil => exact absurd member List.not_mem_nil
  | region start size rest ih =>
    rcases List.mem_cons.mp member with rfl | later
    · exact ⟨le_rfl, within⟩
    · exact ih within later
  | submap start size inside rest ihInside ihRest =>
    rcases List.mem_append.mp member with here | later
    · split at here
      case isTrue above =>
        obtain ⟨deeper, bound⟩ := ihInside above here
        exact ⟨by omega, bound⟩
      case isFalse =>
        obtain rfl := List.mem_singleton.mp here
        exact ⟨le_rfl, within⟩
    · exact ihRest within later

/-- A submap is shown only at the last level that is looked through. -/
theorem level_of_visible_submap {depth level : ℕ} (within : level ≤ depth) {entries inside : Entries}
    {shown : Shown} (member : shown ∈ entries.visible depth level) (submap : shown.inside = some inside) :
    shown.level = depth ∧ depth < level + entries.submapDepth := by
  induction entries generalizing level with
  | nil => exact absurd member List.not_mem_nil
  | region start size rest ih =>
    rcases List.mem_cons.mp member with rfl | later
    · contradiction
    · exact ih within later
  | submap start size inner rest ihInside ihRest =>
    rw [submapDepth]
    rcases List.mem_append.mp member with here | later
    · split at here
      case isTrue above =>
        obtain ⟨last, bound⟩ := ihInside above here
        exact ⟨last, by omega⟩
      case isFalse below =>
        obtain rfl := List.mem_singleton.mp here
        exact ⟨by simp only; omega, by omega⟩
    · obtain ⟨last, bound⟩ := ihRest within later
      exact ⟨last, by omega⟩

/-- A region is shown from its own level on. -/
theorem mem_visible_of_level_le {depth shallow level : ℕ} {entries : Entries} {shown : Shown}
    (within : level ≤ depth) (member : shown ∈ entries.visible depth level) (noSubmap : shown.inside = none)
    (reached : shown.level ≤ shallow) : shown ∈ entries.visible shallow level := by
  induction entries generalizing level with
  | nil => exact absurd member List.not_mem_nil
  | region start size rest ih =>
    rcases List.mem_cons.mp member with rfl | later
    · exact List.mem_cons_self
    · exact List.mem_cons_of_mem _ (ih within later)
  | submap start size inside rest ihInside ihRest =>
    rcases List.mem_append.mp member with here | later
    · apply List.mem_append_left
      split at here
      case isTrue above =>
        have deeper := (level_of_visible above here).1
        rw [if_pos (by omega)]
        exact ihInside above here
      case isFalse =>
        obtain rfl := List.mem_singleton.mp here
        contradiction
    · exact List.mem_append_right _ (ihRest within later)

end Entries

/-! ## The map -/

/-- A map whose regions all end below `2^64`. -/
structure AddressMap where
  entries : Entries
  wellFormed : entries.WellFormed (2 ^ 64 - 1) 0

namespace AddressMap

/-- What is shown through at most `depth` submaps. -/
def visible (map : AddressMap) (depth : ℕ) : List Shown := map.entries.visible depth 0

def regions (map : AddressMap) : List Region := map.entries.regions 0

def submapDepth (map : AddressMap) : ℕ := map.entries.submapDepth

/-- The first shown region that ends above the address. -/
def firstAbove (map : AddressMap) (address depth : ℕ) : Option Shown :=
  (map.visible depth).find? fun shown => address < shown.upper

/-- No region shown at the depth straddles the address, and the regions before it are `passed`. -/
def Reached (map : AddressMap) (depth address : ℕ) (passed : List Region) : Prop :=
  ∃ before after, before ++ after = map.visible depth ∧
    Intervals.Cut Shown.lower Shown.upper before after address ∧ passed = before.flatMap Shown.regions

variable {map : AddressMap} {depth address : ℕ} {passed : List Region} {shown : Shown}

theorem visible_proper (member : shown ∈ map.visible depth) : shown.lower < shown.upper :=
  (Entries.visible_bounds map.wellFormed member).2.1

theorem upper_lt (map : AddressMap) (member : shown ∈ map.visible depth) : shown.upper < 2 ^ 64 :=
  Nat.lt_of_le_pred (by decide) (Entries.visible_bounds map.wellFormed member).2.2

theorem visible_ordered (map : AddressMap) (depth : ℕ) :
    (map.visible depth).Pairwise fun left right => left.upper ≤ right.lower :=
  Entries.visible_ordered map.wellFormed

theorem regions_inside (member : shown ∈ map.visible depth) {region : Region}
    (part : region ∈ shown.regions) : shown.lower ≤ region.lower ∧ region.upper ≤ shown.upper := by
  cases inside : shown.inside with
  | none =>
    rw [Shown.regions, inside] at part
    rw [List.mem_singleton.mp part]
    exact ⟨le_rfl, le_rfl⟩
  | some entries =>
    rw [Shown.regions, inside] at part
    obtain ⟨above, _, below⟩ :=
      Entries.regions_bounds (Entries.wellFormed_of_visible map.wellFormed member inside) part
    exact ⟨above, below⟩

theorem opened_inside (member : shown ∈ map.visible depth) {part : Shown}
    (opened : part ∈ shown.opened) : shown.lower ≤ part.lower ∧ part.upper ≤ shown.upper := by
  cases inside : shown.inside with
  | none =>
    rw [Shown.opened, inside] at opened
    rw [List.mem_singleton.mp opened]
    exact ⟨le_rfl, le_rfl⟩
  | some entries =>
    rw [Shown.opened, inside] at opened
    obtain ⟨above, _, below⟩ :=
      Entries.visible_bounds (Entries.wellFormed_of_visible map.wellFormed member inside) opened
    exact ⟨above, below⟩

/-- Opening a submap does not change the regions it stands for. -/
theorem flatMap_opened_regions (shown : Shown) : shown.opened.flatMap Shown.regions = shown.regions := by
  cases inside : shown.inside with
  | none =>
    rw [Shown.opened, inside]
    exact List.flatMap_singleton _ _
  | some entries =>
    rw [Shown.opened, Shown.regions, inside]
    exact (Entries.regions_eq_flatMap _ _ entries).symm

theorem reached_zero (map : AddressMap) (depth : ℕ) : map.Reached depth 0 [] :=
  ⟨[], map.visible depth, rfl, ⟨List.forall_mem_nil _, fun _ _ => Nat.zero_le _⟩, rfl⟩

theorem Reached.isPrefix (reached : map.Reached depth address passed) : passed <+: map.regions := by
  obtain ⟨before, after, split, _, rfl⟩ := reached
  refine ⟨after.flatMap Shown.regions, ?_⟩
  rw [← List.flatMap_append, split]
  exact (Entries.regions_eq_flatMap depth 0 map.entries).symm

/-- The first region above the address is the next one behind the cut. -/
theorem Reached.firstAbove_eq {before after : List Shown} (split : before ++ after = map.visible depth)
    (cut : Intervals.Cut Shown.lower Shown.upper before after address) :
    map.firstAbove address depth = after.head? := by
  rw [firstAbove, ← split]
  refine cut.find?_eq_head? fun interval later => ?_
  have member : interval ∈ map.visible depth := split ▸ List.mem_append_right before later
  exact visible_proper member

theorem Reached.last (reached : map.Reached depth address passed)
    (answer : map.firstAbove address depth = none) : passed = map.regions := by
  obtain ⟨before, after, split, cut, rfl⟩ := reached
  rw [Reached.firstAbove_eq split cut, List.head?_eq_none_iff] at answer
  rw [answer, List.append_nil] at split
  rw [split]
  exact (Entries.regions_eq_flatMap depth 0 map.entries).symm

/-- At the first submap above the address, the same regions are before its start one level deeper. -/
theorem Reached.enter (reached : map.Reached depth address passed)
    (answer : map.firstAbove address depth = some shown) {entries : Entries}
    (submap : shown.inside = some entries) :
    shown.level = depth ∧ depth < map.submapDepth ∧ map.Reached (depth + 1) shown.lower passed := by
  obtain ⟨before, after, split, cut, rfl⟩ := reached
  rw [Reached.firstAbove_eq split cut, List.head?_eq_some_iff] at answer
  obtain ⟨after, rfl⟩ := answer
  have member : shown ∈ map.visible depth := split ▸ List.mem_append_right before List.mem_cons_self
  have ordered := map.visible_ordered depth
  obtain ⟨last, deep⟩ := Entries.level_of_visible_submap (Nat.zero_le depth) member submap
  rw [Nat.zero_add] at deep
  refine ⟨last, deep, before.flatMap Shown.opened, (shown :: after).flatMap Shown.opened, ?_, ?_, ?_⟩
  · rw [← List.flatMap_append, split]
    exact (Entries.visible_succ (Nat.zero_le depth) map.entries).symm
  · refine (cut.advance (visible_proper member) ?_).flatMap fun interval shownHere part opened => ?_
    · exact (List.pairwise_append.mp (split.symm ▸ ordered)).2.1
    · exact opened_inside (split ▸ shownHere) opened
  · rw [List.flatMap_assoc]
    exact List.flatMap_congr fun interval _ => (flatMap_opened_regions interval).symm

/-- The address alone determines which regions are before it. -/
theorem Reached.passed_eq (reached : map.Reached depth address passed) :
    passed = map.regions.filter fun region => region.upper ≤ address := by
  obtain ⟨before, after, split, cut, rfl⟩ := reached
  have whole : map.regions = before.flatMap Shown.regions ++ after.flatMap Shown.regions := by
    rw [← List.flatMap_append, split]
    exact Entries.regions_eq_flatMap depth 0 map.entries
  have parts : Intervals.Cut Region.lower Region.upper (before.flatMap Shown.regions)
      (after.flatMap Shown.regions) address :=
    cut.flatMap fun interval member part inside => regions_inside (split ▸ member) inside
  rw [whole, parts.filter_eq fun region later => ?_]
  have member : region ∈ map.regions := whole ▸ List.mem_append_right _ later
  exact (Entries.regions_bounds map.wellFormed member).2.1

/-- At the first region above the address, the level of the region is deep enough to go on. -/
theorem Reached.skip (reached : map.Reached depth address passed)
    (answer : map.firstAbove address depth = some shown) (region : shown.inside = none) :
    shown.level ≤ depth ∧ map.Reached shown.level shown.upper (passed ++ [shown.toRegion]) := by
  obtain ⟨before, after, split, cut, rfl⟩ := reached
  rw [Reached.firstAbove_eq split cut, List.head?_eq_some_iff] at answer
  obtain ⟨after, rfl⟩ := answer
  have member : shown ∈ map.visible depth := split ▸ List.mem_append_right before List.mem_cons_self
  have proper := visible_proper member
  have single : shown.regions = [shown.toRegion] := by rw [Shown.regions, region]
  have here : map.Reached depth shown.upper (before.flatMap Shown.regions ++ [shown.toRegion]) := by
    refine ⟨before ++ [shown], after, ?_, cut.next proper ?_, ?_⟩
    · rw [List.append_assoc, List.singleton_append, split]
    · exact (List.pairwise_append.mp (split.symm ▸ map.visible_ordered depth)).2.1
    · rw [List.flatMap_append, List.flatMap_singleton, single]
  have coarse : shown ∈ map.visible shown.level :=
    Entries.mem_visible_of_level_le (Nat.zero_le depth) member region le_rfl
  obtain ⟨earlier, later, coarseSplit⟩ := List.append_of_mem coarse
  have ordered := map.visible_ordered shown.level
  rw [coarseSplit] at ordered
  obtain ⟨_, ordered, across⟩ := List.pairwise_append.mp ordered
  have atStart : Intervals.Cut Shown.lower Shown.upper earlier (shown :: later) shown.lower := by
    refine ⟨fun interval member => across interval member shown List.mem_cons_self, ?_⟩
    intro interval member
    rcases List.mem_cons.mp member with rfl | behind
    · exact le_rfl
    · exact proper.le.trans ((List.pairwise_cons.mp ordered).1 interval behind)
  have there : map.Reached shown.level shown.upper ((earlier ++ [shown]).flatMap Shown.regions) := by
    refine ⟨earlier ++ [shown], later, ?_, atStart.next proper ordered, rfl⟩
    rw [List.append_assoc, List.singleton_append, coarseSplit]
  refine ⟨(Entries.level_of_visible (Nat.zero_le depth) member).2, ?_⟩
  rw [here.passed_eq, ← there.passed_eq]
  exact there

theorem regions_increasing (map : AddressMap) :
    map.regions.Pairwise fun left right => left.start < right.start := by
  refine (Entries.regions_ordered map.wellFormed).imp_of_mem fun {left right} member _ ordered => ?_
  have proper := (Entries.regions_bounds map.wellFormed member).2.1
  rw [UInt64.lt_iff_toNat_lt]
  exact lt_of_lt_of_le proper ordered

end AddressMap

end INote.CodeSnippets
