import INote.CodeSnippets.AddressMap
import INote.CodeSnippets.VMRegionRecurse
import Mathlib.Data.Prod.Lex

/-! # The walk over an address map

The kernel answers with the first region above `address` that is shown through `depth` submaps. The
loop never lowers `depth` itself and does not move past a submap: a pass that enters one keeps the
regions still to be listed and comes closer to the deepest nesting, any other pass lists one. The
depth is a 32-bit number, so this holds as long as it can count the nesting of the map.
-/

namespace INote.CodeSnippets

/-- The kernel answers according to the map. -/
def Environment.Follows (env : Environment) (map : AddressMap) : Prop :=
  ∀ call address size depth,
    match map.firstAbove address.toNat depth.toNat with
    | none =>
      ∃ failed, env.vmRegionRecurse64 call address size depth = .failure kernInvalidAddress failed
    | some shown =>
      ∃ info, env.vmRegionRecurse64 call address size depth =
          .success shown.start shown.size (UInt32.ofNat shown.level) info ∧
        (info.isSubmap ≠ 0 ↔ shown.inside.isSome)

/-- The region a line lists. -/
def Line.region? : Line → Option Region
  | .recursing .. => none
  | .vmRegion start _ depth size _ _ _ => some ⟨start, size, depth.toNat⟩

def Walk.listed (walk : Walk) : List Region := walk.output.filterMap Line.region?

/-- The loop is left, and the regions of the map are listed once each, in increasing order. -/
def ListsRegions (env : Environment) (map : AddressMap) : Prop :=
  ∃ fuel output, vmRegionRecurseExample fuel env = some output ∧
    output.filterMap Line.region? = map.regions ∧
    (output.filterMap Line.region?).Pairwise fun left right => left.start < right.start

variable {env : Environment} {map : AddressMap} {walk next : Walk} {shown : Shown}

theorem body_of_none (follows : env.Follows map)
    (answer : map.firstAbove walk.address.toNat walk.depth.toNat = none) :
    body env walk = .leave { walk with calls := walk.calls + 1 } := by
  have spec := follows walk.calls walk.address walk.size walk.depth
  rw [answer] at spec
  obtain ⟨failed, failure⟩ := spec
  apply body_of_invalidAddress
  rw [Environment.answer, failure, Answer.code]

theorem body_of_submap (follows : env.Follows map)
    (answer : map.firstAbove walk.address.toNat walk.depth.toNat = some shown)
    (submap : shown.inside.isSome) :
    body env walk = .again
      { address := shown.start
        size := shown.size
        depth := UInt32.ofNat shown.level + 1
        calls := walk.calls + 1
        output := walk.output ++ [.recursing shown.start (shown.start + shown.size) shown.size] } := by
  have spec := follows walk.calls walk.address walk.size walk.depth
  rw [answer] at spec
  obtain ⟨info, success, isSubmap⟩ := spec
  have answered : env.answer walk =
      .success shown.start shown.size (UInt32.ofNat shown.level) info := success
  simp only [body, answered, Answer.code, Environment.info]
  rw [if_neg kernInvalidAddress_ne_kernSuccess.symm, if_pos (isSubmap.mpr submap)]
  rfl

theorem body_of_region (follows : env.Follows map)
    (answer : map.firstAbove walk.address.toNat walk.depth.toNat = some shown)
    (region : shown.inside = none) :
    ∃ protection userTag name, body env walk = .again
      { address := shown.start + shown.size
        size := shown.size
        depth := UInt32.ofNat shown.level
        calls := walk.calls + 1
        output := walk.output ++ [.vmRegion shown.start (shown.start + shown.size)
          (UInt32.ofNat shown.level) shown.size protection userTag name] } := by
  have spec := follows walk.calls walk.address walk.size walk.depth
  rw [answer] at spec
  obtain ⟨info, success, isSubmap⟩ := spec
  have answered : env.answer walk =
      .success shown.start shown.size (UInt32.ofNat shown.level) info := success
  have flat : ¬ info.isSubmap ≠ 0 := by
    rw [isSubmap, region]
    exact Bool.false_ne_true
  refine ⟨info.perms, info.userTag, env.regionName (walk.answered (env.answer walk)), ?_⟩
  simp only [body, answered, Answer.code, Environment.info]
  rw [if_neg kernInvalidAddress_ne_kernSuccess.symm, if_neg flat]
  rfl

/-- The regions listed so far are those before the address, which no region shown straddles. -/
def Walking (map : AddressMap) (walk : Walk) : Prop :=
  map.Reached walk.depth.toNat walk.address.toNat walk.listed

/-- The regions still to be listed and, between two of them, the submaps still to be entered. -/
def remaining (map : AddressMap) (walk : Walk) : ℕ ×ₗ ℕ :=
  toLex (map.regions.length - walk.listed.length, map.submapDepth - walk.depth.toNat)

theorem filterMap_region?_concat (output : List Line) (line : Line) :
    (output ++ [line]).filterMap Line.region? = output.filterMap Line.region? ++ line.region?.toList := by
  rw [List.filterMap_append]
  cases line <;> rfl

theorem Walking.enter (shallow : map.submapDepth < 2 ^ 32) (follows : env.Follows map)
    (walking : Walking map walk) (pass : body env walk = .again next)
    (answer : map.firstAbove walk.address.toNat walk.depth.toNat = some shown) {entries : Entries}
    (inside : shown.inside = some entries) : Walking map next ∧ remaining map next < remaining map walk := by
  obtain ⟨last, deep, reached⟩ := AddressMap.Reached.enter walking answer inside
  rw [body_of_submap follows answer (inside ▸ rfl)] at pass
  obtain rfl := Loop.Pass.again.inj pass
  have deeper : (UInt32.ofNat shown.level + 1).toNat = walk.depth.toNat + 1 := by
    rw [last, UInt32.ofNat_toNat, UInt32.toNat_add, UInt32.toNat_one]
    exact Nat.mod_eq_of_lt (by omega)
  simp only [Walking, remaining, Walk.listed, filterMap_region?_concat, deeper, Line.region?,
    Option.toList_none, List.append_nil]
  refine ⟨reached, Prod.Lex.toLex_lt_toLex.mpr (.inr ⟨rfl, ?_⟩)⟩
  simp only
  omega

theorem Walking.list (follows : env.Follows map)
    (walking : Walking map walk) (pass : body env walk = .again next)
    (answer : map.firstAbove walk.address.toNat walk.depth.toNat = some shown)
    (region : shown.inside = none) : Walking map next ∧ remaining map next < remaining map walk := by
  obtain ⟨level, reached⟩ := AddressMap.Reached.skip walking answer region
  obtain ⟨protection, userTag, name, again⟩ := body_of_region follows answer region
  rw [again] at pass
  obtain rfl := Loop.Pass.again.inj pass
  have representable := walk.depth.toNat_lt
  have sameLevel : (UInt32.ofNat shown.level).toNat = shown.level :=
    UInt32.toNat_ofNat_of_lt' (by simp only [UInt32.size]; omega)
  have stop : (shown.start + shown.size).toNat = shown.upper := by
    have below := map.upper_lt (List.mem_of_find?_eq_some answer)
    rw [UInt64.toNat_add]
    exact Nat.mod_eq_of_lt below
  have longer := reached.isPrefix.length_le
  rw [List.length_append, List.length_singleton] at longer
  simp only [Walking, remaining, Walk.listed, filterMap_region?_concat, sameLevel, Line.region?,
    Option.toList_some, stop]
  refine ⟨reached, Prod.Lex.toLex_lt_toLex.mpr (.inl ?_)⟩
  simp only [List.length_append, List.length_singleton, Walk.listed] at longer ⊢
  omega

theorem Walking.again (shallow : map.submapDepth < 2 ^ 32) (follows : env.Follows map)
    (walking : Walking map walk) (pass : body env walk = .again next) :
    Walking map next ∧ remaining map next < remaining map walk := by
  cases answer : map.firstAbove walk.address.toNat walk.depth.toNat with
  | none =>
    rw [body_of_none follows answer] at pass
    contradiction
  | some shown =>
    cases inside : shown.inside with
    | some entries => exact Walking.enter shallow follows walking pass answer inside
    | none => exact walking.list follows pass answer inside

theorem Walking.leave {result : Walk} (follows : env.Follows map) (walking : Walking map walk)
    (pass : body env walk = .leave result) : result.listed = map.regions := by
  cases answer : map.firstAbove walk.address.toNat walk.depth.toNat with
  | none =>
    rw [body_of_none follows answer] at pass
    obtain rfl := Loop.Pass.leave.inj pass
    exact AddressMap.Reached.last walking answer
  | some shown =>
    cases inside : shown.inside with
    | some entries =>
      rw [body_of_submap follows answer (inside ▸ rfl)] at pass
      contradiction
    | none =>
      obtain ⟨_, _, _, again⟩ := body_of_region follows answer inside
      rw [again] at pass
      contradiction

/-- The environment in which the kernel answers according to the map. -/
def AddressMap.environment (map : AddressMap) : Environment :=
  { emptyTask with
    vmRegionRecurse64 := fun _ address _ depth =>
      match map.firstAbove address.toNat depth.toNat with
      | none => .failure kernInvalidAddress kernInvalidAddress_ne_kernSuccess
      | some shown => .success shown.start shown.size (UInt32.ofNat shown.level)
          ⟨vmProtRead, vmProtRead, 0, if shown.inside.isSome then 1 else 0⟩ }

theorem AddressMap.environment_follows (map : AddressMap) : map.environment.Follows map := by
  intro call address size depth
  simp only [AddressMap.environment]
  cases map.firstAbove address.toNat depth.toNat with
  | none => exact ⟨_, rfl⟩
  | some shown =>
    refine ⟨_, rfl, ?_⟩
    cases shown.inside with
    | none => decide
    | some entries => simp

/-- Over every map whose nesting a `uint32_t` can count, the walk ends and lists every region once. -/
theorem listsRegions_of_follows (env : Environment) (map : AddressMap)
    (shallow : map.submapDepth < 2 ^ 32) (follows : env.Follows map) : ListsRegions env map := by
  have start : Walking map Walk.start := map.reached_zero _
  obtain ⟨fuel, result, value, listed⟩ := Loop.exists_run (Walking map) (remaining map)
    (fun _ _ walking pass => walking.again shallow follows pass)
    (fun _ _ walking pass => walking.leave follows pass) start
  refine ⟨fuel, result.output, ?_, listed, ?_⟩
  · rw [vmRegionRecurseExample, value, Option.map_some]
  · rw [show result.output.filterMap Line.region? = map.regions from listed]
    exact map.regions_increasing

/-- A region, a submap with a region and an empty submap, and a region. -/
def sharedCache : AddressMap where
  entries := .region 0x1000 0x1000 <|
    .submap 0x4000 0x4000 (.region 0x5000 0x1000 <| .submap 0x6000 0x1000 .nil .nil) <|
    .region 0x9000 0x1000 .nil
  wellFormed := by
    simp only [Entries.WellFormed]
    decide

theorem listsRegions_sharedCache :
    sharedCache.submapDepth < 2 ^ 32 ∧ ListsRegions sharedCache.environment sharedCache :=
  ⟨by decide, listsRegions_of_follows _ sharedCache (by decide) sharedCache.environment_follows⟩

/-! ## Nesting beyond `uint32_t` -/

/-- Submaps on one page, each of which contains the next. -/
def nest : ℕ → Entries
  | 0 => .nil
  | count + 1 => .submap 0 0x1000 (nest count) .nil

theorem nest_wellFormed (count : ℕ) {upper : ℕ} (room : 0x1000 ≤ upper) :
    (nest count).WellFormed upper 0 := by
  induction count generalizing upper with
  | zero => trivial
  | succ count ih => exact ⟨le_rfl, by decide, room, ih le_rfl, trivial⟩

def nested (count : ℕ) : AddressMap := ⟨nest count, nest_wellFormed count (by decide)⟩

theorem visible_nest (depth level count : ℕ) (within : level ≤ depth) (deep : depth < level + count) :
    ∃ entries, (nest count).visible depth level = [⟨⟨0, 0x1000, depth⟩, some entries⟩] := by
  induction count generalizing level with
  | zero => omega
  | succ count ih =>
    rw [nest, Entries.visible]
    split
    case isTrue above =>
      obtain ⟨entries, shown⟩ := ih (level + 1) (by omega) (by omega)
      exact ⟨entries, by rw [shown]; rfl⟩
    case isFalse below =>
      obtain rfl : level = depth := by omega
      exact ⟨nest count, rfl⟩

/-- At every depth a `uint32_t` can have there is a submap to enter. -/
theorem firstAbove_nested {count : ℕ} (deep : 2 ^ 32 ≤ count) (depth : UInt32) :
    ∃ entries, (nested count).firstAbove 0 depth.toNat = some ⟨⟨0, 0x1000, depth.toNat⟩, some entries⟩ := by
  have representable := depth.toNat_lt
  obtain ⟨entries, shown⟩ :=
    visible_nest depth.toNat 0 count (Nat.zero_le _) (by omega)
  refine ⟨entries, ?_⟩
  rw [AddressMap.firstAbove, AddressMap.visible, nested, shown]
  rfl

theorem not_listsRegions_nested {count : ℕ} (deep : 2 ^ 32 ≤ count) :
    ¬ ListsRegions (nested count).environment (nested count) := by
  rintro ⟨fuel, output, value, _⟩
  rw [vmRegionRecurseExample, Option.map_eq_some_iff] at value
  obtain ⟨result, value, _⟩ := value
  refine Loop.not_exits (fun walk : Walk => walk.address = 0) ?_ (rfl : Walk.start.address = 0) result
    (Loop.exits_of_run value)
  intro walk zero
  obtain ⟨entries, shown⟩ := firstAbove_nested deep walk.depth
  have answer : (nested count).firstAbove walk.address.toNat walk.depth.toNat =
      some ⟨⟨0, 0x1000, walk.depth.toNat⟩, some entries⟩ := by
    rw [zero]
    exact shown
  exact ⟨_, body_of_submap (nested count).environment_follows answer rfl, rfl⟩

/-- With `2^32` nested submaps the depth wraps around and the walk never ends. -/
theorem nested_not_listsRegions :
    (nested (2 ^ 32)).environment.Follows (nested (2 ^ 32)) ∧
      ¬ ListsRegions (nested (2 ^ 32)).environment (nested (2 ^ 32)) :=
  ⟨AddressMap.environment_follows _, not_listsRegions_nested le_rfl⟩

end INote.CodeSnippets
