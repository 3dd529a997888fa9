import INote.CodeSnippets.VMRegionWalk

/-! # The transcript of the walk

The loop knows one address and one depth, and asks the kernel for one region at a time. Its output is
nevertheless that of a recursion over the map: a region is printed and sets the depth to its own level,
and a submap is announced, before what it contains, only when the depth does not reach into it yet.
-/

namespace INote.CodeSnippets

/-- What a line says about the map. -/
inductive Mention where
  | recursing (start stop size : UInt64)
  | vmRegion (start stop : UInt64) (depth : UInt32) (size : UInt64)
deriving DecidableEq

def Line.mention : Line → Mention
  | .recursing start stop size => .recursing start stop size
  | .vmRegion start stop depth size _ _ _ => .vmRegion start stop depth size

/-- What is said during a part of the recursion, and the depth after it. -/
structure Traversal where
  mentions : List Mention
  depth : ℕ
deriving DecidableEq

namespace Traversal

def quiet (depth : ℕ) : Traversal := ⟨[], depth⟩

def say (mention : Mention) (later : Traversal) : Traversal :=
  { later with mentions := mention :: later.mentions }

def andThen (first : Traversal) (next : ℕ → Traversal) : Traversal :=
  let later := next first.depth
  ⟨first.mentions ++ later.mentions, later.depth⟩

@[simp] theorem quiet_andThen (depth : ℕ) (next : ℕ → Traversal) :
    (quiet depth).andThen next = next depth := rfl

@[simp] theorem say_andThen (mention : Mention) (first : Traversal) (next : ℕ → Traversal) :
    (first.say mention).andThen next = (first.andThen next).say mention := rfl

end Traversal

/-- The line for a submap. -/
def enters (start size : UInt64) : Mention := .recursing start (start + size) size

/-- The line for a region. -/
def lists (start size : UInt64) (level : ℕ) : Mention :=
  .vmRegion start (start + size) (UInt32.ofNat level) size

/-- The region a line is about. -/
def Mention.listed? : Mention → Option (UInt64 × UInt64 × UInt32)
  | .recursing .. => none
  | .vmRegion start _ depth size => some (start, size, depth)

namespace Entries

/-- The recursion over entries at a level, with the depth threaded through it. -/
def traverse : ℕ → ℕ → Entries → Traversal
  | _, depth, nil => .quiet depth
  | level, _, region start size rest => (rest.traverse level level).say (lists start size level)
  | level, depth, submap start size inside rest =>
    if level < depth then
      (inside.traverse (level + 1) depth).andThen fun depth => rest.traverse level depth
    else
      ((inside.traverse (level + 1) (level + 1)).andThen fun depth => rest.traverse level depth).say
        (enters start size)

/-- Every region has its line, in the order of the map. -/
theorem listed_traverse (level depth : ℕ) (entries : Entries) :
    (entries.traverse level depth).mentions.filterMap Mention.listed? =
      (entries.regions level).map fun region => (region.start, region.size, UInt32.ofNat region.level) := by
  induction entries generalizing level depth with
  | nil => rfl
  | region start size rest ih => exact congrArg (List.cons _) (ih level level)
  | submap start size inside rest ihInside ihRest =>
    rw [traverse, regions, List.map_append, ← ihRest level (inside.traverse (level + 1) depth).depth,
      ← ihInside (level + 1) depth]
    split
    · exact List.filterMap_append
    · rw [ihInside (level + 1) depth, ← ihInside (level + 1) (level + 1), ihRest,
        ← ihRest level (inside.traverse (level + 1) (level + 1)).depth]
      exact List.filterMap_append

/-- The part of the recursion that is left at an address. -/
def traverseFrom (address : ℕ) : ℕ → ℕ → Entries → Traversal
  | _, depth, nil => .quiet depth
  | level, depth, region start size rest =>
    if start.toNat + size.toNat ≤ address then rest.traverseFrom address level depth
    else (rest.traverseFrom address level level).say (lists start size level)
  | level, depth, submap start size inside rest =>
    if level < depth then
      (inside.traverseFrom address (level + 1) depth).andThen fun depth =>
        rest.traverseFrom address level depth
    else if start.toNat + size.toNat ≤ address then rest.traverseFrom address level depth
    else
      ((inside.traverseFrom address (level + 1) (level + 1)).andThen fun depth =>
        rest.traverseFrom address level depth).say (enters start size)

variable {address level depth lower upper : ℕ} {entries : Entries} {shown : Shown}

/-- Before the first entry, all of it is left. -/
theorem traverseFrom_eq_traverse (wellFormed : entries.WellFormed upper lower) (before : address ≤ lower) :
    entries.traverseFrom address level depth = entries.traverse level depth := by
  induction entries generalizing lower upper level depth with
  | nil => rfl
  | region start size rest ih =>
    obtain ⟨above, positive, _, restFormed⟩ := wellFormed
    rw [traverseFrom, traverse, if_neg (by omega), ih restFormed (by omega)]
  | submap start size inside rest ihInside ihRest =>
    obtain ⟨above, positive, _, insideFormed, restFormed⟩ := wellFormed
    have ends : ¬ start.toNat + size.toNat ≤ address := by omega
    have later : ∀ depth, rest.traverseFrom address level depth = rest.traverse level depth :=
      fun _ => ihRest restFormed (by omega)
    simp only [traverseFrom, traverse, if_neg ends, ihInside insideFormed (Nat.le_trans before above), later]

/-- After the last entry, nothing is left. -/
theorem traverseFrom_of_le (wellFormed : entries.WellFormed upper lower) (after : upper ≤ address)
    (within : level ≤ depth) : entries.traverseFrom address level depth = .quiet depth := by
  induction entries generalizing lower upper level depth with
  | nil => rfl
  | region start size rest ih =>
    obtain ⟨_, _, below, restFormed⟩ := wellFormed
    rw [traverseFrom, if_pos (by omega), ih restFormed after within]
  | submap start size inside rest ihInside ihRest =>
    obtain ⟨_, _, below, insideFormed, restFormed⟩ := wellFormed
    rw [traverseFrom]
    split
    · rw [ihInside insideFormed (by omega) (by omega), Traversal.quiet_andThen, ihRest restFormed after within]
    · rw [if_pos (by omega), ihRest restFormed after within]

/-- Addresses before the first entry are alike. -/
theorem traverseFrom_congr {other : ℕ} (wellFormed : entries.WellFormed upper lower) (before : address ≤ lower)
    (otherBefore : other ≤ lower) :
    entries.traverseFrom address level depth = entries.traverseFrom other level depth :=
  (traverseFrom_eq_traverse wellFormed before).trans (traverseFrom_eq_traverse wellFormed otherBefore).symm

/-- What the kernel looks for. -/
def firstAbove (address level depth : ℕ) (entries : Entries) : Option Shown :=
  (entries.visible depth level).find? fun shown => address < shown.upper

theorem firstAbove_region (start size : UInt64) (rest : Entries) :
    (region start size rest).firstAbove address level depth =
      if address < start.toNat + size.toNat then some ⟨⟨start, size, level⟩, none⟩
      else rest.firstAbove address level depth := by
  rw [firstAbove, visible, List.find?_cons]
  by_cases above : address < start.toNat + size.toNat
  · simp [Shown.upper, Region.upper, above]
  · simp [Shown.upper, Region.upper, above, firstAbove]

theorem firstAbove_submap_of_lt (deeper : level < depth) (start size : UInt64) (inside rest : Entries) :
    (submap start size inside rest).firstAbove address level depth =
      (inside.firstAbove address (level + 1) depth).or (rest.firstAbove address level depth) := by
  rw [firstAbove, visible, if_pos deeper, List.find?_append]
  rfl

theorem firstAbove_submap (last : ¬ level < depth) (start size : UInt64) (inside rest : Entries) :
    (submap start size inside rest).firstAbove address level depth =
      if address < start.toNat + size.toNat then some ⟨⟨start, size, level⟩, some inside⟩
      else rest.firstAbove address level depth := by
  rw [firstAbove, visible, if_neg last, List.singleton_append, List.find?_cons]
  by_cases above : address < start.toNat + size.toNat
  · simp [Shown.upper, Region.upper, above]
  · simp [Shown.upper, Region.upper, above, firstAbove]

/-- When the kernel finds nothing, nothing is left. -/
theorem traverseFrom_of_none (within : level ≤ depth)
    (answer : entries.firstAbove address level depth = none) :
    entries.traverseFrom address level depth = .quiet depth := by
  induction entries generalizing level depth with
  | nil => rfl
  | region start size rest ih =>
    rw [firstAbove_region] at answer
    split at answer
    · contradiction
    · next passed => rw [traverseFrom, if_pos (by omega), ih within answer]
  | submap start size inside rest ihInside ihRest =>
    by_cases deeper : level < depth
    · rw [firstAbove_submap_of_lt deeper, Option.or_eq_none_iff] at answer
      rw [traverseFrom, if_pos deeper, ihInside deeper answer.1, Traversal.quiet_andThen,
        ihRest within answer.2]
    · rw [firstAbove_submap deeper] at answer
      split at answer
      · contradiction
      · next passed => rw [traverseFrom, if_neg deeper, if_pos (by omega), ihRest within answer]

theorem bounds_of_firstAbove (wellFormed : entries.WellFormed upper lower)
    (answer : entries.firstAbove address level depth = some shown) :
    lower ≤ shown.lower ∧ shown.upper ≤ upper ∧ address < shown.upper := by
  obtain ⟨above, _, below⟩ := visible_bounds wellFormed (List.mem_of_find?_eq_some answer)
  have found := List.find?_some (p := fun shown : Shown => decide (address < shown.upper)) answer
  exact ⟨above, below, of_decide_eq_true found⟩

/-- The region the kernel finds is the next one to be listed. -/
theorem traverseFrom_of_region (wellFormed : entries.WellFormed upper lower) (within : level ≤ depth)
    (answer : entries.firstAbove address level depth = some shown) (region : shown.inside = none) :
    entries.traverseFrom address level depth =
      (entries.traverseFrom shown.upper level shown.level).say (lists shown.start shown.size shown.level) := by
  induction entries generalizing lower upper level depth with
  | nil => contradiction
  | region start size rest ih =>
    obtain ⟨_, _, _, restFormed⟩ := wellFormed
    rw [firstAbove_region] at answer
    split at answer
    · next above =>
      obtain rfl := Option.some.inj answer
      have stop : Shown.upper ⟨⟨start, size, level⟩, none⟩ = start.toNat + size.toNat := rfl
      rw [stop, traverseFrom, traverseFrom, if_neg (by omega), if_pos le_rfl]
      exact congrArg _ (traverseFrom_congr restFormed (Nat.le_of_lt above) le_rfl)
    · next passed =>
      have later := (bounds_of_firstAbove restFormed answer).2.2
      rw [traverseFrom, traverseFrom, if_pos (by omega), if_pos (by omega), ih restFormed within answer]
  | submap start size inside rest ihInside ihRest =>
    obtain ⟨_, _, _, insideFormed, restFormed⟩ := wellFormed
    by_cases deeper : level < depth
    · rw [firstAbove_submap_of_lt deeper] at answer
      cases found : inside.firstAbove address (level + 1) depth with
      | some other =>
        -- The region is inside, so the depth stays above the level of the submap.
        rw [found, Option.some_or] at answer
        obtain rfl := Option.some.inj answer
        have member := List.mem_of_find?_eq_some found
        obtain ⟨_, ends, after⟩ := bounds_of_firstAbove insideFormed found
        have reaches : level < other.level := (level_of_visible deeper member).1
        have later : ∀ depth, rest.traverseFrom address level depth =
            rest.traverseFrom other.upper level depth :=
          fun _ => traverseFrom_congr restFormed (by omega) ends
        rw [traverseFrom, traverseFrom, if_pos deeper, if_pos reaches, ihInside insideFormed deeper found,
          Traversal.say_andThen]
        simp only [later]
      | none =>
        -- The submap is passed, whether or not the new depth reaches into it.
        rw [found, Option.none_or] at answer
        obtain ⟨starts, _, _⟩ := bounds_of_firstAbove restFormed answer
        have reaches := (level_of_visible within (List.mem_of_find?_eq_some answer)).1
        have passed : start.toNat + size.toNat ≤ shown.upper :=
          starts.trans (visible_bounds restFormed (List.mem_of_find?_eq_some answer)).2.1.le
        have empty : (submap start size inside rest).traverseFrom shown.upper level shown.level =
            rest.traverseFrom shown.upper level shown.level := by
          rw [traverseFrom]
          split
          · next further => rw [traverseFrom_of_le insideFormed passed further, Traversal.quiet_andThen]
          · rfl
        rw [traverseFrom, if_pos deeper, traverseFrom_of_none deeper found, Traversal.quiet_andThen,
          ihRest restFormed within answer, empty]
    · rw [firstAbove_submap deeper] at answer
      split at answer
      · obtain rfl := Option.some.inj answer
        contradiction
      · next passed =>
        have later := (bounds_of_firstAbove restFormed answer).2.2
        have top := (level_of_visible within (List.mem_of_find?_eq_some answer)).2
        rw [traverseFrom, traverseFrom, if_neg deeper, if_pos (by omega), if_neg (by omega),
          if_pos (by omega), ihRest restFormed within answer]

/-- The submap the kernel finds is the next one to be entered. -/
theorem traverseFrom_of_submap (wellFormed : entries.WellFormed upper lower) (within : level ≤ depth)
    (answer : entries.firstAbove address level depth = some shown) (submap : shown.inside.isSome)
    (before : address ≤ shown.lower) :
    entries.traverseFrom address level depth =
      (entries.traverseFrom shown.lower level (depth + 1)).say (enters shown.start shown.size) := by
  induction entries generalizing lower upper level depth with
  | nil => contradiction
  | region start size rest ih =>
    obtain ⟨_, _, _, restFormed⟩ := wellFormed
    rw [firstAbove_region] at answer
    split at answer
    · obtain rfl := Option.some.inj answer
      contradiction
    · next passed =>
      have starts := (bounds_of_firstAbove restFormed answer).1
      rw [traverseFrom, traverseFrom, if_pos (by omega), if_pos starts, ih restFormed within answer]
  | submap start size inside rest ihInside ihRest =>
    obtain ⟨_, _, _, insideFormed, restFormed⟩ := wellFormed
    rw [traverseFrom, traverseFrom, if_pos (show level < depth + 1 by omega)]
    by_cases deeper : level < depth
    · rw [firstAbove_submap_of_lt deeper] at answer
      rw [if_pos deeper]
      cases found : inside.firstAbove address (level + 1) depth with
      | some other =>
        rw [found, Option.some_or] at answer
        obtain rfl := Option.some.inj answer
        obtain ⟨_, ends, _⟩ := bounds_of_firstAbove insideFormed found
        have proper := (visible_bounds insideFormed (List.mem_of_find?_eq_some found)).2.1
        have later : ∀ depth, rest.traverseFrom address level depth =
            rest.traverseFrom other.lower level depth :=
          fun _ => traverseFrom_congr restFormed (by omega) (by omega)
        rw [ihInside insideFormed deeper found, Traversal.say_andThen]
        simp only [later]
      | none =>
        rw [found, Option.none_or] at answer
        have starts := (bounds_of_firstAbove restFormed answer).1
        rw [traverseFrom_of_none deeper found, Traversal.quiet_andThen, ihRest restFormed within answer,
          traverseFrom_of_le insideFormed starts (by omega), Traversal.quiet_andThen]
    · obtain rfl : level = depth := by omega
      rw [firstAbove_submap deeper] at answer
      rw [if_neg deeper]
      split at answer
      · next above =>
        obtain rfl := Option.some.inj answer
        have later : ∀ depth, rest.traverseFrom address level depth =
            rest.traverseFrom start.toNat level depth :=
          fun _ => traverseFrom_congr restFormed (by omega) (by omega)
        rw [if_neg (by omega), traverseFrom_congr insideFormed before le_rfl]
        simp only [later]
        rfl
      · next passed =>
        have starts := (bounds_of_firstAbove restFormed answer).1
        rw [if_pos (by omega), ihRest restFormed within answer,
          traverseFrom_of_le insideFormed starts (by omega), Traversal.quiet_andThen]

end Entries

/-! ## The run -/

namespace AddressMap

/-- What the whole recursion says, with the depth the loop starts with. -/
def transcript (map : AddressMap) : List Mention := (map.entries.traverse 0 1).mentions

/-- What is left to be said at an address and a depth. -/
def transcriptFrom (map : AddressMap) (address depth : ℕ) : List Mention :=
  (map.entries.traverseFrom address 0 depth).mentions

theorem listed_transcript (map : AddressMap) :
    map.transcript.filterMap Mention.listed? =
      map.regions.map fun region => (region.start, region.size, UInt32.ofNat region.level) :=
  Entries.listed_traverse 0 1 map.entries

theorem transcriptFrom_zero (map : AddressMap) : map.transcriptFrom 0 1 = map.transcript :=
  congrArg Traversal.mentions (Entries.traverseFrom_eq_traverse map.wellFormed le_rfl)

variable {map : AddressMap} {address depth : ℕ} {passed : List Region} {shown : Shown}

theorem transcriptFrom_of_none (answer : map.firstAbove address depth = none) :
    map.transcriptFrom address depth = [] := by
  rw [transcriptFrom, Entries.traverseFrom_of_none (Nat.zero_le depth) answer]
  rfl

theorem transcriptFrom_of_region (answer : map.firstAbove address depth = some shown)
    (region : shown.inside = none) :
    map.transcriptFrom address depth =
      lists shown.start shown.size shown.level :: map.transcriptFrom shown.upper shown.level := by
  rw [transcriptFrom, Entries.traverseFrom_of_region map.wellFormed (Nat.zero_le depth) answer region]
  rfl

/-- The address is not behind the start of the region the kernel finds. -/
theorem Reached.le_lower (reached : map.Reached depth address passed)
    (answer : map.firstAbove address depth = some shown) : address ≤ shown.lower := by
  obtain ⟨before, after, split, cut, _⟩ := reached
  rw [Reached.firstAbove_eq split cut] at answer
  exact cut.2 shown (List.mem_of_mem_head? answer)

theorem transcriptFrom_of_submap (reached : map.Reached depth address passed)
    (answer : map.firstAbove address depth = some shown) (submap : shown.inside.isSome) :
    map.transcriptFrom address depth =
      enters shown.start shown.size :: map.transcriptFrom shown.lower (depth + 1) := by
  rw [transcriptFrom, Entries.traverseFrom_of_submap map.wellFormed (Nat.zero_le depth) answer submap
    (reached.le_lower answer)]
  rfl

end AddressMap

variable {env : Environment} {map : AddressMap} {walk next : Walk} {shown : Shown}

/-- The level of a region fits the depth it is written to. -/
theorem toNat_level (within : shown.level ≤ walk.depth.toNat) :
    (UInt32.ofNat shown.level).toNat = shown.level := by
  have representable := walk.depth.toNat_lt
  exact UInt32.toNat_ofNat_of_lt' (by simp only [UInt32.size]; omega)

/-- Where the walk asks next, after a line. -/
def Mention.ask (mention : Mention) (query : UInt64 × UInt32) : UInt64 × UInt32 :=
  match mention with
  | .recursing start _ _ => (start, query.2 + 1)
  | .vmRegion _ stop depth _ => (stop, depth)

/-- Where the walk asks next. -/
def Walk.query (walk : Walk) : UInt64 × UInt32 := (walk.address, walk.depth)

/-- A pass prints the next line of what is left to be said, and the next question follows from the line. -/
theorem Walking.prints (shallow : map.submapDepth < 2 ^ 32) (follows : env.Follows map)
    (walking : Walking map walk) (pass : body env walk = .again next) :
    ∃ line, next.output = walk.output ++ [line] ∧ next.calls = walk.calls + 1 ∧
      next.query = line.mention.ask walk.query ∧
      map.transcriptFrom walk.address.toNat walk.depth.toNat =
        line.mention :: map.transcriptFrom next.address.toNat next.depth.toNat := by
  cases answer : map.firstAbove walk.address.toNat walk.depth.toNat with
  | none =>
    rw [body_of_none follows answer] at pass
    contradiction
  | some shown =>
    cases inside : shown.inside with
    | some entries =>
      have submap : shown.inside.isSome := inside ▸ rfl
      obtain ⟨last, deep, _⟩ := AddressMap.Reached.enter walking answer inside
      rw [body_of_submap follows answer submap] at pass
      obtain rfl := Loop.Pass.again.inj pass
      have deeper : (UInt32.ofNat shown.level + 1).toNat = walk.depth.toNat + 1 := by
        rw [last, UInt32.ofNat_toNat, UInt32.toNat_add, UInt32.toNat_one]
        exact Nat.mod_eq_of_lt (by omega)
      have asked : UInt32.ofNat shown.level + 1 = walk.depth + 1 := by rw [last, UInt32.ofNat_toNat]
      refine ⟨_, rfl, rfl, congrArg (Prod.mk shown.start) asked, ?_⟩
      rw [AddressMap.transcriptFrom_of_submap walking answer submap, deeper]
      rfl
    | none =>
      obtain ⟨within, _⟩ := AddressMap.Reached.skip walking answer inside
      obtain ⟨protection, userTag, name, again⟩ := body_of_region follows answer inside
      rw [again] at pass
      obtain rfl := Loop.Pass.again.inj pass
      have stop : (shown.start + shown.size).toNat = shown.upper := by
        rw [UInt64.toNat_add]
        exact Nat.mod_eq_of_lt (map.upper_lt (List.mem_of_find?_eq_some answer))
      refine ⟨_, rfl, rfl, rfl, ?_⟩
      rw [AddressMap.transcriptFrom_of_region answer inside, toNat_level within, stop]
      rfl

/-- The lines so far and what is left to be said are the whole transcript; each line has cost one call. -/
structure Telling (map : AddressMap) (walk : Walk) : Prop where
  walking : Walking map walk
  told : walk.output.map Line.mention ++ map.transcriptFrom walk.address.toNat walk.depth.toNat = map.transcript
  calls : walk.calls = walk.output.length

theorem Telling.start (map : AddressMap) : Telling map Walk.start :=
  ⟨map.reached_zero _, map.transcriptFrom_zero, rfl⟩

theorem Telling.again (shallow : map.submapDepth < 2 ^ 32) (follows : env.Follows map)
    (telling : Telling map walk) (pass : body env walk = .again next) :
    Telling map next ∧ remaining map next < remaining map walk := by
  obtain ⟨walking, fewer⟩ := telling.walking.again shallow follows pass
  obtain ⟨line, output, calls, _, left⟩ := telling.walking.prints shallow follows pass
  refine ⟨⟨walking, ?_, ?_⟩, fewer⟩
  · rw [← telling.told, left, output, List.map_append, List.append_assoc]
    rfl
  · rw [calls, output, List.length_append, List.length_singleton, telling.calls]

/-- Everything has been told, and one more call has found nothing. -/
structure Told (map : AddressMap) (result : Walk) : Prop where
  transcript : result.output.map Line.mention = map.transcript
  calls : result.calls = result.output.length + 1

/-- The walk leaves when nothing is left to be said. -/
theorem transcriptFrom_of_leave {result : Walk} (follows : env.Follows map)
    (pass : body env walk = .leave result) :
    map.transcriptFrom walk.address.toNat walk.depth.toNat = [] ∧
      result = { walk with calls := walk.calls + 1 } := by
  cases answer : map.firstAbove walk.address.toNat walk.depth.toNat with
  | none =>
    rw [body_of_none follows answer] at pass
    exact ⟨AddressMap.transcriptFrom_of_none answer, (Loop.Pass.leave.inj pass).symm⟩
  | some shown =>
    cases inside : shown.inside with
    | some entries =>
      rw [body_of_submap follows answer (inside ▸ rfl)] at pass
      contradiction
    | none =>
      obtain ⟨_, _, _, again⟩ := body_of_region follows answer inside
      rw [again] at pass
      contradiction

theorem Telling.leave {result : Walk} (follows : env.Follows map) (telling : Telling map walk)
    (pass : body env walk = .leave result) : Told map result := by
  obtain ⟨left, rfl⟩ := transcriptFrom_of_leave follows pass
  have told := telling.told
  rw [left, List.append_nil] at told
  exact ⟨told, congrArg Nat.succ telling.calls⟩

theorem exists_told (shallow : map.submapDepth < 2 ^ 32) (follows : env.Follows map) :
    ∃ fuel result, Loop.run (body env) fuel Walk.start = some result ∧ Told map result :=
  Loop.exists_run (Telling map) (remaining map) (fun _ _ telling pass => telling.again shallow follows pass)
    (fun _ _ telling pass => telling.leave follows pass) (Telling.start map)

/-- The lines of the transcript determine where each question starts. -/
theorem trace_queries (shallow : map.submapDepth < 2 ^ 32) (follows : env.Follows map) {fuel : ℕ} {result : Walk}
    (value : Loop.run (body env) fuel Walk.start = some result) :
    (Loop.trace (body env) fuel Walk.start).map Walk.query =
      map.transcript.scanl (fun query mention => mention.ask query) (0, 1) := by
  rw [← map.transcriptFrom_zero]
  refine Loop.map_trace (Walking map) (fun walk => map.transcriptFrom walk.address.toNat walk.depth.toNat)
    Walk.query _ ?_ ?_ value (map.reached_zero _)
  · intro walk next walking pass
    obtain ⟨line, _, _, asked, left⟩ := walking.prints shallow follows pass
    exact ⟨(walking.again shallow follows pass).1, line.mention, left, asked⟩
  · exact fun walk result _ pass => (transcriptFrom_of_leave follows pass).1

/-- The loop prints what the recursion over the map says, line by line, and every region has its line. -/
theorem transcript_of_follows (env : Environment) (map : AddressMap) (shallow : map.submapDepth < 2 ^ 32)
    (follows : env.Follows map) :
    ∃ fuel output, vmRegionRecurseExample fuel env = some output ∧ output.map Line.mention = map.transcript ∧
      output.filterMap (fun line => line.mention.listed?) =
        map.regions.map fun region => (region.start, region.size, UInt32.ofNat region.level) := by
  obtain ⟨fuel, result, value, told⟩ := exists_told shallow follows
  refine ⟨fuel, result.output, ?_, told.transcript, ?_⟩
  · rw [vmRegionRecurseExample, value, Option.map_some]
  · rw [← map.listed_transcript, ← told.transcript, List.filterMap_map]
    rfl

/-- The first region sets the depth to 0, so both submaps are announced. -/
theorem transcript_sharedCache :
    sharedCache.submapDepth < 2 ^ 32 ∧
      ∃ fuel output, vmRegionRecurseExample fuel sharedCache.environment = some output ∧
        output.map Line.mention = [.vmRegion 0x1000 0x2000 0 0x1000, .recursing 0x4000 0x8000 0x4000,
          .vmRegion 0x5000 0x6000 1 0x1000, .recursing 0x6000 0x7000 0x1000, .vmRegion 0x9000 0xa000 0 0x1000] ∧
        output.filterMap (fun line => line.mention.listed?) =
          [(0x1000, 0x1000, 0), (0x5000, 0x1000, 1), (0x9000, 0x1000, 0)] :=
  ⟨by decide, transcript_of_follows _ sharedCache (by decide) sharedCache.environment_follows⟩

/-! ## The queries -/

/-- The submap a line is about. -/
def Mention.entered? : Mention → Option (UInt64 × UInt64)
  | .recursing start _ size => some (start, size)
  | .vmRegion .. => none

/-- A line is of one of the two kinds. -/
theorem Mention.length_eq (mentions : List Mention) :
    mentions.length = (mentions.filterMap listed?).length + (mentions.filterMap entered?).length := by
  induction mentions with
  | nil => rfl
  | cons mention rest ih =>
    cases mention with
    | recursing start stop size =>
      simp only [List.filterMap_cons, listed?, entered?, List.length_cons, ih]
      omega
    | vmRegion start stop depth size =>
      simp only [List.filterMap_cons, listed?, entered?, List.length_cons, ih]
      omega

namespace Entries

/-- The submaps, each before those it contains. -/
def submaps : Entries → List (UInt64 × UInt64)
  | nil => []
  | region _ _ rest => rest.submaps
  | submap start size inside rest => (start, size) :: (inside.submaps ++ rest.submaps)

/-- A submap is entered at most once. -/
theorem entered_traverse (level depth : ℕ) (entries : Entries) :
    ((entries.traverse level depth).mentions.filterMap Mention.entered?).Sublist entries.submaps := by
  induction entries generalizing level depth with
  | nil => exact List.Sublist.refl _
  | region start size rest ih => exact ih level level
  | submap start size inside rest ihInside ihRest =>
    rw [traverse, submaps]
    split
    · refine List.Sublist.cons _ ?_
      rw [Traversal.andThen, List.filterMap_append]
      exact (ihInside _ _).append (ihRest _ _)
    · refine List.Sublist.cons_cons _ ?_
      rw [Traversal.andThen, List.filterMap_append]
      exact (ihInside _ _).append (ihRest _ _)

end Entries

def AddressMap.submaps (map : AddressMap) : List (UInt64 × UInt64) := map.entries.submaps

theorem AddressMap.length_transcript (map : AddressMap) :
    map.transcript.length = map.regions.length + (map.transcript.filterMap Mention.entered?).length := by
  rw [Mention.length_eq, listed_transcript, List.length_map]

/-- Every region costs one query and so does every submap that is announced, none of them twice; one more
query ends the walk. Each query starts where the line before it says. -/
theorem queries_of_follows (env : Environment) (map : AddressMap) (shallow : map.submapDepth < 2 ^ 32)
    (follows : env.Follows map) :
    ∃ fuel result, Loop.run (body env) fuel Walk.start = some result ∧
      (Loop.trace (body env) fuel Walk.start).map Walk.query =
        (result.output.map Line.mention).scanl (fun query mention => mention.ask query) (0, 1) ∧
      (result.output.filterMap fun line => line.mention.entered?).Sublist map.submaps ∧
      result.calls = map.regions.length +
        (result.output.filterMap fun line => line.mention.entered?).length + 1 ∧
      result.calls ≤ map.regions.length + map.submaps.length + 1 := by
  obtain ⟨fuel, result, value, told⟩ := exists_told shallow follows
  have entered : (result.output.filterMap fun line => line.mention.entered?) =
      map.transcript.filterMap Mention.entered? := by
    rw [← told.transcript, List.filterMap_map]
    rfl
  have once : (map.transcript.filterMap Mention.entered?).Sublist map.submaps := Entries.entered_traverse 0 1 _
  have calls : result.calls = map.regions.length + (map.transcript.filterMap Mention.entered?).length + 1 := by
    rw [told.calls, ← List.length_map Line.mention, told.transcript, map.length_transcript]
  have fewer := once.length_le
  refine ⟨fuel, result, value, ?_, ?_, ?_, ?_⟩
  · rw [told.transcript]
    exact trace_queries shallow follows value
  · rw [entered]
    exact once
  · rw [entered]
    exact calls
  · omega

theorem queries_sharedCache :
    sharedCache.submapDepth < 2 ^ 32 ∧
      ∃ fuel result, Loop.run (body sharedCache.environment) fuel Walk.start = some result ∧
        (Loop.trace (body sharedCache.environment) fuel Walk.start).map Walk.query =
          (result.output.map Line.mention).scanl (fun query mention => mention.ask query) (0, 1) ∧
        (result.output.filterMap fun line => line.mention.entered?).Sublist [(0x4000, 0x4000), (0x6000, 0x1000)] ∧
        result.calls = 3 + (result.output.filterMap fun line => line.mention.entered?).length + 1 ∧
        result.calls ≤ 6 :=
  ⟨by decide, queries_of_follows _ sharedCache (by decide) sharedCache.environment_follows⟩

end INote.CodeSnippets
