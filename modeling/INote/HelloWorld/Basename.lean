import INote.Library.Loop
import Mathlib.Algebra.Group.Nat.Defs
import Mathlib.Data.List.DropRight

/-! # The basename of a path

`get_basename` scans backwards for the last separator with an unsigned index. The guard `idx >= 0`
always holds, so a path without a separator is not stopped at its front: the index wraps around
and the next read is out of bounds. A component that does not fit the static buffer overruns it.
The scan ends at a read or a write outside its object, where C gives the program no meaning.
-/

namespace INote.HelloWorld

/-- A NUL-terminated string; together with its terminator it is an object whose size fits `size_t`. -/
structure CString where
  bytes : List UInt8
  noNul : 0 ∉ bytes
  fits : bytes.length + 1 < 2 ^ 64

def CString.strlen (string : CString) : UInt64 := UInt64.ofNat string.bytes.length

/-- `string[idx]`, readable up to and including the terminator. -/
def CString.read (string : CString) (idx : UInt64) : Option UInt8 :=
  (string.bytes ++ [0])[idx.toNat]?

/-- A `char` array of fixed size. -/
structure Buffer (size : ℕ) where
  bytes : List UInt8
  length_eq : bytes.length = size

/-- The string a buffer holds. -/
def Buffer.text {size : ℕ} (buffer : Buffer size) : List UInt8 := buffer.bytes.takeWhile (· ≠ 0)

inductive CError where
  | readOutOfBounds (idx : UInt64)
  | bufferOverflow (needed : ℕ)
deriving DecidableEq

/-- Copy a string with its terminator; the bytes after it keep their content. -/
def strcpy {size : ℕ} (buffer : Buffer size) (source : List UInt8) : Except CError (Buffer size) :=
  if fits : source.length + 1 ≤ size then
    .ok ⟨source ++ 0 :: buffer.bytes.drop (source.length + 1), by
      have := buffer.length_eq
      simp only [List.length_append, List.length_cons, List.length_drop]
      omega⟩
  else .error (.bufferOverflow (source.length + 1))

def slash : UInt8 := '/'.toUInt8

/-- The scan's index, and the indices it has read so far. -/
structure Scan where
  idx : UInt64
  reads : List UInt64

/-- The body of `while (idx >= 0)`. -/
def scanBody (path : CString) (scan : Scan) : Loop.Pass Scan (Except CError Scan) :=
  if 0 ≤ scan.idx then
    match path.read scan.idx with
    | none => .leave (.error (.readOutOfBounds scan.idx))
    | some byte =>
      let reads := scan.reads ++ [scan.idx]
      if byte = slash then .leave (.ok ⟨scan.idx, reads⟩) else .again ⟨scan.idx - 1, reads⟩
  else .leave (.ok scan)

/-- Which pointer the function returns: `NULL`, its argument, or the static buffer. -/
inductive Returned where
  | null
  | path
  | name
deriving DecidableEq

structure Outcome (pathMax : ℕ) where
  returned : Returned
  name : Buffer pathMax
  reads : List UInt64

/-- The code after the loop. -/
def finish {pathMax : ℕ} (name : Buffer pathMax) (path : CString) (scan : Scan) :
    Except CError (Outcome pathMax) :=
  if 0 ≤ scan.idx ∧ scan.idx < path.strlen - 1 then do
    let name ← strcpy name (path.bytes.drop (scan.idx + 1).toNat)
    .ok ⟨.name, name, scan.reads⟩
  else .ok ⟨.path, name, scan.reads⟩

/-- `get_basename`, with at most `fuel` passes of the scan. -/
def getBasename {pathMax : ℕ} (fuel : ℕ) (name : Buffer pathMax) (path : Option CString) :
    Option (Except CError (Outcome pathMax)) :=
  match path with
  | none => some (.ok ⟨.null, name, []⟩)
  | some path =>
    if path.strlen = 0 then some (.ok ⟨.null, name, []⟩)
    else
      (Loop.run (scanBody path) fuel ⟨path.strlen - 1, []⟩).map fun scanned =>
        scanned >>= finish name path

/-! ## The scan -/

theorem CString.toNat_strlen (string : CString) : string.strlen.toNat = string.bytes.length :=
  UInt64.toNat_ofNat_of_lt' (Nat.lt_of_succ_lt string.fits)

theorem CString.read_eq_getElem {string : CString} {idx : UInt64}
    (within : idx.toNat < string.bytes.length) : string.read idx = some string.bytes[idx.toNat] := by
  rw [CString.read, List.getElem?_append_left within, List.getElem?_eq_getElem within]

theorem CString.read_eq_none {string : CString} {idx : UInt64} :
    string.read idx = none ↔ string.bytes.length < idx.toNat := by
  rw [CString.read, List.getElem?_eq_none_iff, List.length_append, List.length_singleton, Nat.succ_le_iff]

theorem scanBody_of_none {path : CString} {scan : Scan} (read : path.read scan.idx = none) :
    scanBody path scan = .leave (.error (.readOutOfBounds scan.idx)) := by
  rw [scanBody, if_pos (UInt64.zero_le), read]

theorem scanBody_of_some {path : CString} {scan : Scan} {byte : UInt8}
    (read : path.read scan.idx = some byte) :
    scanBody path scan = if byte = slash then .leave (.ok ⟨scan.idx, scan.reads ++ [scan.idx]⟩)
      else .again ⟨scan.idx - 1, scan.reads ++ [scan.idx]⟩ := by
  rw [scanBody, if_pos (UInt64.zero_le), read]

/-- No separator lies after the index, which is `-1` once it has passed the front. -/
structure Scanning (path : CString) (scan : Scan) : Prop where
  within : (scan.idx + 1).toNat ≤ path.bytes.length
  noSlash : slash ∉ path.bytes.drop (scan.idx + 1).toNat
  inBounds : ∀ idx ∈ scan.reads, idx < path.strlen

theorem toNat_add_one (idx : UInt64) :
    (idx + 1).toNat = if idx.toNat = 2 ^ 64 - 1 then 0 else idx.toNat + 1 := by
  rw [UInt64.toNat_add]
  have := idx.toNat_lt
  split <;> simp only [UInt64.toNat_one] <;> omega

theorem CString.toNat_succ {path : CString} {idx : UInt64} (within : idx.toNat < path.bytes.length) :
    (idx + 1).toNat = idx.toNat + 1 := by
  have fits := path.fits
  rw [toNat_add_one, if_neg (by omega)]

/-- The only index the scan can reach beyond the terminator is the wrapped one. -/
theorem Scanning.lt_or_wrapped {path : CString} {scan : Scan} (holds : Scanning path scan) :
    scan.idx.toNat < path.bytes.length ∨ scan.idx.toNat = 2 ^ 64 - 1 ∧ slash ∉ path.bytes := by
  have within := holds.within
  have noSlash := holds.noSlash
  rw [toNat_add_one] at within noSlash
  split at within
  case isTrue wrapped =>
    rw [if_pos wrapped, List.drop_zero] at noSlash
    exact .inr ⟨wrapped, noSlash⟩
  case isFalse => exact .inl within

theorem CString.read_of_wrapped {path : CString} {idx : UInt64} (wrapped : idx.toNat = 2 ^ 64 - 1) :
    path.read idx = none := by
  have fits := path.fits
  apply CString.read_eq_none.mpr
  omega

theorem Scanning.lt_of_read {path : CString} {scan : Scan} {byte : UInt8} (holds : Scanning path scan)
    (read : path.read scan.idx = some byte) : scan.idx.toNat < path.bytes.length := by
  rcases holds.lt_or_wrapped with within | ⟨wrapped, _⟩
  · exact within
  · rw [CString.read_of_wrapped wrapped] at read
    contradiction

theorem Scanning.inBounds_concat {path : CString} {scan : Scan} (holds : Scanning path scan)
    (within : scan.idx.toNat < path.bytes.length) :
    ∀ idx ∈ scan.reads ++ [scan.idx], idx < path.strlen := by
  intro idx member
  rcases List.mem_append.mp member with earlier | last
  · exact holds.inBounds idx earlier
  · rw [List.mem_singleton.mp last, UInt64.lt_iff_toNat_lt, CString.toNat_strlen]
    exact within

/-- A pass that finds no separator moves one byte to the front. -/
theorem Scanning.again {path : CString} {scan next : Scan} (holds : Scanning path scan)
    (pass : scanBody path scan = .again next) :
    Scanning path next ∧ (next.idx + 1).toNat < (scan.idx + 1).toNat := by
  cases read : path.read scan.idx with
  | none =>
    rw [scanBody_of_none read] at pass
    contradiction
  | some byte =>
    have within := holds.lt_of_read read
    have noSlash := holds.noSlash
    rw [scanBody_of_some read] at pass
    split at pass
    · contradiction
    · next other =>
        obtain rfl := Loop.Pass.again.inj pass
        have back : scan.idx - 1 + 1 = scan.idx := UInt64.sub_add_cancel _ _
        rw [CString.toNat_succ within] at noSlash ⊢
        refine ⟨⟨?_, ?_, holds.inBounds_concat within⟩, ?_⟩
        · rw [back]
          exact within.le
        · rw [CString.read_eq_getElem within] at read
          obtain rfl := Option.some.inj read
          rw [back, List.drop_eq_getElem_cons within, List.mem_cons, not_or]
          exact ⟨Ne.symm other, noSlash⟩
        · rw [back]
          exact Nat.lt_succ_self _

/-- The part after the last separator; empty when there is no separator. -/
def CString.lastComponent (path : CString) : List UInt8 :=
  if slash ∈ path.bytes then path.bytes.rtakeWhile (· ≠ slash) else []

theorem CString.lastComponent_eq_drop {path : CString} {idx : ℕ} (within : idx < path.bytes.length)
    (found : path.bytes[idx] = slash) (noSlash : slash ∉ path.bytes.drop (idx + 1)) :
    path.lastComponent = path.bytes.drop (idx + 1) := by
  have split : path.bytes = path.bytes.take idx ++ slash :: path.bytes.drop (idx + 1) := by
    rw [← found, ← List.drop_eq_getElem_cons within, List.take_append_drop]
  have kept : ∀ byte ∈ (path.bytes.drop (idx + 1)).reverse, decide (byte ≠ slash) = true := by
    intro byte member
    rw [decide_eq_true_iff]
    rintro rfl
    exact noSlash (List.mem_reverse.mp member)
  rw [CString.lastComponent, if_pos (found ▸ List.getElem_mem within)]
  nth_rewrite 1 [split]
  rw [List.rtakeWhile, List.reverse_append, List.reverse_cons, List.append_assoc,
    List.takeWhile_append_of_pos kept, List.singleton_append, List.takeWhile_cons_of_neg (by simp),
    List.append_nil, List.reverse_reverse]

/-- What the scan leaves with. -/
def Scanned (path : CString) : Except CError Scan → Prop
  | .ok scan =>
    slash ∈ path.bytes ∧ path.lastComponent = path.bytes.drop (scan.idx.toNat + 1) ∧
      scan.idx.toNat < path.bytes.length ∧ ∀ idx ∈ scan.reads, idx < path.strlen
  | .error fault => fault = .readOutOfBounds (-1) ∧ slash ∉ path.bytes

theorem Scanning.leave {path : CString} {scan : Scan} {scanned : Except CError Scan}
    (holds : Scanning path scan) (pass : scanBody path scan = .leave scanned) :
    Scanned path scanned := by
  rcases holds.lt_or_wrapped with within | ⟨wrapped, noSlash⟩
  · rw [scanBody_of_some (CString.read_eq_getElem within)] at pass
    split at pass
    · next found =>
        obtain rfl := Loop.Pass.leave.inj pass
        refine ⟨found ▸ List.getElem_mem within, ?_, within, holds.inBounds_concat within⟩
        apply CString.lastComponent_eq_drop within found
        rw [← CString.toNat_succ within]
        exact holds.noSlash
    · contradiction
  · rw [scanBody_of_none (CString.read_of_wrapped wrapped)] at pass
    obtain rfl := Loop.Pass.leave.inj pass
    rw [show scan.idx = -1 from UInt64.toNat_inj.mp wrapped]
    exact ⟨rfl, noSlash⟩

/-- The scan leaves, at the last separator or out of bounds. -/
theorem exists_scanned (path : CString) :
    ∃ fuel scanned, Loop.run (scanBody path) fuel ⟨path.strlen - 1, []⟩ = some scanned ∧
      Scanned path scanned := by
  have start : Scanning path ⟨path.strlen - 1, []⟩ := by
    have back : path.strlen - 1 + 1 = path.strlen := UInt64.sub_add_cancel _ _
    refine ⟨?_, ?_, List.forall_mem_nil _⟩
    · rw [back, CString.toNat_strlen]
    · rw [back, CString.toNat_strlen, List.drop_length]
      exact List.not_mem_nil
  exact Loop.exists_run (Scanning path) (fun scan => (scan.idx + 1).toNat)
    (fun _ _ holds pass => holds.again pass) (fun _ _ holds pass => holds.leave pass) start

/-! ## The result -/

theorem strcpy_eq_ok {size : ℕ} {buffer copied : Buffer size} {source : List UInt8} (noNul : 0 ∉ source)
    (copy : strcpy buffer source = .ok copied) : source.length + 1 ≤ size ∧ copied.text = source := by
  rw [strcpy] at copy
  split at copy
  · next fits =>
      obtain rfl := Except.ok.inj copy
      refine ⟨fits, ?_⟩
      rw [Buffer.text, List.takeWhile_append_of_pos, List.takeWhile_cons_of_neg (by simp), List.append_nil]
      intro byte member
      rw [decide_eq_true_iff]
      rintro rfl
      exact noNul member
  · contradiction

/-- Every read is inside the path, and the result is the last component in the static buffer, which
has room for it and its terminator, or the path itself when the last component is empty. -/
structure Outcome.Correct {pathMax : ℕ} (path : CString) (outcome : Outcome pathMax) : Prop where
  inBounds : ∀ idx ∈ outcome.reads, idx < path.strlen
  whole : path.lastComponent = [] → outcome.returned = .path
  component : path.lastComponent ≠ [] → outcome.returned = .name ∧ outcome.name.text = path.lastComponent
  fits : outcome.returned = .name → path.lastComponent.length + 1 ≤ pathMax

theorem CString.noNul_lastComponent (path : CString) : 0 ∉ path.lastComponent := by
  rw [CString.lastComponent]
  split
  · exact fun member => path.noNul ((List.rtakeWhile_suffix _ _).mem member)
  · exact List.not_mem_nil

/-- The test after the loop. -/
theorem lt_last_iff {path : CString} {scan : Scan} (scanned : Scanned path (.ok scan)) :
    0 ≤ scan.idx ∧ scan.idx < path.strlen - 1 ↔ path.lastComponent ≠ [] := by
  obtain ⟨_, component, within, _⟩ := scanned
  have last : (path.strlen - 1).toNat = path.bytes.length - 1 := by
    rw [UInt64.toNat_sub_of_le, CString.toNat_strlen, UInt64.toNat_one]
    rw [UInt64.le_iff_toNat_le, CString.toNat_strlen, UInt64.toNat_one]
    omega
  rw [component, ne_eq, List.drop_eq_nil_iff, UInt64.lt_iff_toNat_lt, last]
  constructor
  · rintro ⟨_, before⟩
    omega
  · intro more
    exact ⟨UInt64.zero_le, by omega⟩

theorem finish_correct_iff {pathMax : ℕ} (name : Buffer pathMax) {path : CString} {scan : Scan}
    (scanned : Scanned path (.ok scan)) :
    (∃ outcome, finish name path scan = .ok outcome ∧ outcome.Correct path) ↔
      path.lastComponent = [] ∨ path.lastComponent.length + 1 ≤ pathMax := by
  have ⟨_, component, within, inBounds⟩ := scanned
  rw [finish, CString.toNat_succ within, ← component]
  by_cases empty : path.lastComponent = []
  · rw [if_neg (fun copies => (lt_last_iff scanned).mp copies empty)]
    refine ⟨fun _ => .inl empty, fun _ => ⟨⟨.path, name, scan.reads⟩, rfl, inBounds, fun _ => rfl, ?_, ?_⟩⟩
    · exact fun nonempty => absurd empty nonempty
    · exact fun impossible => Returned.noConfusion impossible
  · rw [if_pos ((lt_last_iff scanned).mpr empty)]
    cases copy : strcpy name path.lastComponent with
    | ok copied =>
      obtain ⟨room, text⟩ := strcpy_eq_ok path.noNul_lastComponent copy
      refine ⟨fun _ => .inr room, fun _ => ⟨⟨.name, copied, scan.reads⟩, rfl, inBounds, ?_, ?_, ?_⟩⟩
      · exact fun none => absurd none empty
      · exact fun _ => ⟨rfl, text⟩
      · exact fun _ => room
    | error fault =>
      constructor
      · rintro ⟨_, impossible, _⟩
        contradiction
      · rintro (none | room)
        · exact absurd none empty
        · rw [strcpy, dif_pos room] at copy
          contradiction

theorem getBasename_eq {pathMax : ℕ} (fuel : ℕ) (name : Buffer pathMax) {path : CString}
    (nonempty : path.bytes ≠ []) :
    getBasename fuel name (some path) =
      (Loop.run (scanBody path) fuel ⟨path.strlen - 1, []⟩).map fun scanned =>
        scanned >>= finish name path := by
  have long : path.strlen ≠ 0 := by
    intro zero
    have length := path.toNat_strlen
    rw [zero, UInt64.toNat_zero] at length
    exact nonempty (List.eq_nil_of_length_eq_zero length.symm)
  rw [getBasename]
  simp only [if_neg long]

/-- The run on a path, from any content of the static buffer, ends and is correct. -/
def Correct (pathMax : ℕ) (path : CString) : Prop :=
  ∀ name : Buffer pathMax, ∃ fuel outcome,
    getBasename fuel name (some path) = some (.ok outcome) ∧ outcome.Correct path

theorem correct_iff_finish {pathMax fuel : ℕ} {path : CString} {scanned : Except CError Scan}
    (nonempty : path.bytes ≠ [])
    (value : Loop.run (scanBody path) fuel ⟨path.strlen - 1, []⟩ = some scanned) :
    Correct pathMax path ↔ ∀ name : Buffer pathMax, ∃ outcome,
      (scanned >>= finish name path) = .ok outcome ∧ outcome.Correct path := by
  refine forall_congr' fun name => ?_
  constructor
  · rintro ⟨other, outcome, returns, correct⟩
    rw [getBasename_eq other name nonempty, Option.map_eq_some_iff] at returns
    obtain ⟨same, again, finished⟩ := returns
    obtain rfl := Loop.Exits.unique (Loop.exits_of_run value) (Loop.exits_of_run again)
    exact ⟨outcome, finished, correct⟩
  · rintro ⟨outcome, finished, correct⟩
    refine ⟨fuel, outcome, ?_, correct⟩
    rw [getBasename_eq fuel name nonempty, value, Option.map_some, finished]

/-- `get_basename` is correct on exactly the paths that have a separator and whose last component
fits the static buffer with its terminator. -/
theorem getBasename_correct_iff (pathMax : ℕ) (path : CString) (nonempty : path.bytes ≠ []) :
    Correct pathMax path ↔ slash ∈ path.bytes ∧
      (path.lastComponent = [] ∨ path.lastComponent.length + 1 ≤ pathMax) := by
  obtain ⟨fuel, scanned, value, scan⟩ := exists_scanned path
  rw [correct_iff_finish nonempty value]
  cases scanned with
  | error fault =>
    constructor
    · intro correct
      obtain ⟨_, impossible, _⟩ := correct ⟨List.replicate pathMax 0, List.length_replicate⟩
      contradiction
    · rintro ⟨found, _⟩
      exact absurd found scan.2
  | ok scan' =>
    constructor
    · intro correct
      refine ⟨scan.1, ?_⟩
      exact (finish_correct_iff ⟨List.replicate pathMax 0, List.length_replicate⟩ scan).mp (correct _)
    · rintro ⟨_, room⟩ name
      exact (finish_correct_iff name scan).mpr room

/-- The path `/a`. -/
def rootedName : CString := ⟨['/'.toUInt8, 'a'.toUInt8], by decide, by decide⟩

theorem getBasename_correct_rootedName :
    rootedName.bytes ≠ [] ∧ (Correct 1024 rootedName ↔ slash ∈ rootedName.bytes ∧
      (rootedName.lastComponent = [] ∨ rootedName.lastComponent.length + 1 ≤ 1024)) ∧
      Correct 1024 rootedName :=
  ⟨by decide, getBasename_correct_iff 1024 rootedName (by decide),
    (getBasename_correct_iff 1024 rootedName (by decide)).mpr (by decide)⟩

/-- The path `a`. -/
def bareName : CString := ⟨['a'.toUInt8], by decide, by decide⟩

/-- A path without a separator is read before its front: the index is `SIZE_MAX`. -/
theorem bareName_not_correct :
    bareName.bytes ≠ [] ∧
      Loop.run (scanBody bareName) 2 ⟨bareName.strlen - 1, []⟩ =
        some (.error (.readOutOfBounds 0xffffffffffffffff)) ∧
      ¬ Correct 1024 bareName := by
  have value : Loop.run (scanBody bareName) 2 ⟨bareName.strlen - 1, []⟩ =
      some (.error (.readOutOfBounds 0xffffffffffffffff)) := rfl
  refine ⟨by decide, value, ?_⟩
  rw [correct_iff_finish (by decide) value]
  intro correct
  obtain ⟨_, impossible, _⟩ := correct ⟨List.replicate 1024 0, List.length_replicate⟩
  contradiction

end INote.HelloWorld
