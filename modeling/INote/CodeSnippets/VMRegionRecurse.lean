import INote.Library.Loop
import Mathlib.Logic.Basic

/-! # `vm_region_recurse_example`

The loop asks the kernel for the next region and rewrites `address`, `size` and `depth` with the
answer. A submap is looked into by asking one level deeper, any other region is printed and stepped
over. `KERN_INVALID_ADDRESS` is the only failure the loop looks at: after any other one it goes on
with the parameters of the last answer and with an `info` that nobody has written.
-/

namespace INote.CodeSnippets

/-- `kern_return_t`. -/
abbrev KernReturn := Int32

def kernSuccess : KernReturn := 0

def kernInvalidAddress : KernReturn := 1

theorem kernInvalidAddress_ne_kernSuccess : kernInvalidAddress ≠ kernSuccess := by decide

def vmProtRead : Int32 := 1

def vmProtWrite : Int32 := 2

def vmProtExecute : Int32 := 4

/-- The fields of `vm_region_submap_info_64` that the loop reads. -/
structure Info where
  protection : Int32
  maxProtection : Int32
  userTag : UInt32
  isSubmap : UInt32
deriving DecidableEq

/-- A call of `vm_region_recurse_64` writes its parameters or fails and leaves them as they were. -/
inductive Answer where
  | success (address size : UInt64) (depth : UInt32) (info : Info)
  | failure (code : KernReturn) (failed : code ≠ kernSuccess)

def Answer.code : Answer → KernReturn
  | success .. => kernSuccess
  | failure code _ => code

/-- The result of `proc_regionfilename` with the content of its buffer and of `errno`. -/
structure RegionFilename where
  ret : Int32
  name : String
  errno : Int32

/-- What the loop asks for outside itself; each kernel answer and file name may depend on the number
of the call, and so may the content of the uninitialised `info`. -/
structure Environment where
  vmRegionRecurse64 : ℕ → UInt64 → UInt64 → UInt32 → Answer
  uninitialisedInfo : ℕ → Info
  procRegionfilename : ℕ → UInt64 → RegionFilename
  strerror : Int32 → String

/-- A printed line. -/
inductive Line where
  | recursing (start stop size : UInt64)
  | vmRegion (start stop : UInt64) (depth : UInt32) (size : UInt64) (protection : List Char)
      (userTag : UInt32) (name : Except (Int32 × String) String)

/-- The text of the two protections. -/
def Info.perms (info : Info) : List Char :=
  [if info.protection &&& vmProtRead ≠ 0 then 'r' else '-',
    if info.protection &&& vmProtWrite ≠ 0 then 'w' else '-',
    if info.protection &&& vmProtExecute ≠ 0 then 'x' else '-',
    '/',
    if info.maxProtection &&& vmProtRead ≠ 0 then 'r' else '-',
    if info.maxProtection &&& vmProtWrite ≠ 0 then 'w' else '-',
    if info.maxProtection &&& vmProtExecute ≠ 0 then 'x' else '-']

/-- The text and its terminator fill the eight bytes of `perms`. -/
theorem Info.length_perms (info : Info) : info.perms.length + 1 = 8 := rfl

structure Walk where
  address : UInt64
  size : UInt64
  depth : UInt32
  calls : ℕ
  output : List Line

def Walk.start : Walk := ⟨0, 0, 1, 0, []⟩

/-- The locals after a call. -/
def Walk.answered (walk : Walk) : Answer → Walk
  | .success address size depth _ =>
    { walk with address := address, size := size, depth := depth, calls := walk.calls + 1 }
  | .failure _ _ => { walk with calls := walk.calls + 1 }

def Environment.answer (env : Environment) (walk : Walk) : Answer :=
  env.vmRegionRecurse64 walk.calls walk.address walk.size walk.depth

/-- The content of `info` after a call. -/
def Environment.info (env : Environment) (walk : Walk) : Answer → Info
  | .success _ _ _ info => info
  | .failure _ _ => env.uninitialisedInfo walk.calls

/-- The line for a submap, and `depth++`. -/
def Walk.recurse (walk : Walk) : Walk :=
  { walk with
    depth := walk.depth + 1
    output := walk.output ++ [.recursing walk.address (walk.address + walk.size) walk.size] }

/-- The name in the line for a region. -/
def Environment.regionName (env : Environment) (walk : Walk) : Except (Int32 × String) String :=
  let filename := env.procRegionfilename walk.calls walk.address
  if filename.ret > 0 then .ok filename.name else .error (filename.errno, env.strerror filename.errno)

/-- The line for a region, and `address += size`. -/
def Environment.print (env : Environment) (walk : Walk) (info : Info) : Walk :=
  { walk with
    address := walk.address + walk.size
    output := walk.output ++ [.vmRegion walk.address (walk.address + walk.size) walk.depth walk.size
      info.perms info.userTag (env.regionName walk)] }

/-- The body of `while (1)`. -/
def body (env : Environment) (walk : Walk) : Loop.Pass Walk Walk :=
  let answer := env.answer walk
  let info := env.info walk answer
  let walk := walk.answered answer
  if answer.code = kernInvalidAddress then .leave walk
  else if info.isSubmap ≠ 0 then .again walk.recurse
  else .again (env.print walk info)

/-- The lines printed, when the loop leaves within `fuel` passes. -/
def vmRegionRecurseExample (fuel : ℕ) (env : Environment) : Option (List Line) :=
  (Loop.run (body env) fuel Walk.start).map Walk.output

/-! ## Failed queries -/

/-- At a failed call the loop is left with nothing printed, entered or stepped over. -/
def LeavesAtFailure (env : Environment) : Prop :=
  ∀ walk code failed, Loop.Visits (body env) Walk.start walk → env.answer walk = .failure code failed →
    body env walk = .leave { walk with calls := walk.calls + 1 }

/-- The environment whose kernel gives the answers in turn. -/
def Environment.answering (env : Environment) (answers : ℕ → Answer) : Environment :=
  { env with vmRegionRecurse64 := fun call _ _ _ => answers call }

variable {env : Environment} {walk next result : Walk} {answers : ℕ → Answer}

theorem body_of_success (success : (env.answer walk).code = kernSuccess) :
    ∃ next, body env walk = .again next ∧ next.calls = walk.calls + 1 := by
  cases answer : env.answer walk with
  | failure code failed =>
    rw [answer] at success
    exact absurd success failed
  | success address size depth info =>
    simp only [body, answer, Answer.code, Environment.info, Walk.answered]
    rw [if_neg kernInvalidAddress_ne_kernSuccess.symm]
    split
    · exact ⟨_, rfl, rfl⟩
    · exact ⟨_, rfl, rfl⟩

theorem body_of_invalidAddress (invalid : (env.answer walk).code = kernInvalidAddress) :
    body env walk = .leave { walk with calls := walk.calls + 1 } := by
  cases answer : env.answer walk with
  | success address size depth info =>
    rw [answer] at invalid
    exact absurd invalid kernInvalidAddress_ne_kernSuccess.symm
  | failure code failed =>
    rw [answer] at invalid
    simp only [body, answer, Walk.answered]
    rw [if_pos invalid]

/-- The loop leaves on one code only. -/
theorem code_of_leave (pass : body env walk = .leave result) :
    (env.answer walk).code = kernInvalidAddress := by
  by_contra other
  simp only [body] at pass
  rw [if_neg other] at pass
  split at pass
  · contradiction
  · contradiction

theorem calls_of_again (pass : body env walk = .again next) : next.calls = walk.calls + 1 := by
  have answered : ∀ answer, (walk.answered answer).calls = walk.calls + 1 := by
    intro answer
    cases answer <;> rfl
  simp only [body] at pass
  split at pass
  · contradiction
  · split at pass
    · obtain rfl := Loop.Pass.again.inj pass
      exact answered _
    · obtain rfl := Loop.Pass.again.inj pass
      exact answered _

/-- After successes only, the loop is still running. -/
theorem visits_of_successes (env : Environment) (call : ℕ)
    (successes : ∀ earlier < call, (answers earlier).code = kernSuccess) :
    ∃ walk, Loop.Visits (body (env.answering answers)) Walk.start walk ∧ walk.calls = call := by
  induction call with
  | zero => exact ⟨Walk.start, .refl _, rfl⟩
  | succ call ih =>
    obtain ⟨walk, visited, count⟩ := ih fun earlier before => successes earlier (by omega)
    have success : ((env.answering answers).answer walk).code = kernSuccess := by
      rw [Environment.answer, Environment.answering, count]
      exact successes call (by omega)
    obtain ⟨next, pass, counted⟩ := body_of_success success
    exact ⟨next, .step visited pass, by rw [counted, count]⟩

/-- A failed query never drives the walk exactly when the first failure is `KERN_INVALID_ADDRESS`. -/
theorem leavesAtFailure_iff (env : Environment) (answers : ℕ → Answer) :
    LeavesAtFailure (env.answering answers) ↔
      ∀ call, (∀ earlier < call, (answers earlier).code = kernSuccess) →
        (answers call).code ≠ kernSuccess → (answers call).code = kernInvalidAddress := by
  constructor
  · intro leaves call successes fails
    obtain ⟨walk, visited, count⟩ := visits_of_successes env call successes
    have same : (env.answering answers).answer walk = answers call := by rw [← count]; rfl
    cases answer : answers call with
    | success address size depth info =>
      rw [answer] at fails
      exact absurd rfl fails
    | failure code failed =>
      rw [answer] at same
      have pass := leaves walk code failed visited same
      rw [← same]
      exact code_of_leave pass
  · intro first walk code failed visited answer
    have successes : ∀ earlier < walk.calls, (answers earlier).code = kernSuccess := by
      refine visited.invariant (fun walk => ∀ earlier < walk.calls, (answers earlier).code = kernSuccess)
        ?_ fun earlier before => absurd before (Nat.not_lt_zero earlier)
      intro walk next successes pass earlier before
      rw [calls_of_again pass] at before
      rcases Nat.lt_succ_iff_lt_or_eq.mp before with inside | rfl
      · exact successes earlier inside
      · by_contra fails
        have invalid : ((env.answering answers).answer walk).code = kernInvalidAddress :=
          first walk.calls successes fails
        rw [body_of_invalidAddress invalid] at pass
        contradiction
    have same : answers walk.calls = .failure code failed := answer
    apply body_of_invalidAddress
    apply first walk.calls successes
    rw [same]
    exact failed

/-- A kernel without a map, and no file names. -/
def emptyTask : Environment where
  vmRegionRecurse64 _ _ _ _ := .failure kernInvalidAddress kernInvalidAddress_ne_kernSuccess
  uninitialisedInfo _ := ⟨0, 0, 0, 0⟩
  procRegionfilename _ _ := ⟨0, "", 22⟩
  strerror _ := "Invalid argument"

/-- `KERN_FAILURE` in answer to every call. -/
def failing : Environment := emptyTask.answering fun _ => .failure 5 (by decide)

/-- Failing queries print the same line forever. -/
theorem failing_not_leavesAtFailure :
    body failing Walk.start = .again ⟨0, 0, 1, 1, [.vmRegion 0 0 1 0 ['-', '-', '-', '/', '-', '-', '-'] 0
      (.error (22, "Invalid argument"))]⟩ ∧
      ¬ LeavesAtFailure failing ∧ ¬ ∃ result, Loop.Exits (body failing) Walk.start result := by
  refine ⟨rfl, ?_, ?_⟩
  · intro leaves
    have pass := leaves Walk.start 5 (by decide) (.refl _) rfl
    contradiction
  · rintro ⟨result, exits⟩
    exact Loop.not_exits (fun _ => True) (fun _ _ => ⟨_, rfl, trivial⟩) trivial result exits

end INote.CodeSnippets
