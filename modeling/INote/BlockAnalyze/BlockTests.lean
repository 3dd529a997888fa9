import Mathlib.Algebra.Group.Int.Defs
import Mathlib.Algebra.Group.Nat.Defs
import Mathlib.Data.List.Basic
import Mathlib.Logic.Function.Basic

/-! # The tests of blocks

A block has copies of the automatic variables it captures and shares the static ones.
`testBlockAllocation` calls blocks wherever they are allocated. `testBlockCaptureVar` counts in static
variables, which its block shares, and in an automatic variable, of which the block has a copy; the
counters of many calls grow until `int` overflows.
-/

namespace INote.BlockAnalyze.BlockTests

inductive Line where
  | log (text : String)
  /-- `__func__`. -/
  | function (text : String)
  | printVar (var1 var2 var3 var4 : ℤ)
deriving DecidableEq

/-- The variables that outlive the calls. -/
inductive StaticVar where
  | gVar1
  | gVar2
  | var4
deriving DecidableEq

structure State where
  value : StaticVar → ℤ := fun _ => 0
  console : List Line := []

/-- A program has no meaning where an `int` overflows. -/
abbrev Program := StateT State Option

def print (line : Line) : Program Unit := modify fun state => { state with console := state.console ++ [line] }

/-- `NSLog`. -/
def log (text : String) : Program Unit := print (.log text)

def printVar (var1 var2 var3 var4 : ℤ) : Program Unit := print (.printVar var1 var2 var3 var4)

def read (static : StaticVar) : Program ℤ := return (← get).value static

/-- The result of an increment. -/
def checked (value : ℤ) : Option ℤ := if value < 2 ^ 31 then some value else none

/-- `++` of a static variable. -/
def increment (static : StaticVar) : Program ℤ := do
  let value ← checked ((← get).value static + 1)
  modify fun state => { state with value := Function.update state.value static value }
  return value

/-- Whether a block is on the stack, on the heap or global does not change what it does. The text of
`__func__` in a block is the compiler's. -/
def testBlockAllocation (func : String) : Program Unit := do
  let var0 : ℤ := 0
  let blk0 : Program Unit := log s!"var0 = {var0}"
  let blk1 : Program Unit := log s!"var1 = {var0}"
  let blk2 : Program Unit := print (.function func)
  let blk4 := blk0
  blk0
  blk1
  blk2
  blk4

/-- A block that has captured the value of `var3`; static variables are not captured by value. -/
structure LocBlk where
  var3 : ℤ

def LocBlk.invoke (locBlk : LocBlk) : Program Unit := do
  log "blk capture var value:"
  printVar (← read .gVar1) (← read .gVar2) locBlk.var3 (← read .var4)
  log "increment var inside block:"
  printVar (← increment .gVar1) (← increment .gVar2) locBlk.var3 (← increment .var4)

def testBlockCaptureVar : Program Unit := do
  let var3 : ℤ := 0
  log "before blcok declaration:"
  printVar (← read .gVar1) (← read .gVar2) var3 (← read .var4)
  let locBlk : LocBlk := ⟨var3⟩
  let _ ← increment .gVar1
  let _ ← increment .gVar2
  let var3 ← checked (var3 + 1)
  let _ ← increment .var4
  log "after var increment:"
  printVar (← read .gVar1) (← read .gVar2) var3 (← read .var4)
  locBlk.invoke

/-! ## Counting -/

/-- A number of calls. -/
def calls : ℕ → Program Unit
  | 0 => return
  | count + 1 => do
    calls count
    testBlockCaptureVar

/-- What the call prints that finds the static variables at a value. -/
def lines (value : ℤ) : List Line :=
  [.log "before blcok declaration:", .printVar value value 0 value,
    .log "after var increment:", .printVar (value + 1) (value + 1) 1 (value + 1),
    .log "blk capture var value:", .printVar (value + 1) (value + 1) 0 (value + 1),
    .log "increment var inside block:", .printVar (value + 2) (value + 2) 0 (value + 2)]

/-- The static variables are equal. -/
def State.at (value : ℤ) (console : List Line) : State := ⟨fun _ => value, console⟩

@[simp] theorem log_run (text : String) (state : State) :
    (log text).run state = some ((), { state with console := state.console ++ [.log text] }) := by
  rw [log, print, StateT.run_modify]
  rfl

@[simp] theorem printVar_run (var1 var2 var3 var4 : ℤ) (state : State) :
    (printVar var1 var2 var3 var4).run state =
      some ((), { state with console := state.console ++ [.printVar var1 var2 var3 var4] }) := by
  rw [printVar, print, StateT.run_modify]
  rfl

@[simp] theorem read_run (static : StaticVar) (state : State) :
    (read static).run state = some (state.value static, state) := by
  rw [read, StateT.run_bind, StateT.run_get]
  rfl

theorem increment_run (static : StaticVar) (state : State) :
    (increment static).run state = (checked (state.value static + 1)).map fun value =>
      (value, { state with value := Function.update state.value static value }) := by
  simp only [increment, StateT.run_bind, StateT.run_get, StateT.run_monadLift, monadLift_self, Option.pure_def,
    Option.bind_eq_bind, Option.bind_some]
  cases checked (state.value static + 1) <;> rfl

theorem checked_of_lt {value : ℤ} (small : value < 2 ^ 31) : checked value = some value := if_pos small

theorem checked_of_not_lt {value : ℤ} (large : ¬ value < 2 ^ 31) : checked value = none := if_neg large

/-- When each variable has the value, they all have. -/
theorem update_all (start value : ℤ) :
    Function.update (Function.update (Function.update (fun _ => start) StaticVar.gVar1 value) .gVar2 value)
        .var4 value =
      fun _ => value := by
  funext static
  cases static <;> rfl

/-- The block prints the captured value and the shared variables. -/
theorem LocBlk.invoke_at (locBlk : LocBlk) (value : ℤ) (console : List Line) :
    locBlk.invoke.run (.at value console) =
      if value + 1 < 2 ^ 31 then
        some ((), .at (value + 1) (console ++ [.log "blk capture var value:",
          .printVar value value locBlk.var3 value, .log "increment var inside block:",
          .printVar (value + 1) (value + 1) locBlk.var3 (value + 1)]))
      else none := by
  simp only [LocBlk.invoke, State.at, StateT.run_bind, log_run, printVar_run, read_run, increment_run,
    Option.bind_eq_bind, Option.bind_some]
  split
  · next small =>
    simp only [checked_of_lt small, Option.map_some, Option.bind_some, Function.update_of_ne, ne_eq, reduceCtorEq,
      not_false_eq_true, update_all, List.append_assoc, List.cons_append, List.nil_append]
  · next large =>
    rw [checked_of_not_lt large]
    rfl

theorem testBlockCaptureVar_at (value : ℤ) (console : List Line) :
    testBlockCaptureVar.run (.at value console) =
      if value + 2 < 2 ^ 31 then some ((), .at (value + 2) (console ++ lines value)) else none := by
  have counted : checked (0 + 1) = some 1 := checked_of_lt (by decide)
  have again : value + 1 + 1 = value + 2 := by omega
  have invoked (console : List Line) := LocBlk.invoke_at ⟨0⟩ (value + 1) console
  simp only [State.at] at invoked
  simp only [testBlockCaptureVar, State.at, StateT.run_bind, log_run, printVar_run, read_run, increment_run,
    Option.bind_eq_bind, Option.bind_some]
  by_cases small : value + 1 < 2 ^ 31
  · simp only [checked_of_lt small, Option.map_some, Option.bind_some, Function.update_of_ne, ne_eq, reduceCtorEq,
      not_false_eq_true, update_all, counted, StateT.run_monadLift, monadLift_self, Option.bind_eq_bind,
      Option.pure_def, invoked, lines, again, List.append_assoc, List.cons_append, List.nil_append]
  · rw [checked_of_not_lt small, if_neg (by omega)]
    rfl

/-- After any number of calls the static variables have grown by two a call, the block has printed the
captured 0 each time, and the call that takes them to 2³¹ has no meaning. -/
theorem calls_run (count : ℕ) :
    (calls count).run {} =
      if count < 2 ^ 30 then
        some ((), .at (2 * count) ((List.range count).flatMap fun call : ℕ => lines (2 * call)))
      else none := by
  induction count with
  | zero => exact (if_pos (by decide)).symm
  | succ count ih =>
    rw [calls, StateT.run_bind, ih]
    by_cases small : count < 2 ^ 30
    · rw [if_pos small, Option.bind_eq_bind, Option.bind_some, testBlockCaptureVar_at, List.range_succ,
        List.flatMap_append, List.flatMap_singleton]
      by_cases next : count + 1 < 2 ^ 30
      · have grown : 2 * ((count + 1 : ℕ) : ℤ) = 2 * count + 2 := by omega
        rw [if_pos (by omega), if_pos next, grown]
      · rw [if_neg (by omega), if_neg next]
    · rw [if_neg small, if_neg (by omega)]
      rfl

end INote.BlockAnalyze.BlockTests
