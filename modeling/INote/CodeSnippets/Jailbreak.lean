import Mathlib.Data.UInt
import INote.Library.Ownership
import INote.Library.Search

/-! # Jailbreak tests

The listing asks whether a URL can be opened and whether files exist, with a reference for each object that it
mentions. What Foundation answers is not fixed: it may depend on all that was asked before.
-/

namespace INote.CodeSnippets.Jailbreak

open Ownership

/-- The path of a file test: a constant of the listing, or an object. -/
inductive NSString where
  | literal (text : String)
  | object (word : UInt64)

inductive Message where
  | stringWithFormat (format : String) (arguments : List String)
  | stringWithUTF8String (bytes : UInt64)
  | defaultManager
  | fileExistsAtPath (manager : UInt64) (path : NSString)
  | sharedApplication
  | urlWithString (text : String)
  | canOpenURL (application url : UInt64)

/-- The receiver and the arguments that are objects. -/
def Message.mentions : Message → List UInt64
  | .fileExistsAtPath manager (.object word) => [manager, word]
  | .fileExistsAtPath manager (.literal _) => [manager]
  | .canOpenURL application url => [application, url]
  | _ => []

structure Statics where
  byte11E7FF0 : UInt8

abbrev Listing (α : Type) := Program Message UInt64 Statics α

/-- What the frameworks and the file system answer. -/
structure Foundation where
  answer : List Message → Message → UInt64

abbrev Foundation.runtime (foundation : Foundation) : Runtime Message UInt64 :=
  ⟨Message.mentions, foundation.answer⟩

abbrev Foundation.objcMsgSend (foundation : Foundation) (message : Message) : Listing UInt64 :=
  send foundation.runtime message

abbrev objcRetainAutoreleasedReturnValue (word : UInt64) : Listing UInt64 := retain word

abbrev objcRelease (word : UInt64) : Listing Unit := release word

variable (foundation : Foundation)

/-- The assignment below `if ( v6 )`, `v6` an int. -/
def raise (v6 : UInt32) (statics : Statics) : Statics := if v6 ≠ 0 then { byte11E7FF0 := 1 } else statics

def sub6E0B00 : Listing Unit := do
  let v0 ← foundation.objcMsgSend (.stringWithFormat "/%@/%@%@%@.%@" ["Applications", "Cy", "di", "a", "app"])
  let v1 ← objcRetainAutoreleasedReturnValue v0
  let v2 ← foundation.objcMsgSend (.stringWithFormat "/%@/%@/%@/%@/" ["private", "var", "lib", "apt"])
  let v3 ← objcRetainAutoreleasedReturnValue v2
  let v4 ← foundation.objcMsgSend .defaultManager
  let v5 ← objcRetainAutoreleasedReturnValue v4
  let v6 ← foundation.objcMsgSend (.fileExistsAtPath v5 (.object v1))
  objcRelease v5
  assign (raise v6.toUInt32)
  let v7 ← foundation.objcMsgSend .defaultManager
  let v8 ← objcRetainAutoreleasedReturnValue v7
  let v9 ← foundation.objcMsgSend (.fileExistsAtPath v8 (.object v3))
  objcRelease v8
  assign (raise v9.toUInt32)
  objcRelease v3
  objcRelease v1
  return ()

/-- `v & 1`, `v` a char -/
def bit (word : UInt64) : Bool := word.toUInt8 &&& 1 != 0

/-- A pointer of the table. -/
def load (off10D259C08 : List UInt64) (v11 : ℕ) : Listing UInt64 := fun session =>
  off10D259C08[v11]?.map (·, session)

/-- One pass, up to `if ( v16 & 1 )`. -/
def probe (off10D259C08 : List UInt64) (v11 : ℕ) : Listing Bool := do
  let v12 ← foundation.objcMsgSend .defaultManager
  let v13 ← objcRetainAutoreleasedReturnValue v12
  let bytes ← load off10D259C08 v11
  let v14 ← foundation.objcMsgSend (.stringWithUTF8String bytes)
  let v15 ← objcRetainAutoreleasedReturnValue v14
  let v16 ← foundation.objcMsgSend (.fileExistsAtPath v13 (.object v15))
  objcRelease v15
  objcRelease v13
  return bit v16

/-- The passes of `while ( 1 )`, `fuel` of them at most; there are never more than five. -/
def whileTrue (off10D259C08 : List UInt64) : ℕ → ℕ → Listing Bool
  | 0, _ => failure
  | fuel + 1, v11 => do
    if ← probe foundation off10D259C08 v11 then return true
    else if v11 + 1 = 5 then return false
    else whileTrue off10D259C08 fuel (v11 + 1)

def isJailBreak (off10D259C08 : List UInt64) : Listing Bool := do
  let v2 ← foundation.objcMsgSend .sharedApplication
  let v3 ← objcRetainAutoreleasedReturnValue v2
  let v4 ← foundation.objcMsgSend (.urlWithString "cydia://")
  let v5 ← objcRetainAutoreleasedReturnValue v4
  let v6 ← foundation.objcMsgSend (.canOpenURL v3 v5)
  objcRelease v5
  objcRelease v3
  if bit v6 then return true
  else
    let v7 ← foundation.objcMsgSend .defaultManager
    let v8 ← objcRetainAutoreleasedReturnValue v7
    let v9 ← foundation.objcMsgSend (.fileExistsAtPath v8 (.literal "/User/Applications/"))
    objcRelease v8
    if bit v9 then return true
    else whileTrue foundation off10D259C08 5 0

/-- The tests as they are seen from outside. -/
def opensURL : Seen Message Statics Bool := do
  let application ← ask foundation.runtime .sharedApplication
  let url ← ask foundation.runtime (.urlWithString "cydia://")
  return bit (← ask foundation.runtime (.canOpenURL application url))

def fileExists : Seen Message Statics Bool := do
  let manager ← ask foundation.runtime .defaultManager
  return bit (← ask foundation.runtime (.fileExistsAtPath manager (.literal "/User/Applications/")))

def entryExists (bytes : UInt64) : Seen Message Statics Bool := do
  let manager ← ask foundation.runtime .defaultManager
  let path ← ask foundation.runtime (.stringWithUTF8String bytes)
  return bit (← ask foundation.runtime (.fileExistsAtPath manager (.object path)))

/-- The tests in the order of the listing. -/
def tests (off10D259C08 : List UInt64) : List (Seen Message Statics Bool) :=
  opensURL foundation :: fileExists foundation :: (off10D259C08.take 5).map (entryExists foundation)

/-- The answers for both paths; the second is tested whatever the first answer is. -/
def pathsExist : Seen Message Statics (UInt32 × UInt32) := do
  let cydia ← ask foundation.runtime (.stringWithFormat "/%@/%@%@%@.%@" ["Applications", "Cy", "di", "a", "app"])
  let apt ← ask foundation.runtime (.stringWithFormat "/%@/%@/%@/%@/" ["private", "var", "lib", "apt"])
  let manager ← ask foundation.runtime .defaultManager
  let v6 ← ask foundation.runtime (.fileExistsAtPath manager (.object cydia))
  let manager ← ask foundation.runtime .defaultManager
  let v9 ← ask foundation.runtime (.fileExistsAtPath manager (.object apt))
  return (v6.toUInt32, v9.toUInt32)

/-- The listing as it is seen from outside. -/
def searchPaths : Seen Message Statics Unit := do
  let cydia ← ask foundation.runtime (.stringWithFormat "/%@/%@%@%@.%@" ["Applications", "Cy", "di", "a", "app"])
  let apt ← ask foundation.runtime (.stringWithFormat "/%@/%@/%@/%@/" ["private", "var", "lib", "apt"])
  let manager ← ask foundation.runtime .defaultManager
  let v6 ← ask foundation.runtime (.fileExistsAtPath manager (.object cydia))
  set (raise v6.toUInt32)
  let manager ← ask foundation.runtime .defaultManager
  let v9 ← ask foundation.runtime (.fileExistsAtPath manager (.object apt))
  set (raise v9.toUInt32)

inductive Call where
  | sub6E0B00
  | isJailBreak

variable (off10D259C08 : List UInt64)

def Call.perform : Call → Listing Unit
  | .sub6E0B00 => Jailbreak.sub6E0B00 foundation
  | .isJailBreak => do let _ ← Jailbreak.isJailBreak foundation off10D259C08

def Call.after (call : Call) (view : View Message Statics) : View Message Statics :=
  match call with
  | .sub6E0B00 => (searchPaths foundation view).2
  | .isJailBreak => ((tests foundation off10D259C08).anyM id view).2

/-- The call finds one of its paths. -/
def Call.detects (call : Call) (view : View Message Statics) : Bool :=
  match call with
  | .sub6E0B00 => (pathsExist foundation view).1.1 != 0 || (pathsExist foundation view).1.2 != 0
  | .isJailBreak => false

/-- Some call of the run finds one of its paths. -/
def detected : List Call → View Message Statics → Bool
  | [], _ => false
  | call :: rest, view => call.detects foundation view || detected rest (call.after foundation off10D259C08 view)

variable (owned : List UInt64)

theorem load_eq {v11 : ℕ} (below : v11 < off10D259C08.length) :
    load off10D259C08 v11 = pure off10D259C08[v11] := by
  funext session
  rw [load, List.getElem?_eq_getElem below]
  rfl

theorem probe_balanced {v11 : ℕ} (below : v11 < off10D259C08.length) :
    Balanced owned (entryExists foundation off10D259C08[v11]) (probe foundation off10D259C08 v11) := by
  simp only [probe, load_eq _ below, pure_bind]
  refine .send (List.forall_mem_nil _) fun v12 => .retain ?_
  refine .send (List.forall_mem_nil _) fun v14 => .retain ?_
  refine .send (owned_pair owned_hold.hold owned_hold) fun v16 => ?_
  exact .drop (.release (.release (.pure _)))

/-- The passes test the entries that are left, in order. -/
theorem whileTrue_balanced (long : 5 ≤ off10D259C08.length) (fuel v11 : ℕ) (left : v11 + (fuel + 1) = 5) :
    Balanced owned ((((off10D259C08.drop v11).take (fuel + 1)).map (entryExists foundation)).anyM id)
      (whileTrue foundation off10D259C08 (fuel + 1) v11) := by
  induction fuel generalizing v11 with
  | zero =>
    have below : v11 < off10D259C08.length := by omega
    rw [List.drop_eq_getElem_cons below, List.take_succ_cons, List.map_cons, List.anyM_cons, whileTrue,
      if_pos left]
    exact .bind (probe_balanced _ _ _ below) fun hit => .ite (.pure true) (.pure false)
  | succ fuel ih =>
    have below : v11 < off10D259C08.length := by omega
    rw [List.drop_eq_getElem_cons below, List.take_succ_cons, List.map_cons, List.anyM_cons, whileTrue,
      if_neg (by omega)]
    exact .bind (probe_balanced _ _ _ below) fun hit => .ite (.pure true) (ih (v11 + 1) (by omega))

theorem isJailBreak_balanced (long : 5 ≤ off10D259C08.length) :
    Balanced owned ((tests foundation off10D259C08).anyM id) (isJailBreak foundation off10D259C08) := by
  rw [tests, List.anyM_cons, List.anyM_cons]
  simp only [id_eq, opensURL, fileExists, bind_assoc, pure_bind]
  refine .send (List.forall_mem_nil _) fun v2 => .retain ?_
  refine .send (List.forall_mem_nil _) fun v4 => .retain ?_
  refine .send (owned_pair owned_hold.hold owned_hold) fun v6 => ?_
  refine .drop (.release (.release (.ite (.pure _) ?_)))
  refine .send (List.forall_mem_nil _) fun v7 => .retain ?_
  refine .send (List.forall_mem_singleton.mpr owned_hold) fun v9 => .drop (.release (.ite (.pure _) ?_))
  exact whileTrue_balanced _ _ _ long 4 0 rfl

theorem sub6E0B00_balanced : Balanced owned (searchPaths foundation) (sub6E0B00 foundation) := by
  refine .send (List.forall_mem_nil _) fun v0 => .retain ?_
  refine .send (List.forall_mem_nil _) fun v2 => .retain ?_
  refine .send (List.forall_mem_nil _) fun v4 => .retain ?_
  refine .send (owned_pair owned_hold owned_hold.hold.hold) fun v6 => ?_
  refine .drop (.release (.assign ?_))
  refine .send (List.forall_mem_nil _) fun v7 => .retain ?_
  refine .send (owned_pair owned_hold owned_hold.hold) fun v9 => ?_
  refine .drop (.release (.assign ?_))
  exact .release (.release (.pure ()))

theorem raise_raise (v6 v9 : UInt32) (statics : Statics) :
    raise v9 (raise v6 statics) = if v6 != 0 || v9 != 0 then ⟨1⟩ else statics := by
  by_cases second : v9 = 0
  · simp [raise, second]
  · simp [raise, second]

theorem searchPaths_eq (view : View Message Statics) :
    (searchPaths foundation view).2 = { (pathsExist foundation view).2 with
      statics := raise (pathsExist foundation view).1.2
        (raise (pathsExist foundation view).1.1 view.statics) } := rfl

theorem pathsExist_asks : Asks (pathsExist foundation) := by
  refine .bind (.ask _ _) fun cydia => .bind (.ask _ _) fun apt => ?_
  refine .bind (.ask _ _) fun manager => .bind (.ask _ _) fun v6 => ?_
  exact .bind (.ask _ _) fun manager => .bind (.ask _ _) fun v9 => .pure _

theorem tests_ask : ∀ test ∈ tests foundation off10D259C08, Asks test := by
  intro test member
  rcases List.mem_cons.mp member with rfl | member
  · exact .bind (.ask _ _) fun application => .bind (.ask _ _) fun url => .bind (.ask _ _) fun v6 => .pure _
  rcases List.mem_cons.mp member with rfl | member
  · exact .bind (.ask _ _) fun manager => .bind (.ask _ _) fun v9 => .pure _
  obtain ⟨bytes, _, rfl⟩ := List.mem_map.mp member
  exact .bind (.ask _ _) fun manager => .bind (.ask _ _) fun path => .bind (.ask _ _) fun v16 => .pure _

/-- The tests are made in order up to the first hit, which is the answer; no reference is lost or kept. -/
theorem isJailBreak_stops (foundation : Foundation) (off10D259C08 : List UInt64)
    (long : 5 ≤ off10D259C08.length) (session : Session Message UInt64 Statics) :
    ∃ hit final, (isJailBreak foundation off10D259C08).run session = some (hit, final) ∧
      Search.Stops (tests foundation off10D259C08) session.toView hit final.toView ∧
      final.owned = session.owned ∧ final.statics = session.statics := by
  obtain ⟨final, run, view, owned⟩ := (isJailBreak_balanced foundation _ session.owned long).exists_run
  refine ⟨_, final, run, ?_, owned, ?_⟩
  · rw [view]
    exact Search.anyM_stops _ _
  · have asked := Asks.anyM (tests_ask foundation off10D259C08) session.toView
    rw [← view] at asked
    exact asked.2

/-- Only the third file of the table exists. -/
def thirdExists : Foundation where
  answer
    | _, .canOpenURL .. => 0
    | _, .fileExistsAtPath _ (.literal _) => 0
    | _, .fileExistsAtPath _ (.object path) => if path = 0x30 then 1 else 0
    | _, .stringWithUTF8String bytes => bytes
    | _, _ => 0xf0

def fiveEntries : List UInt64 := [0x10, 0x20, 0x30, 0x40, 0x50]

def atStart : Session Message UInt64 Statics where
  sent := []
  statics := ⟨0⟩
  owned := []
  returned := none

theorem isJailBreak_stops_thirdExists :
    5 ≤ fiveEntries.length ∧
      ∃ hit final, (isJailBreak thirdExists fiveEntries).run atStart = some (hit, final) ∧
        Search.Stops (tests thirdExists fiveEntries) atStart.toView hit final.toView ∧
        final.owned = atStart.owned ∧ final.statics = atStart.statics :=
  ⟨by decide, isJailBreak_stops thirdExists fiveEntries (by decide) atStart⟩

theorem Call.perform_run (long : 5 ≤ off10D259C08.length) (call : Call)
    (session : Session Message UInt64 Statics) :
    ∃ final, (call.perform foundation off10D259C08).run session = some ((), final) ∧
      final.toView = call.after foundation off10D259C08 session.toView ∧ final.owned = session.owned := by
  cases call with
  | sub6E0B00 => exact (sub6E0B00_balanced foundation session.owned).exists_run
  | isJailBreak =>
    obtain ⟨final, run, rest⟩ := (isJailBreak_balanced foundation _ session.owned long).exists_run
    refine ⟨final, ?_, rest⟩
    rw [Call.perform, StateT.run_bind, run]
    rfl

theorem Call.after_spec (call : Call) (view : View Message Statics) :
    view.sent <+: (call.after foundation off10D259C08 view).sent ∧
      (call.after foundation off10D259C08 view).statics =
        if call.detects foundation view then ⟨1⟩ else view.statics := by
  cases call with
  | sub6E0B00 =>
    refine ⟨(pathsExist_asks foundation view).1, ?_⟩
    rw [Call.after, searchPaths_eq]
    change raise _ (raise _ view.statics) = _
    rw [raise_raise]
    rfl
  | isJailBreak => exact Asks.anyM (tests_ask foundation off10D259C08) view

/-- Over any run of calls no reference is lost or kept; the flag is set once a path was found, and never
cleared. -/
theorem run_balanced (foundation : Foundation) (off10D259C08 : List UInt64) (long : 5 ≤ off10D259C08.length)
    (calls : List Call) (session : Session Message UInt64 Statics) :
    ∃ final, (forM calls (Call.perform foundation off10D259C08)).run session = some ((), final) ∧
      final.owned = session.owned ∧ session.sent <+: final.sent ∧
      final.statics = if detected foundation off10D259C08 calls session.toView then ⟨1⟩ else session.statics := by
  induction calls generalizing session with
  | nil => exact ⟨session, rfl, rfl, List.prefix_rfl, rfl⟩
  | cons call rest ih =>
    obtain ⟨next, run, view, owned⟩ := call.perform_run foundation off10D259C08 long session
    obtain ⟨sent, statics⟩ := call.after_spec foundation off10D259C08 session.toView
    rw [← view] at sent statics
    obtain ⟨final, runs, kept, later, last⟩ := ih next
    refine ⟨final, ?_, kept.trans owned, sent.trans later, ?_⟩
    · rw [List.forM_cons, StateT.run_bind, run]
      exact runs
    · rw [last, statics, detected, ← view]
      cases call.detects foundation session.toView with
      | true => simp
      | false => simp

theorem run_balanced_thirdExists :
    5 ≤ fiveEntries.length ∧
      ∃ final, (forM [Call.isJailBreak, .sub6E0B00]
          (Call.perform thirdExists fiveEntries)).run atStart = some ((), final) ∧
        final.owned = atStart.owned ∧ atStart.sent <+: final.sent ∧
        final.statics = if detected thirdExists fiveEntries [.isJailBreak, .sub6E0B00] atStart.toView
          then ⟨1⟩ else atStart.statics :=
  ⟨by decide, run_balanced thirdExists fiveEntries (by decide) [.isJailBreak, .sub6E0B00] atStart⟩

end INote.CodeSnippets.Jailbreak
