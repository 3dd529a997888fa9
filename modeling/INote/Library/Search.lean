import Mathlib.Data.List.Basic

/-! # Searches that stop at the first hit

A test answers whether it hits, and leaves a state. Tests that are made in order until one hits leave the
state of the tests that were made: all of them missed, apart from a last one that hit.
-/

namespace Search

variable {σ : Type}

/-- The state after all of the tests. -/
def after (tests : List (StateM σ Bool)) (state : σ) : σ := tests.foldl (fun state test => (test state).2) state

/-- Each of the tests misses, in the state that the ones before it leave. -/
def Misses : List (StateM σ Bool) → σ → Prop
  | [], _ => True
  | test :: rest, state => (test state).1 = false ∧ Misses rest (test state).2

/-- The search stops at the first hit, or has made all of the tests. -/
inductive Stops (tests : List (StateM σ Bool)) (state : σ) : Bool → σ → Prop
  | hit (missed rest : List (StateM σ Bool)) (found : StateM σ Bool) (parts : tests = missed ++ found :: rest)
      (misses : Misses missed state) (hits : (found (after missed state)).1 = true) :
      Stops tests state true (found (after missed state)).2
  | miss (misses : Misses tests state) : Stops tests state false (after tests state)

theorem Stops.cons {test : StateM σ Bool} {tests : List (StateM σ Bool)} {state last : σ} {hit : Bool}
    (misses : (test state).1 = false) (stops : Stops tests (test state).2 hit last) :
    Stops (test :: tests) state hit last := by
  cases stops with
  | hit missed rest found parts earlier hits =>
    exact .hit (test :: missed) rest found (congrArg (test :: ·) parts) ⟨misses, earlier⟩ hits
  | miss later =>
    have all : Misses (test :: tests) state := ⟨misses, later⟩
    exact .miss all

theorem anyM_cons_apply (test : StateM σ Bool) (rest : List (StateM σ Bool)) (state : σ) :
    (test :: rest).anyM id state =
      if (test state).1 then (true, (test state).2) else rest.anyM id (test state).2 := by
  rw [List.anyM_cons]
  change (if (test state).1 = true then pure true else rest.anyM id) (test state).2 = _
  split <;> rfl

/-- The search in order stops at the first hit. -/
theorem anyM_stops (tests : List (StateM σ Bool)) (state : σ) :
    Stops tests state (tests.anyM id state).1 (tests.anyM id state).2 := by
  induction tests generalizing state with
  | nil => exact .miss trivial
  | cons test rest ih =>
    rw [anyM_cons_apply]
    split
    · next hits => exact .hit [] rest test rfl trivial hits
    · next misses => exact .cons (Bool.eq_false_iff.mpr misses) (ih (test state).2)

end Search
