import INote.BlockAnalyze.BlockClass
import Mathlib.Data.List.Chain

/-! # What the detection logs

`_BlockClass` logs the classes from the one of the block to the one it keeps, once in the life of the
program.
-/

namespace INote.BlockAnalyze

/-! ## The log of `_BlockClass` -/

section Detection

variable {Class : Type} {runtime : Runtime Class} {cls : Class}

/-- The log is the chain of superclasses from a class on, up to the one that is kept. -/
structure Logged (runtime : Runtime Class) (cls : Class) (statics : Statics Class) : Prop where
  head : statics.log.head? = some cls
  last : statics.log.getLast? = statics.blockClass
  chain : statics.log.IsChain fun cls above => runtime.superclass cls = some above

/-- Every class of a chain is logged once. -/
theorem Logged.nodup {statics : Statics Class} (logged : Logged runtime cls statics) : statics.log.Nodup := by
  have deeper :
      statics.log.IsChain fun cls above => runtime.hierarchy.depth above < runtime.hierarchy.depth cls := by
    refine logged.chain.imp fun cls above superclass => ?_
    have proper : runtime.hierarchy.ProperAncestor cls above := .single superclass
    exact proper.depth_lt
  have : IsTrans Class fun cls above => runtime.hierarchy.depth above < runtime.hierarchy.depth cls :=
    ⟨fun _ _ _ first second => second.trans first⟩
  refine (List.isChain_iff_pairwise.mp deeper).imp fun lower => ?_
  rintro rfl
  exact Nat.lt_irrefl _ lower

variable [DecidableEq Class]

/-- One pass logs the superclass. -/
theorem Logged.again {statics next : Statics Class} (logged : Logged runtime cls statics)
    (pass : climb runtime statics = .again next) : Logged runtime cls next := by
  rw [climb] at pass
  split at pass
  · contradiction
  · next above superclass =>
    split at pass
    · obtain rfl := Loop.Pass.again.inj pass
      obtain ⟨current, assigned, parent⟩ := Option.bind_eq_some_iff.mp superclass
      refine ⟨?_, List.getLast?_concat, ?_⟩
      · rw [Statics.assign, List.head?_append, logged.head, Option.some_or]
      · refine logged.chain.append (List.isChain_singleton above) ?_
        intro below last other first
        rw [logged.last, assigned] at last
        cases last
        cases first
        exact parent
    · contradiction

theorem logged_of_run {fuel : ℕ} {climbed : Statics Class}
    (ran : Loop.run (climb runtime) fuel (({} : Statics Class).assign cls) = some climbed) :
    Logged runtime cls climbed := by
  apply (Loop.exits_of_run ran).post (Logged runtime cls)
  · exact fun _ _ logged pass => logged.again pass
  · intro statics result logged pass
    rw [climb] at pass
    split at pass
    · exact Loop.Pass.leave.inj pass ▸ logged
    · split at pass
      · contradiction
      · exact Loop.Pass.leave.inj pass ▸ logged
  · exact ⟨rfl, rfl, List.isChain_singleton cls⟩

end Detection

/-- However many objects are asked about, the log is the one chain from the class of the block to the
class before `NSObject`, each class once. -/
theorem checkObjectIsBlock_log {Class : Type} [DecidableEq Class] (runtime : Runtime Class)
    (testBlock : Object Class) (other : testBlock.isa ≠ runtime.nsObject) :
    ∃ fuel base log, runtime.IsBase testBlock.isa base ∧ log.head? = some testBlock.isa ∧
      log.getLast? = some base ∧ (log.IsChain fun cls above => runtime.superclass cls = some above) ∧ log.Nodup ∧
      ∀ objects, objects ≠ [] → ∃ answers statics,
        (objects.mapM (checkObjectIsBlock fuel runtime testBlock)).run {} = some (answers, statics) ∧
          statics.log = log := by
  obtain ⟨fuel, climbed, ran, base, cached, isBase⟩ := exists_climbed runtime other {}
  have logged := logged_of_run ran
  exact ⟨fuel, base, climbed.log, isBase, logged.head, logged.last.trans cached, logged.chain, logged.nodup,
    fun objects nonempty => ⟨_, _, mapM_checkObjectIsBlock_of_climbed ran nonempty, rfl⟩⟩

theorem checkObjectIsBlock_log_blockChains :
    ∃ fuel base log, blockChains.IsBase .globalBlock base ∧ log.head? = some .globalBlock ∧
      log.getLast? = some base ∧ (log.IsChain fun cls above => blockChains.superclass cls = some above) ∧
        log.Nodup ∧
      ∀ objects, objects ≠ [] → ∃ answers statics,
        (objects.mapM (checkObjectIsBlock fuel blockChains ⟨.globalBlock⟩)).run {} = some (answers, statics) ∧
          statics.log = log :=
  checkObjectIsBlock_log blockChains ⟨.globalBlock⟩ (by decide)

end INote.BlockAnalyze
