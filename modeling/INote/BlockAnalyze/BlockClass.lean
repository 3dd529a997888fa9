import INote.Library.Forest
import INote.Library.Loop
import Mathlib.Data.Fintype.EquivFin

/-! # Detecting blocks

`_BlockClass` walks once from the class of a copied block up to the last class before `NSObject`, and
keeps it; `CheckObjectIsBlock` asks whether the class of an object is this class or below it. The
classes of the runtime are a finite forest by superclass. On the chain of the block only one class
can be where the walk stops, and the objects that answer are those whose chain goes through it.
-/

namespace INote.BlockAnalyze

/-- The classes of the runtime, by superclass. -/
structure Runtime (Class : Type) where
  superclass : Class → Option Class
  nsObject : Class
  finite : Finite Class
  acyclic : ∀ cls, ¬ Relation.TransGen (fun cls above => superclass cls = some above) cls cls
  nsObject_root : superclass nsObject = none

/-- An object, by its class. -/
structure Object (Class : Type) where
  isa : Class

/-- The static variables of `_BlockClass`, and the classes that it has logged. -/
structure Statics (Class : Type) where
  onceToken : Bool := false
  blockClass : Option Class := none
  log : List Class := []

variable {Class : Type}

def Runtime.hierarchy (runtime : Runtime Class) : Forest Class where
  parent := runtime.superclass
  wellFounded :=
    have := runtime.finite
    Forest.wellFounded_of_acyclic runtime.acyclic

/-- `blockClass = cls; NSLog(@"%@", blockClass);` -/
def Statics.assign (statics : Statics Class) (cls : Class) : Statics Class :=
  { statics with blockClass := some cls, log := statics.log ++ [cls] }

/-- `class_getSuperclass`; `Nil` has none. -/
def Runtime.classGetSuperclass (runtime : Runtime Class) (cls : Option Class) : Option Class :=
  cls.bind runtime.superclass

/-- `object_getClass`; `nil` has none. -/
def objectGetClass (object : Option (Object Class)) : Option Class := object.map Object.isa

section Detection

variable [DecidableEq Class]

/-- One pass of the `while` loop. -/
def climb (runtime : Runtime Class) (statics : Statics Class) : Loop.Pass (Statics Class) (Statics Class) :=
  match runtime.classGetSuperclass statics.blockClass with
  | none => .leave statics
  | some above =>
    if above ≠ runtime.nsObject then .again (statics.assign above) else .leave statics

/-- `_BlockClass`, with at most `fuel` passes of its loop. -/
def blockClass (fuel : ℕ) (runtime : Runtime Class) (testBlock : Object Class) :
    StateT (Statics Class) Option (Option Class) := do
  let statics ← get
  unless statics.onceToken do
    let climbed ← Loop.run (climb runtime) fuel (statics.assign testBlock.isa)
    set { climbed with onceToken := true }
  return (← get).blockClass

/-- `[candidate isSubclassOfClass:cls]`; `Nil` answers `NO`. -/
def Runtime.isSubclassOfClass (runtime : Runtime Class) (candidate cls : Option Class) : Bool :=
  match candidate, cls with
  | some candidate, some cls => runtime.hierarchy.isAncestor candidate cls
  | _, _ => false

def checkObjectIsBlock (fuel : ℕ) (runtime : Runtime Class) (testBlock : Object Class)
    (object : Option (Object Class)) : StateT (Statics Class) Option Bool := do
  let blockClass ← blockClass fuel runtime testBlock
  let candidate := objectGetClass object
  return runtime.isSubclassOfClass candidate blockClass

end Detection

/-! ## The chains of the blocks -/

/-- The classes of the three kinds of blocks, and a class below `NSObject` beside them. -/
inductive BlockChain where
  | nsObject
  | nsBlock
  | nsMallocBlock
  | nsStackBlock
  | nsGlobalBlock
  | globalBlock
  | myClass
deriving DecidableEq

instance : Fintype BlockChain where
  elems := {.nsObject, .nsBlock, .nsMallocBlock, .nsStackBlock, .nsGlobalBlock, .globalBlock, .myClass}
  complete cls := by cases cls <;> decide

def BlockChain.superclass : BlockChain → Option BlockChain
  | .nsObject => none
  | .nsBlock | .myClass => some .nsObject
  | .nsMallocBlock | .nsStackBlock | .nsGlobalBlock => some .nsBlock
  | .globalBlock => some .nsGlobalBlock

theorem BlockChain.acyclic (cls : BlockChain) :
    ¬ Relation.TransGen (fun cls above => superclass cls = some above) cls cls := by
  -- Every class is listed after its superclass.
  have earlier : ∀ cls above, superclass cls = some above → above.ctorIdx < cls.ctorIdx := by decide
  intro cycle
  have descends : Relation.TransGen (· > ·) cls.ctorIdx cls.ctorIdx := cycle.lift _ earlier
  rw [Relation.transGen_eq_self] at descends
  exact Nat.lt_irrefl _ descends

def blockChains : Runtime BlockChain where
  superclass := BlockChain.superclass
  nsObject := .nsObject
  finite := inferInstance
  acyclic := BlockChain.acyclic
  nsObject_root := rfl

/-! ## The class before `NSObject` -/

/-- The class before `NSObject` on the chain of a class, or the root of the chain. -/
structure Runtime.IsBase (runtime : Runtime Class) (cls base : Class) : Prop where
  ancestor : runtime.hierarchy.Ancestor cls base
  below : runtime.hierarchy.ProperAncestor cls runtime.nsObject → runtime.superclass base = some runtime.nsObject
  root : ¬ runtime.hierarchy.ProperAncestor cls runtime.nsObject → runtime.superclass base = none

/-- A chain has one such class. -/
theorem Runtime.IsBase.unique {runtime : Runtime Class} {cls left right : Class}
    (first : runtime.IsBase cls left) (second : runtime.IsBase cls right) : left = right := by
  apply first.ancestor.eq_of_parent_eq second.ancestor
  by_cases proper : runtime.hierarchy.ProperAncestor cls runtime.nsObject
  · exact (first.below proper).trans (second.below proper).symm
  · exact (first.root proper).trans (second.root proper).symm

/-- What is below another root is not below `NSObject`. -/
theorem Runtime.not_ancestor_of_root {runtime : Runtime Class} {cls root : Class}
    (ancestor : runtime.hierarchy.Ancestor cls root) (top : runtime.superclass root = none)
    (other : root ≠ runtime.nsObject) : ¬ runtime.hierarchy.Ancestor cls runtime.nsObject := by
  intro below
  rcases ancestor.total below with up | down
  · exact other (up.eq_of_root top)
  · exact other (down.eq_of_root runtime.nsObject_root).symm

theorem Runtime.IsBase.ne_nsObject {runtime : Runtime Class} {cls base : Class}
    (isBase : runtime.IsBase cls base) (other : cls ≠ runtime.nsObject) : base ≠ runtime.nsObject := by
  rintro rfl
  -- `NSObject` is not the class itself, so it would be above it and have a superclass.
  rcases Relation.reflTransGen_iff_eq_or_transGen.mp isBase.ancestor with same | proper
  · exact other same.symm
  · have superclass := isBase.below proper
    rw [runtime.nsObject_root] at superclass
    contradiction

/-- `NSObject` does not descend from the class. -/
theorem Runtime.IsBase.not_ancestor_nsObject {runtime : Runtime Class} {cls base : Class}
    (isBase : runtime.IsBase cls base) (other : cls ≠ runtime.nsObject) :
    ¬ runtime.hierarchy.Ancestor runtime.nsObject base :=
  fun ancestor => isBase.ne_nsObject other (ancestor.eq_of_root runtime.nsObject_root).symm

/-- Nothing at or below another child of `NSObject` descends from the class. -/
theorem Runtime.IsBase.not_ancestor_of_child {runtime : Runtime Class} {cls base held child : Class}
    (isBase : runtime.IsBase cls base) (other : cls ≠ runtime.nsObject)
    (superclass : runtime.superclass child = some runtime.nsObject) (distinct : child ≠ base)
    (below : runtime.hierarchy.Ancestor held child) : ¬ runtime.hierarchy.Ancestor held base := by
  intro ancestor
  by_cases proper : runtime.hierarchy.ProperAncestor cls runtime.nsObject
  · exact distinct (below.eq_of_parent_eq ancestor (superclass.trans (isBase.below proper).symm))
  · exact Runtime.not_ancestor_of_root ancestor (isBase.root proper) (isBase.ne_nsObject other)
      (below.tail superclass)

/-! ## The walk -/

/-- The walk from a class is at another class of its chain, and has not come to `NSObject`. -/
structure Climbing (runtime : Runtime Class) (cls : Class) (statics : Statics Class) (current : Class) :
    Prop where
  assigned : statics.blockClass = some current
  ancestor : runtime.hierarchy.Ancestor cls current
  before : current ≠ runtime.nsObject

/-- Where the walk may stop. -/
theorem Climbing.isBase {runtime : Runtime Class} {cls current : Class} {statics : Statics Class}
    (climbing : Climbing runtime cls statics current)
    (last : runtime.superclass current = none ∨ runtime.superclass current = some runtime.nsObject) :
    runtime.IsBase cls current := by
  refine ⟨climbing.ancestor, fun proper => ?_, fun outside => ?_⟩
  · rcases last with top | below
    · exact (Runtime.not_ancestor_of_root climbing.ancestor top climbing.before proper.to_reflTransGen).elim
    · exact below
  · rcases last with top | below
    · exact top
    · exact (outside (.tail' climbing.ancestor below)).elim

variable [DecidableEq Class]

/-- What one pass does. -/
theorem Climbing.pass {runtime : Runtime Class} {cls current : Class} {statics : Statics Class}
    (climbing : Climbing runtime cls statics current) :
    (∃ above, runtime.superclass current = some above ∧ above ≠ runtime.nsObject ∧
        climb runtime statics = .again (statics.assign above)) ∨
      ((runtime.superclass current = none ∨ runtime.superclass current = some runtime.nsObject) ∧
        climb runtime statics = .leave statics) := by
  have step : runtime.classGetSuperclass statics.blockClass = runtime.superclass current := by
    rw [climbing.assigned]
    rfl
  rw [climb, step]
  cases superclass : runtime.superclass current with
  | none => exact .inr ⟨.inl rfl, rfl⟩
  | some above =>
    by_cases same : above = runtime.nsObject
    · exact .inr ⟨.inr (congrArg some same), if_neg (not_not_intro same)⟩
    · exact .inl ⟨above, rfl, same, if_pos same⟩

/-- The walk ends, at the class before `NSObject` or at the root. -/
theorem exists_climbed (runtime : Runtime Class) {cls : Class} (other : cls ≠ runtime.nsObject)
    (statics : Statics Class) :
    ∃ fuel climbed, Loop.run (climb runtime) fuel (statics.assign cls) = some climbed ∧
      ∃ base, climbed.blockClass = some base ∧ runtime.IsBase cls base := by
  apply Loop.exists_run (fun statics => ∃ current, Climbing runtime cls statics current)
    (fun statics => statics.blockClass.elim 0 runtime.hierarchy.depth)
  · rintro statics next ⟨current, climbing⟩ pass
    rcases climbing.pass with ⟨above, superclass, before, again⟩ | ⟨_, leave⟩
    · obtain rfl := Loop.Pass.again.inj (again.symm.trans pass)
      refine ⟨⟨above, rfl, climbing.ancestor.tail superclass, before⟩, ?_⟩
      rw [climbing.assigned]
      have proper : runtime.hierarchy.ProperAncestor current above := .single superclass
      exact proper.depth_lt
    · rw [leave] at pass
      contradiction
  · rintro statics climbed ⟨current, climbing⟩ pass
    rcases climbing.pass with ⟨above, _, _, again⟩ | ⟨last, leave⟩
    · rw [again] at pass
      contradiction
    · obtain rfl := Loop.Pass.leave.inj (leave.symm.trans pass)
      exact ⟨current, climbing.assigned, climbing.isBase last⟩
  · exact ⟨cls, rfl, .refl, other⟩

/-- The walk from the class of a block without captures. -/
example : (Loop.run (climb blockChains) 3 (({} : Statics BlockChain).assign .globalBlock)).map Statics.log =
    some [.globalBlock, .nsGlobalBlock, .nsBlock] := rfl

/-! ## The calls -/

theorem blockClass_of_onceToken (fuel : ℕ) (runtime : Runtime Class) (testBlock : Object Class)
    {statics : Statics Class} (done : statics.onceToken = true) :
    (blockClass fuel runtime testBlock).run statics = some (statics.blockClass, statics) := by
  rcases statics with ⟨onceToken, cached, log⟩
  obtain rfl : onceToken = true := done
  rfl

theorem blockClass_of_climbed {fuel : ℕ} {runtime : Runtime Class} {testBlock : Object Class}
    {climbed : Statics Class}
    (ran : Loop.run (climb runtime) fuel (({} : Statics Class).assign testBlock.isa) = some climbed) :
    (blockClass fuel runtime testBlock).run {} =
      some (climbed.blockClass, { climbed with onceToken := true }) := by
  simp only [blockClass, StateT.run_bind, StateT.run_get, StateT.run_monadLift, monadLift_self, Option.pure_def,
    Option.bind_eq_bind, Option.bind_some, Bool.false_eq_true, ↓reduceIte, ran]
  rfl

theorem checkObjectIsBlock_of_blockClass {fuel : ℕ} {runtime : Runtime Class} {testBlock : Object Class}
    {statics next : Statics Class} {cached : Option Class}
    (ran : (blockClass fuel runtime testBlock).run statics = some (cached, next))
    (object : Option (Object Class)) :
    (checkObjectIsBlock fuel runtime testBlock object).run statics =
      some (runtime.isSubclassOfClass (objectGetClass object) cached, next) := by
  change Option.bind ((blockClass fuel runtime testBlock).run statics) _ = _
  rw [ran]
  rfl

omit [DecidableEq Class] in
private theorem mapM_cons_of_run {α β : Type} {call : α → StateT (Statics Class) Option β} {item : α}
    {rest : List α} {start middle final : Statics Class} {answer : β} {answers : List β}
    (first : (call item).run start = some (answer, middle))
    (later : (rest.mapM call).run middle = some (answers, final)) :
    ((item :: rest).mapM call).run start = some (answer :: answers, final) := by
  rw [List.mapM_cons, StateT.run_bind, first, Option.bind_eq_bind, Option.bind_some, StateT.run_bind, later]
  rfl

/-- Once the class is kept, every call answers from it and changes nothing. -/
theorem mapM_checkObjectIsBlock (fuel : ℕ) (runtime : Runtime Class) (testBlock : Object Class)
    {statics : Statics Class} (done : statics.onceToken = true) (objects : List (Option (Object Class))) :
    (objects.mapM (checkObjectIsBlock fuel runtime testBlock)).run statics =
      some (objects.map fun object => runtime.isSubclassOfClass (objectGetClass object) statics.blockClass,
        statics) := by
  induction objects with
  | nil => rfl
  | cons object rest ih =>
    have kept := blockClass_of_onceToken fuel runtime testBlock done
    exact mapM_cons_of_run (checkObjectIsBlock_of_blockClass kept object) ih

/-- The first call walks; all of them answer from the class where the walk stopped. -/
theorem mapM_checkObjectIsBlock_of_climbed {fuel : ℕ} {runtime : Runtime Class} {testBlock : Object Class}
    {climbed : Statics Class}
    (ran : Loop.run (climb runtime) fuel (({} : Statics Class).assign testBlock.isa) = some climbed)
    {objects : List (Option (Object Class))} (nonempty : objects ≠ []) :
    (objects.mapM (checkObjectIsBlock fuel runtime testBlock)).run {} =
      some (objects.map fun object => runtime.isSubclassOfClass (objectGetClass object) climbed.blockClass,
        { climbed with onceToken := true }) := by
  obtain ⟨object, rest, rfl⟩ := List.exists_cons_of_ne_nil nonempty
  have done : { climbed with onceToken := true }.onceToken = true := rfl
  apply mapM_cons_of_run (checkObjectIsBlock_of_blockClass (blockClass_of_climbed ran) object)
  exact mapM_checkObjectIsBlock fuel runtime testBlock done rest

/-! ## The answers -/

/-- What an answer says about an object. -/
structure Answers (runtime : Runtime Class) (base : Class) (object : Option (Object Class)) (answer : Bool) :
    Prop where
  iff_ancestor : answer = true ↔ ∃ held, object = some held ∧ runtime.hierarchy.Ancestor held.isa base
  nsObject : object = some ⟨runtime.nsObject⟩ → answer = false
  otherChild : ∀ held child, object = some held → runtime.superclass child = some runtime.nsObject →
    child ≠ base → runtime.hierarchy.Ancestor held.isa child → answer = false

theorem Runtime.IsBase.answers {runtime : Runtime Class} {cls base : Class} (isBase : runtime.IsBase cls base)
    (other : cls ≠ runtime.nsObject) (object : Option (Object Class)) :
    Answers runtime base object (runtime.isSubclassOfClass (objectGetClass object) (some base)) := by
  have iff_ancestor : runtime.isSubclassOfClass (objectGetClass object) (some base) = true ↔
      ∃ held, object = some held ∧ runtime.hierarchy.Ancestor held.isa base := by
    cases object with
    | none => simp [objectGetClass, Runtime.isSubclassOfClass]
    | some held => simp [objectGetClass, Runtime.isSubclassOfClass, Forest.isAncestor_iff]
  have no {held : Object Class} (present : object = some held)
      (apart : ¬ runtime.hierarchy.Ancestor held.isa base) :
      runtime.isSubclassOfClass (objectGetClass object) (some base) = false := by
    rw [Bool.eq_false_iff, ne_eq, iff_ancestor]
    rintro ⟨_, found, ancestor⟩
    obtain rfl := Option.some.inj (present.symm.trans found)
    exact apart ancestor
  refine ⟨iff_ancestor, fun present => ?_, fun held child present superclass distinct below => ?_⟩
  · exact no present (isBase.not_ancestor_nsObject other)
  · exact no present (isBase.not_ancestor_of_child other superclass distinct below)

/-- The walk ends, keeps the one class of the chain where it may stop, and every call, in any order
and number, answers whether the class of its object descends from that class. -/
theorem checkObjectIsBlock_iff_ancestor (runtime : Runtime Class) (testBlock : Object Class)
    (other : testBlock.isa ≠ runtime.nsObject) :
    ∃ base, runtime.IsBase testBlock.isa base ∧ (∀ cls, runtime.IsBase testBlock.isa cls → cls = base) ∧
      ∃ fuel statics, statics.blockClass = some base ∧ ∀ objects, objects ≠ [] →
        ∃ answers, (objects.mapM (checkObjectIsBlock fuel runtime testBlock)).run {} = some (answers, statics) ∧
          List.Forall₂ (Answers runtime base) objects answers := by
  obtain ⟨fuel, climbed, ran, base, cached, isBase⟩ := exists_climbed runtime other {}
  refine ⟨base, isBase, fun cls another => another.unique isBase, fuel, { climbed with onceToken := true },
    cached, fun objects nonempty => ⟨_, mapM_checkObjectIsBlock_of_climbed ran nonempty, ?_⟩⟩
  rw [cached, List.forall₂_map_right_iff, List.forall₂_same]
  exact fun object _ => isBase.answers other object

theorem checkObjectIsBlock_iff_ancestor_blockChains :
    ∃ base, blockChains.IsBase .globalBlock base ∧ (∀ cls, blockChains.IsBase .globalBlock cls → cls = base) ∧
      ∃ fuel statics, statics.blockClass = some base ∧ ∀ objects, objects ≠ [] →
        ∃ answers, (objects.mapM (checkObjectIsBlock fuel blockChains ⟨.globalBlock⟩)).run {} =
            some (answers, statics) ∧
          List.Forall₂ (Answers blockChains base) objects answers :=
  checkObjectIsBlock_iff_ancestor blockChains ⟨.globalBlock⟩ (by decide)

end INote.BlockAnalyze
