import Mathlib.Logic.Relation
import INote.Library.NestedRecord

/-! # Class layout

Objects of classes with virtual functions and virtual bases, laid out as the record layouts in the comments of
the programs are. A class with a virtual function or a virtual base has a pointer to its vtable, unless it shares
that of its first base with one. Virtual bases follow once each, whatever the number of ways that lead to them.
The programs have no empty base and no virtual base without members, which the compiler places otherwise.
-/

namespace INote.CPlusPlus

open RecordLayout

/-! ## Declarations -/

mutual

/-- A class declares virtual functions, and members that are ints. -/
inductive Class where
  | declare (name : String) (functions : List String) (bases : Bases) (members : List String)

inductive Bases where
  | none
  | base (isVirtual : Bool) (cls : Class) (rest : Bases)

end

def Bases.toList : Bases → List (Bool × Class)
  | .none => []
  | .base isVirtual cls rest => (isVirtual, cls) :: rest.toList

namespace Class

def name : Class → String
  | .declare name _ _ _ => name

def bases : Class → Bases
  | .declare _ _ bases _ => bases

end Class

mutual

/-- Objects of the class have a pointer to a vtable. -/
def Class.dynamic : Class → Bool
  | .declare _ functions bases _ => !functions.isEmpty || bases.dynamic

def Bases.dynamic : Bases → Bool
  | .none => false
  | .base isVirtual cls rest => isVirtual || cls.dynamic || rest.dynamic

end

def Bases.names (bases : Bases) : List String := bases.toList.map fun base => base.2.name

/-! ## Layouts -/

inductive Field where
  | vptr
  | member (name : String)
deriving DecidableEq

/-- A field of the base that a path of classes leads to. -/
structure Label where
  path : List String
  field : Field
deriving DecidableEq

def Label.under (path : List String) (label : Label) : Label := { label with path := path ++ label.path }

/-- The fields of a class, given the layouts of its direct bases that are not virtual and whether they are dynamic:
the first dynamic base comes first, or a pointer when there is none and there must be one. -/
def fields (dynamic : Bool) (direct : List (Bool × Laid Label)) (members : List String) : List (Laid Label) :=
  let first := match direct.find? Prod.fst with
    | some primary => [primary.2]
    | none => if dynamic then [.leaf ⟨[], .vptr⟩ pointer] else []
  first ++ (direct.eraseP Prod.fst).map Prod.snd ++ members.map fun member => .leaf ⟨[], .member member⟩ int

mutual

/-- The layout without virtual bases. -/
def Class.nonVirtual : Class → Laid Label
  | .declare name functions bases members =>
    (Laid.record (fields (!functions.isEmpty || bases.dynamic) bases.nonVirtual members)).relabel (.under [name])

def Bases.nonVirtual : Bases → List (Bool × Laid Label)
  | .none => []
  | .base true _ rest => rest.nonVirtual
  | .base false cls rest => (cls.dynamic, cls.nonVirtual) :: rest.nonVirtual

end

mutual

/-- The virtual bases as a walk over all bases meets them. -/
def Class.met : Class → List Class
  | .declare _ _ bases _ => bases.met

def Bases.met : Bases → List Class
  | .none => []
  | .base isVirtual cls rest => (if isVirtual then [cls] else []) ++ cls.met ++ rest.met

end

/-- Each class where it is met first. -/
def firstVisits : List String → List Class → List Class
  | _, [] => []
  | visited, cls :: rest =>
    if cls.name ∈ visited then firstVisits visited rest else cls :: firstVisits (cls.name :: visited) rest

def Class.virtualBases (cls : Class) : List Class := firstVisits [] cls.met

/-- The layout of an object of its own. -/
def Class.complete (cls : Class) : Laid Label :=
  .record (cls.nonVirtual :: cls.virtualBases.map Class.nonVirtual)

def Class.sizeof (cls : Class) : ℕ := cls.complete.extent.stride

mutual

/-- Objects of the class have members, and not only those of virtual bases. -/
def Class.hasMembers : Class → Bool
  | .declare _ _ bases members => !members.isEmpty || bases.hasMembers

def Bases.hasMembers : Bases → Bool
  | .none => false
  | .base isVirtual cls rest => !isVirtual && cls.hasMembers || rest.hasMembers

end

mutual

/-- What the language demands: the direct bases are different, so are the members, and no class is a
virtual base of its own. -/
def Class.Valid : Class → Prop
  | .declare name _ bases members =>
    bases.names.Nodup ∧ members.Nodup ∧ name ∉ bases.met.map Class.name ∧ bases.Valid

/-- What the programs keep to: no base is empty, and no virtual base has only a pointer. -/
def Bases.Valid : Bases → Prop
  | .none => True
  | .base isVirtual cls rest => (cls.hasMembers ∨ isVirtual = false ∧ cls.dynamic) ∧ cls.Valid ∧ rest.Valid

end

/-! ## The classes of the programs -/

namespace ClassMemoryLayout01

def nonVirtualClass : Class := .declare "NonVirtualClass" [] .none []

def virtualClass : Class := .declare "VirtualClass" ["foo"] .none []

end ClassMemoryLayout01

namespace SingleInheritance

def parent : Class := .declare "Parent" ["Foo", "FooNotOverridden"] .none []

def derived : Class := .declare "Derived" ["Foo"] (.base false parent .none) []

end SingleInheritance

namespace MultipleInheritance01

def classA : Class := .declare "A" ["foo"] .none ["var_a"]

def classB : Class := .declare "B" ["bar"] .none ["var_b"]

def classC : Class := .declare "C" ["barz"] (.base false classA (.base false classB .none)) ["var_c"]

end MultipleInheritance01

namespace MultipleInheritance02

def classA : Class := .declare "A" [] .none ["var_a"]

def classB : Class := .declare "B" ["bar"] .none ["var_b"]

def classC : Class := .declare "C" ["barz"] (.base false classA (.base false classB .none)) ["var_c"]

end MultipleInheritance02

namespace MultipleInheritance03

def classA : Class := .declare "A" [] .none ["var_a"]

def classB : Class := .declare "B" [] .none ["var_b"]

def classC : Class := .declare "C" ["barz"] (.base false classA (.base false classB .none)) ["var_c"]

end MultipleInheritance03

namespace MultipleInheritance04

def classA : Class := .declare "A" ["foo"] .none ["var_a"]

def classB : Class := .declare "B" ["bar"] .none ["var_b"]

def classC : Class := .declare "C" ["bar"] (.base false classA (.base false classB .none)) ["var_c"]

end MultipleInheritance04

namespace Diamond

def classA : Class := .declare "A" ["foo"] .none ["var_a"]

def classB : Class := .declare "B" ["bar"] (.base true classA .none) ["var_b"]

def classC : Class := .declare "C" ["barz"] (.base true classA .none) ["var_c"]

def classD : Class := .declare "D" ["foobar"] (.base false classB (.base false classC .none)) ["var_d"]

end Diamond

/-! ## Subobjects -/

theorem Bases.mem_nonVirtual {cls : Class} : ∀ {bases : Bases}, (false, cls) ∈ bases.toList →
    (cls.dynamic, cls.nonVirtual) ∈ bases.nonVirtual
  | .none, member => nomatch member
  | .base true other rest, member => by
    rcases List.mem_cons.mp member with same | later
    · cases same
    · change _ ∈ rest.nonVirtual
      exact mem_nonVirtual later
  | .base false other rest, member => by
    rcases List.mem_cons.mp member with same | later
    · cases same
      exact List.mem_cons_self
    · exact List.mem_cons_of_mem _ (mem_nonVirtual later)

theorem perm_of_find? {direct : List (Bool × Laid Label)} {primary : Bool × Laid Label}
    (found : direct.find? Prod.fst = some primary) : (primary :: direct.eraseP Prod.fst).Perm direct := by
  induction direct with
  | nil => cases found
  | cons head rest ih =>
    rw [List.find?_cons] at found
    rw [List.eraseP_cons]
    cases dynamic : head.1 with
    | true =>
      rw [dynamic] at found
      cases found
      exact .refl _
    | false =>
      rw [dynamic] at found
      exact (List.Perm.swap ..).trans ((ih found).cons head)

/-- The pointer that a class has of its own. -/
def ownPointer (dynamic : Bool) (direct : List (Bool × Laid Label)) : List (Laid Label) :=
  if dynamic && (direct.find? Prod.fst).isNone then [.leaf ⟨[], .vptr⟩ pointer] else []

def memberFields (members : List String) : List (Laid Label) :=
  members.map fun member => .leaf ⟨[], .member member⟩ int

/-- The fields are the pointer, the bases and the members, in some order. -/
theorem fields_perm (dynamic : Bool) (direct : List (Bool × Laid Label)) (members : List String) :
    (fields dynamic direct members).Perm
      (ownPointer dynamic direct ++ direct.map Prod.snd ++ memberFields members) := by
  rw [fields, ownPointer]
  refine List.Perm.append_right _ ?_
  cases found : direct.find? Prod.fst with
  | none =>
    have all : direct.eraseP Prod.fst = direct :=
      List.eraseP_of_forall_not (List.find?_eq_none.mp found)
    rw [all, Option.isNone_none, Bool.and_true]
  | some primary =>
    rw [Option.isNone_some, Bool.and_false]
    exact (perm_of_find? found).map Prod.snd

theorem mem_fields (dynamic : Bool) {direct : List (Bool × Laid Label)} (members : List String)
    {base : Bool × Laid Label} (member : base ∈ direct) : base.2 ∈ fields dynamic direct members :=
  (fields_perm dynamic direct members).mem_iff.mpr
    (List.mem_append_left _ (List.mem_append_right _ (List.mem_map_of_mem member)))

/-- A base is reached over bases that are not virtual, the path naming the classes before it. -/
inductive Reaches : Class → List String → Class → Prop
  | self (cls : Class) : Reaches cls [] cls
  | base {cls base sub : Class} {path : List String} (direct : (false, base) ∈ cls.bases.toList)
      (later : Reaches base path sub) : Reaches cls (cls.name :: path) sub

theorem Class.nonVirtual_base {cls base : Class} (direct : (false, base) ∈ cls.bases.toList) :
    ∃ distance, ∀ part ∈ base.nonVirtual.parts,
      (part.relabel (.under [cls.name])).move distance ∈ cls.nonVirtual.parts := by
  obtain ⟨name, functions, bases, members⟩ := cls
  have field := mem_fields (!functions.isEmpty || bases.dynamic) members (Bases.mem_nonVirtual direct)
  obtain ⟨distance, moved⟩ := exists_move_mem_nested 0 field
  exact ⟨distance, fun part member => List.mem_map_of_mem (moved part member)⟩

/-- A base is laid out as it is alone, at some distance. -/
theorem Reaches.exists_move {cls sub : Class} {path : List String} (reaches : Reaches cls path sub) :
    ∃ distance, ∀ part ∈ sub.nonVirtual.parts,
      (part.relabel (.under path)).move distance ∈ cls.nonVirtual.parts := by
  induction reaches with
  | self cls =>
    refine ⟨0, fun part member => ?_⟩
    have same : (part.relabel (Label.under [])).move 0 = part := congrArg (LaidPart.mk _ · _) (Nat.zero_add _)
    rw [same]
    exact member
  | @base cls base sub path direct later ih =>
    obtain ⟨inner, deeper⟩ := ih
    obtain ⟨outer, moved⟩ := Class.nonVirtual_base direct
    refine ⟨outer + inner, fun part member => ?_⟩
    have there := moved _ (deeper part member)
    have same : (((part.relabel (Label.under path)).move inner).relabel (Label.under [cls.name])).move outer =
        (part.relabel (Label.under (cls.name :: path))).move (outer + inner) :=
      congrArg (LaidPart.mk _ · _) (Nat.add_assoc ..).symm
    exact same ▸ there

/-! ## The pointer to the vtable -/

def PointsToVtable (laid : Laid Label) : Prop := ∃ part ∈ laid.parts, part.label.field = .vptr ∧ part.offset = 0

/-- The first field of a record begins where the record does. -/
theorem PointsToVtable.record {laid : Laid Label} (points : PointsToVtable laid) (rest : List (Laid Label)) :
    PointsToVtable (.record (laid :: rest)) := by
  obtain ⟨part, member, vptr, start⟩ := points
  refine ⟨part.move _, List.mem_append_left _ (List.mem_map_of_mem member), vptr, ?_⟩
  change roundUp 0 laid.extent.alignment + part.offset = 0
  rw [roundUp_of_dvd laid.extent.alignment_pos (Nat.dvd_zero _), start]

mutual

theorem Class.pointsToVtable : ∀ {cls : Class}, cls.dynamic → PointsToVtable cls.nonVirtual
  | .declare name functions bases members, dynamic => by
    have points : PointsToVtable
        (.record (fields (!functions.isEmpty || bases.dynamic) bases.nonVirtual members)) := by
      rw [fields]
      split
      · next primary found =>
        exact (Bases.pointsToVtable (List.mem_of_find?_eq_some found) (List.find?_some found)).record _
      · next absent =>
        change (!functions.isEmpty || bases.dynamic) = true at dynamic
        rw [if_pos dynamic]
        exact PointsToVtable.record ⟨_, List.mem_cons_self, rfl, rfl⟩ _
    obtain ⟨part, member, vptr, start⟩ := points
    exact ⟨_, List.mem_map_of_mem member, vptr, start⟩

theorem Bases.pointsToVtable : ∀ {bases : Bases} {base : Bool × Laid Label}, base ∈ bases.nonVirtual →
    base.1 → PointsToVtable base.2
  | .none, _, member, _ => nomatch member
  | .base true _ rest, _, member, dynamic => by
    change _ ∈ rest.nonVirtual at member
    exact Bases.pointsToVtable member dynamic
  | .base false cls rest, _, member, dynamic => by
    rcases List.mem_cons.mp member with rfl | later
    · exact Class.pointsToVtable dynamic
    · exact Bases.pointsToVtable later dynamic

end

/-! ## Virtual bases -/

theorem firstVisits_names (visited : List String) (classes : List Class) :
    ((firstVisits visited classes).map Class.name).Nodup ∧
      ∀ name, name ∈ (firstVisits visited classes).map Class.name ↔
        name ∈ classes.map Class.name ∧ name ∉ visited := by
  induction classes generalizing visited with
  | nil => exact ⟨List.nodup_nil, fun name => by simp [firstVisits]⟩
  | cons cls rest ih =>
    rw [firstVisits]
    split
    · next earlier =>
      obtain ⟨distinct, names⟩ := ih visited
      refine ⟨distinct, fun name => ?_⟩
      rw [names, List.map_cons, List.mem_cons]
      refine and_congr_left fun new => ⟨.inr, fun met => met.resolve_left fun same => ?_⟩
      exact new (same ▸ earlier)
    · next new =>
      obtain ⟨distinct, names⟩ := ih (cls.name :: visited)
      rw [List.map_cons, List.nodup_cons]
      refine ⟨⟨fun again => ((names _).mp again).2 List.mem_cons_self, distinct⟩, fun name => ?_⟩
      rw [List.mem_cons, names, List.map_cons, List.mem_cons, List.mem_cons, not_or]
      by_cases same : name = cls.name
      · simp [same, new]
      · simp [same]

def IsBase (cls base : Class) : Prop := ∃ isVirtual, (isVirtual, base) ∈ cls.bases.toList

/-- What the walk meets is a virtual base of the class or of one below it. -/
def IsVirtualBase (cls base : Class) : Prop :=
  ∃ owner, Relation.ReflTransGen IsBase cls owner ∧ (true, base) ∈ owner.bases.toList

theorem Bases.mem_met {base cls : Class} {isVirtual : Bool} {rest : Bases} :
    base ∈ (Bases.base isVirtual cls rest).met ↔ (isVirtual ∧ base = cls) ∨ base ∈ cls.met ∨ base ∈ rest.met := by
  rw [met, List.mem_append, List.mem_append, or_assoc]
  cases isVirtual <;> simp

theorem Bases.mem_met_of_direct {base next : Class} {isVirtual : Bool}
    (reached : isVirtual ∧ base = next ∨ base ∈ next.met) :
    ∀ {bases : Bases}, (isVirtual, next) ∈ bases.toList → base ∈ bases.met
  | .base _ cls rest, direct => by
    rw [mem_met]
    rcases List.mem_cons.mp direct with same | later
    · cases same
      exact reached.imp_right .inl
    · exact .inr (.inr (mem_met_of_direct reached later))

mutual

theorem Class.isVirtualBase_of_mem_met : ∀ {cls base : Class}, base ∈ cls.met → IsVirtualBase cls base
  | .declare _ _ bases _, base, met => by
    rcases Bases.of_mem_met met with direct | ⟨isVirtual, next, direct, owner, below, owns⟩
    · exact ⟨_, .refl, direct⟩
    · exact ⟨owner, .head ⟨isVirtual, direct⟩ below, owns⟩

theorem Bases.of_mem_met : ∀ {bases : Bases} {base : Class}, base ∈ bases.met →
    (true, base) ∈ bases.toList ∨ ∃ isVirtual next, (isVirtual, next) ∈ bases.toList ∧ IsVirtualBase next base
  | .none, _, met => nomatch met
  | .base isVirtual cls rest, base, met => by
    rcases Bases.mem_met.mp met with ⟨rfl, rfl⟩ | below | later
    · exact .inl List.mem_cons_self
    · exact .inr ⟨isVirtual, cls, List.mem_cons_self, Class.isVirtualBase_of_mem_met below⟩
    · rcases Bases.of_mem_met later with direct | ⟨other, next, direct, reached⟩
      · exact .inl (List.mem_cons_of_mem _ direct)
      · exact .inr ⟨other, next, List.mem_cons_of_mem _ direct, reached⟩

end

theorem mem_met_iff {cls base : Class} : base ∈ cls.met ↔ IsVirtualBase cls base := by
  refine ⟨Class.isVirtualBase_of_mem_met, ?_⟩
  rintro ⟨owner, below, owns⟩
  induction below using Relation.ReflTransGen.head_induction_on with
  | refl =>
    obtain ⟨_, _, bases, _⟩ := owner
    exact Bases.mem_met_of_direct (.inl ⟨rfl, rfl⟩) owns
  | @head cls next step below ih =>
    obtain ⟨isVirtual, direct⟩ := step
    obtain ⟨_, _, bases, _⟩ := cls
    exact Bases.mem_met_of_direct (.inr ih) direct

/-! ## Different labels -/

theorem Label.under_injective (path : List String) : Function.Injective (Label.under path) := by
  intro label other same
  obtain ⟨paths, fields⟩ := Label.mk.inj same
  have paths := List.append_cancel_left paths
  cases label
  cases other
  exact congrArg₂ Label.mk paths fields

/-- The labels of a class begin with its name. -/
theorem Class.head_of_mem_labels {cls : Class} {label : Label} (member : label ∈ cls.nonVirtual.labels) :
    label.path.head? = some cls.name := by
  obtain ⟨name, functions, bases, members⟩ := cls
  rw [nonVirtual, Laid.labels_relabel] at member
  obtain ⟨inner, _, rfl⟩ := List.mem_map.mp member
  rfl

/-- The labels of the direct bases that are not virtual. -/
def Bases.labels (bases : Bases) : List Label := (bases.nonVirtual.map Prod.snd).flatMap Laid.labels

theorem Bases.labels_base (cls : Class) (rest : Bases) :
    (Bases.base false cls rest).labels = cls.nonVirtual.labels ++ rest.labels := rfl

theorem Bases.head_of_mem_labels {label : Label} : ∀ {bases : Bases}, label ∈ bases.labels →
    ∃ name ∈ bases.names, label.path.head? = some name
  | .none, member => nomatch member
  | .base true cls rest, member => by
    change label ∈ rest.labels at member
    obtain ⟨name, found, head⟩ := head_of_mem_labels member
    exact ⟨name, List.mem_cons_of_mem _ found, head⟩
  | .base false cls rest, member => by
    rw [labels_base] at member
    rcases List.mem_append.mp member with here | later
    · exact ⟨cls.name, List.mem_cons_self, Class.head_of_mem_labels here⟩
    · obtain ⟨name, found, head⟩ := head_of_mem_labels later
      exact ⟨name, List.mem_cons_of_mem _ found, head⟩

theorem labels_memberFields (members : List String) :
    (memberFields members).flatMap Laid.labels = members.map fun member => ⟨[], .member member⟩ := by
  induction members with
  | nil => rfl
  | cons member rest ih => exact congrArg (_ :: ·) ih

/-- The fields of a class have different labels when its bases do. -/
theorem nodup_labels_fields {dynamic : Bool} {bases : Bases} {members : List String}
    (distinct : bases.labels.Nodup) (different : members.Nodup) :
    ((fields dynamic bases.nonVirtual members).flatMap Laid.labels).Nodup := by
  rw [((fields_perm ..).flatMap_right _).nodup_iff, List.flatMap_append, List.flatMap_append, labels_memberFields]
  have own : ∀ label ∈ (ownPointer dynamic bases.nonVirtual).flatMap Laid.labels, label = ⟨[], .vptr⟩ := by
    intro label member
    rw [ownPointer] at member
    split at member
    · exact List.mem_singleton.mp member
    · cases member
  have ownDistinct : ((ownPointer dynamic bases.nonVirtual).flatMap Laid.labels).Nodup := by
    rw [ownPointer]
    split
    · exact List.nodup_singleton _
    · exact List.nodup_nil
  have named : (members.map fun member => (⟨[], .member member⟩ : Label)).Nodup :=
    different.map fun first second same => Field.member.inj (Label.mk.inj same).2
  rw [List.nodup_append', List.nodup_append']
  refine ⟨⟨ownDistinct, distinct, fun label here there => ?_⟩, named, fun label here there => ?_⟩
  · obtain ⟨name, _, head⟩ := Bases.head_of_mem_labels there
    rw [own label here] at head
    cases head
  · obtain ⟨member, _, rfl⟩ := List.mem_map.mp there
    rcases List.mem_append.mp here with pointer | base
    · cases own _ pointer
    · obtain ⟨name, _, head⟩ := Bases.head_of_mem_labels base
      cases head

mutual

theorem Class.nodup_labels : ∀ {cls : Class}, cls.Valid → cls.nonVirtual.labels.Nodup
  | .declare name functions bases members, valid => by
    obtain ⟨names, different, _, valid⟩ := valid
    rw [Class.nonVirtual, Laid.labels_relabel, Laid.labels_record]
    exact (nodup_labels_fields (Bases.nodup_labels valid names) different).map (Label.under_injective _)

theorem Bases.nodup_labels : ∀ {bases : Bases}, bases.Valid → bases.names.Nodup → bases.labels.Nodup
  | .none, _, _ => List.nodup_nil
  | .base true cls rest, valid, names => by
    change rest.labels.Nodup
    exact Bases.nodup_labels valid.2.2 (List.nodup_cons.mp names).2
  | .base false cls rest, valid, names => by
    obtain ⟨new, names⟩ := List.nodup_cons.mp names
    change cls.name ∉ rest.names at new
    rw [Bases.labels_base, List.nodup_append']
    refine ⟨Class.nodup_labels valid.2.1, Bases.nodup_labels valid.2.2 names, fun label here later => ?_⟩
    obtain ⟨name, found, head⟩ := Bases.head_of_mem_labels later
    rw [Class.head_of_mem_labels here] at head
    exact new (Option.some.inj head ▸ found)

end

mutual

theorem Class.valid_of_mem_met {base : Class} : ∀ {cls : Class}, cls.Valid → base ∈ cls.met → base.Valid
  | .declare _ _ _ _, valid, met => Bases.valid_of_mem_met valid.2.2.2 met

theorem Bases.valid_of_mem_met {base : Class} : ∀ {bases : Bases}, bases.Valid → base ∈ bases.met → base.Valid
  | .none, _, met => nomatch met
  | .base _ cls rest, valid, met => by
    rcases Bases.mem_met.mp met with ⟨_, rfl⟩ | below | later
    · exact valid.2.1
    · exact Class.valid_of_mem_met valid.2.1 below
    · exact Bases.valid_of_mem_met valid.2.2 later

end

theorem mem_of_mem_firstVisits {visited : List String} {classes : List Class} {cls : Class}
    (member : cls ∈ firstVisits visited classes) : cls ∈ classes := by
  induction classes generalizing visited with
  | nil => cases member
  | cons first rest ih =>
    rw [firstVisits] at member
    split at member
    · exact List.mem_cons_of_mem _ (ih member)
    · exact (List.mem_cons.mp member).elim (fun same => same ▸ List.mem_cons_self)
        fun later => List.mem_cons_of_mem _ (ih later)

/-- No two fields of an object have the same label. -/
theorem Class.nodup_complete_labels {cls : Class} (valid : cls.Valid) : cls.complete.labels.Nodup := by
  obtain ⟨distinct, names⟩ := firstVisits_names [] cls.met
  have apart (first second : Class) (different : first.name ≠ second.name) :
      List.Disjoint first.nonVirtual.labels second.nonVirtual.labels := by
    intro label here there
    have head := head_of_mem_labels here
    rw [head_of_mem_labels there] at head
    exact different (Option.some.inj head).symm
  rw [complete, Laid.labels_record, List.flatMap_cons, List.flatMap_map, List.nodup_append', List.nodup_flatMap]
  refine ⟨nodup_labels valid, ⟨fun base member => ?_, ?_⟩, ?_⟩
  · exact nodup_labels (valid_of_mem_met valid (mem_of_mem_firstVisits member))
  · exact (List.pairwise_map.mp distinct).imp fun different => apart _ _ different
  · intro label here there
    obtain ⟨base, member, inner⟩ := List.mem_flatMap.mp there
    refine apart cls base (fun same => ?_) here inner
    obtain ⟨name, functions, bases, members⟩ := cls
    exact valid.2.2.1 (List.mem_map.mpr ⟨base, mem_of_mem_firstVisits member, same.symm⟩)

/-! ## Complete objects -/

theorem Diamond.valid_classD : classD.Valid := by
  have validA : classA.Valid := ⟨by decide, by decide, by decide, trivial⟩
  have validB : classB.Valid := ⟨by decide, by decide, by decide, by decide, validA, trivial⟩
  have validC : classC.Valid := ⟨by decide, by decide, by decide, by decide, validA, trivial⟩
  exact ⟨by decide, by decide, by decide, by decide, validB, by decide, validC, trivial⟩

-- The sizes that are printed, and the layouts that are dumped, in the comments of the programs.
example : [ClassMemoryLayout01.nonVirtualClass, ClassMemoryLayout01.virtualClass, SingleInheritance.parent,
    SingleInheritance.derived].map Class.sizeof = [1, 8, 8, 8] := by decide

example : [MultipleInheritance01.classC, MultipleInheritance02.classC, MultipleInheritance03.classC,
    MultipleInheritance04.classC, Diamond.classB, Diamond.classC, Diamond.classD].map (fun cls =>
      (cls.sizeof, cls.complete.extent.size, cls.complete.parts.map LaidPart.offset)) =
    [(32, 32, [0, 8, 16, 24, 28]), (24, 20, [0, 8, 12, 16]), (24, 20, [0, 8, 12, 16]), (32, 32, [0, 8, 16, 24, 28]),
      (32, 28, [0, 8, 16, 24]), (32, 28, [0, 8, 16, 24]), (48, 44, [0, 8, 16, 24, 28, 32, 40])] := by decide

/-- A base that is reached from the class or from one of its virtual bases is laid out as it is alone. -/
theorem exists_move_complete (cls start sub : Class) (path : List String)
    (root : start = cls ∨ start ∈ cls.virtualBases) (reaches : Reaches start path sub) :
    ∃ distance, ∀ part ∈ sub.nonVirtual.parts,
      (part.relabel (.under path)).move distance ∈ cls.complete.parts := by
  have field : start.nonVirtual ∈ cls.nonVirtual :: cls.virtualBases.map Class.nonVirtual := by
    rcases root with rfl | virtual
    · exact List.mem_cons_self
    · exact List.mem_cons_of_mem _ (List.mem_map_of_mem virtual)
  obtain ⟨inner, deeper⟩ := reaches.exists_move
  obtain ⟨outer, moved⟩ := exists_move_mem_nested 0 field
  refine ⟨outer + inner, fun part member => ?_⟩
  have same : ((part.relabel (Label.under path)).move inner).move outer =
      (part.relabel (Label.under path)).move (outer + inner) :=
    congrArg (LaidPart.mk _ · _) (Nat.add_assoc ..).symm
  exact same ▸ moved _ (deeper part member)

end INote.CPlusPlus
