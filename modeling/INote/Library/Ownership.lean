import INote.Library.Refinement

/-! # Reference ownership

A program sends messages to a runtime, retains what a message returned and releases what it retained; it may
only mention objects that it owns. Without its references the program only asks and assigns. The rules show,
along its text, that it never fails, asks and assigns just that, and owns at its end what it owned before.
-/

namespace Ownership

variable {M W S α β : Type}

/-- The objects that a message mentions, and its answer; this may depend on all that was sent before. -/
structure Runtime (M W : Type) where
  mentions : M → List W
  answer : List M → M → W

/-- What is seen from outside: the messages sent so far, and the static variables. -/
structure View (M S : Type) where
  sent : List M
  statics : S

/-- A run also knows the references it owns, and what the last message returned. -/
structure Session (M W S : Type) extends View M S where
  owned : List W
  returned : Option W

abbrev Program (M W S α : Type) := StateT (Session M W S) Option α

/-- A program without references. -/
abbrev Seen (M S α : Type) := StateM (View M S) α

def Seen.run (seen : Seen M S α) : StateT (View M S) Option α := fun view => some (seen view)

theorem Seen.run_bind (seen : Seen M S α) (next : α → Seen M S β) :
    Seen.run (seen >>= next) = seen.run >>= fun value => (next value).run := rfl

/-- The program behaves as it is seen from outside. -/
def Implements (before : View M S → Session M W S → Prop) (seen : Seen M S α) (program : Program M W S β)
    (after : α → β → View M S → Session M W S → Prop) : Prop :=
  Refines before seen.run program after

def ask (runtime : Runtime M W) (message : M) : Seen M S W := fun view =>
  (runtime.answer view.sent message, { view with sent := view.sent ++ [message] })

/-- An assignment as it is seen from outside. -/
def set (change : S → S) : Seen M S Unit := fun view => ((), { view with statics := change view.statics })

/-- The run asks and assigns nothing. -/
def Asks (seen : Seen M S α) : Prop :=
  ∀ view, view.sent <+: (seen view).2.sent ∧ (seen view).2.statics = view.statics

namespace Asks

theorem pure (value : α) : Asks (Pure.pure value : Seen M S α) := fun _ => ⟨List.prefix_rfl, rfl⟩

theorem ask (runtime : Runtime M W) (message : M) : Asks (S := S) (ask runtime message) :=
  fun _ => ⟨List.prefix_append .., rfl⟩

theorem bind {seen : Seen M S α} {next : α → Seen M S β} (first : Asks seen)
    (later : ∀ value, Asks (next value)) : Asks (seen >>= next) :=
  fun view => ⟨(first view).1.trans (later _ _).1, (later _ _).2.trans (first view).2⟩

/-- A search asks what its tests ask. -/
theorem anyM {tests : List (Seen M S Bool)} (each : ∀ test ∈ tests, Asks test) : Asks (tests.anyM id) := by
  induction tests with
  | nil => exact .pure false
  | cons test rest ih =>
    rw [List.anyM_cons]
    refine .bind (each test List.mem_cons_self) fun hit => ?_
    cases hit with
    | true => exact .pure true
    | false => exact ih fun later member => each later (List.mem_cons_of_mem _ member)

end Asks

def assign (change : S → S) : Program M W S Unit := fun session =>
  some ((), { session with statics := change session.statics })

/-- The session is seen as the view, and owns the references. -/
def Owning (owned : List W) (view : View M S) (session : Session M W S) : Prop :=
  session.toView = view ∧ session.owned = owned

/-- Moreover the word was returned by the last message. -/
def Returned (word : W) (owned : List W) (view : View M S) (session : Session M W S) : Prop :=
  Owning owned view session ∧ session.returned = some word

/-- The value is that seen from outside, and the references are those of the start. -/
def Balanced (owned : List W) (seen : Seen M S α) (program : Program M W S α) : Prop :=
  Implements (Owning owned) seen program fun value other view session => value = other ∧ Owning owned view session

namespace Implements

variable {owned : List W} {word : W} {after : α → β → View M S → Session M W S → Prop}

/-- What was returned need not be retained. -/
theorem drop {seen : Seen M S α} {program : Program M W S β}
    (refines : Implements (Owning owned) seen program after) :
    Implements (Returned word owned) seen program after :=
  Refines.of_imp (fun _ _ returned => returned.1) refines

theorem pure (value : α) : Balanced owned (Pure.pure value : Seen M S α) (Pure.pure value) :=
  fun _ _ owning => .some ⟨rfl, owning⟩

theorem assign {change : S → S} {seen : Unit → Seen M S α} {program : Unit → Program M W S β}
    (next : Implements (Owning owned) (seen ()) (program ()) after) :
    Implements (Owning owned) (set change >>= seen) (Ownership.assign change >>= program) after := by
  rintro _ session ⟨rfl, rfl⟩
  exact next _ { session with statics := change session.statics } ⟨rfl, rfl⟩

theorem bind {γ : Type} {seen : Seen M S γ} {program : Program M W S γ} {seenNext : γ → Seen M S α}
    {programNext : γ → Program M W S β} (balanced : Balanced owned seen program)
    (next : ∀ value, Implements (Owning owned) (seenNext value) (programNext value) after) :
    Implements (Owning owned) (seen >>= seenNext) (program >>= programNext) after := by
  rw [Balanced, Implements] at balanced
  rw [Implements, Seen.run_bind]
  refine balanced.bind fun value other => ?_
  rintro view session ⟨rfl, owning⟩
  exact next value view session owning

theorem ite {condition : Prop} [Decidable condition] {before : View M S → Session M W S → Prop}
    {seen otherwise : Seen M S α} {program alternative : Program M W S β}
    (yes : Implements before seen program after) (no : Implements before otherwise alternative after) :
    Implements before (if condition then seen else otherwise)
      (if condition then program else alternative) after := by
  split
  · exact yes
  · exact no

end Implements

/-- A balanced program can be run in any session. -/
theorem Balanced.exists_run {seen : Seen M S α} {program : Program M W S α} {session : Session M W S}
    (balanced : Balanced session.owned seen program) :
    ∃ final, program.run session = some ((seen session.toView).1, final) ∧
      final.toView = (seen session.toView).2 ∧ final.owned = session.owned := by
  have ends := balanced session.toView session ⟨rfl, rfl⟩
  generalize program.run session = run at ends
  cases ends with
  | @some _ result related =>
    obtain ⟨same, view, owned⟩ := related
    exact ⟨result.2, congrArg some (Prod.ext same.symm rfl), view, owned⟩

variable [Zero W] [DecidableEq W]

/-- One more reference; zero is no object and is not counted. -/
def hold (word : W) (owned : List W) : List W := if word = 0 then owned else word :: owned

def Owned (owned : List W) (word : W) : Prop := word = 0 ∨ word ∈ owned

instance (owned : List W) : DecidablePred (Owned owned) := fun word =>
  inferInstanceAs (Decidable (word = 0 ∨ word ∈ owned))

def send (runtime : Runtime M W) (message : M) : Program M W S W := fun session =>
  if ∀ word ∈ runtime.mentions message, Owned session.owned word then
    let word := runtime.answer session.sent message
    some (word, { session with sent := session.sent ++ [message], returned := some word })
  else none

/-- Only what the last message returned may be retained. -/
def retain (word : W) : Program M W S W := fun session =>
  if session.returned = some word then
    some (word, { session with owned := hold word session.owned, returned := none })
  else none

def release (word : W) : Program M W S Unit := fun session =>
  if word = 0 then some ((), { session with returned := none })
  else if word ∈ session.owned then
    some ((), { session with owned := session.owned.erase word, returned := none })
  else none

variable {word other : W} {owned : List W} {after : α → β → View M S → Session M W S → Prop}

theorem owned_hold : Owned (hold word owned) word := by
  by_cases null : word = 0
  · exact .inl null
  · exact .inr (by rw [hold, if_neg null]; exact List.mem_cons_self)

theorem Owned.hold (kept : Owned owned word) : Owned (hold other owned) word := by
  refine kept.imp_right fun member => ?_
  rw [Ownership.hold]
  split
  · exact member
  · exact List.mem_cons_of_mem _ member

omit [DecidableEq W] in
theorem owned_pair (first : Owned owned word) (second : Owned owned other) :
    ∀ mentioned ∈ [word, other], Owned owned mentioned :=
  List.forall_mem_cons.mpr ⟨first, List.forall_mem_singleton.mpr second⟩

namespace Implements

/-- A message mentions only what is owned. -/
theorem send {runtime : Runtime M W} {message : M} {seen : W → Seen M S α} {program : W → Program M W S β}
    (owns : ∀ word ∈ runtime.mentions message, Owned owned word)
    (next : ∀ word, Implements (Returned word owned) (seen word) (program word) after) :
    Implements (Owning owned) (ask runtime message >>= seen)
      (Ownership.send runtime message >>= program) after := by
  rintro _ session ⟨rfl, rfl⟩
  rw [StateT.run_bind, show (Ownership.send runtime message).run session = some _ from if_pos owns]
  exact next (runtime.answer session.sent message) _ _ ⟨⟨rfl, rfl⟩, rfl⟩

theorem retain {seen : Seen M S α} {program : W → Program M W S β}
    (next : Implements (Owning (Ownership.hold word owned)) seen (program word) after) :
    Implements (Returned word owned) seen (Ownership.retain word >>= program) after := by
  rintro _ session ⟨⟨rfl, rfl⟩, returned⟩
  rw [StateT.run_bind, show (Ownership.retain word).run session = some _ from if_pos returned]
  exact next _ _ ⟨rfl, rfl⟩

theorem release {seen : Seen M S α} {program : Unit → Program M W S β}
    (next : Implements (Owning owned) seen (program ()) after) :
    Implements (Owning (Ownership.hold word owned)) seen (Ownership.release word >>= program) after := by
  refine Refines.step (fun _ session owning => ?_) fun _ => next
  obtain ⟨rfl, owns⟩ := owning
  by_cases null : word = 0
  · refine ⟨(), _, if_pos null, rfl, ?_⟩
    exact owns.trans (if_pos null)
  · rw [Ownership.hold, if_neg null] at owns
    have member : word ∈ session.owned := owns ▸ List.mem_cons_self
    refine ⟨(), _, (if_neg null).trans (if_pos member), rfl, ?_⟩
    exact (congrArg (List.erase · word) owns).trans (List.erase_cons_head ..)

end Implements

end Ownership
