import INote.HelloWorld.Basename

/-! # The static buffers

`get_main_bundle_path` keeps the directory of the executable in one static buffer, and `get_basename`
copies into another one. A run is any sequence of their calls, on strings of the caller and on the
buffers that earlier calls have returned. The directory is asked for until it is known and kept from then
on. The result of a copy is overwritten by the next one, and no call on it returns.
-/

namespace INote.HelloWorld

/-- `PATH_MAX`. -/
def pathMax : ℕ := 1024

/-- The path of an executable that fits the local buffer `file`. -/
structure ExecutablePath where
  string : CString
  fits : string.bytes.length + 1 ≤ pathMax

def dot : UInt8 := '.'.toUInt8

/-- `dirname`: trailing separators do not count, and neither do those before the last component. -/
def dirname (path : List UInt8) : List UInt8 :=
  if path = [] then [dot]
  else
    let stripped := path.rdropWhile (· == slash)
    if stripped = [] then [slash]
    else
      let parent := stripped.rdropWhile (· != slash)
      if parent = [] then [dot]
      else
        let directory := parent.rdropWhile (· == slash)
        if directory = [] then [slash] else directory

/-- A pointer to a string of the caller, or to one of the buffers. -/
inductive Pointer where
  | null
  | string (text : CString)
  | appDir
  | name

/-- The static variables. -/
structure Statics where
  appDir : Buffer pathMax
  name : Buffer pathMax

def zeros : Buffer pathMax := ⟨List.replicate pathMax 0, List.length_replicate⟩

/-- The static variables at the start. -/
def Statics.initial : Statics := ⟨zeros, zeros⟩

theorem Buffer.length_text_le {size : ℕ} (buffer : Buffer size) : buffer.text.length ≤ size :=
  (List.takeWhile_prefix _).length_le.trans buffer.length_eq.le

theorem Buffer.noNul_text {size : ℕ} (buffer : Buffer size) : 0 ∉ buffer.text := by
  intro member
  have kept := List.mem_takeWhile_imp member
  exact absurd rfl (of_decide_eq_true kept)

def Buffer.string (buffer : Buffer pathMax) : CString where
  bytes := buffer.text
  noNul := buffer.noNul_text
  fits := by
    have room : buffer.text.length ≤ 1024 := buffer.length_text_le
    omega

/-- The string at a pointer. -/
def Statics.string (statics : Statics) : Pointer → Option CString
  | .null => none
  | .string text => some text
  | .appDir => some statics.appDir.string
  | .name => some statics.name.string

/-- `get_main_bundle_path`, with the answer of `_NSGetExecutablePath`. It returns `app_dir`. -/
def Statics.getMainBundlePath (answer : Option ExecutablePath) (statics : Statics) : Except CError Statics :=
  if statics.appDir.string.strlen = 0 then
    match answer with
    | some file => do
      let appDir ← strcpy statics.appDir (dirname file.string.bytes)
      .ok { statics with appDir }
    | none => .ok statics
  else .ok statics

inductive Fault where
  | memory (error : CError)
  | overlap
deriving DecidableEq

def Returned.pointer (path : Pointer) : Returned → Pointer
  | .null => .null
  | .path => path
  | .name => .name

/-- Whether the source of the copy is the buffer itself. -/
def overlaps : Pointer → Returned → Bool
  | .name, .name => true
  | _, _ => false

/-- `get_basename` on a pointer. -/
def Statics.getBasename (fuel : ℕ) (path : Pointer) (statics : Statics) :
    Option (Except Fault (Pointer × Statics)) :=
  (HelloWorld.getBasename fuel statics.name (statics.string path)).map fun
    | .error error => .error (.memory error)
    | .ok outcome =>
      if overlaps path outcome.returned then .error .overlap
      else .ok (outcome.returned.pointer path, { statics with name := outcome.name })

/-- What a call asks the system, or what it reads and returns. -/
inductive Event where
  | bundlePath (asked : Option (Option ExecutablePath))
  | basename (path : Pointer) (string : Option CString) (returned : Pointer)

inductive Step (statics : Statics) : Event → Statics → Prop
  | bundlePath {next : Statics} (answer : Option ExecutablePath)
      (returns : statics.getMainBundlePath answer = .ok next) :
      Step statics (.bundlePath (if statics.appDir.string.strlen = 0 then some answer else none)) next
  | basename {next : Statics} {returned : Pointer} (fuel : ℕ) (path : Pointer)
      (returns : statics.getBasename fuel path = some (.ok (returned, next))) :
      Step statics (.basename path (statics.string path) returned) next

/-- The calls so far, from the start of the program. -/
inductive Run : List Event → Statics → Prop
  | start : Run [] Statics.initial
  | call {events : List Event} {event : Event} {statics next : Statics} (earlier : Run events statics)
      (step : Step statics event next) : Run (events ++ [event]) next

/-- The answers of `_NSGetExecutablePath`. -/
def asked (events : List Event) : List (Option ExecutablePath) :=
  events.filterMap fun
    | .bundlePath asked => asked
    | .basename .. => none

/-- The components that were copied. -/
def copies (events : List Event) : List (List UInt8) :=
  events.filterMap fun
    | .basename _ (some string) .name => some string.lastComponent
    | _ => none

/-! ## The directory -/

theorem CString.strlen_eq_zero_iff {string : CString} : string.strlen = 0 ↔ string.bytes = [] := by
  rw [← UInt64.toNat_inj, CString.toNat_strlen, UInt64.toNat_zero, List.length_eq_zero_iff]

theorem dirname_ne_nil (path : List UInt8) : dirname path ≠ [] := by
  simp only [dirname]
  split
  · exact List.cons_ne_nil _ _
  · split
    · exact List.cons_ne_nil _ _
    · split
      · exact List.cons_ne_nil _ _
      · split
        · exact List.cons_ne_nil _ _
        · next directory => exact directory

/-- A directory is `.`, `/` or the beginning of the path. -/
theorem dirname_cases (path : List UInt8) :
    dirname path = [dot] ∨ dirname path = [slash] ∨ dirname path <+: path := by
  simp only [dirname]
  split
  · exact .inl rfl
  · split
    · exact .inr (.inl rfl)
    · split
      · exact .inl rfl
      · split
        · exact .inr (.inl rfl)
        · exact .inr (.inr ((List.rdropWhile_prefix _ _).trans
            ((List.rdropWhile_prefix _ _).trans (List.rdropWhile_prefix _ _))))

theorem ExecutablePath.dirname_fits (file : ExecutablePath) :
    (dirname file.string.bytes).length + 1 ≤ pathMax := by
  obtain current | root | inside := dirname_cases file.string.bytes
  · rw [current]
    decide
  · rw [root]
    decide
  · exact (Nat.succ_le_succ inside.length_le).trans file.fits

theorem CString.noNul_dirname (string : CString) : 0 ∉ dirname string.bytes := by
  obtain current | root | inside := dirname_cases string.bytes
  · rw [current]
    decide
  · rw [root]
    decide
  · exact fun member => string.noNul (inside.mem member)

/-- The copy of a string that fits. -/
theorem exists_strcpy {size : ℕ} (buffer : Buffer size) {source : List UInt8}
    (fits : source.length + 1 ≤ size) :
    ∃ copied, strcpy buffer source = .ok copied := by
  rw [strcpy, dif_pos fits]
  exact ⟨_, rfl⟩

theorem terminated_of_strcpy {size : ℕ} {buffer copied : Buffer size} {source : List UInt8}
    (copy : strcpy buffer source = .ok copied) : 0 ∈ copied.bytes := by
  rw [strcpy] at copy
  split at copy
  · obtain rfl := Except.ok.inj copy
    exact List.mem_append_right _ List.mem_cons_self
  · contradiction

namespace Statics

theorem getMainBundlePath_of_known {statics : Statics} (known : statics.appDir.text ≠ [])
    (answer : Option ExecutablePath) : statics.getMainBundlePath answer = .ok statics := by
  unfold getMainBundlePath
  rw [if_neg (mt CString.strlen_eq_zero_iff.mp known)]

/-- The copy of the directory always fits. -/
theorem getMainBundlePath_of_found {statics : Statics} (unknown : statics.appDir.text = [])
    (file : ExecutablePath) :
    ∃ appDir, statics.getMainBundlePath (some file) = .ok { statics with appDir } ∧
      appDir.text = dirname file.string.bytes ∧ 0 ∈ appDir.bytes := by
  obtain ⟨appDir, copy⟩ := exists_strcpy statics.appDir file.dirname_fits
  refine ⟨appDir, ?_, (strcpy_eq_ok file.string.noNul_dirname copy).2, terminated_of_strcpy copy⟩
  unfold getMainBundlePath
  rw [if_pos (CString.strlen_eq_zero_iff.mpr unknown)]
  simp only [copy]
  rfl

theorem getMainBundlePath_of_failed (statics : Statics) : statics.getMainBundlePath none = .ok statics := by
  unfold getMainBundlePath
  split <;> rfl

end Statics

/-! ## The basename -/

theorem CString.noSlash_lastComponent (path : CString) : slash ∉ path.lastComponent := by
  rw [CString.lastComponent]
  split
  · intro member
    have kept := List.mem_rtakeWhile_imp member
    exact of_decide_eq_true kept rfl
  · exact List.not_mem_nil

/-- What `get_basename` returns and leaves in the buffer. -/
inductive Gives (name : Buffer pathMax) : Option CString → Returned → Buffer pathMax → Prop
  | null : Gives name none .null name
  | empty {string : CString} (nothing : string.bytes = []) : Gives name (some string) .null name
  | whole {string : CString} (found : slash ∈ string.bytes) (nothing : string.lastComponent = []) :
      Gives name (some string) .path name
  | copied {string : CString} {copied : Buffer pathMax} (found : slash ∈ string.bytes)
      (nonempty : string.lastComponent ≠ []) (copy : strcpy name string.lastComponent = .ok copied) :
      Gives name (some string) .name copied

theorem finish_of_scanned (name : Buffer pathMax) {path : CString} {scan : Scan}
    (scanned : Scanned path (.ok scan)) :
    finish name path scan =
      if path.lastComponent ≠ [] then do
        let name ← strcpy name path.lastComponent
        .ok ⟨.name, name, scan.reads⟩
      else .ok ⟨.path, name, scan.reads⟩ := by
  rw [finish, CString.toNat_succ scanned.2.2.1, ← scanned.2.1]
  exact if_congr (lt_last_iff scanned) rfl rfl

theorem getBasename_of_nil (fuel : ℕ) (name : Buffer pathMax) {string : CString} (nothing : string.bytes = []) :
    getBasename fuel name (some string) = some (.ok ⟨.null, name, []⟩) := by
  rw [getBasename]
  simp only [if_pos (CString.strlen_eq_zero_iff.mpr nothing)]

theorem gives_of_value {fuel : ℕ} {name : Buffer pathMax} {path : Option CString} {outcome : Outcome pathMax}
    (value : getBasename fuel name path = some (.ok outcome)) : Gives name path outcome.returned outcome.name := by
  cases path with
  | none =>
    cases value
    exact .null
  | some path =>
    by_cases nothing : path.bytes = []
    · cases (getBasename_of_nil fuel name nothing).symm.trans value
      exact .empty nothing
    · obtain ⟨enough, scanned, run, scan⟩ := exists_scanned path
      rw [getBasename_eq fuel name nothing, Option.map_eq_some_iff] at value
      obtain ⟨same, again, finished⟩ := value
      obtain rfl := Loop.Exits.unique (Loop.exits_of_run run) (Loop.exits_of_run again)
      cases scanned with
      | error => contradiction
      | ok reached =>
        change finish name path reached = .ok outcome at finished
        rw [finish_of_scanned name scan] at finished
        split at finished
        · next nonempty =>
          cases copy : strcpy name path.lastComponent with
          | error =>
            rw [copy] at finished
            contradiction
          | ok copied =>
            rw [copy] at finished
            cases finished
            exact .copied scan.1 nonempty copy
        · next whole =>
          cases finished
          exact .whole scan.1 (not_not.mp whole)

/-- Where a call fails: at the front of the string, or at the end of the buffer. -/
inductive Fails (string : CString) : CError → Prop
  | readOutOfBounds (missing : slash ∉ string.bytes) : Fails string (.readOutOfBounds (-1))
  | bufferOverflow (long : pathMax < string.lastComponent.length + 1) :
      Fails string (.bufferOverflow (string.lastComponent.length + 1))

/-- A call on a nonempty string returns or fails. -/
theorem exists_value_of_ne_nil (name : Buffer pathMax) {string : CString} (nonempty : string.bytes ≠ []) :
    ∃ fuel, (∃ outcome, getBasename fuel name (some string) = some (.ok outcome)) ∨
      ∃ error, getBasename fuel name (some string) = some (.error error) ∧ Fails string error := by
  obtain ⟨fuel, scanned, run, scan⟩ := exists_scanned string
  refine ⟨fuel, ?_⟩
  rw [getBasename_eq fuel name nonempty, run, Option.map_some]
  cases scanned with
  | error fault =>
    obtain ⟨rfl, missing⟩ := scan
    exact .inr ⟨_, rfl, .readOutOfBounds missing⟩
  | ok reached =>
    change (∃ outcome, some (finish name string reached) = some (.ok outcome)) ∨
      ∃ error, some (finish name string reached) = some (.error error) ∧ Fails string error
    rw [finish_of_scanned name scan]
    split
    · by_cases fits : string.lastComponent.length + 1 ≤ pathMax
      · obtain ⟨copied, copy⟩ := exists_strcpy name fits
        rw [copy]
        exact .inl ⟨_, rfl⟩
      · rw [strcpy, dif_neg fits]
        exact .inr ⟨_, rfl, .bufferOverflow (Nat.lt_of_not_le fits)⟩
    · exact .inl ⟨_, rfl⟩

/-- Every call returns or fails. -/
theorem exists_value (name : Buffer pathMax) (path : Option CString) :
    ∃ fuel, (∃ outcome, getBasename fuel name path = some (.ok outcome)) ∨
      ∃ string error, path = some string ∧ Fails string error ∧
        getBasename fuel name path = some (.error error) := by
  cases path with
  | none => exact ⟨0, .inl ⟨_, rfl⟩⟩
  | some string =>
    by_cases nothing : string.bytes = []
    · exact ⟨0, .inl ⟨_, getBasename_of_nil 0 name nothing⟩⟩
    · obtain ⟨fuel, returns | ⟨error, value, fails⟩⟩ := exists_value_of_ne_nil name nothing
      · exact ⟨fuel, .inl returns⟩
      · exact ⟨fuel, .inr ⟨string, error, rfl, fails, value⟩⟩

theorem statics_getBasename_eq_ok {fuel : ℕ} {path returned : Pointer} {statics next : Statics}
    (returns : statics.getBasename fuel path = some (.ok (returned, next))) :
    ∃ given name, Gives statics.name (statics.string path) given name ∧ overlaps path given = false ∧
      returned = given.pointer path ∧ next = { statics with name } := by
  obtain ⟨result, value, called⟩ := Option.map_eq_some_iff.mp returns
  cases result with
  | error => contradiction
  | ok outcome =>
    simp only at called
    split at called
    · contradiction
    · next apart =>
      cases called
      exact ⟨_, _, gives_of_value value, Bool.eq_false_iff.mpr apart, rfl, rfl⟩

/-! ## One call -/

theorem copies_append (events : List Event) (event : Event) :
    copies (events ++ [event]) = copies events ++ copies [event] := List.filterMap_append

theorem asked_append (events : List Event) (event : Event) :
    asked (events ++ [event]) = asked events ++ asked [event] := List.filterMap_append

/-- The buffer `name` holds what was copied last, and no separator. -/
structure Named (events : List Event) (statics : Statics) : Prop where
  text : statics.name.text = (copies events).getLast?.getD []
  noSlash : slash ∉ statics.name.text

/-- Both buffers hold a string. -/
structure Terminated (statics : Statics) : Prop where
  appDir : 0 ∈ statics.appDir.bytes
  name : 0 ∈ statics.name.bytes

/-- The directory is that of the first answer that is not a failure, and nobody asks after it. -/
inductive Directory : List (Option ExecutablePath) → List UInt8 → Prop
  | unknown (failures : ℕ) : Directory (List.replicate failures none) []
  | known (failures : ℕ) (file : ExecutablePath) :
      Directory (List.replicate failures none ++ [some file]) (dirname file.string.bytes)

/-- What a call of `get_basename` copies, if anything. -/
inductive Copies (statics : Statics) : Event → Statics → Prop
  | nothing {path returned : Pointer} {string : Option CString} (reads : statics.string path = string)
      (quiet : copies [.basename path string returned] = []) :
      Copies statics (.basename path string returned) statics
  | component {path : Pointer} {string : CString} {name : Buffer pathMax}
      (reads : statics.string path = some string)
      (apart : overlaps path .name = false) (nonempty : string.lastComponent ≠ [])
      (copy : strcpy statics.name string.lastComponent = .ok name) :
      Copies statics (.basename path (some string) .name) { statics with name }

/-- A call on the buffer `name` itself finds no separator, so it copies nothing. -/
theorem Step.copies {statics next : Statics} {path returned : Pointer} {string : Option CString}
    (step : Step statics (.basename path string returned) next) (noSlash : slash ∉ statics.name.text) :
    Copies statics (.basename path string returned) next := by
  cases step with
  | basename fuel _ returns =>
    obtain ⟨given, name, gives, apart, rfl, rfl⟩ := statics_getBasename_eq_ok returns
    generalize reads : statics.string path = string at gives ⊢
    cases gives with
    | null => exact .nothing reads rfl
    | empty => exact .nothing reads rfl
    | whole found =>
      cases path with
      | null => exact .nothing reads rfl
      | string => exact .nothing reads rfl
      | appDir => exact .nothing reads rfl
      | name =>
        obtain rfl := Option.some.inj reads
        exact absurd found noSlash
    | copied _ nonempty copy => exact .component reads apart nonempty copy

/-- What a call of `get_main_bundle_path` asks and keeps. -/
inductive Asks (statics : Statics) : Option (Option ExecutablePath) → Statics → Prop
  | known (known : statics.appDir.text ≠ []) : Asks statics none statics
  | failed (unknown : statics.appDir.text = []) : Asks statics (some none) statics
  | found {appDir : Buffer pathMax} (unknown : statics.appDir.text = []) (file : ExecutablePath)
      (text : appDir.text = dirname file.string.bytes) (terminated : 0 ∈ appDir.bytes) :
      Asks statics (some (some file)) { statics with appDir }

theorem Step.asks {statics next : Statics} {asked : Option (Option ExecutablePath)}
    (step : Step statics (.bundlePath asked) next) : Asks statics asked next := by
  cases step with
  | bundlePath answer returns =>
    by_cases unknown : statics.appDir.text = []
    · rw [if_pos (CString.strlen_eq_zero_iff.mpr unknown)]
      cases answer with
      | none =>
        cases (Statics.getMainBundlePath_of_failed statics).symm.trans returns
        exact .failed unknown
      | some file =>
        obtain ⟨appDir, kept, text, terminated⟩ := Statics.getMainBundlePath_of_found unknown file
        cases kept.symm.trans returns
        exact .found unknown file text terminated
    · rw [if_neg (mt CString.strlen_eq_zero_iff.mp unknown)]
      cases (Statics.getMainBundlePath_of_known unknown answer).symm.trans returns
      exact .known unknown

theorem Named.step {events : List Event} {event : Event} {statics next : Statics} (named : Named events statics)
    (step : Step statics event next) : Named (events ++ [event]) next := by
  obtain ⟨text, noSlash⟩ := named
  cases event with
  | bundlePath asked =>
    have quiet : copies (events ++ [.bundlePath asked]) = copies events :=
      (copies_append events _).trans (List.append_nil _)
    have same : next.name = statics.name := by cases step.asks <;> rfl
    exact ⟨by rw [same, quiet, text], same ▸ noSlash⟩
  | basename path string returned =>
    cases step.copies noSlash with
    | nothing reads quiet => exact ⟨by rw [copies_append, quiet, List.append_nil, text], noSlash⟩
    | component reads apart nonempty copy =>
      obtain ⟨_, copied⟩ := strcpy_eq_ok (CString.noNul_lastComponent _) copy
      refine ⟨?_, copied ▸ CString.noSlash_lastComponent _⟩
      rw [copies_append]
      exact copied.trans (congrArg (Option.getD · []) List.getLast?_concat.symm)

theorem Terminated.step {statics next : Statics} {event : Event} (terminated : Terminated statics)
    (noSlash : slash ∉ statics.name.text) (step : Step statics event next) : Terminated next := by
  cases event with
  | bundlePath asked =>
    cases step.asks with
    | known => exact terminated
    | failed => exact terminated
    | found _ _ _ kept => exact ⟨kept, terminated.name⟩
  | basename path string returned =>
    cases step.copies noSlash with
    | nothing => exact terminated
    | component _ _ _ copy => exact ⟨terminated.appDir, terminated_of_strcpy copy⟩

/-- As long as the directory is not known, every answer was a failure. -/
theorem Directory.eq_replicate {answers : List (Option ExecutablePath)} {text : List UInt8}
    (directory : Directory answers text) (unknown : text = []) :
    ∃ failures, answers = List.replicate failures none := by
  cases directory with
  | unknown failures => exact ⟨failures, rfl⟩
  | known _ file => exact absurd unknown (dirname_ne_nil _)

theorem Directory.step {events : List Event} {event : Event} {statics next : Statics}
    (directory : Directory (asked events) statics.appDir.text) (noSlash : slash ∉ statics.name.text)
    (step : Step statics event next) : Directory (asked (events ++ [event])) next.appDir.text := by
  rw [asked_append]
  cases event with
  | bundlePath asks =>
    cases step.asks with
    | known =>
      have quiet : asked [.bundlePath none] = [] := rfl
      rwa [quiet, List.append_nil]
    | failed unknown =>
      obtain ⟨failures, answers⟩ := directory.eq_replicate unknown
      rw [answers, unknown]
      exact List.replicate_succ' ▸ .unknown (failures + 1)
    | found unknown file text _ =>
      obtain ⟨failures, answers⟩ := directory.eq_replicate unknown
      rw [answers, text]
      exact .known failures file
  | basename path string returned =>
    have quiet : asked [.basename path string returned] = [] := rfl
    have same : next.appDir = statics.appDir := by cases step.copies noSlash <;> rfl
    rwa [quiet, List.append_nil, same]

/-! ## Runs -/

theorem text_zeros : zeros.text = [] := rfl

theorem Run.named {events : List Event} {statics : Statics} (run : Run events statics) :
    Named events statics := by
  induction run with
  | start => exact ⟨text_zeros, List.not_mem_nil⟩
  | call _ step ih => exact ih.step step

/-- The strings of the buffers end inside them. -/
theorem Run.terminated {events : List Event} {statics : Statics} (run : Run events statics) :
    Terminated statics := by
  induction run with
  | start =>
    have zero : 0 ∈ zeros.bytes := List.mem_replicate.mpr ⟨by decide, rfl⟩
    exact ⟨zero, zero⟩
  | call earlier step ih => exact ih.step earlier.named.noSlash step

/-- `_NSGetExecutablePath` is asked until its first answer that is not a failure and never after it,
`app_dir` is empty before it and the directory of that answer from it on, and every further call returns. -/
theorem directory_of_run (events : List Event) (statics : Statics) (run : Run events statics) :
    Directory (asked events) statics.appDir.text ∧
      ∀ answer, ∃ next, statics.getMainBundlePath answer = .ok next := by
  constructor
  · induction run with
    | start => exact .unknown 0
    | call earlier step ih => exact ih.step earlier.named.noSlash step
  · intro answer
    by_cases unknown : statics.appDir.text = []
    · cases answer with
      | none => exact ⟨_, statics.getMainBundlePath_of_failed⟩
      | some file =>
        obtain ⟨_, kept, _⟩ := Statics.getMainBundlePath_of_found unknown file
        exact ⟨_, kept⟩
    · exact ⟨_, Statics.getMainBundlePath_of_known unknown answer⟩

/-- The executable `/a`. -/
def rootedFile : ExecutablePath := ⟨rootedName, by decide⟩

theorem step_of_unknown {statics next : Statics} {answer : Option ExecutablePath}
    (unknown : statics.appDir.text = [])
    (returns : statics.getMainBundlePath answer = .ok next) : Step statics (.bundlePath (some answer)) next := by
  have step := Step.bundlePath answer returns
  rwa [if_pos (CString.strlen_eq_zero_iff.mpr unknown)] at step

/-- A failure, and then the executable `/a`. -/
theorem exists_run_rootedFile :
    ∃ statics, Run ([] ++ [.bundlePath (some none)] ++ [.bundlePath (some (some rootedFile))]) statics := by
  have unknown : Statics.initial.appDir.text = [] := text_zeros
  obtain ⟨appDir, kept, _⟩ := Statics.getMainBundlePath_of_found unknown rootedFile
  exact ⟨_, (Run.start.call (step_of_unknown unknown (Statics.getMainBundlePath_of_failed _))).call
    (step_of_unknown unknown kept)⟩

theorem directory_of_run_rootedFile :
    ∃ statics, Run ([] ++ [.bundlePath (some none)] ++ [.bundlePath (some (some rootedFile))]) statics ∧
      Directory [none, some rootedFile] statics.appDir.text := by
  obtain ⟨statics, run⟩ := exists_run_rootedFile
  exact ⟨statics, run, (directory_of_run _ statics run).1⟩

/-- A call that returned the buffer `name` copied a component, and not from the buffer. -/
theorem Run.copied {events : List Event} {statics : Statics} (run : Run events statics) {path : Pointer}
    {string : CString} (member : .basename path (some string) .name ∈ events) :
    path ≠ .name ∧ string.lastComponent ≠ [] := by
  induction run with
  | start => cases member
  | call earlier step ih =>
    rcases List.mem_append.mp member with before | last
    · exact ih before
    · obtain rfl := List.mem_singleton.mp last
      cases step.copies earlier.named.noSlash with
      | nothing reads quiet => cases quiet
      | component reads apart nonempty copy =>
        refine ⟨?_, nonempty⟩
        rintro rfl
        cases apart

/-- What an earlier call has returned reads as the component that was copied last. -/
theorem name_of_run (before after : List Event) (path : Pointer) (string : CString) (statics : Statics)
    (run : Run (before ++ .basename path (some string) .name :: after) statics) :
    path ≠ .name ∧ string.lastComponent ≠ [] ∧
      statics.name.text = (copies after).getLast?.getD string.lastComponent := by
  obtain ⟨apart, nonempty⟩ := run.copied (List.mem_append_right _ List.mem_cons_self)
  have split : copies (before ++ .basename path (some string) .name :: after) =
      copies before ++ string.lastComponent :: copies after := List.filterMap_append
  refine ⟨apart, nonempty, ?_⟩
  rw [run.named.text, split, List.getLast?_append, List.getLast?_cons, Option.some_or, Option.getD_some]

/-- The call on `/a`. -/
theorem exists_run_rootedName :
    ∃ statics, Run ([] ++ [.basename (.string rootedName) (some rootedName) .name]) statics :=
  ⟨_, Run.start.call (.basename 2 (.string rootedName) rfl)⟩

/-- The path `/b`. -/
def otherName : CString := ⟨['/'.toUInt8, 'b'.toUInt8], by decide, by decide⟩

/-- The buffer that the call on `/a` returned is overwritten by the call on `/b`. -/
theorem name_of_run_otherName :
    ∃ statics, Run ([] ++ .basename (.string rootedName) (some rootedName) .name ::
        [.basename (.string otherName) (some otherName) .name]) statics ∧
      rootedName.lastComponent = ['a'.toUInt8] ∧ statics.name.text = ['b'.toUInt8] := by
  obtain ⟨statics, first⟩ := exists_run_rootedName
  have second : Run ([] ++ .basename (.string rootedName) (some rootedName) .name ::
      [.basename (.string otherName) (some otherName) .name]) _ := first.call (.basename 2 (.string otherName) rfl)
  obtain ⟨_, _, last⟩ := name_of_run [] _ _ rootedName _ second
  exact ⟨_, second, by decide, last⟩

/-- A call on the buffer finds no separator, so it does not copy the buffer into itself. -/
theorem Gives.not_overlaps {statics : Statics} {path : Pointer} {given : Returned} {name : Buffer pathMax}
    (gives : Gives statics.name (statics.string path) given name) (noSlash : slash ∉ statics.name.text) :
    overlaps path given = false := by
  cases path with
  | name =>
    cases given with
    | name =>
      cases gives with
      | copied found => exact absurd found noSlash
    | null => rfl
    | path => rfl
  | null => rfl
  | string => rfl
  | appDir => rfl

theorem text_eq_nil_iff {events : List Event} {statics : Statics} (run : Run events statics) :
    statics.name.text = [] ↔ copies events = [] := by
  rw [run.named.text]
  constructor
  · intro empty
    by_contra some
    obtain ⟨earlier, component, split⟩ := (List.eq_nil_or_concat' (copies events)).resolve_left some
    obtain rfl : component = [] := by
      rwa [split, List.getLast?_concat] at empty
    have member : [] ∈ copies events := split ▸ List.mem_append_right _ (List.mem_singleton_self _)
    obtain ⟨event, called, copied⟩ := List.mem_filterMap.mp member
    split at copied
    · exact (run.copied called).2 (Option.some.inj copied)
    · contradiction
  · intro none
    rw [none]
    rfl

/-- Every call ends, and it never copies the buffer into itself. A call on the buffer returns exactly
as long as nothing was copied into it. -/
theorem getBasename_of_run (events : List Event) (statics : Statics) (run : Run events statics) :
    (∀ path, ∃ fuel, (∃ returned next, statics.getBasename fuel path = some (.ok (returned, next))) ∨
      ∃ string error, statics.string path = some string ∧ Fails string error ∧
        statics.getBasename fuel path = some (.error (.memory error))) ∧
    ((∃ fuel returned next, statics.getBasename fuel .name = some (.ok (returned, next))) ↔
      copies events = []) := by
  have noSlash := run.named.noSlash
  constructor
  · intro path
    obtain ⟨fuel, ⟨outcome, value⟩ | ⟨string, error, reads, fails, value⟩⟩ :=
      exists_value statics.name (statics.string path)
    · refine ⟨fuel, .inl ⟨outcome.returned.pointer path, { statics with name := outcome.name }, ?_⟩⟩
      rw [Statics.getBasename, value, Option.map_some]
      simp only [(gives_of_value value).not_overlaps noSlash, Bool.false_eq_true, if_false]
    · refine ⟨fuel, .inr ⟨string, error, reads, fails, ?_⟩⟩
      rw [Statics.getBasename, value, Option.map_some]
  · rw [← text_eq_nil_iff run]
    constructor
    · rintro ⟨fuel, returned, next, returns⟩
      obtain ⟨given, name, gives, _⟩ := statics_getBasename_eq_ok returns
      cases gives with
      | empty nothing => exact nothing
      | whole found => exact absurd found noSlash
      | copied found => exact absurd found noSlash
    · intro nothing
      refine ⟨0, .null, statics, ?_⟩
      rw [Statics.getBasename, Statics.string, getBasename_of_nil 0 statics.name nothing]
      rfl

/-- After the call on `/a`, none on its result returns. -/
theorem getBasename_of_run_rootedName :
    ∃ statics, Run ([] ++ [.basename (.string rootedName) (some rootedName) .name]) statics ∧
      ¬ ∃ fuel returned next, statics.getBasename fuel .name = some (.ok (returned, next)) := by
  obtain ⟨statics, run⟩ := exists_run_rootedName
  refine ⟨statics, run, ?_⟩
  rw [(getBasename_of_run _ statics run).2]
  exact List.cons_ne_nil _ _

end INote.HelloWorld
