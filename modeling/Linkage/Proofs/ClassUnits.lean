import Linkage.ClassUnit
import Linkage.Proofs.Runs

/-!
# The class units at a path

`HoldsUnit` says which class units there are at a path and what reading each of them gives, and
`Readable` when all of them can be read and decoded. A fold over the classes at a path is a fold
over what the units hold, and gives nothing as soon as one of them cannot be read.
-/

namespace Linkage

variable {disk : FileSystem} {limits : Limits} {path : Path}

/-! ## Files below a root -/

namespace FileSystem

/-- A file at or below a root that has one of some extensions. A root that is called like standard
input has none, whatever is in it. -/
def Finds (disk : FileSystem) (root : Path) (extensions : List String) (found : Found) : Prop :=
  root.isStandardInput = false ∧
  ∃ tree, disk.find root = .ok tree ∧ (found.below, found.content) ∈ tree.files ∧
    found.path = found.below.foldl (fun path name => path.join ⟨name⟩) root ∧
    ∃ extension ∈ extensions, found.path.extension? = some extension

theorem contains_iff : disk.contains path = true ↔ ∃ tree, disk.find path = .ok tree := by
  unfold contains
  cases disk.find path with
  | error obstacle => exact ⟨nofun, nofun⟩
  | ok tree => exact ⟨fun _ => ⟨tree, rfl⟩, fun _ => rfl⟩

theorem withExtensions_succeeds {root : Path} {extensions : List String} :
    (∃ files, disk.withExtensions root extensions = .ok files) ↔ disk.contains root = true := by
  rw [contains_iff, withExtensions]
  cases disk.find root with
  | error obstacle => exact ⟨nofun, nofun⟩
  | ok tree =>
    refine ⟨fun _ => ⟨tree, rfl⟩, fun _ => ?_⟩
    by_cases input : root.isStandardInput = true
    · exact ⟨_, if_pos input⟩
    · exact ⟨_, if_neg input⟩

theorem mem_withExtensions {root : Path} {extensions : List String} {files : List Found}
    (success : disk.withExtensions root extensions = .ok files) {found : Found} :
    found ∈ files ↔ disk.Finds root extensions found := by
  unfold withExtensions at success
  unfold Finds
  cases located : disk.find root with
  | error obstacle =>
    rw [located] at success
    cases success
  | ok tree =>
    simp only [located] at success
    by_cases input : root.isStandardInput = true
    · rw [if_pos input] at success
      cases success
      simp [input]
    · rw [if_neg input] at success
      cases success
      obtain ⟨path, below, content⟩ := found
      simp only [List.mem_mergeSort, List.mem_filter, List.mem_map, Option.any_eq_true,
        List.contains_iff_mem]
      constructor
      · rintro ⟨⟨⟨below, content⟩, member, ⟨⟩⟩, extension, ending, wanted⟩
        exact ⟨by simpa using input, tree, rfl, member, rfl, extension, wanted, ending⟩
      · rintro ⟨-, _, ⟨⟩, member, rfl, extension, wanted, ending⟩
        exact ⟨⟨_, member, rfl⟩, extension, ending, wanted⟩

end FileSystem

theorem isStandardInput_dash : (⟨"-"⟩ : Path).isStandardInput = true := by decide +kernel

theorem not_finds_dash {extensions : List String} {found : FileSystem.Found} :
    ¬ disk.Finds ⟨"-"⟩ extensions found := by
  rintro ⟨named, -⟩
  rw [isStandardInput_dash] at named
  cases named

/-- A class unit at a path: its bytes, or nothing if they cannot be read within the limits. -/
inductive HoldsUnit (disk : FileSystem) (limits : Limits) (path : Path) : Option ByteArray → Prop
  | file {content : ByteArray} (located : disk.find path = .ok (.file content))
      (ending : path.extension? = some UnitSource.classExtension) :
      HoldsUnit disk limits path (if content.size ≤ limits.entryBytes then some content else none)
  | below {found : FileSystem.Found} (directory : disk.isDirectory path = true)
      (member : disk.Finds path [UnitSource.classExtension] found) :
      HoldsUnit disk limits path
        (if found.content.size ≤ limits.entryBytes then some found.content else none)
  | entry {content : ByteArray} {archive : Archive} {entry : Archive.Entry}
      (located : disk.find path = .ok (.file content))
      (ending : path.extension? ≠ some UnitSource.classExtension)
      (opened : Archive.ofBytes limits content = .ok archive)
      (member : entry ∈ archive.entries) (isClass : entry.isClass = true) :
      HoldsUnit disk limits path (archive.read limits entry).toOption

def HoldsClass (disk : FileSystem) (limits : Limits) (path : Path) (decoded : ClassFile) : Prop :=
  ∃ bytes, HoldsUnit disk limits path (some bytes) ∧
    ClassFile.ofBytes bytes.data.toList = .ok decoded

def DefinesType (disk : FileSystem) (limits : Limits) (path : Path) (symbol : Symbol) : Prop :=
  ∃ unit, HoldsClass disk limits path unit ∧ unit.definesType = true ∧ unit.symbol = symbol

theorem mem_consIf {α : Type} {test : Bool} {head item : α} {list : List α} :
    item ∈ (if test then head :: list else list) ↔ item ∈ list ∨ test = true ∧ head = item := by
  cases test with
  | true =>
    rw [if_pos rfl, List.mem_cons, or_comm, eq_comm]
    simp only [true_and]
  | false => simp

structure Readable (disk : FileSystem) (limits : Limits) (path : Path) : Prop where
  present : disk.contains path = true
  opens : ∀ content, disk.find path = .ok (.file content) →
    path.extension? ≠ some UnitSource.classExtension →
    ∃ archive, Archive.ofBytes limits content = .ok archive
  decodes : ∀ unit, HoldsUnit disk limits path unit →
    ∃ bytes decoded, unit = some bytes ∧ ClassFile.ofBytes bytes.data.toList = .ok decoded

theorem boundedContent_toOption {content : ByteArray} :
    (boundedContent limits path content).toOption =
      if content.size ≤ limits.entryBytes then some content else none := by
  unfold boundedContent
  by_cases small : content.size ≤ limits.entryBytes
  · rw [if_neg (Nat.not_lt.mpr small), if_pos small]
    rfl
  · rw [if_pos (Nat.not_le.mp small), if_neg small]
    rfl

theorem mapError_toOption {ε ε' α : Type} {f : ε → ε'} {result : Except ε α} :
    (result.mapError f).toOption = result.toOption := by
  cases result <;> rfl

theorem classUnits_eq :
    classUnits disk limits path = match disk.find path with
      | .error _ => .error (.unreadable path .absent)
      | .ok (.directory _) => do
          return (← disk.withExtensions path [UnitSource.classExtension]).map fun found =>
            ⟨"/".intercalate found.below, boundedContent limits found.path found.content⟩
      | .ok (.file content) =>
          if path.extension? = some UnitSource.classExtension then
            .ok [⟨path.text, boundedContent limits path content⟩]
          else match Archive.ofBytes limits content with
            | .error fault => .error (.malformed path none fault)
            | .ok archive => .ok ((archive.entries.filter Archive.Entry.isClass).map fun entry =>
                ⟨entry.name,
                  (archive.read limits entry).mapError (.malformed path (some entry.name))⟩) := by
  unfold classUnits UnitSource.at? FileSystem.read
  cases disk.find path with
  | error obstacle => rfl
  | ok tree =>
    cases tree with
    | directory entries => rfl
    | file content =>
      by_cases ending : path.extension? = some UnitSource.classExtension
      · simp only [if_pos ending]
        rfl
      · simp only [if_neg ending]
        rfl

theorem holdsUnit_directory {entries : List (String × FileTree)}
    (located : disk.find path = .ok (.directory entries)) {unit : Option ByteArray} :
    HoldsUnit disk limits path unit ↔
      ∃ found, disk.Finds path [UnitSource.classExtension] found ∧
        (boundedContent limits found.path found.content).toOption = unit := by
  constructor
  · rintro (⟨located', -⟩ | ⟨-, member⟩ | ⟨located', -, -, -, -⟩)
    · rw [located] at located'
      cases located'
    · exact ⟨_, member, boundedContent_toOption⟩
    · rw [located] at located'
      cases located'
  · rintro ⟨found, member, rfl⟩
    rw [boundedContent_toOption]
    exact .below (by rw [FileSystem.isDirectory, located]) member

theorem holdsUnit_classFile {content : ByteArray} (located : disk.find path = .ok (.file content))
    (ending : path.extension? = some UnitSource.classExtension) {unit : Option ByteArray} :
    HoldsUnit disk limits path unit ↔ (boundedContent limits path content).toOption = unit := by
  rw [boundedContent_toOption]
  constructor
  · rintro (⟨located', -⟩ | ⟨directory, -⟩ | ⟨-, ending', -, -, -⟩)
    · rw [located] at located'
      cases located'
      rfl
    · rw [FileSystem.isDirectory, located] at directory
      cases directory
    · exact absurd ending ending'
  · rintro rfl
    exact .file located ending

theorem holdsUnit_archive {content : ByteArray} {archive : Archive}
    (located : disk.find path = .ok (.file content))
    (ending : path.extension? ≠ some UnitSource.classExtension)
    (opened : Archive.ofBytes limits content = .ok archive) {unit : Option ByteArray} :
    HoldsUnit disk limits path unit ↔
      ∃ entry ∈ archive.entries, entry.isClass = true ∧
        (archive.read limits entry).toOption = unit := by
  constructor
  · rintro (⟨-, ending'⟩ | ⟨directory, -⟩ | ⟨located', -, opened', member, isClass⟩)
    · exact absurd ending' ending
    · rw [FileSystem.isDirectory, located] at directory
      cases directory
    · rw [located] at located'
      cases located'
      rw [opened] at opened'
      cases opened'
      exact ⟨_, member, isClass, rfl⟩
  · rintro ⟨entry, member, isClass, rfl⟩
    exact .entry located ending opened member isClass

theorem mem_classUnits {units : List ClassUnit} (success : classUnits disk limits path = .ok units)
    {content : Option ByteArray} :
    (∃ unit ∈ units, unit.content.toOption = content) ↔ HoldsUnit disk limits path content := by
  rw [classUnits_eq] at success
  cases located : disk.find path with
  | error obstacle =>
    rw [located] at success
    cases success
  | ok tree =>
    cases tree with
    | directory entries =>
      simp only [located] at success
      obtain ⟨files, walked, listed⟩ := bind_eq_ok.mp success
      cases listed
      rw [holdsUnit_directory located]
      simp only [List.mem_map, exists_exists_and_eq_and, FileSystem.mem_withExtensions walked]
    | file bytes =>
      simp only [located] at success
      by_cases ending : path.extension? = some UnitSource.classExtension
      · rw [if_pos ending] at success
        cases success
        rw [holdsUnit_classFile located ending]
        simp
      · rw [if_neg ending] at success
        cases opened : Archive.ofBytes limits bytes with
        | error fault =>
          rw [opened] at success
          cases success
        | ok archive =>
          rw [opened] at success
          cases success
          rw [holdsUnit_archive located ending opened]
          simp only [List.mem_map, List.mem_filter]
          constructor
          · rintro ⟨_, ⟨entry, ⟨member, isClass⟩, rfl⟩, rfl⟩
            exact ⟨entry, member, isClass, mapError_toOption.symm⟩
          · rintro ⟨entry, member, isClass, rfl⟩
            exact ⟨_, ⟨entry, ⟨member, isClass⟩, rfl⟩, mapError_toOption⟩

theorem classUnits_succeeds :
    (∃ units, classUnits disk limits path = .ok units) ↔ disk.contains path = true ∧
      ∀ content, disk.find path = .ok (.file content) →
        path.extension? ≠ some UnitSource.classExtension →
        ∃ archive, Archive.ofBytes limits content = .ok archive := by
  rw [classUnits_eq, FileSystem.contains_iff]
  cases located : disk.find path with
  | error obstacle => exact ⟨nofun, nofun⟩
  | ok tree =>
    cases tree with
    | directory entries =>
      have walk := FileSystem.contains_iff.mpr ⟨_, located⟩
      obtain ⟨files, walked⟩ :
          ∃ files, disk.withExtensions path [UnitSource.classExtension] = .ok files :=
        FileSystem.withExtensions_succeeds.mpr walk
      exact ⟨fun _ => ⟨⟨_, rfl⟩, nofun⟩, fun _ => ⟨_, bind_eq_ok.mpr ⟨files, walked, rfl⟩⟩⟩
    | file bytes =>
      by_cases ending : path.extension? = some UnitSource.classExtension
      · simp [ending]
      · cases opened : Archive.ofBytes limits bytes with
        | error fault => simp [ending, opened]
        | ok archive => simp [ending, opened]

def ClassUnit.decode (path : Path) (unit : ClassUnit) : Except Failure ClassFile := do
  let bytes ← unit.content
  (ClassFile.ofBytes bytes.data.toList).mapError (.malformed path (some unit.origin))

def classesAt (disk : FileSystem) (limits : Limits) (path : Path) :
    Except Failure (List ClassFile) := do
  (← classUnits disk limits path).mapM (ClassUnit.decode path)

theorem decode_eq_ok {unit : ClassUnit} {decoded : ClassFile} :
    unit.decode path = .ok decoded ↔ ∃ bytes, unit.content.toOption = some bytes ∧
      ClassFile.ofBytes bytes.data.toList = .ok decoded := by
  rw [ClassUnit.decode, bind_eq_ok]
  simp only [mapError_eq_ok]
  cases unit.content with
  | error failure => simp [Except.toOption]
  | ok bytes => simp [Except.toOption]

theorem mem_classesAt {classes : List ClassFile} (success : classesAt disk limits path = .ok classes)
    {decoded : ClassFile} : decoded ∈ classes ↔ HoldsClass disk limits path decoded := by
  obtain ⟨units, listed, decodedAll⟩ := bind_eq_ok.mp success
  rw [mem_of_mapM decodedAll, HoldsClass]
  simp only [decode_eq_ok, ← mem_classUnits listed]
  constructor
  · rintro ⟨unit, member, bytes, read, decodes⟩
    exact ⟨bytes, ⟨unit, member, read⟩, decodes⟩
  · rintro ⟨bytes, ⟨unit, member, read⟩, decodes⟩
    exact ⟨unit, member, bytes, read, decodes⟩

theorem classesAt_succeeds :
    (∃ classes, classesAt disk limits path = .ok classes) ↔ Readable disk limits path := by
  constructor
  · rintro ⟨classes, success⟩
    obtain ⟨units, listed, decodedAll⟩ := bind_eq_ok.mp success
    obtain ⟨present, opens⟩ := classUnits_succeeds.mp ⟨units, listed⟩
    refine ⟨present, opens, fun content holds => ?_⟩
    obtain ⟨unit, member, rfl⟩ := (mem_classUnits listed).mpr holds
    obtain ⟨decoded, decodes⟩ := mapM_succeeds.mp ⟨classes, decodedAll⟩ unit member
    obtain ⟨bytes, read, decodes⟩ := decode_eq_ok.mp decodes
    exact ⟨bytes, decoded, read, decodes⟩
  · intro readable
    obtain ⟨units, listed⟩ := classUnits_succeeds.mpr ⟨readable.present, readable.opens⟩
    have each : ∀ unit ∈ units, ∃ decoded, unit.decode path = .ok decoded := by
      intro unit member
      obtain ⟨bytes, decoded, read, decodes⟩ :=
        readable.decodes _ ((mem_classUnits listed).mp ⟨unit, member, rfl⟩)
      exact ⟨decoded, decode_eq_ok.mpr ⟨bytes, read, decodes⟩⟩
    obtain ⟨classes, decodedAll⟩ := mapM_succeeds.mpr each
    exact ⟨classes, bind_eq_ok.mpr ⟨units, listed, decodedAll⟩⟩

/-! ### By what a path leads to -/

variable {unit : ClassFile} {content : ByteArray}

theorem holdsClass_classFile (located : disk.find path = .ok (.file content))
    (ending : path.extension? = some UnitSource.classExtension) :
    HoldsClass disk limits path unit ↔ content.size ≤ limits.entryBytes ∧
      ClassFile.ofBytes content.data.toList = .ok unit := by
  unfold HoldsClass
  simp only [holdsUnit_classFile located ending, boundedContent_toOption,
    Option.ite_none_right_eq_some, Option.some.injEq]
  constructor
  · rintro ⟨_, ⟨small, rfl⟩, decodes⟩
    exact ⟨small, decodes⟩
  · rintro ⟨small, decodes⟩
    exact ⟨_, ⟨small, rfl⟩, decodes⟩

theorem readable_classFile (located : disk.find path = .ok (.file content))
    (ending : path.extension? = some UnitSource.classExtension) :
    Readable disk limits path ↔ content.size ≤ limits.entryBytes ∧
      ∃ unit, ClassFile.ofBytes content.data.toList = .ok unit := by
  constructor
  · intro readable
    obtain ⟨bytes, unit, within, decodes⟩ := readable.decodes _ (.file located ending)
    obtain ⟨small, ⟨⟩⟩ := Option.ite_none_right_eq_some.mp within
    exact ⟨small, unit, decodes⟩
  · rintro ⟨small, unit, decodes⟩
    refine ⟨FileSystem.contains_iff.mpr ⟨_, located⟩, fun _ _ other => absurd ending other, ?_⟩
    intro held holds
    rw [holdsUnit_classFile located ending, boundedContent_toOption, if_pos small] at holds
    exact ⟨content, unit, holds.symm, decodes⟩

theorem holdsClass_directory {entries : List (String × FileTree)}
    (located : disk.find path = .ok (.directory entries)) :
    HoldsClass disk limits path unit ↔ ∃ found, disk.Finds path [UnitSource.classExtension] found ∧
      found.content.size ≤ limits.entryBytes ∧
      ClassFile.ofBytes found.content.data.toList = .ok unit := by
  unfold HoldsClass
  simp only [holdsUnit_directory located, boundedContent_toOption]
  constructor
  · rintro ⟨bytes, ⟨found, member, within⟩, decodes⟩
    obtain ⟨small, ⟨⟩⟩ := Option.ite_none_right_eq_some.mp within
    exact ⟨found, member, small, decodes⟩
  · rintro ⟨found, member, small, decodes⟩
    exact ⟨_, ⟨found, member, if_pos small⟩, decodes⟩

theorem readable_directory {entries : List (String × FileTree)}
    (located : disk.find path = .ok (.directory entries)) :
    Readable disk limits path ↔ ∀ found, disk.Finds path [UnitSource.classExtension] found →
      found.content.size ≤ limits.entryBytes ∧
      ∃ unit, ClassFile.ofBytes found.content.data.toList = .ok unit := by
  constructor
  · intro readable found member
    obtain ⟨bytes, unit, within, decodes⟩ := readable.decodes _
      ((holdsUnit_directory located).mpr ⟨found, member, boundedContent_toOption⟩)
    obtain ⟨small, ⟨⟩⟩ := Option.ite_none_right_eq_some.mp within
    exact ⟨small, unit, decodes⟩
  · intro each
    refine ⟨FileSystem.contains_iff.mpr ⟨_, located⟩, fun content other => ?_, fun held holds => ?_⟩
    · rw [located] at other
      cases other
    · obtain ⟨found, member, rfl⟩ := (holdsUnit_directory located).mp holds
      obtain ⟨small, unit, decodes⟩ := each found member
      rw [boundedContent_toOption, if_pos small]
      exact ⟨_, unit, rfl, decodes⟩

section Folds

variable {σ : Type} {step : σ → ClassFile → Except Fault σ}

def ClassUnit.fold (path : Path) (step : σ → ClassFile → Except Fault σ) (state : σ)
    (unit : ClassUnit) : Except Failure σ := do
  let decoded ← unit.decode path
  (step state decoded).mapError (.malformed path (some unit.origin))

def foldUnits (disk : FileSystem) (limits : Limits) (path : Path)
    (step : σ → ClassFile → Except Fault σ) (start : σ) : Except Failure σ := do
  (← classUnits disk limits path).foldlM (ClassUnit.fold path step) start

def foldVisitor (step : σ → ClassFile → Except Fault σ) : Visitor σ := fun _ decoded state =>
  match step state decoded with
  | .ok state => .ok () state
  | .error fault => .error fault state

def visited (result : EStateM.Result Failure σ Unit) : Except Failure σ :=
  match result with
  | .ok _ state => .ok state
  | .error failure _ => .error failure

theorem visited_visit (unit : ClassUnit) (start : σ) :
    visited (unit.visit path (foldVisitor step) start) = unit.fold path step start := by
  unfold ClassUnit.visit ClassUnit.fold ClassUnit.decode foldVisitor visited
  cases unit.content with
  | error failure => rfl
  | ok bytes =>
    cases decodes : ClassFile.ofBytes bytes.data.toList with
    | error fault => simp [decodes, Except.mapError, bind, Except.bind]
    | ok decoded =>
      cases stepped : step start decoded with
      | error fault => simp [decodes, stepped, Except.mapError, bind, Except.bind]
      | ok state => simp [decodes, stepped, Except.mapError, bind, Except.bind]

theorem visited_forM (units : List ClassUnit) (start : σ) :
    visited (units.forM (ClassUnit.visit path (foldVisitor step)) start) =
      units.foldlM (ClassUnit.fold path step) start := by
  induction units generalizing start with
  | nil => rfl
  | cons unit units ih =>
    rw [List.foldlM_cons, ← visited_visit]
    change visited (EStateM.bind (unit.visit path (foldVisitor step))
      (fun _ => units.forM (ClassUnit.visit path (foldVisitor step))) start) = _
    rw [EStateM.bind]
    cases unit.visit path (foldVisitor step) start with
    | error failure state => rfl
    | ok _ state => exact ih state

theorem visited_visitClasses (start : σ) :
    visited (visitClasses disk limits path (foldVisitor step) start) =
      foldUnits disk limits path step start := by
  unfold visitClasses foldUnits
  cases classUnits disk limits path with
  | error failure => rfl
  | ok units => exact visited_forM units start

theorem foldClasses_hasResult (start : σ) :
    (foldClasses disk limits path step start).HasResult (foldUnits disk limits path step start) := by
  have visit : Run.HasResult
      (match visitClasses disk limits path (foldVisitor step) start with
        | .ok _ state => (return state : Run σ)
        | .error failure _ => throw failure) (foldUnits disk limits path step start) := by
    rw [← visited_visitClasses]
    intro events
    cases visitClasses disk limits path (foldVisitor step) start with
    | ok _ state => exact ⟨events, rfl⟩
    | error failure _ => exact ⟨events, rfl⟩
  unfold foldClasses
  cases UnitSource.at? disk path with
  | none => exact visit
  | some source => exact visit.after_note

theorem foldlM_fold (units : List ClassUnit) {start final : σ} :
    units.foldlM (ClassUnit.fold path step) start = .ok final ↔
      ∃ classes, units.mapM (ClassUnit.decode path) = .ok classes ∧
        classes.foldlM step start = .ok final := by
  induction units generalizing start with
  | nil =>
    rw [List.mapM_nil, List.foldlM_nil, pure_eq_ok]
    simp only [pure_eq_ok, exists_eq_left', List.foldlM_nil]
  | cons unit units ih =>
    rw [List.foldlM_cons, List.mapM_cons]
    simp only [ClassUnit.fold, bind_eq_ok, mapError_eq_ok, ih, pure_eq_ok]
    constructor
    · rintro ⟨state, ⟨decoded, opened, stepped⟩, classes, others, done⟩
      refine ⟨decoded :: classes, ⟨decoded, opened, classes, others, rfl⟩, ?_⟩
      rw [List.foldlM_cons, bind_eq_ok]
      exact ⟨state, stepped, done⟩
    · rintro ⟨_, ⟨decoded, opened, classes, others, rfl⟩, done⟩
      rw [List.foldlM_cons, bind_eq_ok] at done
      obtain ⟨state, stepped, done⟩ := done
      exact ⟨state, ⟨decoded, opened, stepped⟩, classes, others, done⟩

theorem foldUnits_ok {start final : σ} :
    foldUnits disk limits path step start = .ok final ↔
      ∃ classes, classesAt disk limits path = .ok classes ∧
        classes.foldlM step start = .ok final := by
  rw [foldUnits, classesAt, bind_eq_ok]
  simp only [foldlM_fold, bind_eq_ok]
  constructor
  · rintro ⟨units, listed, classes, decoded, done⟩
    exact ⟨classes, ⟨units, listed, decoded⟩, done⟩
  · rintro ⟨classes, ⟨units, listed, decoded⟩, done⟩
    exact ⟨units, listed, classes, decoded, done⟩

section Accepting

variable {accepts : ClassFile → Prop}

theorem foldClasses_computes
    (accepted : ∀ state unit, (∃ next, step state unit = .ok next) ↔ accepts unit) (start : σ) :
    (foldClasses disk limits path step start).Computes
      (Readable disk limits path ∧ ∀ unit, HoldsClass disk limits path unit → accepts unit)
      fun final => ∃ classes : List ClassFile,
        (∀ unit, unit ∈ classes ↔ HoldsClass disk limits path unit) ∧
        classes.foldlM step start = .ok final := by
  refine ⟨_, foldClasses_hasResult start, ?_, ?_⟩
  · simp only [foldUnits_ok, ← classesAt_succeeds]
    constructor
    · rintro ⟨final, classes, opened, folded⟩
      refine ⟨⟨classes, opened⟩, fun unit holds => ?_⟩
      have member := (mem_classesAt opened).mpr holds
      exact (foldlM_succeeds accepted start).mp ⟨final, folded⟩ unit member
    · rintro ⟨⟨classes, opened⟩, each⟩
      obtain ⟨final, folded⟩ := (foldlM_succeeds accepted start).mpr fun unit member =>
        each unit ((mem_classesAt opened).mp member)
      exact ⟨final, classes, opened, folded⟩
  · intro final success
    obtain ⟨classes, opened, folded⟩ := foldUnits_ok.mp success
    exact ⟨classes, fun unit => mem_classesAt opened, folded⟩

theorem foldOutputs_computes {outputs : List Path}
    (accepted : ∀ state unit, (∃ next, step state unit = .ok next) ↔ accepts unit) (start : σ) :
    (outputs.foldlM (fun state output => foldClasses disk limits output step state) start).Computes
      (∀ output ∈ outputs, Readable disk limits output ∧
        ∀ unit, HoldsClass disk limits output unit → accepts unit)
      fun final => ∃ classes : List ClassFile,
        (∀ unit, unit ∈ classes ↔ ∃ output ∈ outputs, HoldsClass disk limits output unit) ∧
        classes.foldlM step start = .ok final := by
  induction outputs generalizing start with
  | nil => exact .pure (by simp) ⟨[], by simp, rfl⟩
  | cons output outputs ih =>
    rw [List.foldlM_cons]
    refine ((foldClasses_computes accepted start).bind fun state _ => ih state).mono ?_ ?_
    · rw [List.forall_mem_cons]
    · rintro final ⟨state, ⟨first, held, folded⟩, rest, others, done⟩
      refine ⟨first ++ rest, fun unit => ?_, ?_⟩
      · rw [List.mem_append, held, others, List.exists_mem_cons_iff]
      · rw [List.foldlM_append, bind_eq_ok]
        exact ⟨state, folded, done⟩

end Accepting

end Folds

end Linkage
