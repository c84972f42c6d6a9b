import Linkage.Proofs.Analysis
import Linkage.Proofs.FileTrees

/-!
# Visits of class units

`Lists` says which class units there are at a path and in which order, and `Stops` at which of them
a visitor stops. The units before that one are handed to the visitor one after the other, and no
other: `visitClasses_visits`. The visit comes to an end without a failure if there is no such unit.
A directory called like standard input is passed over: `visitClasses_standardInput`.
-/

namespace Linkage

variable {disk : FileSystem} {limits : Limits} {path : Path} {σ : Type} {visitor : Visitor σ}

structure PlacedUnit where
  origin : String
  place : Path
  entry : Option String
  content : Except Fault ByteArray

namespace PlacedUnit

def unit (placed : PlacedUnit) : ClassUnit :=
  ⟨placed.origin, placed.content.mapError (.malformed placed.place placed.entry)⟩

def bounded (limits : Limits) (content : ByteArray) : Except Fault ByteArray :=
  if content.size ≤ limits.entryBytes then .ok content
  else .error (.limitExceeded s!"class file is {content.size} bytes (max {limits.entryBytes})")

def alone (limits : Limits) (path : Path) (content : ByteArray) : PlacedUnit :=
  ⟨path.text, path, none, bounded limits content⟩

def below (limits : Limits) (root : Path) (file : List String × ByteArray) : PlacedUnit :=
  ⟨"/".intercalate file.1, root.below file.1, none, bounded limits file.2⟩

def packed (limits : Limits) (path : Path) (archive : Archive) (entry : Archive.Entry) :
    PlacedUnit :=
  ⟨entry.name, path, some entry.name, archive.read limits entry⟩

end PlacedUnit

/-- The class units at a path that leads to a tree: the file itself, the classes of an archive as
its directory has them, or the files below a directory whose names end like those of classes, in
the order of their names. -/
inductive Lists (limits : Limits) (path : Path) : FileTree → List PlacedUnit → Prop
  | classFile {content : ByteArray} (ending : path.extension? = some UnitSource.classExtension) :
      Lists limits path (.file content) [.alone limits path content]
  | archive {content : ByteArray} {archive : Archive}
      (ending : path.extension? ≠ some UnitSource.classExtension)
      (opened : Archive.ofBytes limits content = .ok archive) :
      Lists limits path (.file content)
        ((archive.entries.filter Archive.Entry.isClass).map (.packed limits path archive))
  | directory {entries : List (String × FileTree)} {files : List (List String × ByteArray)}
      (ordered : files.Pairwise (·.1 < ·.1))
      (listed : ∀ names content, (names, content) ∈ files ↔
        (FileTree.directory entries).under? names = some (.file content) ∧
          FileSystem.EndsIn [UnitSource.classExtension] names) :
      Lists limits path (.directory entries) (files.map (.below limits path))

/-! ## One unit -/

namespace PlacedUnit

variable {placed : PlacedUnit} {state next : σ} {failure : Failure}

def Passes (visitor : Visitor σ) (placed : PlacedUnit) (state next : σ) : Prop :=
  ∃ bytes decoded, placed.content = .ok bytes ∧
    ClassFile.ofBytes bytes.data.toList = .ok decoded ∧
    visitor placed.origin decoded state = .ok () next

/-- How a unit ends a visit, and the state that is left. -/
inductive Stops (path : Path) (visitor : Visitor σ) (placed : PlacedUnit) (state : σ) :
    Failure → σ → Prop
  | unread {fault : Fault} (read : placed.content = .error fault) :
      Stops path visitor placed state (.malformed placed.place placed.entry fault) state
  | undecoded {bytes : ByteArray} {fault : Fault} (read : placed.content = .ok bytes)
      (decodes : ClassFile.ofBytes bytes.data.toList = .error fault) :
      Stops path visitor placed state (.malformed path (some placed.origin) fault) state
  | refused {bytes : ByteArray} {decoded : ClassFile} {fault : Fault} {next : σ}
      (read : placed.content = .ok bytes)
      (decodes : ClassFile.ofBytes bytes.data.toList = .ok decoded)
      (visited : visitor placed.origin decoded state = .error fault next) :
      Stops path visitor placed state (.malformed path (some placed.origin) fault) next

theorem Passes.visit (passes : placed.Passes visitor state next) :
    placed.unit.visit path visitor state = .ok () next := by
  obtain ⟨bytes, decoded, read, decodes, visited⟩ := passes
  simp only [ClassUnit.visit, unit, read, Except.mapError, decodes, visited]

theorem Stops.visit (stops : placed.Stops path visitor state failure next) :
    placed.unit.visit path visitor state = .error failure next := by
  cases stops with
  | unread read => simp only [ClassUnit.visit, unit, read, Except.mapError]
  | undecoded read decodes => simp only [ClassUnit.visit, unit, read, Except.mapError, decodes]
  | refused read decodes visited =>
    simp only [ClassUnit.visit, unit, read, Except.mapError, decodes, visited]

theorem passes_or_stops (path : Path) (visitor : Visitor σ) (placed : PlacedUnit) (state : σ) :
    (∃ next, placed.Passes visitor state next) ∨
      ∃ failure next, placed.Stops path visitor state failure next := by
  cases read : placed.content with
  | error fault => exact .inr ⟨_, _, .unread read⟩
  | ok bytes =>
    cases decodes : ClassFile.ofBytes bytes.data.toList with
    | error fault => exact .inr ⟨_, _, .undecoded read decodes⟩
    | ok decoded =>
      cases visited : visitor placed.origin decoded state with
      | error fault next => exact .inr ⟨_, _, .refused read decodes visited⟩
      | ok _ next => exact .inl ⟨next, bytes, decoded, read, decodes, visited⟩

end PlacedUnit

/-! ## All units -/

inductive PassesAll (visitor : Visitor σ) : List PlacedUnit → σ → σ → Prop
  | nil {state : σ} : PassesAll visitor [] state state
  | cons {placed : PlacedUnit} {units : List PlacedUnit} {state between final : σ}
      (first : placed.Passes visitor state between) (rest : PassesAll visitor units between final) :
      PassesAll visitor (placed :: units) state final

def StopsAmong (path : Path) (visitor : Visitor σ) (units : List PlacedUnit) (start : σ)
    (failure : Failure) (final : σ) : Prop :=
  ∃ before placed rest between, units = before ++ placed :: rest ∧
    PassesAll visitor before start between ∧ placed.Stops path visitor between failure final

variable {units : List PlacedUnit} {start final : σ} {failure : Failure} {tree : FileTree}

theorem forM_of_passes {placed : PlacedUnit} {between : σ} {others : List ClassUnit}
    (passes : placed.Passes visitor start between) :
    (placed.unit :: others).forM (ClassUnit.visit path visitor) start =
      others.forM (ClassUnit.visit path visitor) between := by
  change EStateM.bind (placed.unit.visit path visitor)
    (fun _ => others.forM (ClassUnit.visit path visitor)) start = _
  rw [EStateM.bind, passes.visit]

theorem forM_of_stops {placed : PlacedUnit} {others : List ClassUnit}
    (stops : placed.Stops path visitor start failure final) :
    (placed.unit :: others).forM (ClassUnit.visit path visitor) start = .error failure final := by
  change EStateM.bind (placed.unit.visit path visitor)
    (fun _ => others.forM (ClassUnit.visit path visitor)) start = _
  rw [EStateM.bind, stops.visit]

theorem PassesAll.forM (passes : PassesAll visitor units start final) :
    (units.map PlacedUnit.unit).forM (ClassUnit.visit path visitor) start = .ok () final := by
  induction passes with
  | nil => rfl
  | cons first _ ih => exact (forM_of_passes first).trans ih

theorem StopsAmong.forM (stops : StopsAmong path visitor units start failure final) :
    (units.map PlacedUnit.unit).forM (ClassUnit.visit path visitor) start =
      .error failure final := by
  obtain ⟨before, placed, rest, between, rfl, passes, stops⟩ := stops
  rw [List.map_append, List.map_cons]
  induction passes with
  | nil => exact forM_of_stops stops
  | cons first _ ih => exact (forM_of_passes first).trans (ih stops)

theorem passesAll_or_stopsAmong (path : Path) (visitor : Visitor σ) (units : List PlacedUnit)
    (start : σ) : (∃ final, PassesAll visitor units start final) ∨
      ∃ failure final, StopsAmong path visitor units start failure final := by
  induction units generalizing start with
  | nil => exact .inl ⟨start, .nil⟩
  | cons placed units ih =>
    rcases placed.passes_or_stops path visitor start with
      ⟨between, first⟩ | ⟨failure, final, stops⟩
    · rcases ih between with ⟨final, rest⟩ | ⟨failure, final, stopsLater⟩
      · exact .inl ⟨final, .cons first rest⟩
      · obtain ⟨before, placed', rest, state, rfl, passes, stops⟩ := stopsLater
        exact .inr ⟨failure, final, placed :: before, placed', rest, state, rfl,
          .cons first passes, stops⟩
    · exact .inr ⟨failure, final, [], placed, units, start, rfl, .nil, stops⟩

theorem forM_eq_ok :
    (units.map PlacedUnit.unit).forM (ClassUnit.visit path visitor) start = .ok () final ↔
      PassesAll visitor units start final := by
  refine ⟨fun ran => ?_, PassesAll.forM⟩
  rcases passesAll_or_stopsAmong path visitor units start with ⟨final', passes⟩ | ⟨_, _, stops⟩
  · rw [passes.forM] at ran
    cases ran
    exact passes
  · rw [stops.forM] at ran
    cases ran

theorem forM_eq_error :
    (units.map PlacedUnit.unit).forM (ClassUnit.visit path visitor) start = .error failure final ↔
      StopsAmong path visitor units start failure final := by
  refine ⟨fun ran => ?_, StopsAmong.forM⟩
  rcases passesAll_or_stopsAmong path visitor units start with ⟨_, passes⟩ | ⟨_, _, stops⟩
  · rw [passes.forM] at ran
    cases ran
  · rw [stops.forM] at ran
    cases ran
    exact stops

/-! ## Which units there are -/

theorem Lists.unique {units' : List PlacedUnit} (lists : Lists limits path tree units)
    (lists' : Lists limits path tree units') : units = units' := by
  cases lists with
  | classFile ending =>
    cases lists' with
    | classFile => rfl
    | archive ending' => exact absurd ending ending'
  | archive ending opened =>
    cases lists' with
    | classFile ending' => exact absurd ending' ending
    | archive _ opened' =>
      rw [opened] at opened'
      cases opened'
      rfl
  | @directory _ files ordered listed =>
    cases lists' with
    | @directory _ files' ordered' listed' =>
      have distinct : files.Nodup := ordered.imp fun lower same => by simp [same] at lower
      have distinct' : files'.Nodup := ordered'.imp fun lower same => by simp [same] at lower
      have same : files.Perm files' := by
        rw [List.perm_ext_iff_of_nodup distinct distinct']
        exact fun file => (listed file.1 file.2).trans (listed' file.1 file.2).symm
      rw [same.eq_of_pairwise (fun _ _ _ _ lower higher => absurd lower (lt_asymm higher))
        ordered ordered']

theorem boundedContent_eq {content : ByteArray} :
    boundedContent limits path content =
      (PlacedUnit.bounded limits content).mapError (.malformed path none) := by
  unfold boundedContent PlacedUnit.bounded
  by_cases small : content.size ≤ limits.entryBytes
  · rw [if_neg (Nat.not_lt.mpr small), if_pos small]
    rfl
  · rw [if_pos (Nat.not_le.mp small), if_neg small]
    rfl

theorem classUnits_lists (proper : disk.root.Proper) (located : disk.find path = .ok tree)
    (opens : ∀ content, tree = .file content →
      path.extension? ≠ some UnitSource.classExtension →
      ∃ archive, Archive.ofBytes limits content = .ok archive)
    (walked : disk.isDirectory path = true → path.isStandardInput = false) :
    ∃ units, Lists limits path tree units ∧
      classUnits disk limits path = .ok (units.map PlacedUnit.unit) := by
  rw [classUnits_eq]
  cases tree with
  | directory entries =>
    have named : path.isStandardInput = false :=
      walked (by rw [FileSystem.isDirectory, located])
    have undotted : ∀ extension ∈ [UnitSource.classExtension], '.' ∉ extension.toList := by decide
    obtain ⟨files, found, ordered, listed⟩ :=
      FileSystem.withExtensions_directory proper located named undotted
    refine ⟨_, .directory ordered listed, ?_⟩
    simp only [located, found, bind, Except.bind, pure, Except.pure, List.map_map,
      boundedContent_eq]
    rfl
  | file content =>
    simp only [located]
    by_cases ending : path.extension? = some UnitSource.classExtension
    · refine ⟨_, .classFile ending, ?_⟩
      rw [if_pos ending, boundedContent_eq]
      rfl
    · obtain ⟨archive, opened⟩ := opens content rfl ending
      refine ⟨_, .archive ending opened, ?_⟩
      rw [if_neg ending, opened, List.map_map]
      rfl

/-- The units at a path are handed to a visitor in order. The first one that cannot be read within
the limits or decoded, or that the visitor refuses, ends the visit. -/
theorem visitClasses_visits (proper : disk.root.Proper) (located : disk.find path = .ok tree)
    (opens : ∀ content, tree = .file content →
      path.extension? ≠ some UnitSource.classExtension →
      ∃ archive, Archive.ofBytes limits content = .ok archive)
    (walked : disk.isDirectory path = true → path.isStandardInput = false) :
    ∃ units, Lists limits path tree units ∧ ∀ (visitor : Visitor σ) (start : σ),
      (∀ final, visitClasses disk limits path visitor start = .ok () final ↔
        PassesAll visitor units start final) ∧
      ∀ failure final, visitClasses disk limits path visitor start = .error failure final ↔
        StopsAmong path visitor units start failure final := by
  obtain ⟨units, lists, listed⟩ := classUnits_lists proper located opens walked
  refine ⟨units, lists, fun visitor start => ?_⟩
  simp only [visitClasses, listed]
  exact ⟨fun _ => forM_eq_ok, fun _ _ => forM_eq_error⟩

theorem visitClasses_standardInput (directory : disk.isDirectory path = true)
    (named : path.isStandardInput = true) :
    visitClasses disk limits path visitor start = .ok () start := by
  have listed : classUnits disk limits path = .ok [] := by
    rw [FileSystem.isDirectory] at directory
    rw [classUnits_eq]
    split at directory
    case h_1 entries located =>
      simp only [located, FileSystem.withExtensions, named, if_true]
      rfl
    case h_2 => cases directory
  rw [visitClasses, listed]
  rfl

namespace Small

theorem proper {output : String} {content : ByteArray} (isName : Path.IsName output)
    (other : output ≠ "L.class" ∧ output ≠ "M.class") : (files output content).root.Proper := by
  have plain : Path.IsName "A.class" ∧ Path.IsName "L.class" ∧ Path.IsName "M.class" := by
    decide
  refine .directory ?_ (by simp [other]) ?_
  · simp [isName, plain]
  · simp only [List.forall_mem_cons]
    refine ⟨.directory (by simp [plain]) (by simp) ?_, .file, .file, by simp⟩
    simp only [List.forall_mem_cons]
    exact ⟨.file, by simp⟩

theorem proper_output {content : ByteArray} : (files "o" content).root.Proper :=
  proper (by decide) (by decide)

theorem proper_dash {content : ByteArray} : (files "-" content).root.Proper :=
  proper (by decide) (by decide)

theorem lists_below (path : Path) (content : ByteArray) :
    Lists limits path (.directory [("A.class", .file content)])
      [.below limits path (["A.class"], content)] := by
  have whole : (FileTree.directory [("A.class", .file content)]).Proper := by
    have found := find_output content
    exact FileSystem.find_proper proper_output found
  have listed : ∀ names content', (names, content') ∈ [(["A.class"], content)] ↔
      (FileTree.directory [("A.class", .file content)]).under? names = some (.file content') ∧
        FileSystem.EndsIn [UnitSource.classExtension] names := by
    intro names content'
    constructor
    · intro member
      obtain ⟨⟩ := List.mem_singleton.mp member
      exact ⟨rfl, "A.class", rfl, "class", List.mem_singleton.mpr rfl, "A", by decide, by decide⟩
    · exact fun leads => (FileTree.mem_files whole).mpr leads.1
  exact Lists.directory (List.pairwise_singleton _ _) listed

end Small

theorem visitClasses_visits_small :
    (Small.files "o" (Small.classFile 65 76)).root.Proper ∧
      (Small.files "o" (Small.classFile 65 76)).find ⟨"o"⟩ =
        .ok (.directory [("A.class", .file (Small.classFile 65 76))]) ∧
      (⟨"o"⟩ : Path).isStandardInput = false ∧
      ∃ units, Lists {} ⟨"o"⟩ (.directory [("A.class", .file (Small.classFile 65 76))]) units ∧
        ∀ (visitor : Visitor (List String)) (start : List String),
          (∀ final, visitClasses (Small.files "o" (Small.classFile 65 76)) {} ⟨"o"⟩ visitor start =
              .ok () final ↔ PassesAll visitor units start final) ∧
          ∀ failure final,
            visitClasses (Small.files "o" (Small.classFile 65 76)) {} ⟨"o"⟩ visitor start =
              .error failure final ↔ StopsAmong ⟨"o"⟩ visitor units start failure final :=
  have located := Small.find_output (Small.classFile 65 76)
  have named : (⟨"o"⟩ : Path).isStandardInput = false := Path.isStandardInput_name (by decide)
  ⟨Small.proper_output, located, named,
    visitClasses_visits Small.proper_output located nofun fun _ => named⟩

def remember : Visitor (List String) := fun origin _ seen => .ok () (seen ++ [origin])

/-- The class in a directory that is called like standard input is not visited. -/
theorem visitClasses_passes_class :
    ∃ units, (Small.files "-" (Small.classFile 65 76)).root.Proper ∧
      (Small.files "-" (Small.classFile 65 76)).find ⟨"-"⟩ =
        .ok (.directory [("A.class", .file (Small.classFile 65 76))]) ∧
      Lists {} ⟨"-"⟩ (.directory [("A.class", .file (Small.classFile 65 76))]) units ∧
      PassesAll remember units [] ["A.class"] ∧
      visitClasses (Small.files "-" (Small.classFile 65 76)) {} ⟨"-"⟩ remember [] = .ok () [] := by
  refine ⟨_, Small.proper_dash, Small.find_dash _, Small.lists_below _ _, ?_, ?_⟩
  · have read : PlacedUnit.bounded {} (Small.classFile 65 76) = .ok (Small.classFile 65 76) :=
      if_pos (by decide)
    exact .cons ⟨_, _, read, Small.decodes_a, rfl⟩ .nil
  · exact visitClasses_standardInput (by rw [FileSystem.isDirectory, Small.find_dash])
      isStandardInput_dash

end Linkage
