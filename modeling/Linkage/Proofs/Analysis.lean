import Linkage.Module.Analysis
import Linkage.Proofs.Classpath
import Linkage.Proofs.FileTrees
import Linkage.Proofs.Misuse
import Linkage.Proofs.Surface
import Linkage.Proofs.Usage
import Mathlib.Data.List.Nodup

/-!
# What comes of analyzing a module

`Manifest.Analyzable` lists all that must be right for a module with compiled outputs to be analyzed;
if any of it is wrong, no report is made. What a report says about the dependencies is decided by the
symbols that the module needs (`Manifest.Needs`) and by who is the first on the classpath to define
them (`FirstDefines`).
-/

namespace Linkage

variable {disk : FileSystem} {config : Config} {manifest : Manifest}

namespace Manifest

def Owns (manifest : Manifest) (disk : FileSystem) (config : Config) (symbol : Symbol) : Prop :=
  ∃ output ∈ manifest.compiledOutputs, DefinesType disk config.limits output symbol

inductive Mentions (manifest : Manifest) (disk : FileSystem) (config : Config) (symbol : Symbol) :
    Prop
  | code {output : Path} (listed : output ∈ manifest.compiledOutputs)
      (refers : RefersTo disk config.limits output symbol)
  | stub {root : Path} (listed : root ∈ manifest.stubRoots)
      (found : Scan.FindsSymbol disk .stub config.scan.stubExtensions root symbol)
  | resource {root : Path} (scanned : manifest.flavor ≠ .plain)
      (listed : root ∈ manifest.resourceRoots)
      (found : Scan.FindsSymbol disk .pattern config.scan.resourceExtensions root symbol)

def Needs (manifest : Manifest) (disk : FileSystem) (config : Config) (symbol : Symbol) : Prop :=
  manifest.Mentions disk config symbol ∧ ¬ manifest.Owns disk config symbol

def OwnedBy (manifest : Manifest) (disk : FileSystem) (config : Config) (dependency : Dependency)
    (symbol : Symbol) : Prop :=
  FirstDefines disk config.limits manifest.misuseClasspath dependency symbol

/-- Whether a module names no compiled outputs, or one that is not there. -/
def LacksOutput (manifest : Manifest) (disk : FileSystem) : Prop :=
  manifest.compiledOutputs = [] ∨ ∃ output ∈ manifest.compiledOutputs, disk.contains output = false

structure Analyzable (manifest : Manifest) (disk : FileSystem) (config : Config) : Prop where
  outputs : ∀ output ∈ manifest.compiledOutputs, Readable disk config.limits output
  references : ∀ output ∈ manifest.compiledOutputs, ∀ unit,
    HoldsClass disk config.limits output unit → ∃ references, unit.references = .ok references
  stubs : ∀ root ∈ manifest.stubRoots,
    Scan.Bounded disk config.limits config.scan.stubExtensions root
  resources : manifest.flavor ≠ .plain → ∀ root ∈ manifest.resourceRoots,
    Scan.Bounded disk config.limits config.scan.resourceExtensions root
  artifacts : ∀ dependency ∈ manifest.compileClasspath ++ manifest.runtimeClasspath,
    Readable disk config.limits dependency.file
  distinctCompile : (manifest.compileClasspath.map Dependency.identity).Nodup
  distinctRuntime : (manifest.runtimeClasspath.map Dependency.identity).Nodup
  declarations : manifest.flavor ≠ .application → ∀ output ∈ manifest.compiledOutputs, ∀ unit,
    HoldsClass disk config.limits output unit → unit.definesType = true → unit.WellDeclared

end Manifest

/-! ## The parts of a report -/

theorem scanned_roots :
    manifest.usageSources.resourceRoots =
      if manifest.flavor ≠ .plain then manifest.resourceRoots else [] := by
  simp [Manifest.usageSources, Flavor.scansResources]

theorem mentions_usageSources {symbol : Symbol} :
    manifest.usageSources.Mentions disk config symbol ↔ manifest.Mentions disk config symbol := by
  unfold UsageSources.Mentions
  rw [scanned_roots]
  constructor
  · rintro (⟨output, listed, refers⟩ | ⟨root, listed, found⟩ | ⟨root, listed, found⟩)
    · exact .code listed refers
    · exact .stub listed found
    · by_cases scanned : manifest.flavor ≠ .plain
      · rw [if_pos scanned] at listed
        exact .resource scanned listed found
      · rw [if_neg scanned] at listed
        cases listed
  · rintro (⟨listed, refers⟩ | ⟨listed, found⟩ | ⟨scanned, listed, found⟩)
    · exact .inl ⟨_, listed, refers⟩
    · exact .inr (.inl ⟨_, listed, found⟩)
    · rw [if_pos scanned]
      exact .inr (.inr ⟨_, listed, found⟩)

theorem needed_computes :
    (usedSymbols disk config manifest.usageSources).Computes
      (manifest.usageSources.Readable disk config)
      fun used => ∀ symbol, symbol ∈ used ↔
        manifest.Needs disk config symbol ∧ symbol.isSynthetic = false := by
  refine usedSymbols_computes.mono Iff.rfl fun used given symbol => ?_
  rw [given, mentions_usageSources]
  rfl

theorem runtimeIndex_computes {compile : Index}
    (covers : compile.Covers disk config.limits manifest.compileClasspath) :
    (runtimeIndex disk config manifest compile).Computes
      ((∀ dependency ∈ manifest.runtimeClasspath, Readable disk config.limits dependency.file) ∧
        (manifest.runtimeClasspath.map Dependency.identity).Nodup)
      fun index => index.Covers disk config.limits manifest.misuseClasspath := by
  unfold runtimeIndex Manifest.misuseClasspath
  by_cases empty : manifest.runtimeClasspath.isEmpty = true
  · rw [if_pos empty, if_pos empty]
    rw [List.isEmpty_iff] at empty
    rw [empty]
    exact .pure (by simp) covers
  · rw [if_neg empty, if_neg empty]
    exact indexClasspath_computes

def AbiReport.Reflects (abi : AbiReport) (disk : FileSystem) (config : Config) (outputs : List Path)
    (index : Index) : Prop :=
  ∃ classes candidates, (∀ unit, unit ∈ classes ↔ Held disk config outputs unit) ∧
    Candidates.ofClasses classes = .ok candidates ∧
    AbiReport.ofSurface (candidates.surface config.abi) (some index) = abi

theorem moduleAbi_computes {index : Index} :
    (moduleAbi disk config manifest index).Computes
      (manifest.flavor ≠ .application → ∀ output ∈ manifest.compiledOutputs,
        Readable disk config.limits output ∧ ∀ unit, HoldsClass disk config.limits output unit →
          unit.definesType = true → unit.WellDeclared)
      fun abi => manifest.flavor ≠ .application → ∃ report, abi = some report ∧
        report.Reflects disk config manifest.compiledOutputs index := by
  unfold moduleAbi
  by_cases flavor : manifest.flavor = .application
  · rw [if_neg (by simp [flavor, Flavor.hasAbi])]
    exact .pure (fun other => absurd flavor other) fun other => absurd flavor other
  · rw [if_pos (by simp [flavor, Flavor.hasAbi])]
    refine (analyzeAbi_computes.map (f := some)).mono ?_ ?_
    · exact ⟨fun holds _ => holds, fun holds => holds flavor⟩
    · rintro _ ⟨report, reflects, rfl⟩ _
      exact ⟨report, rfl, reflects⟩

theorem moduleMisuse_computes {index : Index} {used : SymbolSet} :
    (moduleMisuse config manifest index used).Computes True
      fun misuse => ∃ graph, misuse = Misuse.ofUse config.misuse index used graph :=
  ((Run.Computes.pure trivial ⟨_, rfl⟩).after_note _).after_note _

structure ModuleReport.Reflects (report : ModuleReport) (disk : FileSystem) (config : Config)
    (manifest : Manifest) (compileIndex misuseIndex : Index) : Prop where
  used : ∀ symbol, symbol ∈ report.usedSymbols ↔
    manifest.Needs disk config symbol ∧ symbol.isSynthetic = false
  compileCovers : compileIndex.Covers disk config.limits manifest.compileClasspath
  misuseCovers : misuseIndex.Covers disk config.limits manifest.misuseClasspath
  misuse : ∃ graph,
    report.misuse = Misuse.ofUse config.misuse misuseIndex report.usedSymbols graph
  abi : manifest.flavor ≠ .application → ∃ abi, report.abi = some abi ∧
    abi.Reflects disk config manifest.compiledOutputs compileIndex

def ModuleReport.Judges (report : ModuleReport) (disk : FileSystem) (config : Config)
    (manifest : Manifest) : Prop :=
  ∃ used index graph,
    (∀ symbol, symbol ∈ used ↔
      manifest.Needs disk config symbol ∧ symbol.isSynthetic = false) ∧
    index.Covers disk config.limits manifest.misuseClasspath ∧
    report.misuse = Misuse.ofUse config.misuse index used graph

theorem analyzable_iff :
    manifest.Analyzable disk config ↔
      manifest.usageSources.Readable disk config ∧
      ((∀ dependency ∈ manifest.compileClasspath, Readable disk config.limits dependency.file) ∧
        (manifest.compileClasspath.map Dependency.identity).Nodup) ∧
      ((∀ dependency ∈ manifest.runtimeClasspath, Readable disk config.limits dependency.file) ∧
        (manifest.runtimeClasspath.map Dependency.identity).Nodup) ∧
      (manifest.flavor ≠ .application → ∀ output ∈ manifest.compiledOutputs,
        Readable disk config.limits output ∧ ∀ unit, HoldsClass disk config.limits output unit →
          unit.definesType = true → unit.WellDeclared) := by
  constructor
  · intro good
    refine ⟨⟨good.outputs, good.references, good.stubs, ?_⟩, ⟨?_, good.distinctCompile⟩,
      ⟨?_, good.distinctRuntime⟩, ?_⟩
    · rw [scanned_roots]
      by_cases scanned : manifest.flavor ≠ .plain
      · rw [if_pos scanned]
        exact good.resources scanned
      · rw [if_neg scanned]
        exact nofun
    · exact fun dependency listed => good.artifacts dependency (List.mem_append_left _ listed)
    · exact fun dependency listed => good.artifacts dependency (List.mem_append_right _ listed)
    · exact fun flavor output listed =>
        ⟨good.outputs output listed, good.declarations flavor output listed⟩
  · rintro ⟨sources, ⟨compile, distinctCompile⟩, ⟨runtime, distinctRuntime⟩, surface⟩
    refine ⟨sources.outputs, sources.references, sources.stubs, ?_, ?_, distinctCompile,
      distinctRuntime, fun flavor output listed => (surface flavor output listed).2⟩
    · intro scanned
      have resources := sources.resources
      rwa [scanned_roots, if_pos scanned] at resources
    · intro dependency listed
      rcases List.mem_append.mp listed with listed | listed
      · exact compile dependency listed
      · exact runtime dependency listed

theorem reportModule_computes :
    (reportModule disk config manifest).Computes (manifest.Analyzable disk config)
      fun report => ∃ compileIndex misuseIndex,
        report.Reflects disk config manifest compileIndex misuseIndex := by
  have need : (usedSymbols disk config manifest.usageSources).Computes _ _ := needed_computes
  have compile : (indexClasspath disk config.limits manifest.compileClasspath).Computes _ _ :=
    indexClasspath_computes
  have judge (index : Index) (used : SymbolSet) :
      (moduleMisuse config manifest index used).Computes _ _ := moduleMisuse_computes
  have surface (index : Index) : (moduleAbi disk config manifest index).Computes _ _ :=
    moduleAbi_computes
  have steps := need.bind fun used needed => compile.bind fun compiled covers =>
    (runtimeIndex_computes covers).bind fun runtime covers' =>
    (judge runtime used).bind fun misuse judged =>
    (surface compiled).mapNoted
      (fun abi => ({
        modulePath := manifest.modulePath, variant := manifest.variant, flavor := manifest.flavor
        usedSymbols := used
        compileArtifacts := ArtifactsReport.ofIndex compiled
        runtimeArtifacts := ArtifactsReport.ofIndex runtime
        misuse, abi } : ModuleReport))
      (fun _ => .moduleAnalyzed manifest.modulePath manifest.variant used.size
        misuse.unusedDirect.length misuse.usedTransitive.length)
  refine steps.mono ?_ ?_
  · rw [analyzable_iff, true_and]
  · rintro _ ⟨used, needed, compile, covers, runtime, covers', _, misuse, abi, surface, rfl⟩
    exact ⟨compile, runtime, needed, covers, covers', misuse, surface⟩

theorem missingOutput?_isSome :
    (∃ reason, manifest.missingOutput? disk = some reason) ↔ manifest.LacksOutput disk := by
  unfold Manifest.missingOutput? Manifest.LacksOutput
  by_cases none : manifest.compiledOutputs.isEmpty = true
  · rw [if_pos none]
    exact ⟨fun _ => .inl (List.isEmpty_iff.mp none), fun _ => ⟨_, rfl⟩⟩
  · rw [if_neg none]
    rw [List.isEmpty_iff] at none
    simp [none, Option.isSome_iff_exists.symm, List.find?_isSome]

theorem analyzeModule_skips {reason : String} (missing : manifest.missingOutput? disk = some reason)
    (events : List Event) : analyzeModule disk config manifest events =
      .ok (.skipped manifest.modulePath manifest.variant reason)
        (events ++ [.moduleSkipped manifest.modulePath manifest.variant reason]) := by
  unfold analyzeModule
  rw [missing]
  rfl

theorem analyzeModule_reports (present : manifest.missingOutput? disk = none) :
    analyzeModule disk config manifest =
      (reportModule disk config manifest >>= fun report => pure (.analyzed report)) := by
  unfold analyzeModule
  rw [present]

theorem analyzed_of_analyzable (present : ¬ manifest.LacksOutput disk)
    (good : manifest.Analyzable disk config) (events : List Event) :
    ∃ report later, analyzeModule disk config manifest events = .ok (.analyzed report) later := by
  obtain ⟨report, later, ran⟩ := (reportModule_computes.ok_iff events).mpr good
  rw [← missingOutput?_isSome, ← Option.isSome_iff_exists, Option.not_isSome_iff_eq_none] at present
  refine ⟨report, later, ?_⟩
  rw [analyzeModule_reports present]
  change EStateM.bind (reportModule disk config manifest) _ events = _
  rw [EStateM.bind, ran]
  rfl

section Judging

variable {classpath : List Dependency} {artifact : Artifact} {dependency : Dependency}
  {used : SymbolSet} {index : Index} {symbol : Symbol}

theorem FirstDefines.mem_classpath
    (owned : FirstDefines disk config.limits classpath dependency symbol) :
    dependency ∈ classpath ∧ DefinesType disk config.limits dependency.file symbol := by
  obtain ⟨before, after, rfl, defines, -⟩ := owned
  exact ⟨List.mem_append_right _ (.head _), defines.1⟩

theorem FirstDefines.genuine
    (owned : FirstDefines disk config.limits classpath dependency symbol) :
    symbol.isSynthetic = false := by
  obtain ⟨before, after, -, defines, -⟩ := owned
  exact defines.2

theorem StandsFor.mem_used (stands : StandsFor disk config.limits classpath artifact dependency)
    (needed : ∀ symbol, symbol ∈ used ↔
      manifest.Needs disk config symbol ∧ symbol.isSynthetic = false) :
    symbol ∈ artifact.symbols ∧ symbol ∈ used ↔
      FirstDefines disk config.limits classpath dependency symbol ∧
        manifest.Needs disk config symbol := by
  rw [stands.symbols, needed]
  constructor
  · rintro ⟨owned, needs, -⟩
    exact ⟨owned, needs⟩
  · rintro ⟨owned, needs⟩
    exact ⟨owned, needs, owned.genuine⟩

theorem StandsFor.canonical (stands : StandsFor disk config.limits classpath artifact dependency) :
    artifact.canonical = dependency.identity.canonical :=
  congrArg Identity.canonical stands.identity

theorem Index.Covers.standsFor (covers : index.Covers disk config.limits classpath)
    (distinct : (classpath.map fun dependency => dependency.identity.canonical).Nodup)
    (listed : artifact ∈ index.artifacts) (member : dependency ∈ classpath)
    (same : artifact.canonical = dependency.identity.canonical) :
    StandsFor disk config.limits classpath artifact dependency := by
  obtain ⟨other, member', stands⟩ := covers.sound artifact listed
  have equal := List.inj_on_of_nodup_map distinct member' member (stands.canonical.symm.trans same)
  exact equal ▸ stands

theorem allowsUnused_eq_false {canonical : String} :
    config.misuse.allowsUnused canonical = false ↔
      ∀ pattern ∈ config.misuse.allowUnused, MisuseConfig.covers pattern canonical = false := by
  rw [MisuseConfig.allowsUnused, List.any_eq_false]
  simp only [Bool.not_eq_true]

theorem StandsFor.unusedDirect (stands : StandsFor disk config.limits classpath artifact dependency)
    (needed : ∀ symbol, symbol ∈ used ↔
      manifest.Needs disk config symbol ∧ symbol.isSynthetic = false) :
    artifact.standing config.misuse used = .unusedDirect ↔ dependency.declaration = .direct ∧
      (∃ symbol, FirstDefines disk config.limits classpath dependency symbol) ∧
      (∀ symbol, FirstDefines disk config.limits classpath dependency symbol →
        ¬ manifest.Needs disk config symbol) ∧
      ∀ pattern ∈ config.misuse.allowUnused,
        MisuseConfig.covers pattern dependency.identity.canonical = false := by
  have unneeded : (∀ symbol ∈ artifact.symbols, symbol ∉ used) ↔
      ∀ symbol, FirstDefines disk config.limits classpath dependency symbol →
        ¬ manifest.Needs disk config symbol :=
    forall_congr' fun symbol => by rw [← not_and, ← not_and, stands.mem_used needed]
  rw [standing_unusedDirect, unneeded, stands.declaration, stands.canonical, allowsUnused_eq_false]
  simp only [stands.symbols]

variable {graph : DependencyGraph}

theorem mem_unusedDirect (covers : index.Covers disk config.limits classpath)
    (distinct : (classpath.map fun dependency => dependency.identity.canonical).Nodup)
    (needed : ∀ symbol, symbol ∈ used ↔
      manifest.Needs disk config symbol ∧ symbol.isSynthetic = false)
    (member : dependency ∈ classpath) :
    dependency.identity.canonical ∈ (Misuse.ofUse config.misuse index used graph).unusedDirect ↔
      dependency.declaration = .direct ∧
      (∃ symbol, FirstDefines disk config.limits classpath dependency symbol) ∧
      (∀ symbol, FirstDefines disk config.limits classpath dependency symbol →
        ¬ manifest.Needs disk config symbol) ∧
      ∀ pattern ∈ config.misuse.allowUnused,
        MisuseConfig.covers pattern dependency.identity.canonical = false := by
  refine mem_listed.trans ?_
  constructor
  · rintro ⟨artifact, listed, standing, same⟩
    exact ((covers.standsFor distinct listed member same).unusedDirect needed).mp standing
  · intro holds
    obtain ⟨artifact, listed, stands⟩ := covers.complete dependency member
    exact ⟨artifact, listed, (stands.unusedDirect needed).mpr holds, stands.canonical⟩

theorem usedTransitive_sound (covers : index.Covers disk config.limits classpath)
    (needed : ∀ symbol, symbol ∈ used ↔
      manifest.Needs disk config symbol ∧ symbol.isSynthetic = false)
    {use : TransitiveUse}
    (entered : use ∈ (Misuse.ofUse config.misuse index used graph).usedTransitive) :
    ∃ dependency ∈ classpath, dependency.declaration = .transitive ∧
      dependency.identity.canonical = use.identity ∧
      (∃ symbol, symbol ∈ use.symbols) ∧ use.symbols.Pairwise (· < ·) ∧
      ∀ symbol, symbol ∈ use.symbols ↔
        FirstDefines disk config.limits classpath dependency symbol ∧
          manifest.Needs disk config symbol := by
  obtain ⟨artifact, listed, found⟩ := mem_usedTransitive.mp entered
  obtain ⟨dependency, member, stands⟩ := covers.sound artifact listed
  obtain ⟨transitive, some, owned, inUse⟩ := transitiveUse?_isSome.mp ⟨use, found⟩
  obtain ⟨identity, symbols⟩ := transitiveUse?_eq_some found
  have symbols_iff (symbol : Symbol) : symbol ∈ use.symbols ↔
      FirstDefines disk config.limits classpath dependency symbol ∧
        manifest.Needs disk config symbol := by
    rw [symbols, ← SymbolSet.mem_def, SymbolSet.mem_inter, stands.mem_used needed]
  refine ⟨dependency, member, ?_, ?_, ⟨some, ?_⟩, ?_, symbols_iff⟩
  · rw [← stands.declaration, transitive]
  · rw [identity, stands.canonical]
  · rw [symbols_iff, ← stands.mem_used needed]
    exact ⟨owned, inUse⟩
  · rw [symbols]
    exact SymbolSet.ascending _

theorem usedTransitive_complete (covers : index.Covers disk config.limits classpath)
    (needed : ∀ symbol, symbol ∈ used ↔
      manifest.Needs disk config symbol ∧ symbol.isSynthetic = false)
    (member : dependency ∈ classpath) (transitive : dependency.declaration = .transitive)
    (owned : FirstDefines disk config.limits classpath dependency symbol)
    (needs : manifest.Needs disk config symbol) :
    ∃ use ∈ (Misuse.ofUse config.misuse index used graph).usedTransitive,
      use.identity = dependency.identity.canonical := by
  obtain ⟨artifact, listed, stands⟩ := covers.complete dependency member
  have inUse := (stands.mem_used needed).mpr ⟨owned, needs⟩
  obtain ⟨use, found⟩ : ∃ use, Misuse.transitiveUse? config.misuse used graph artifact = some use :=
    transitiveUse?_isSome.mpr ⟨stands.declaration.trans transitive, symbol, inUse⟩
  refine ⟨use, mem_usedTransitive.mpr ⟨artifact, listed, found⟩, ?_⟩
  rw [(transitiveUse?_eq_some found).1, stands.canonical]

end Judging

section Analyzed

variable {report : ModuleReport} {events later : List Event}

theorem reported_of_analyzed
    (ran : analyzeModule disk config manifest events = .ok (.analyzed report) later) :
    reportModule disk config manifest events = .ok report later := by
  cases missing : manifest.missingOutput? disk with
  | some reason =>
    rw [analyzeModule_skips missing] at ran
    cases ran
  | none =>
    rw [analyzeModule_reports missing] at ran
    change EStateM.bind (reportModule disk config manifest) _ events = _ at ran
    rw [EStateM.bind] at ran
    cases reported : reportModule disk config manifest events with
    | error failure between =>
      rw [reported] at ran
      cases ran
    | ok given between =>
      rw [reported] at ran
      cases ran
      rfl

theorem analyzable_of_analyzed
    (ran : analyzeModule disk config manifest events = .ok (.analyzed report) later) :
    manifest.Analyzable disk config :=
  (reportModule_computes.ok_iff events).mp ⟨report, later, reported_of_analyzed ran⟩

theorem reflects_of_analyzed
    (ran : analyzeModule disk config manifest events = .ok (.analyzed report) later) :
    ∃ compileIndex misuseIndex,
      report.Reflects disk config manifest compileIndex misuseIndex :=
  reportModule_computes.holds (reported_of_analyzed ran)

theorem judges_of_analyzed
    (ran : analyzeModule disk config manifest events = .ok (.analyzed report) later) :
    report.Judges disk config manifest := by
  obtain ⟨compileIndex, misuseIndex, reflects⟩ := reflects_of_analyzed ran
  obtain ⟨graph, misuse⟩ := reflects.misuse
  exact ⟨report.usedSymbols, misuseIndex, graph, reflects.used, reflects.misuseCovers, misuse⟩

end Analyzed

/-! ## A small module

The module's only class `A` extends `L`, which a transitive dependency defines. The direct dependency
defines `M`, which nothing mentions.
-/

namespace Small

/-- A class file that only names a class and its superclass, each by one letter. -/
def classFile (name parent : UInt8) : ByteArray :=
  ⟨#[0xCA, 0xFE, 0xBA, 0xBE, 0, 0, 0, 52, 0, 5, 1, 0, 1, name, 7, 0, 1, 1, 0, 1, parent, 7, 0, 3,
    0, 0x21, 0, 2, 0, 4, 0, 0, 0, 0, 0, 0, 0, 0]⟩

def unit (name parent : String) : ClassFile where
  minor := 0
  major := 52
  pool := ⟨#[none, some (.utf8 name), some (.classInfo 1), some (.utf8 parent), some (.classInfo 3)]⟩
  flags := ⟨0x21⟩
  thisClass := name
  superClass := some parent
  interfaces := []
  fields := []
  methods := []
  attributes := []

def files (output : String) (content : ByteArray) : FileSystem :=
  ⟨.directory [(output, .directory [("A.class", .file content)]),
    ("L.class", .file (classFile 76 79)), ("M.class", .file (classFile 77 79))], []⟩

def libraryL : Dependency := ⟨.library "g" "l" "", ⟨"L.class"⟩, .transitive, []⟩

def libraryM : Dependency := ⟨.library "g" "m" "", ⟨"M.class"⟩, .direct, []⟩

def app (output : String) : Manifest where
  modulePath := ":app"
  flavor := .application
  compiledOutputs := [⟨output⟩]
  compileClasspath := [libraryL, libraryM]

variable {limits : Limits} {output : String} {content : ByteArray}

theorem decodes_a : ClassFile.ofBytes (classFile 65 76).data.toList = .ok (unit "A" "L") := by
  decide +kernel

theorem decodes_libraries :
    ClassFile.ofBytes (classFile 76 79).data.toList = .ok (unit "L" "O") ∧
      ClassFile.ofBytes (classFile 77 79).data.toList = .ok (unit "M" "O") := by
  decide +kernel

theorem references_a : (unit "A" "L").references = .ok ["A", "L"] := by decide +kernel

theorem find_output (content : ByteArray) :
    (files "o" content).find ⟨"o"⟩ = .ok (.directory [("A.class", .file content)]) :=
  FileSystem.find_name (by decide) rfl

theorem find_dash (content : ByteArray) :
    (files "-" content).find ⟨"-"⟩ = .ok (.directory [("A.class", .file content)]) :=
  FileSystem.find_name (by decide) rfl

theorem find_libraries (member : output = "o" ∨ output = "-") :
    (files output content).find ⟨"L.class"⟩ = .ok (.file (classFile 76 79)) ∧
      (files output content).find ⟨"M.class"⟩ = .ok (.file (classFile 77 79)) := by
  rcases member with rfl | rfl
  · exact ⟨FileSystem.find_name (by decide) rfl, FileSystem.find_name (by decide) rfl⟩
  · exact ⟨FileSystem.find_name (by decide) rfl, FileSystem.find_name (by decide) rfl⟩

theorem extensions : (⟨"L.class"⟩ : Path).extension? = some UnitSource.classExtension ∧
    (⟨"M.class"⟩ : Path).extension? = some UnitSource.classExtension :=
  ⟨(Path.extension?_name (by decide) (by decide)).mpr ⟨"L", by decide, rfl⟩,
    (Path.extension?_name (by decide) (by decide)).mpr ⟨"M", by decide, rfl⟩⟩

theorem finds_output {found : FileSystem.Found} :
    (files "o" content).Finds ⟨"o"⟩ [UnitSource.classExtension] found ↔
      found = ⟨⟨"o/A.class"⟩, ["A.class"], content⟩ := by
  have joined : ["A.class"].foldl (fun path name => path.join ⟨name⟩) (⟨"o"⟩ : Path) =
      ⟨"o/A.class"⟩ := by decide +kernel
  have ending : (Path.below ⟨"o"⟩ ["A.class"]).extension? = some "class" :=
    (Path.extension?_below (by decide) (by decide) rfl (by decide)).mpr ⟨"A", by decide, rfl⟩
  unfold FileSystem.Finds
  rw [find_output]
  obtain ⟨path, below, bytes⟩ := found
  constructor
  · rintro ⟨-, _, ⟨⟩, member, located, -⟩
    cases List.mem_singleton.mp member
    rw [joined] at located
    cases located
    rfl
  · rintro ⟨⟩
    exact ⟨Path.isStandardInput_name (by decide), _, rfl, List.mem_singleton.mpr rfl,
      joined.symm, "class", List.mem_singleton.mpr rfl, joined ▸ ending⟩

theorem holdsClass_output {held : ClassFile} :
    HoldsClass (files "o" (classFile 65 76)) {} ⟨"o"⟩ held ↔ held = unit "A" "L" := by
  rw [holdsClass_directory (find_output _)]
  simp only [finds_output, exists_eq_left, decodes_a, Except.ok.injEq]
  exact ⟨fun holds => holds.2.symm, fun same => ⟨by decide, same.symm⟩⟩

theorem not_holdsClass_dash {held : ClassFile} :
    ¬ HoldsClass (files "-" content) limits ⟨"-"⟩ held := by
  rw [holdsClass_directory (find_dash _)]
  rintro ⟨found, finds, -⟩
  exact not_finds_dash finds

theorem holdsClass_l (named : output = "o" ∨ output = "-") {held : ClassFile} :
    HoldsClass (files output content) {} ⟨"L.class"⟩ held ↔ held = unit "L" "O" := by
  rw [holdsClass_classFile (find_libraries named).1 extensions.1, decodes_libraries.1,
    Except.ok.injEq]
  exact ⟨fun holds => holds.2.symm, fun same => ⟨by decide, same.symm⟩⟩

theorem holdsClass_m (named : output = "o" ∨ output = "-") {held : ClassFile} :
    HoldsClass (files output content) {} ⟨"M.class"⟩ held ↔ held = unit "M" "O" := by
  rw [holdsClass_classFile (find_libraries named).2 extensions.2, decodes_libraries.2,
    Except.ok.injEq]
  exact ⟨fun holds => holds.2.symm, fun same => ⟨by decide, same.symm⟩⟩

theorem analyzable (named : output = "o" ∨ output = "-")
    (readable : Readable (files output content) {} ⟨output⟩)
    (references : ∀ held, HoldsClass (files output content) {} ⟨output⟩ held →
      ∃ references, held.references = .ok references) :
    (app output).Analyzable (files output content) {} where
  outputs := by
    intro _ listed
    cases List.mem_singleton.mp listed
    exact readable
  references := by
    intro _ listed
    cases List.mem_singleton.mp listed
    exact references
  stubs := nofun
  resources _ := nofun
  artifacts := by
    have l : Readable (files output content) {} libraryL.file :=
      (readable_classFile (find_libraries named).1 extensions.1).mpr
        ⟨by decide, unit "L" "O", decodes_libraries.1⟩
    have m : Readable (files output content) {} libraryM.file :=
      (readable_classFile (find_libraries named).2 extensions.2).mpr
        ⟨by decide, unit "M" "O", decodes_libraries.2⟩
    simp only [app, List.append_nil, List.forall_mem_cons]
    exact ⟨l, m, nofun⟩
  distinctCompile := show ([libraryL, libraryM].map Dependency.identity).Nodup by decide
  distinctRuntime := .nil
  declarations := fun other => absurd rfl other

theorem analyzable_output : (app "o").Analyzable (files "o" (classFile 65 76)) {} := by
  apply analyzable (.inl rfl)
  · rw [readable_directory (find_output _)]
    intro found finds
    cases finds_output.mp finds
    exact ⟨by decide, unit "A" "L", decodes_a⟩
  · intro held holds
    rw [holdsClass_output.mp holds]
    exact ⟨_, references_a⟩

theorem analyzable_dash : (app "-").Analyzable (files "-" content) {} := by
  apply analyzable (.inr rfl)
  · rw [readable_directory (find_dash _)]
    exact fun found finds => absurd finds not_finds_dash
  · exact fun held holds => absurd holds not_holdsClass_dash

theorem not_lacksOutput {tree : FileTree}
    (located : (files output content).find ⟨output⟩ = .ok tree) :
    ¬ (app output).LacksOutput (files output content) := by
  rintro (none | ⟨_, listed, missing⟩)
  · cases none
  · cases List.mem_singleton.mp listed
    rw [FileSystem.contains_iff.mpr ⟨tree, located⟩] at missing
    cases missing

variable {symbol : Symbol}

theorem defines_l (named : output = "o" ∨ output = "-") :
    Defines (files output content) {} ⟨"L.class"⟩ symbol ↔ symbol = ⟨"L"⟩ := by
  unfold Defines DefinesType
  simp only [holdsClass_l named, exists_eq_left]
  constructor
  · rintro ⟨⟨-, rfl⟩, -⟩
    exact Symbol.ofInternal_of_notMem (by decide)
  · rintro rfl
    exact ⟨⟨rfl, Symbol.ofInternal_of_notMem (by decide)⟩, by decide⟩

theorem defines_m (named : output = "o" ∨ output = "-") :
    Defines (files output content) {} ⟨"M.class"⟩ symbol ↔ symbol = ⟨"M"⟩ := by
  unfold Defines DefinesType
  simp only [holdsClass_m named, exists_eq_left]
  constructor
  · rintro ⟨⟨-, rfl⟩, -⟩
    exact Symbol.ofInternal_of_notMem (by decide)
  · rintro rfl
    exact ⟨⟨rfl, Symbol.ofInternal_of_notMem (by decide)⟩, by decide⟩

theorem ownedBy_l (named : output = "o" ∨ output = "-") :
    (app output).OwnedBy (files output content) {} libraryL symbol ↔ symbol = ⟨"L"⟩ := by
  constructor
  · rintro ⟨before, after, -, defines, -⟩
    exact (defines_l named).mp defines
  · rintro rfl
    exact ⟨[], [libraryM], rfl, (defines_l named).mpr rfl, nofun⟩

theorem ownedBy_m (named : output = "o" ∨ output = "-") :
    (app output).OwnedBy (files output content) {} libraryM symbol ↔ symbol = ⟨"M"⟩ := by
  constructor
  · rintro ⟨before, after, -, defines, -⟩
    exact (defines_m named).mp defines
  · rintro rfl
    refine ⟨[libraryL], [], rfl, (defines_m named).mpr rfl, ?_⟩
    intro earlier listed defines
    cases List.mem_singleton.mp listed
    exact absurd ((defines_l named).mp defines) (by decide)

theorem owns_output :
    (app "o").Owns (files "o" (classFile 65 76)) {} symbol ↔ symbol = ⟨"A"⟩ := by
  unfold Manifest.Owns DefinesType
  change (∃ output ∈ [⟨"o"⟩], ∃ held, HoldsClass (files "o" (classFile 65 76)) {} output held ∧ _) ↔ _
  simp only [List.mem_singleton, exists_eq_left, holdsClass_output]
  constructor
  · rintro ⟨-, rfl⟩
    exact Symbol.ofInternal_of_notMem (by decide)
  · rintro rfl
    exact ⟨rfl, Symbol.ofInternal_of_notMem (by decide)⟩

theorem refersTo_output :
    RefersTo (files "o" (classFile 65 76)) {} ⟨"o"⟩ symbol ↔ symbol = ⟨"A"⟩ ∨ symbol = ⟨"L"⟩ := by
  unfold RefersTo
  simp only [holdsClass_output]
  constructor
  · rintro ⟨_, references, rfl, opened, name, member, rfl⟩
    rw [references_a] at opened
    cases opened
    revert name
    decide +kernel
  · rintro (rfl | rfl)
    · exact ⟨_, _, rfl, references_a, "A", by decide, Symbol.ofInternal_of_notMem (by decide)⟩
    · exact ⟨_, _, rfl, references_a, "L", by decide, Symbol.ofInternal_of_notMem (by decide)⟩

theorem mentions_output :
    (app "o").Mentions (files "o" (classFile 65 76)) {} symbol ↔ symbol = ⟨"A"⟩ ∨ symbol = ⟨"L"⟩ := by
  rw [← refersTo_output]
  constructor
  · rintro (⟨listed, refers⟩ | ⟨listed, -⟩ | ⟨-, listed, -⟩)
    · cases List.mem_singleton.mp listed
      exact refers
    · cases listed
    · cases listed
  · intro refers
    have listed : (⟨"o"⟩ : Path) ∈ (app "o").compiledOutputs := List.mem_singleton.mpr rfl
    exact .code listed refers

theorem needs_output :
    (app "o").Needs (files "o" (classFile 65 76)) {} symbol ↔ symbol = ⟨"L"⟩ := by
  rw [Manifest.Needs, mentions_output, owns_output]
  constructor
  · rintro ⟨rfl | rfl, other⟩
    · exact absurd rfl other
    · rfl
  · rintro rfl
    decide

theorem not_needs_dash : ¬ (app "-").Needs (files "-" content) {} symbol := by
  rintro ⟨⟨listed, refers⟩ | ⟨listed, -⟩ | ⟨-, listed, -⟩, -⟩
  · cases List.mem_singleton.mp listed
    obtain ⟨held, _, holds, -⟩ := refers
    exact not_holdsClass_dash holds
  · cases listed
  · cases listed

end Small

/-- A module is skipped if it has no outputs yet, whatever else is wrong. Otherwise it is analyzed if
all that the analysis reads is right, and the analysis fails if any of it is not. -/
theorem analyzeModule_outcome (disk : FileSystem) (config : Config) (manifest : Manifest)
    (events : List Event) :
    ((∃ reason later, analyzeModule disk config manifest events =
        .ok (.skipped manifest.modulePath manifest.variant reason) later) ↔
      manifest.LacksOutput disk) ∧
    ((∃ report later, analyzeModule disk config manifest events =
        .ok (.analyzed report) later) ↔
      ¬ manifest.LacksOutput disk ∧ manifest.Analyzable disk config) ∧
    ((∃ failure later, analyzeModule disk config manifest events = .error failure later) ↔
      ¬ manifest.LacksOutput disk ∧ ¬ manifest.Analyzable disk config) := by
  rw [← missingOutput?_isSome]
  cases missing : manifest.missingOutput? disk with
  | some reason =>
    rw [analyzeModule_skips missing]
    simp
  | none =>
    rw [analyzeModule_reports missing]
    have steps : (reportModule disk config manifest).Computes _ _ := reportModule_computes
    have report := steps.map (f := ModuleOutcome.analyzed)
    refine ⟨⟨?_, nofun⟩, ?_, ?_⟩
    · rintro ⟨reason, later, ran⟩
      obtain ⟨_, -, ⟨⟩⟩ := report.holds ran
    · simp only [reduceCtorEq, exists_false, not_false_eq_true, true_and]
      rw [← report.ok_iff events]
      constructor
      · rintro ⟨_, later, ran⟩
        exact ⟨_, later, ran⟩
      · rintro ⟨outcome, later, ran⟩
        obtain ⟨given, -, rfl⟩ := report.holds ran
        exact ⟨given, later, ran⟩
    · simp only [reduceCtorEq, exists_false, not_false_eq_true, true_and]
      exact report.error_iff events

/-- A directory that is called like standard input is passed over, and so the broken class in it. -/
theorem analyzeModule_passes_broken_class :
    (Small.files "-" ⟨#[0]⟩).find ⟨"-"⟩ = .ok (.directory [("A.class", .file ⟨#[0]⟩)]) ∧
    (∀ held, ClassFile.ofBytes [0] ≠ .ok held) ∧
    ∃ report later, analyzeModule (Small.files "-" ⟨#[0]⟩) {} (Small.app "-") [] =
      .ok (.analyzed report) later := by
  refine ⟨Small.find_dash _, ?_, ?_⟩
  · intro held decodes
    cases decodes
  · exact analyzed_of_analyzable (Small.not_lacksOutput (Small.find_dash _)) Small.analyzable_dash []

/-- A direct dependency is reported as unused if it owns something and the module needs nothing of
it, unless it may go unused; a transitive one is reported with all that the module needs of it. -/
theorem analyzeModule_misuse {report : ModuleReport} {events later : List Event}
    (ran : analyzeModule disk config manifest events = .ok (.analyzed report) later)
    (distinct : (manifest.misuseClasspath.map fun dependency =>
      dependency.identity.canonical).Nodup)
    {dependency : Dependency} (member : dependency ∈ manifest.misuseClasspath) :
    (dependency.declaration = .direct →
      (dependency.identity.canonical ∈ report.misuse.unusedDirect ↔
        (∃ symbol, manifest.OwnedBy disk config dependency symbol) ∧
        (∀ symbol, manifest.OwnedBy disk config dependency symbol →
          ¬ manifest.Needs disk config symbol) ∧
        ∀ pattern ∈ config.misuse.allowUnused,
          MisuseConfig.covers pattern dependency.identity.canonical = false)) ∧
    (dependency.declaration = .transitive →
      ((∃ use ∈ report.misuse.usedTransitive, use.identity = dependency.identity.canonical) ↔
        ∃ symbol, manifest.OwnedBy disk config dependency symbol ∧
          manifest.Needs disk config symbol) ∧
      ∀ use ∈ report.misuse.usedTransitive, use.identity = dependency.identity.canonical →
        use.symbols.Pairwise (· < ·) ∧
        ∀ symbol, symbol ∈ use.symbols ↔ manifest.OwnedBy disk config dependency symbol ∧
          manifest.Needs disk config symbol) := by
  obtain ⟨used, index, graph, needed, covers, same⟩ := judges_of_analyzed ran
  rw [same]
  constructor
  · intro direct
    rw [mem_unusedDirect covers distinct needed member]
    exact and_iff_right direct
  · intro transitive
    refine ⟨⟨?_, ?_⟩, ?_⟩
    · rintro ⟨use, entered, identity⟩
      obtain ⟨other, member', -, identity', ⟨symbol, lists⟩, -, symbols⟩ :=
        usedTransitive_sound covers needed entered
      have equal := List.inj_on_of_nodup_map distinct member' member (identity'.trans identity)
      exact ⟨symbol, equal ▸ (symbols symbol).mp lists⟩
    · rintro ⟨symbol, owned, needs⟩
      exact usedTransitive_complete covers needed member transitive owned needs
    · intro use entered identity
      obtain ⟨other, member', -, identity', -, ascending, symbols⟩ :=
        usedTransitive_sound covers needed entered
      have equal := List.inj_on_of_nodup_map distinct member' member (identity'.trans identity)
      exact ⟨ascending, equal ▸ symbols⟩

theorem analyzeModule_misuse_small :
    ∃ report later, analyzeModule (Small.files "o" (Small.classFile 65 76)) {} (Small.app "o") [] =
        .ok (.analyzed report) later ∧
      "g:m" ∈ report.misuse.unusedDirect ∧
      ∃ use ∈ report.misuse.usedTransitive, use.identity = "g:l" ∧
        ∀ symbol, symbol ∈ use.symbols ↔ symbol = ⟨"L"⟩ := by
  obtain ⟨report, later, ran⟩ :=
    analyzed_of_analyzable (Small.not_lacksOutput (Small.find_output _)) Small.analyzable_output []
  have distinct : ((Small.app "o").misuseClasspath.map fun dependency =>
      dependency.identity.canonical).Nodup := by
    change ["g:l", "g:m"].Nodup
    decide
  have member_l : Small.libraryL ∈ (Small.app "o").misuseClasspath := List.mem_cons_self
  have member_m : Small.libraryM ∈ (Small.app "o").misuseClasspath :=
    List.mem_cons_of_mem _ List.mem_cons_self
  have direct := (analyzeModule_misuse ran distinct member_m).1 rfl
  have transitive := (analyzeModule_misuse ran distinct member_l).2 rfl
  simp only [Small.ownedBy_m (.inl rfl), Small.ownedBy_l (.inl rfl), Small.needs_output]
    at direct transitive
  refine ⟨report, later, ran, direct.mpr ⟨⟨_, rfl⟩, ?_, nofun⟩, ?_⟩
  · rintro _ rfl
    decide
  · obtain ⟨use, entered, identity⟩ := transitive.1.mpr ⟨⟨"L"⟩, rfl, rfl⟩
    refine ⟨use, entered, identity, fun symbol => ?_⟩
    rw [(transitive.2 use entered identity).2, and_self_iff]

/-- What a class in a directory that is called like standard input refers to is not needed. -/
theorem analyzeModule_passes_reference :
    (Small.files "-" (Small.classFile 65 76)).find ⟨"-"⟩ =
      .ok (.directory [("A.class", .file (Small.classFile 65 76))]) ∧
    ClassFile.ofBytes (Small.classFile 65 76).data.toList = .ok (Small.unit "A" "L") ∧
    (Small.unit "A" "L").references = .ok ["A", "L"] ∧
    (∀ symbol, (Small.app "-").OwnedBy (Small.files "-" (Small.classFile 65 76)) {} Small.libraryL
      symbol ↔ symbol = ⟨"L"⟩) ∧
    ∃ report later, analyzeModule (Small.files "-" (Small.classFile 65 76)) {} (Small.app "-") [] =
      .ok (.analyzed report) later ∧ report.misuse.usedTransitive = [] := by
  refine ⟨Small.find_dash _, Small.decodes_a, Small.references_a,
    fun symbol => Small.ownedBy_l (.inr rfl), ?_⟩
  obtain ⟨report, later, ran⟩ :=
    analyzed_of_analyzable (Small.not_lacksOutput (Small.find_dash _)) Small.analyzable_dash []
  refine ⟨report, later, ran, ?_⟩
  obtain ⟨used, index, graph, needed, covers, same⟩ := judges_of_analyzed ran
  rw [same, List.eq_nil_iff_forall_not_mem]
  intro use entered
  obtain ⟨_, -, -, -, ⟨symbol, lists⟩, -, symbols⟩ := usedTransitive_sound covers needed entered
  exact Small.not_needs_dash ((symbols symbol).mp lists).2

end Linkage
