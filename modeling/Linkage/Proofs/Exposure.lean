import Linkage.Proofs.Analysis
import Linkage.Proofs.ExposedDependencies
import Linkage.Proofs.References

/-!
# What a surface exposes is used

A module that exposes a type of a dependency refers to that type. So if the names in its classes are
plain and the types are those of one artifact only, no dependency whose types it exposes is said to
be unused: `analyzeModule_exposed_used`.
-/

namespace Linkage

variable {disk : FileSystem} {config : Config} {manifest : Manifest} {symbol : Symbol}

/-! ## Exposing dependencies -/

section Owning

variable {index : Index} {symbols : SymbolSet} {exposed : ExposedDependency}

theorem owning_firstDefines {limits : Limits} {classpath : List Dependency}
    (covers : index.Covers disk limits classpath) (listed : exposed ∈ index.owning symbols)
    (exposes : symbol ∈ exposed.symbols) :
    symbol ∈ symbols ∧ ∃ dependency, FirstDefines disk limits classpath dependency symbol ∧
      dependency.identity.canonical = exposed.identity := by
  obtain ⟨within, owner, owns, canonical⟩ := ((mem_owning listed).2 symbol).mp exposes
  obtain ⟨dependency, first, rfl⟩ := (covers.owners symbol owner).mp owns
  exact ⟨within, dependency, first, canonical⟩

end Owning

/-! ## Used dependencies -/

theorem exposed_mentioned {classes : List ClassFile} {candidates : Candidates}
    (good : manifest.Analyzable disk config)
    (plain : ∀ unit, Held disk config manifest.compiledOutputs unit → unit.PlainlyNamed)
    (held : ∀ unit, unit ∈ classes ↔ Held disk config manifest.compiledOutputs unit)
    (opened : Candidates.ofClasses classes = .ok candidates)
    (exposed : symbol ∈ (candidates.surface config.abi).exposed) :
    manifest.Mentions disk config symbol ∧ symbol.isSynthetic = false := by
  have parents : ∀ unit ∈ classes, unit.NamesParents := by
    intro unit listed
    obtain ⟨output, -, bytes, -, decoded⟩ := (held unit).mp listed
    exact ClassFile.namesParents decoded
  have read : ∀ unit ∈ classes, ∃ references, unit.references = .ok references := by
    intro unit listed
    obtain ⟨output, given, holds⟩ := (held unit).mp listed
    exact good.references output given unit holds
  obtain ⟨genuine, unit, listed, references, reads, named⟩ := exposed_referenced opened parents
    (fun unit listed => plain unit ((held unit).mp listed)) read exposed
  obtain ⟨output, given, holds⟩ := (held unit).mp listed
  exact ⟨.code given ⟨unit, references, holds, reads, named⟩, genuine⟩

theorem not_mem_listed {index : Index} {classpath : List Dependency} {dependency : Dependency}
    {used : SymbolSet} {standing : Standing} (covers : index.Covers disk config.limits classpath)
    (distinct : (classpath.map fun dependency => dependency.identity.canonical).Nodup)
    (owned : FirstDefines disk config.limits classpath dependency symbol) (inUse : symbol ∈ used)
    (unseen : standing.Unseen) :
    dependency.identity.canonical ∉ Misuse.listed config.misuse used standing index.artifacts := by
  intro entered
  obtain ⟨artifact, listed, rfl, same⟩ := mem_listed.mp entered
  have stands := covers.standsFor distinct listed owned.mem_classpath.1 same
  exact not_unseen_of_used ((stands.symbols symbol).mpr owned) inUse unseen

/-! ## A small library

The module of `Small` as a library: its public class `A` exposes `L`, which it extends.
-/

namespace Small

def library : Manifest := { app "o" with flavor := .library }

theorem held_library {held : ClassFile} :
    Held (files "o" (classFile 65 76)) {} library.compiledOutputs held ↔ held = unit "A" "L" := by
  rw [← holdsClass_output]
  exact ⟨fun ⟨_, listed, holds⟩ => List.mem_singleton.mp listed ▸ holds,
    fun holds => ⟨_, List.mem_singleton_self _, holds⟩⟩

theorem ofClass_a : Candidate.ofClass (unit "A" "L") = .ok (.assemble (unit "A" "L") [] []) := rfl

theorem analyzable_library : library.Analyzable (files "o" (classFile 65 76)) {} :=
  { analyzable_output with
    resources := fun _ => nofun
    declarations := by
      intro _ output listed held holds _
      rw [held_library.mp ⟨output, listed, holds⟩]
      exact ofClass_succeeds.mp ⟨_, ofClass_a⟩ }

theorem apart_library {symbol : Symbol}
    (owned : library.Owns (files "o" (classFile 65 76)) {} symbol) :
    ∀ dependency ∈ library.compileClasspath,
      ¬ DefinesType (files "o" (classFile 65 76)) {} dependency.file symbol := by
  cases owns_output.mp owned
  have genuine : (⟨"A"⟩ : Symbol).isSynthetic = false := by decide
  refine List.forall_mem_cons.mpr ⟨fun defines => ?_, List.forall_mem_singleton.mpr fun defines => ?_⟩
  · exact absurd ((defines_l (.inl rfl)).mp ⟨defines, genuine⟩) (by decide)
  · exact absurd ((defines_m (.inl rfl)).mp ⟨defines, genuine⟩) (by decide)

theorem present_library : ¬ library.LacksOutput (files "o" (classFile 65 76)) :=
  not_lacksOutput (find_output _)

theorem flavor_library : library.flavor ≠ .application := by decide

theorem plainlyNamed_a : (unit "A" "L").PlainlyNamed where
  superclass := by
    rintro _ ⟨⟩
    decide +kernel
  interfaces := nofun
  fields := nofun
  methods := nofun

theorem visible_a : VisibleAmong (· = unit "A" "L") {} (unit "A" "L") :=
  .outermost rfl ⟨by decide, by decide, rfl, by decide, by simp [AbiConfig.LeavesOut]⟩ rfl

theorem exposes_l {abi : AbiReport} {index : Index}
    (covers : index.Covers (files "o" (classFile 65 76)) {} library.compileClasspath)
    (reflects : abi.Reflects (files "o" (classFile 65 76)) {} library.compiledOutputs index) :
    ∃ exposed ∈ abi.exposed, exposed.identity = "g:l" := by
  obtain ⟨classes, candidates, held, opened, rfl⟩ := reflects
  have owner : index.ownerOf? ⟨"L"⟩ = some libraryL.identity :=
    (covers.owners _ _).mpr ⟨libraryL, (ownedBy_l (.inl rfl)).mpr rfl, rfl⟩
  have exposed : ⟨"L"⟩ ∈ (candidates.surface {}).exposed := by
    rw [surface_singleton (fun unit => (held unit).trans held_library) visible_a ofClass_a opened]
    decide +kernel
  exact exists_owning exposed ⟨_, owner, by decide⟩

end Small

/-- A dependency is used, and not said to be unused, if the surface exposes a type of it. -/
theorem analyzeModule_exposed_used {report : ModuleReport} {events later : List Event}
    (ran : analyzeModule disk config manifest events = .ok (.analyzed report) later)
    (flavor : manifest.flavor ≠ .application) (alone : manifest.runtimeClasspath = [])
    (distinct : (manifest.compileClasspath.map fun dependency =>
      dependency.identity.canonical).Nodup)
    (apart : ∀ symbol, manifest.Owns disk config symbol →
      ∀ dependency ∈ manifest.compileClasspath,
        ¬ DefinesType disk config.limits dependency.file symbol)
    (plain : ∀ unit, Held disk config manifest.compiledOutputs unit → unit.PlainlyNamed) :
    ∃ abi, report.abi = some abi ∧ ∀ exposed ∈ abi.exposed,
      (∀ symbol ∈ exposed.symbols, symbol ∈ report.usedSymbols) ∧
      exposed.identity ∉ report.misuse.unusedDirect ∧
      exposed.identity ∉ report.misuse.allowedUnused ∧
      exposed.identity ∉ report.misuse.unobservable := by
  obtain ⟨compileIndex, misuseIndex, reflects⟩ := reflects_of_analyzed ran
  obtain ⟨_, given, classes, candidates, held, opened, rfl⟩ := reflects.abi flavor
  obtain ⟨graph, misuse⟩ := reflects.misuse
  have judged : manifest.misuseClasspath = manifest.compileClasspath := by
    simp [Manifest.misuseClasspath, alone]
  have covers : misuseIndex.Covers disk config.limits manifest.compileClasspath :=
    judged ▸ reflects.misuseCovers
  refine ⟨_, given, fun exposed listed => ?_⟩
  have inUse {symbol : Symbol} (exposes : symbol ∈ exposed.symbols) :
      symbol ∈ report.usedSymbols := by
    obtain ⟨inSurface, dependency, first, -⟩ :=
      owning_firstDefines reflects.compileCovers listed exposes
    obtain ⟨mentioned, genuine⟩ :=
      exposed_mentioned (analyzable_of_analyzed ran) plain held opened inSurface
    obtain ⟨member, defines⟩ := first.mem_classpath
    exact (reflects.used symbol).mpr
      ⟨⟨mentioned, fun owns => apart symbol owns dependency member defines⟩, genuine⟩
  -- Any one of the exposed symbols shows that the dependency is used.
  obtain ⟨⟨symbol, exposes⟩, -⟩ := mem_owning listed
  obtain ⟨-, dependency, first, canonical⟩ :=
    owning_firstDefines reflects.compileCovers listed exposes
  have unlisted {standing : Standing} (unseen : standing.Unseen) : exposed.identity ∉
      Misuse.listed config.misuse report.usedSymbols standing misuseIndex.artifacts :=
    canonical ▸ not_mem_listed covers distinct first (inUse exposes) unseen
  rw [misuse]
  exact ⟨fun _ exposes => inUse exposes, unlisted (.inl rfl), unlisted (.inr (.inl rfl)),
    unlisted (.inr (.inr rfl))⟩

theorem analyzeModule_exposed_used_small :
    ∃ report later abi, analyzeModule (Small.files "o" (Small.classFile 65 76)) {} Small.library [] =
        .ok (.analyzed report) later ∧ report.abi = some abi ∧
      ∃ exposed ∈ abi.exposed, exposed.identity = "g:l" ∧
        (∀ symbol ∈ exposed.symbols, symbol ∈ report.usedSymbols) ∧
        exposed.identity ∉ report.misuse.unusedDirect := by
  obtain ⟨report, later, ran⟩ :=
    analyzed_of_analyzable Small.present_library Small.analyzable_library []
  have distinct : (Small.library.compileClasspath.map fun dependency =>
      dependency.identity.canonical).Nodup := by
    change ["g:l", "g:m"].Nodup
    decide
  obtain ⟨abi, given, used⟩ := analyzeModule_exposed_used ran Small.flavor_library rfl distinct
    (fun _ => Small.apart_library) fun unit held => Small.held_library.mp held ▸ Small.plainlyNamed_a
  obtain ⟨compileIndex, misuseIndex, reflects⟩ := reflects_of_analyzed ran
  obtain ⟨_, given', surface⟩ := reflects.abi Small.flavor_library
  cases given.symm.trans given'
  obtain ⟨exposed, listed, identity⟩ := Small.exposes_l reflects.compileCovers surface
  obtain ⟨symbols, direct, -⟩ := used exposed listed
  exact ⟨report, later, abi, ran, given, exposed, listed, identity, symbols, direct⟩

end Linkage
