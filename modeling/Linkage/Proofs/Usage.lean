import Linkage.Proofs.ClassUnits
import Linkage.Usage

/-!
# What a module uses

`UsageSources.Mentions` says which symbols a module's outputs, stubs and resources mention, and
`UsageSources.Owns` which of them are its own. `usedSymbols_computes` ties both to the symbols that
an analysis counts as used, and says when it comes to any.
-/

namespace Linkage

variable {disk : FileSystem} {config : Config} {limits : Limits}

/-! ## Text files -/

namespace Scan

variable {scanner : Scanner} {extensions : List String} {roots : List Path}

theorem textFiles_computes :
    (textFiles disk extensions roots).Computes True
      fun files => ∀ found, found ∈ files ↔ ∃ root ∈ roots, disk.Finds root extensions found := by
  induction roots with
  | nil => exact .pure trivial (by simp)
  | cons root roots ih =>
    unfold textFiles
    by_cases present : disk.contains root = true
    · rw [if_pos present]
      have walk : (liftM (disk.withExtensions root extensions) : Run _).Computes True
          fun files => ∀ found, found ∈ files ↔ disk.Finds root extensions found :=
        .lift (iff_of_true (FileSystem.withExtensions_succeeds.mpr present) trivial)
          fun files walked found => FileSystem.mem_withExtensions walked
      refine (walk.bind fun files _ => ih.map (f := (files ++ ·))).mono (and_self_iff) ?_
      rintro _ ⟨files, member, rest, others, rfl⟩ found
      rw [List.mem_append, member, others, List.exists_mem_cons_iff]
    · rw [if_neg present]
      refine Run.Computes.after_note _ (ih.mono Iff.rfl fun files member found => ?_)
      rw [member, List.exists_mem_cons_iff, or_iff_right]
      rintro ⟨-, tree, located, -⟩
      exact present (FileSystem.contains_iff.mpr ⟨tree, located⟩)

def FindsSymbol (disk : FileSystem) (scanner : Scanner) (extensions : List String) (root : Path)
    (symbol : Symbol) : Prop :=
  ∃ found, disk.Finds root extensions found ∧
    symbol ∈ scanner.symbols (Utf8.decodeLossy found.content.data.toList)

def Bounded (disk : FileSystem) (limits : Limits) (extensions : List String) (root : Path) : Prop :=
  ∀ found, disk.Finds root extensions found → found.content.size ≤ limits.entryBytes

theorem scanFile_eq_ok {found : FileSystem.Found} {symbols : List Symbol} :
    scanFile limits scanner found = .ok symbols ↔ found.content.size ≤ limits.entryBytes ∧
      scanner.symbols (Utf8.decodeLossy found.content.data.toList) = symbols := by
  unfold scanFile
  by_cases large : limits.entryBytes < found.content.size
  · rw [if_pos large]
    exact ⟨nofun, fun ⟨small, _⟩ => absurd large (Nat.not_lt.mpr small)⟩
  · rw [if_neg large, Except.ok.injEq]
    exact ⟨fun same => ⟨Nat.not_lt.mp large, same⟩, And.right⟩

theorem mem_scanFiles {files : List FileSystem.Found} {lists : List (List Symbol)}
    (scanned : files.mapM (scanFile limits scanner) = .ok lists) {symbol : Symbol} :
    symbol ∈ lists.flatten ↔ ∃ found ∈ files,
      symbol ∈ scanner.symbols (Utf8.decodeLossy found.content.data.toList) := by
  rw [List.mem_flatten]
  constructor
  · rintro ⟨symbols, listed, named⟩
    obtain ⟨found, member, opened⟩ := (mem_of_mapM scanned).mp listed
    obtain ⟨-, rfl⟩ := scanFile_eq_ok.mp opened
    exact ⟨found, member, named⟩
  · rintro ⟨found, member, named⟩
    obtain ⟨symbols, opened⟩ := mapM_succeeds.mp ⟨lists, scanned⟩ found member
    refine ⟨symbols, (mem_of_mapM scanned).mpr ⟨found, member, opened⟩, ?_⟩
    rwa [(scanFile_eq_ok.mp opened).2] at named

theorem scanRoots_computes :
    (scanRoots disk limits scanner extensions roots).Computes
      (∀ root ∈ roots, Bounded disk limits extensions root)
      fun symbols => ∀ symbol,
        symbol ∈ symbols ↔ ∃ root ∈ roots, FindsSymbol disk scanner extensions root symbol := by
  have scan (files : List FileSystem.Found)
      (member : ∀ found, found ∈ files ↔ ∃ root ∈ roots, disk.Finds root extensions found) :
      (liftM (files.mapM (scanFile limits scanner)) : Run (List (List Symbol))).Computes
        (∀ root ∈ roots, Bounded disk limits extensions root)
        fun lists => ∀ symbol, symbol ∈ lists.flatten ↔
          ∃ root ∈ roots, FindsSymbol disk scanner extensions root symbol := by
    refine .lift ?_ fun lists scanned symbol => ?_
    · simp only [mapM_succeeds, scanFile_eq_ok, exists_and_left, exists_eq', and_true, member]
      constructor
      · exact fun small root listed found held => small found ⟨root, listed, held⟩
      · rintro small found ⟨root, listed, held⟩
        exact small root listed found held
    · rw [mem_scanFiles scanned]
      constructor
      · rintro ⟨found, walked, named⟩
        obtain ⟨root, listed, held⟩ := (member found).mp walked
        exact ⟨root, listed, found, held, named⟩
      · rintro ⟨root, listed, found, held, named⟩
        exact ⟨found, (member found).mpr ⟨root, listed, held⟩, named⟩
  have all := textFiles_computes.bind fun files member =>
    ((scan files member).map (f := fun lists => SymbolSet.ofList lists.flatten)).after_note
      (.scanningTexts scanner.name files.length)
  refine all.mono ?_ ?_
  · rw [true_and]
  · rintro _ ⟨files, -, lists, named, rfl⟩ symbol
    rw [SymbolSet.mem_ofList, named]

end Scan

/-! ## Compiled outputs -/

def RefersTo (disk : FileSystem) (limits : Limits) (path : Path) (symbol : Symbol) : Prop :=
  ∃ unit references, HoldsClass disk limits path unit ∧ unit.references = .ok references ∧
    ∃ name ∈ references, Symbol.ofInternal name = symbol

namespace OutputFacts

variable {facts final : OutputFacts} {classes : List ClassFile} {outputs : List Path}

theorem add_eq_ok {unit : ClassFile} :
    facts.add unit = .ok final ↔ ∃ references, unit.references = .ok references ∧
      (⟨if unit.definesType then unit.thisClass :: facts.defined else facts.defined,
        references ++ facts.referenced⟩ : OutputFacts) = final := by
  unfold add
  simp only [bind_eq_ok, pure_eq_ok]

theorem mem_defined (folded : classes.foldlM add facts = .ok final) {name : String} :
    name ∈ final.defined ↔ name ∈ facts.defined ∨
      ∃ unit ∈ classes, unit.definesType = true ∧ unit.thisClass = name := by
  induction classes generalizing facts with
  | nil =>
    cases folded
    simp
  | cons unit classes ih =>
    rw [List.foldlM_cons, bind_eq_ok] at folded
    obtain ⟨between, added, folded⟩ := folded
    obtain ⟨references, -, rfl⟩ := add_eq_ok.mp added
    rw [ih folded, List.exists_mem_cons_iff, ← or_assoc, mem_consIf]

theorem mem_referenced (folded : classes.foldlM add facts = .ok final) {name : String} :
    name ∈ final.referenced ↔ name ∈ facts.referenced ∨
      ∃ unit ∈ classes, ∃ references, unit.references = .ok references ∧ name ∈ references := by
  induction classes generalizing facts with
  | nil =>
    cases folded
    simp
  | cons unit classes ih =>
    rw [List.foldlM_cons, bind_eq_ok] at folded
    obtain ⟨between, added, folded⟩ := folded
    obtain ⟨references, opened, rfl⟩ := add_eq_ok.mp added
    rw [ih folded, List.exists_mem_cons_iff, ← or_assoc]
    apply or_congr_left
    rw [List.mem_append, or_comm]
    simp only [opened, Except.ok.injEq, exists_eq_left']

theorem ofOutputs_computes :
    (ofOutputs disk limits outputs).Computes
      (∀ output ∈ outputs, Readable disk limits output ∧
        ∀ unit, HoldsClass disk limits output unit → ∃ references, unit.references = .ok references)
      fun facts =>
        (∀ symbol, symbol ∈ symbolsOf facts.defined ↔
          ∃ output ∈ outputs, DefinesType disk limits output symbol) ∧
        ∀ symbol, symbol ∈ symbolsOf facts.referenced ↔
          ∃ output ∈ outputs, RefersTo disk limits output symbol := by
  have accepted (facts : OutputFacts) (unit : ClassFile) :
      (∃ next, facts.add unit = .ok next) ↔ ∃ references, unit.references = .ok references := by
    simp only [add_eq_ok]
    exact ⟨fun ⟨_, references, opened, _⟩ => ⟨references, opened⟩,
      fun ⟨references, opened⟩ => ⟨_, references, opened, rfl⟩⟩
  refine (foldOutputs_computes accepted empty).mono Iff.rfl ?_
  rintro facts ⟨classes, held, folded⟩
  constructor
  · intro symbol
    rw [symbolsOf, SymbolSet.mem_ofList, List.mem_map]
    simp only [mem_defined folded, empty, List.not_mem_nil, false_or, held]
    constructor
    · rintro ⟨_, ⟨unit, ⟨output, listed, holds⟩, defines, rfl⟩, rfl⟩
      exact ⟨output, listed, unit, holds, defines, rfl⟩
    · rintro ⟨output, listed, unit, holds, defines, rfl⟩
      exact ⟨_, ⟨unit, ⟨output, listed, holds⟩, defines, rfl⟩, rfl⟩
  · intro symbol
    rw [symbolsOf, SymbolSet.mem_ofList, List.mem_map]
    simp only [mem_referenced folded, empty, List.not_mem_nil, false_or, held]
    constructor
    · rintro ⟨name, ⟨unit, ⟨output, listed, holds⟩, references, opened, member⟩, same⟩
      exact ⟨output, listed, unit, references, holds, opened, name, member, same⟩
    · rintro ⟨output, listed, unit, references, holds, opened, name, member, same⟩
      exact ⟨name, ⟨unit, ⟨output, listed, holds⟩, references, opened, member⟩, same⟩

end OutputFacts

/-! ## Used symbols -/

namespace UsageSources

def Owns (sources : UsageSources) (disk : FileSystem) (config : Config) (symbol : Symbol) : Prop :=
  ∃ output ∈ sources.compiledOutputs, DefinesType disk config.limits output symbol

/-- Whether a symbol is found in compiled code, in stubs or in resources. -/
def Mentions (sources : UsageSources) (disk : FileSystem) (config : Config) (symbol : Symbol) :
    Prop :=
  (∃ output ∈ sources.compiledOutputs, RefersTo disk config.limits output symbol) ∨
  (∃ root ∈ sources.stubRoots,
    Scan.FindsSymbol disk .stub config.scan.stubExtensions root symbol) ∨
  ∃ root ∈ sources.resourceRoots,
    Scan.FindsSymbol disk .pattern config.scan.resourceExtensions root symbol

end UsageSources

structure UsageSources.Readable (sources : UsageSources) (disk : FileSystem) (config : Config) :
    Prop where
  outputs : ∀ output ∈ sources.compiledOutputs, Linkage.Readable disk config.limits output
  references : ∀ output ∈ sources.compiledOutputs, ∀ unit,
    HoldsClass disk config.limits output unit → ∃ references, unit.references = .ok references
  stubs : ∀ root ∈ sources.stubRoots,
    Scan.Bounded disk config.limits config.scan.stubExtensions root
  resources : ∀ root ∈ sources.resourceRoots,
    Scan.Bounded disk config.limits config.scan.resourceExtensions root

theorem usedSymbols_computes {sources : UsageSources} :
    (usedSymbols disk config sources).Computes (sources.Readable disk config)
      fun used => ∀ symbol, symbol ∈ used ↔
        (sources.Mentions disk config symbol ∧ ¬ sources.Owns disk config symbol) ∧
          symbol.isSynthetic = false := by
  have code : (OutputFacts.ofOutputs disk config.limits sources.compiledOutputs).Computes _ _ :=
    OutputFacts.ofOutputs_computes
  have stubs : (Scan.scanRoots disk config.limits .stub config.scan.stubExtensions
      sources.stubRoots).Computes _ _ := Scan.scanRoots_computes
  have resources : (Scan.scanRoots disk config.limits .pattern config.scan.resourceExtensions
      sources.resourceRoots).Computes _ _ := Scan.scanRoots_computes
  have finish (used : SymbolSet) : (pure used : Run SymbolSet).Computes True (used = ·) :=
    .pure trivial rfl
  have read := code.bind fun facts _ => stubs.bind fun inStubs _ => resources.bind
    fun inResources _ =>
      let candidates := symbolsOf facts.referenced ∪ inStubs ∪ inResources
      let used := (candidates \ symbolsOf facts.defined).filter fun symbol => !symbol.isSynthetic
      ((finish used).after_note
        (.usedExtracted (symbolsOf facts.defined).size used.size)).after_note
        (.candidatesCollected (symbolsOf facts.referenced).size
          (candidates.size - (symbolsOf facts.referenced).size))
  refine read.mono ?_ ?_
  · constructor
    · rintro ⟨outputs, stubs, resources, -⟩
      exact ⟨fun output listed => (outputs output listed).1,
        fun output listed => (outputs output listed).2, stubs, resources⟩
    · rintro ⟨outputs, references, stubs, resources⟩
      exact ⟨fun output listed => ⟨outputs output listed, references output listed⟩, stubs,
        resources, trivial⟩
  · rintro _ ⟨facts, ⟨defined, referenced⟩, inStubs, stubs, inResources, resources, rfl⟩ symbol
    rw [SymbolSet.mem_filter, SymbolSet.mem_diff, SymbolSet.mem_union, SymbolSet.mem_union, defined,
      referenced, stubs, resources, or_assoc, Bool.not_eq_true']
    rfl

end Linkage
