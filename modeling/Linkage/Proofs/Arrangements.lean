import Linkage.Proofs.Analysis
import Linkage.Proofs.ArchiveFormat

/-!
# Arrangements of a module's files

The same class files can lie in directories, in archives or by themselves, and the same texts below
any roots. What a module uses depends on the files only.
-/

namespace Linkage

variable {disk : FileSystem} {limits : Limits} {path : Path}

def EntryForm.IsClass (form : EntryForm) : Prop :=
  (Utf8.decodeLossy form.name).endsWith ".class" = true

inductive HoldsFile (disk : FileSystem) (limits : Limits) (path : Path) : ByteArray → Prop
  | alone {content : ByteArray} (located : disk.find path = .ok (.file content))
      (ending : path.extension? = some UnitSource.classExtension) :
      HoldsFile disk limits path content
  | below {found : FileSystem.Found} (directory : disk.isDirectory path = true)
      (member : disk.Finds path [UnitSource.classExtension] found) :
      HoldsFile disk limits path found.content
  | packed {form : ArchiveForm} {entry : EntryForm}
      (located : disk.find path = .ok (.file form.bytes))
      (ending : path.extension? ≠ some UnitSource.classExtension) (fits : form.Fits limits)
      (member : entry ∈ form.entries) (isClass : entry.IsClass) :
      HoldsFile disk limits path entry.data

def HasForm (disk : FileSystem) (limits : Limits) (path : Path) : Prop :=
  ∀ content, disk.find path = .ok (.file content) →
    path.extension? ≠ some UnitSource.classExtension →
    ∃ form : ArchiveForm, form.Fits limits ∧ form.bytes = content

theorem exists_of_forall₂ {α β : Type} {related : α → β → Prop} {test : α → Prop} {test' : β → Prop}
    {list : List α} {list' : List β} (all : List.Forall₂ related list list')
    (same : ∀ a b, related a b → (test a ↔ test' b)) :
    (∃ a ∈ list, test a) ↔ ∃ b ∈ list', test' b := by
  induction all with
  | nil => simp
  | cons first _ ih => rw [List.exists_mem_cons_iff, List.exists_mem_cons_iff, ih, same _ _ first]

section Archives

variable {form : ArchiveForm} {unit : Option ByteArray}

theorem holdsUnit_form (located : disk.find path = .ok (.file form.bytes))
    (ending : path.extension? ≠ some UnitSource.classExtension) (fits : form.Fits limits) :
    HoldsUnit disk limits path unit ↔
      ∃ entry ∈ form.entries, entry.IsClass ∧ some entry.data = unit := by
  rw [holdsUnit_archive located ending (ArchiveForm.ofBytes_bytes fits)]
  symm
  apply exists_of_forall₂ (ArchiveForm.archive_comesBack fits)
  intro entry listed back
  rw [EntryForm.IsClass, Archive.Entry.isClass, back.name, back.read]
  rfl

theorem readable_form (located : disk.find path = .ok (.file form.bytes))
    (ending : path.extension? ≠ some UnitSource.classExtension) (fits : form.Fits limits) :
    Readable disk limits path ↔ ∀ entry ∈ form.entries, entry.IsClass →
      ∃ unit, ClassFile.ofBytes entry.data.data.toList = .ok unit := by
  constructor
  · intro readable entry member isClass
    obtain ⟨_, unit, ⟨⟩, decodes⟩ := readable.decodes _
      ((holdsUnit_form located ending fits).mpr ⟨entry, member, isClass, rfl⟩)
    exact ⟨unit, decodes⟩
  · intro each
    refine ⟨FileSystem.contains_iff.mpr ⟨_, located⟩, fun content found _ => ?_,
      fun held holds => ?_⟩
    · rw [located] at found
      cases found
      exact ⟨_, ArchiveForm.ofBytes_bytes fits⟩
    · obtain ⟨entry, member, isClass, rfl⟩ := (holdsUnit_form located ending fits).mp holds
      obtain ⟨unit, decodes⟩ := each entry member isClass
      exact ⟨_, unit, rfl, decodes⟩

end Archives

theorem holdsUnit_iff_file (hasForm : HasForm disk limits path) {content : ByteArray} :
    HoldsUnit disk limits path (some content) ↔
      HoldsFile disk limits path content ∧ content.size ≤ limits.entryBytes := by
  constructor
  · intro holds
    generalize given : some content = unit at holds
    cases holds with
    | file located ending =>
      obtain ⟨small, ⟨⟩⟩ := Option.ite_none_right_eq_some.mp given.symm
      exact ⟨.alone located ending, small⟩
    | below directory member =>
      obtain ⟨small, ⟨⟩⟩ := Option.ite_none_right_eq_some.mp given.symm
      exact ⟨.below directory member, small⟩
    | entry located ending opened member isClass =>
      obtain ⟨form, fits, rfl⟩ := hasForm _ located ending
      have unit : HoldsUnit disk limits path (some content) :=
        given ▸ .entry located ending opened member isClass
      obtain ⟨entry, member, isClass, ⟨⟩⟩ := (holdsUnit_form located ending fits).mp unit
      exact ⟨.packed located ending fits member isClass, (fits.entries entry member).permitted⟩
  · rintro ⟨holds, small⟩
    cases holds with
    | alone located ending =>
      have unit : HoldsUnit disk limits path _ := .file located ending
      rwa [if_pos small] at unit
    | below directory member =>
      have unit : HoldsUnit disk limits path _ := .below directory member
      rwa [if_pos small] at unit
    | packed located ending fits member isClass =>
      exact (holdsUnit_form located ending fits).mpr ⟨_, member, isClass, rfl⟩

theorem holdsClass_iff_file (hasForm : HasForm disk limits path) {unit : ClassFile} :
    HoldsClass disk limits path unit ↔ ∃ content, HoldsFile disk limits path content ∧
      content.size ≤ limits.entryBytes ∧ ClassFile.ofBytes content.data.toList = .ok unit := by
  unfold HoldsClass
  simp only [holdsUnit_iff_file hasForm, and_assoc]

section Located

variable {content : ByteArray}

theorem holdsFile_directory {entries : List (String × FileTree)}
    (located : disk.find path = .ok (.directory entries)) :
    HoldsFile disk limits path content ↔
      ∃ found, disk.Finds path [UnitSource.classExtension] found ∧ found.content = content := by
  have directory : disk.isDirectory path = true := by rw [FileSystem.isDirectory, located]
  constructor
  · rintro (located' | ⟨-, member⟩ | located')
    · rw [located] at located'
      cases located'
    · exact ⟨_, member, rfl⟩
    · rw [located] at located'
      cases located'
  · rintro ⟨found, member, rfl⟩
    exact .below directory member

theorem holdsFile_form {form : ArchiveForm} (located : disk.find path = .ok (.file form.bytes))
    (ending : path.extension? ≠ some UnitSource.classExtension) (fits : form.Fits limits) :
    HoldsFile disk limits path content ↔
      ∃ entry ∈ form.entries, entry.IsClass ∧ entry.data = content := by
  constructor
  · intro holds
    cases holds with
    | alone _ ending' => exact absurd ending' ending
    | below directory =>
      rw [FileSystem.isDirectory, located] at directory
      cases directory
    | packed located' _ fits' member isClass =>
      -- Another form with the same bytes gives the same units.
      have unit := (holdsUnit_form located' ending fits').mpr ⟨_, member, isClass, rfl⟩
      obtain ⟨entry, member, isClass, same⟩ := (holdsUnit_form located ending fits).mp unit
      exact ⟨entry, member, isClass, Option.some.inj same⟩
  · rintro ⟨entry, member, isClass, rfl⟩
    exact .packed located ending fits member isClass

end Located

def HoldsText (disk : FileSystem) (extensions : List String) (root : Path) (content : ByteArray) :
    Prop :=
  ∃ found, disk.Finds root extensions found ∧ found.content = content

theorem findsSymbol_iff {scanner : Scan.Scanner} {extensions : List String} {roots : List Path}
    {symbol : Symbol} : (∃ root ∈ roots, Scan.FindsSymbol disk scanner extensions root symbol) ↔
      ∃ content, (∃ root ∈ roots, HoldsText disk extensions root content) ∧
        symbol ∈ scanner.symbols (Utf8.decodeLossy content.data.toList) := by
  constructor
  · rintro ⟨root, listed, found, held, named⟩
    exact ⟨_, ⟨root, listed, found, held, rfl⟩, named⟩
  · rintro ⟨_, ⟨root, listed, found, held, rfl⟩, named⟩
    exact ⟨root, listed, found, held, named⟩

structure Material where
  classFiles : ByteArray → Prop
  stubs : ByteArray → Prop
  resources : ByteArray → Prop

structure UsageSources.Arrange (sources : UsageSources) (disk : FileSystem) (config : Config)
    (material : Material) : Prop where
  hasForm : ∀ output ∈ sources.compiledOutputs, HasForm disk config.limits output
  classFiles : ∀ content, (∃ output ∈ sources.compiledOutputs,
    HoldsFile disk config.limits output content) ↔ material.classFiles content
  stubs : ∀ content, (∃ root ∈ sources.stubRoots,
    HoldsText disk config.scan.stubExtensions root content) ↔ material.stubs content
  resources : ∀ content, (∃ root ∈ sources.resourceRoots,
    HoldsText disk config.scan.resourceExtensions root content) ↔ material.resources content

namespace Material

variable {material : Material} {config : Config}

def HasClass (material : Material) (limits : Limits) (unit : ClassFile) : Prop :=
  ∃ content, material.classFiles content ∧ content.size ≤ limits.entryBytes ∧
    ClassFile.ofBytes content.data.toList = .ok unit

def Owns (material : Material) (limits : Limits) (symbol : Symbol) : Prop :=
  ∃ unit, material.HasClass limits unit ∧ unit.definesType = true ∧ unit.symbol = symbol

def Mentions (material : Material) (limits : Limits) (symbol : Symbol) : Prop :=
  (∃ unit references, material.HasClass limits unit ∧ unit.references = .ok references ∧
    ∃ name ∈ references, Symbol.ofInternal name = symbol) ∨
  (∃ content, material.stubs content ∧
    symbol ∈ Scan.Scanner.stub.symbols (Utf8.decodeLossy content.data.toList)) ∨
  ∃ content, material.resources content ∧
    symbol ∈ Scan.Scanner.pattern.symbols (Utf8.decodeLossy content.data.toList)

end Material

namespace UsageSources.Arrange

variable {sources : UsageSources} {config : Config} {material : Material} {symbol : Symbol}

theorem hasClass_iff (arrange : sources.Arrange disk config material) {unit : ClassFile} :
    (∃ output ∈ sources.compiledOutputs, HoldsClass disk config.limits output unit) ↔
      material.HasClass config.limits unit := by
  unfold Material.HasClass
  simp only [← arrange.classFiles]
  constructor
  · rintro ⟨output, listed, holds⟩
    obtain ⟨content, holds, read⟩ := (holdsClass_iff_file (arrange.hasForm output listed)).mp holds
    exact ⟨content, ⟨output, listed, holds⟩, read⟩
  · rintro ⟨content, ⟨output, listed, holds⟩, read⟩
    exact ⟨output, listed,
      (holdsClass_iff_file (arrange.hasForm output listed)).mpr ⟨content, holds, read⟩⟩

theorem owns_iff (arrange : sources.Arrange disk config material) :
    sources.Owns disk config symbol ↔ material.Owns config.limits symbol := by
  unfold UsageSources.Owns DefinesType Material.Owns
  simp only [← arrange.hasClass_iff]
  constructor
  · rintro ⟨output, listed, unit, holds, defines⟩
    exact ⟨unit, ⟨output, listed, holds⟩, defines⟩
  · rintro ⟨unit, ⟨output, listed, holds⟩, defines⟩
    exact ⟨output, listed, unit, holds, defines⟩

theorem mentions_iff (arrange : sources.Arrange disk config material) :
    sources.Mentions disk config symbol ↔ material.Mentions config.limits symbol := by
  unfold UsageSources.Mentions Material.Mentions
  refine or_congr ?_ (or_congr ?_ ?_)
  · simp only [← arrange.hasClass_iff]
    constructor
    · rintro ⟨output, listed, unit, references, holds, refers⟩
      exact ⟨unit, references, ⟨output, listed, holds⟩, refers⟩
    · rintro ⟨unit, references, ⟨output, listed, holds⟩, refers⟩
      exact ⟨output, listed, unit, references, holds, refers⟩
  · simp only [← arrange.stubs]
    exact findsSymbol_iff
  · simp only [← arrange.resources]
    exact findsSymbol_iff

end UsageSources.Arrange

/-! ## Used symbols -/

theorem mem_usedSymbols {config : Config} {sources : UsageSources} {events later : List Event}
    {used : SymbolSet} {symbol : Symbol}
    (ran : usedSymbols disk config sources events = .ok used later) : symbol ∈ used ↔
      (sources.Mentions disk config symbol ∧ ¬ sources.Owns disk config symbol) ∧
        symbol.isSynthetic = false :=
  usedSymbols_computes.holds ran symbol

/-- What a module uses, whatever the arrangement of its material. -/
theorem usedSymbols_of_arrangement (config : Config) :
    (∀ disk sources events used later,
      usedSymbols disk config sources events = .ok used later → ∀ symbol, symbol ∈ used ↔
        (sources.Mentions disk config symbol ∧ ¬ sources.Owns disk config symbol) ∧
          symbol.isSynthetic = false) ∧
    ∀ (material : Material) (disk disk' : FileSystem) (sources sources' : UsageSources),
      sources.Arrange disk config material → sources'.Arrange disk' config material →
      ∀ events used later events' used' later',
        usedSymbols disk config sources events = .ok used later →
        usedSymbols disk' config sources' events' = .ok used' later' → used = used' := by
  constructor
  · intro disk sources events used later ran symbol
    exact mem_usedSymbols ran
  · intro material disk disk' sources sources' arrange arrange' events used later events' used' later'
      ran ran'
    apply SymbolSet.ext
    intro symbol
    rw [mem_usedSymbols ran, mem_usedSymbols ran', arrange.mentions_iff, arrange'.mentions_iff,
      arrange.owns_iff, arrange'.owns_iff]

/-! ### One class, two arrangements -/

namespace Arranged

def entry : EntryForm where
  header := ⟨20, 0, 8, 0, 0, 0, 0, [], []⟩
  versions := 20
  flags := 0
  method := 8
  time := 0
  name := [0x41, 0x2E, 0x63, 0x6C, 0x61, 0x73, 0x73]
  extra := []
  comment := []
  disk := 0
  attributes := 0
  payload := ⟨#[59, 245, 111, 215, 62, 6, 6, 6, 19, 6, 86, 70, 6, 70, 71, 118, 6, 70, 32, 229, 195,
    206, 192, 204, 160, 200, 192, 196, 192, 194, 0, 5, 0]⟩
  data := Small.classFile 65 76

def jar : ArchiveForm := ⟨[entry], 0, 1, []⟩

theorem entry_fits : entry.Fits {} := by
  constructor
  case packs => exact EntryForm.packs_of_inflated rfl (by decide +kernel)
  all_goals decide

theorem jar_fits : jar.Fits {} where
  entries := by
    intro entry listed
    rw [List.mem_singleton.mp listed]
    exact entry_fits
  count := by decide
  fewEntries := by decide
  comment := by decide
  offset := by decide
  directory := by decide
  permitted := by
    rw [ArchiveForm.size_bytes]
    decide
  last := by
    intro offset later within
    have none : jar.comment.length = 0 := rfl
    rw [ArchiveForm.size_bytes, none] at within
    omega

theorem entry_isClass : entry.IsClass := by
  unfold EntryForm.IsClass
  decide +kernel

def files (archive : ByteArray) : FileSystem := ⟨.directory [("a.jar", .file archive)], []⟩

theorem find_jar (archive : ByteArray) :
    (files archive).find ⟨"a.jar"⟩ = .ok (.file archive) :=
  FileSystem.find_name (by decide) rfl

theorem ending : (⟨"a.jar"⟩ : Path).extension? ≠ some UnitSource.classExtension := by
  decide +kernel

def material : Material := ⟨(· = Small.classFile 65 76), fun _ => False, fun _ => False⟩

def inDirectory : UsageSources := ⟨[⟨"o"⟩], [], []⟩

def inArchives : UsageSources := ⟨[⟨"a.jar"⟩, ⟨"a.jar"⟩], [], []⟩

theorem arrange_directory :
    inDirectory.Arrange (Small.files "o" (Small.classFile 65 76)) {} material where
  hasForm := by
    intro output listed content located
    cases List.mem_singleton.mp listed
    rw [Small.find_output] at located
    cases located
  classFiles := by
    simp only [inDirectory, List.mem_singleton, exists_eq_left,
      holdsFile_directory (Small.find_output _), Small.finds_output, material, eq_comm,
      implies_true]
  stubs := by simp [inDirectory, material]
  resources := by simp [inDirectory, material]

theorem arrange_archives : inArchives.Arrange (files jar.bytes) {} material where
  hasForm := by
    simp only [inArchives, List.forall_mem_cons]
    have hasForm : HasForm (files jar.bytes) {} ⟨"a.jar"⟩ := by
      intro content located _
      rw [find_jar] at located
      cases located
      exact ⟨jar, jar_fits, rfl⟩
    exact ⟨hasForm, hasForm, nofun⟩
  classFiles := by
    have only (other : EntryForm) : other ∈ jar.entries ↔ other = entry := List.mem_singleton
    intro content
    simp only [inArchives, List.mem_cons, List.not_mem_nil, or_false, or_self, exists_eq_left,
      holdsFile_form (find_jar _) ending jar_fits, only, entry_isClass, true_and]
    exact eq_comm
  stubs := by simp [inArchives, material]
  resources := by simp [inArchives, material]

theorem readable_directory : inDirectory.Readable (Small.files "o" (Small.classFile 65 76)) {} where
  outputs := by
    intro output listed
    cases List.mem_singleton.mp listed
    exact Small.analyzable_output.outputs _ (List.mem_singleton_self _)
  references := by
    intro output listed
    cases List.mem_singleton.mp listed
    exact Small.analyzable_output.references _ (List.mem_singleton_self _)
  stubs := nofun
  resources := nofun

theorem readable_archives : inArchives.Readable (files jar.bytes) {} where
  outputs := by
    have readable : Readable (files jar.bytes) {} ⟨"a.jar"⟩ := by
      rw [readable_form (find_jar _) ending jar_fits]
      intro entry listed _
      cases List.mem_singleton.mp listed
      exact ⟨_, Small.decodes_a⟩
    simp only [inArchives, List.forall_mem_cons]
    exact ⟨readable, readable, nofun⟩
  references := by
    intro output listed unit holds
    obtain ⟨content, ⟨⟩, -, decodes⟩ := arrange_archives.hasClass_iff.mp ⟨output, listed, holds⟩
    rw [Small.decodes_a] at decodes
    cases decodes
    exact ⟨_, Small.references_a⟩
  stubs := nofun
  resources := nofun

/-- The directory by a name that stands for standard input elsewhere. -/
def inDash : UsageSources := ⟨[⟨"-"⟩], [], []⟩

theorem readable_dash : inDash.Readable (Small.files "-" (Small.classFile 65 76)) {} where
  outputs := by
    intro output listed
    cases List.mem_singleton.mp listed
    exact Small.analyzable_dash.outputs _ (List.mem_singleton_self _)
  references := by
    intro output listed
    cases List.mem_singleton.mp listed
    exact Small.analyzable_dash.references _ (List.mem_singleton_self _)
  stubs := nofun
  resources := nofun

theorem not_mentions_dash {symbol : Symbol} :
    ¬ inDash.Mentions (Small.files "-" (Small.classFile 65 76)) {} symbol := by
  rintro (⟨output, listed, unit, references, holds, -⟩ | ⟨root, listed, -⟩ | ⟨root, listed, -⟩)
  · cases List.mem_singleton.mp listed
    exact Small.not_holdsClass_dash holds
  · cases listed
  · cases listed

theorem mentions_l : material.Mentions {} ⟨"L"⟩ := by
  refine .inl ⟨_, _, ⟨_, rfl, by decide, Small.decodes_a⟩, Small.references_a, "L", by decide, ?_⟩
  exact Symbol.ofInternal_of_notMem (by decide)

theorem not_owns_l : ¬ material.Owns {} ⟨"L"⟩ := by
  rintro ⟨unit, ⟨_, rfl, -, decodes⟩, -, named⟩
  rw [Small.decodes_a] at decodes
  cases decodes
  exact absurd ((Symbol.ofInternal_of_notMem (by decide)).symm.trans named) (by decide)

theorem uses_l {used : SymbolSet} {later : List Event}
    (ran : usedSymbols (Small.files "o" (Small.classFile 65 76)) {} inDirectory [] =
      .ok used later) :
    ⟨"L"⟩ ∈ used := by
  rw [mem_usedSymbols ran, arrange_directory.mentions_iff, arrange_directory.owns_iff]
  exact ⟨⟨mentions_l, not_owns_l⟩, by decide +kernel⟩

end Arranged

theorem usedSymbols_of_arrangement_small :
    Arranged.inDirectory.Arrange (Small.files "o" (Small.classFile 65 76)) {} Arranged.material ∧
    Arranged.inArchives.Arrange (Arranged.files Arranged.jar.bytes) {} Arranged.material ∧
    ∃ used later later',
      usedSymbols (Small.files "o" (Small.classFile 65 76)) {} Arranged.inDirectory [] =
        .ok used later ∧
      usedSymbols (Arranged.files Arranged.jar.bytes) {} Arranged.inArchives [] = .ok used later' ∧
      ⟨"L"⟩ ∈ used := by
  obtain ⟨used, later, ran⟩ := (usedSymbols_computes.ok_iff []).mpr Arranged.readable_directory
  obtain ⟨used', later', ran'⟩ := (usedSymbols_computes.ok_iff []).mpr Arranged.readable_archives
  obtain rfl := (usedSymbols_of_arrangement {}).2 _ _ _ _ _ Arranged.arrange_directory
    Arranged.arrange_archives _ _ _ _ _ _ ran ran'
  exact ⟨Arranged.arrange_directory, Arranged.arrange_archives, used, later, later', ran, ran',
    Arranged.uses_l ran⟩

/-- In a directory that is called like standard input what a class refers to is passed over. -/
theorem usedSymbols_passes_class :
    (Small.files "o" (Small.classFile 65 76)).find ⟨"o"⟩ =
      .ok (.directory [("A.class", .file (Small.classFile 65 76))]) ∧
    (Small.files "-" (Small.classFile 65 76)).find ⟨"-"⟩ =
      .ok (.directory [("A.class", .file (Small.classFile 65 76))]) ∧
    (∃ used later, usedSymbols (Small.files "o" (Small.classFile 65 76)) {}
      Arranged.inDirectory [] = .ok used later ∧ ⟨"L"⟩ ∈ used) ∧
    ∃ used later, usedSymbols (Small.files "-" (Small.classFile 65 76)) {} Arranged.inDash [] =
      .ok used later ∧ ⟨"L"⟩ ∉ used := by
  refine ⟨Small.find_output _, Small.find_dash _, ?_, ?_⟩
  · obtain ⟨used, later, ran⟩ := (usedSymbols_computes.ok_iff []).mpr Arranged.readable_directory
    exact ⟨used, later, ran, Arranged.uses_l ran⟩
  · obtain ⟨used, later, ran⟩ := (usedSymbols_computes.ok_iff []).mpr Arranged.readable_dash
    refine ⟨used, later, ran, ?_⟩
    rw [mem_usedSymbols ran]
    exact fun held => Arranged.not_mentions_dash held.1.1

end Linkage
