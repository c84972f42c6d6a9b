import Linkage.Module.ReportFiles
import Linkage.Proofs.FileTrees
import Linkage.Proofs.JsonReading
import Linkage.Proofs.RootReports
import Linkage.Proofs.Runs
import Mathlib.Data.Option.Basic
import Mathlib.Data.String.Basic

/-!
# Outcomes are read back as they are written

What is written of an outcome leaves out the text forms of its surface and nothing else. So an
outcome that is read back is the one that was written, without them, and root reports on such
outcomes are written as those on the original ones.
-/

namespace Linkage

variable {depth : Nat}

/-! ## What is written in full -/

namespace Data

attribute [simp] Writable.null Writable.bool Writable.text

@[simp] theorem writable_natural {value : Nat} :
    (natural value).Writable depth ↔ value < UInt64.size := by
  constructor
  · rintro ⟨⟩
    assumption
  · exact Writable.natural

@[simp] theorem writable_list {items : List Data} :
    (list items).Writable (depth + 1) ↔ ∀ item ∈ items, item.Writable depth := by
  constructor
  · rintro ⟨⟩
    assumption
  · exact Writable.list

@[simp] theorem writable_table {fields : List (String × Data)} :
    (table fields).Writable (depth + 1) ↔ ∀ field ∈ fields, field.2.Writable depth := by
  constructor
  · rintro ⟨⟩
    assumption
  · exact Writable.table

@[simp] theorem writable_texts (items : List String) : (texts items).Writable (depth + 1) := by
  simp [texts]

end Data

theorem TransitiveUse.writable (use : TransitiveUse) : use.toData.Writable (depth + 2) := by
  simp [toData, Data.fieldUnlessEmpty, apply_ite]

theorem Misuse.writable (misuse : Misuse) : misuse.toData.Writable (depth + 4) := by
  simp [toData, TransitiveUse.writable]

theorem ArtifactEntry.writable (entry : ArtifactEntry) : entry.toData.Writable (depth + 2) := by
  simp [toData]

theorem Ambiguity.writable (ambiguity : Ambiguity) : ambiguity.toData.Writable (depth + 1) := by
  simp [toData]

theorem ArtifactsReport.writable (report : ArtifactsReport) :
    report.toData.Writable (depth + 4) := by
  simp [toData, Data.fieldUnlessEmpty, apply_ite, ArtifactEntry.writable, Ambiguity.writable]

theorem AbiReport.writable {report : AbiReport} (types : report.typeCount < UInt64.size)
    (members : report.memberCount < UInt64.size) : report.toData.Writable (depth + 4) := by
  simp [toData, types, members]

namespace Data

theorem list?_map {α : Type} {item? : Data → Option α} {encode : α → Data}
    (each : ∀ item, item? (encode item) = some item) (items : List α) :
    list? item? (.list (items.map encode)) = some items := by
  induction items with
  | nil => rfl
  | cons item items ih =>
    simp only [list?, List.map_cons, List.mapM_cons, each] at ih ⊢
    simp [ih]

@[simp] theorem text?_text (value : String) : text? (text value) = some value := rfl

@[simp] theorem natural?_natural (value : Nat) : natural? (natural value) = some value := rfl

@[simp] theorem list?_texts (items : List String) : list? text? (texts items) = some items :=
  list?_map text?_text items

theorem tagged?_table {origin : Origin} {name tag : String} {tags : List String}
    {fields : List (String × Data)} (listed : tag ∈ tags)
    (others : ∀ field ∈ fields, field.1 ≠ name) :
    tagged? origin name tags (table ((name, text tag) :: fields)) = some (tag, table fields) := by
  have alone : fields.filter (·.1 = name) = [] :=
    List.filter_eq_nil_iff.mpr (by simpa using others)
  have rest : fields.filter (·.1 ≠ name) = fields :=
    List.filter_eq_self.mpr (by simpa using others)
  rw [tagged?, List.filter_cons_of_pos (by simp), List.filter_cons_of_neg (by simp), alone, rest]
  simp [tag?, listed]

variable {α : Type} {shape? : Data → Option α}

@[simp] theorem required?_some (data : Data) : required? shape? (some data) = shape? data := rfl

@[simp] theorem orElse?_some (default : α) (data : Data) :
    orElse? default shape? (some data) = shape? data := rfl

@[simp] theorem orElse?_none (default : α) : orElse? default shape? none = some default := rfl

end Data

@[simp] theorem Symbol.mk_comp_name : Symbol.mk ∘ Symbol.name = id := rfl

@[simp] theorem SymbolSet.ofList_toList (set : SymbolSet) : SymbolSet.ofList set.toList = set :=
  SymbolSet.ext fun _ => SymbolSet.mem_ofList

@[simp] theorem ArtifactKind.ofData?_name (origin : Origin) (kind : ArtifactKind) :
    ofData? origin (.text kind.name) = some kind := by
  cases kind <;> rfl

@[simp] theorem Declaration.ofData?_name (origin : Origin) (declaration : Declaration) :
    ofData? origin (.text declaration.name) = some declaration := by
  cases declaration <;> rfl

@[simp] theorem Flavor.ofData?_name (origin : Origin) (flavor : Flavor) :
    ofData? origin (.text flavor.name) = some flavor := by
  cases flavor <;> rfl

theorem TransitiveUse.ofData?_toData (use : TransitiveUse) : ofData? use.toData = some use := by
  obtain ⟨identity, symbols, via, path⟩ := use
  cases path <;> simp [ofData?, toData, Data.record?, Data.fieldUnlessEmpty, List.lookup_cons]

theorem Misuse.ofData?_toData (misuse : Misuse) : ofData? misuse.toData = some misuse := by
  have uses := Data.list?_map TransitiveUse.ofData?_toData misuse.usedTransitive
  simp [ofData?, toData, Data.record?, List.lookup_cons, uses]

theorem ArtifactEntry.ofData?_toData (origin : Origin) (entry : ArtifactEntry) :
    ArtifactsReport.entryOfData? origin entry.toData = some entry := by
  simp [ArtifactsReport.entryOfData?, toData, Data.record?, List.lookup_cons]

theorem Ambiguity.ofData?_toData (origin : Origin) (ambiguity : Ambiguity) :
    ArtifactsReport.ambiguityOfData? origin ambiguity.toData = some ambiguity := by
  rw [ArtifactsReport.ambiguityOfData?, toData, Data.tagged?_table (by simp) (by simp)]
  simp [Data.record?, List.lookup_cons]

theorem ArtifactsReport.ofData?_toData (origin : Origin) (report : ArtifactsReport) :
    ofData? origin report.toData = some report := by
  obtain ⟨artifacts, ambiguities⟩ := report
  have entries := Data.list?_map (ArtifactEntry.ofData?_toData origin) artifacts
  have claims := Data.list?_map (Ambiguity.ofData?_toData origin) ambiguities
  cases ambiguities <;>
    simp_all [ofData?, toData, Data.record?, Data.fieldUnlessEmpty, List.lookup_cons]

/-- A report without the text forms of its surface. -/
def AbiReport.withoutTexts (report : AbiReport) : AbiReport :=
  { report with dump := "", reduced := "" }

theorem AbiReport.ofData?_toData (report : AbiReport) :
    ofData? report.toData = some report.withoutTexts := by
  have each (exposed : ExposedDependency) : exposedOfData? (.table [
      ("identity", .text exposed.identity),
      ("symbols", .texts (exposed.symbols.map Symbol.name))]) = some exposed := by
    simp [exposedOfData?, Data.record?, List.lookup_cons]
  have exposed := Data.list?_map each report.exposed
  simp [ofData?, toData, withoutTexts, Data.record?, List.lookup_cons, exposed]

def ModuleReport.withoutTexts (report : ModuleReport) : ModuleReport :=
  { report with abi := report.abi.map AbiReport.withoutTexts }

theorem ModuleReport.ofData?_fields (origin : Origin) (report : ModuleReport) :
    ofData? origin (.table report.fields) = some report.withoutTexts := by
  obtain ⟨modulePath, variant, flavor, used, compile, runtime, misuse, abi⟩ := report
  cases abi with
  | none =>
    simp [ofData?, fields, withoutTexts, Data.record?, List.lookup_cons,
      ArtifactsReport.ofData?_toData, Misuse.ofData?_toData]
  | some abi =>
    simp [ofData?, fields, withoutTexts, Data.record?, List.lookup_cons,
      ArtifactsReport.ofData?_toData, Misuse.ofData?_toData]
    change ((AbiReport.ofData? abi.toData).map some).bind _ = _
    rw [AbiReport.ofData?_toData]
    rfl

namespace ModuleOutcome

def withoutTexts : ModuleOutcome → ModuleOutcome
  | analyzed report => analyzed report.withoutTexts
  | skipped modulePath variant reason => skipped modulePath variant reason

/-- Whether what is counted in a surface can be written in full. -/
def CountsFit (outcome : ModuleOutcome) : Prop :=
  ∀ report, outcome = .analyzed report → ∀ abi, report.abi = some abi →
    abi.typeCount < UInt64.size ∧ abi.memberCount < UInt64.size

theorem writable {outcome : ModuleOutcome} (fit : outcome.CountsFit) :
    outcome.toData.Writable (depth + 5) := by
  cases outcome with
  | skipped modulePath variant reason => simp [toData]
  | analyzed report =>
    cases given : report.abi with
    | none =>
      simp [toData, ModuleReport.fields, given, ArtifactsReport.writable, Misuse.writable]
    | some abi =>
      obtain ⟨types, members⟩ := fit report rfl abi given
      simp [toData, ModuleReport.fields, given, ArtifactsReport.writable, Misuse.writable,
        AbiReport.writable types members]

theorem ofData?_toData {outcome : ModuleOutcome} (fit : outcome.CountsFit) :
    ofData? outcome.toData = some outcome.withoutTexts := by
  have kept : outcome.toData.kept? .json 0 = some outcome.toData := by
    -- What is kept may nest 127 deep; an outcome nests five deep.
    have shallow : outcome.toData.Writable (122 + 5) := writable fit
    have plain : outcome.toData.isPlain (Data.maxDepth - 0) = true := shallow.isPlain
    rw [Data.kept?, plain, Bool.or_true]
    rfl
  rw [ofData?, kept]
  cases outcome with
  | skipped modulePath variant reason =>
    rw [toData, Option.bind_eq_bind, Option.bind_some, Data.tagged?_table (by simp) (by simp)]
    simp [withoutTexts, Data.record?, List.lookup_cons]
  | analyzed report =>
    have others : ∀ field ∈ report.fields, field.1 ≠ "status" := by
      cases given : report.abi <;> simp [ModuleReport.fields, given]
    rw [toData, Option.bind_eq_bind, Option.bind_some, Data.tagged?_table (by simp) others]
    simp [withoutTexts, ModuleReport.ofData?_fields]

/-! ## Texts and files -/

theorem ofJson?_chars {outcome : ModuleOutcome} (fit : outcome.CountsFit) (layout : Json.Layout) :
    ofJson? (String.ofList (Json.chars layout outcome.toData)) = some outcome.withoutTexts := by
  have writable : outcome.toData.Writable 5 := writable fit
  rw [ofJson?, read?_chars writable, Option.bind_some, ofData?_toData fit]

theorem fromUTF8?_toUTF8 (text : String) : String.fromUTF8? text.toUTF8 = some text :=
  dif_pos text.isValidUTF8

theorem load_of_read {disk : FileSystem} {path : Path} {outcome : ModuleOutcome}
    (fit : outcome.CountsFit)
    (held : disk.read path = .ok (Json.pretty outcome.toData).toUTF8) :
    load disk path = .ok outcome.withoutTexts := by
  have opened : disk.readText path = .ok (Json.pretty outcome.toData) := by
    unfold FileSystem.readText
    exact bind_eq_ok.mpr ⟨_, held, by rw [fromUTF8?_toUTF8]; rfl⟩
  have read : ofJson? (Json.pretty outcome.toData) = some outcome.withoutTexts :=
    ofJson?_chars fit (.indented 0)
  unfold load
  exact bind_eq_ok.mpr ⟨_, opened, by rw [read]; rfl⟩

end ModuleOutcome

/-! ## Root reports -/

open ModuleOutcome

theorem inReportOrder_withoutTexts (outcomes : List ModuleOutcome) :
    inReportOrder (outcomes.map withoutTexts) = (inReportOrder outcomes).map withoutTexts := by
  -- Outcomes are sorted by what they are called, and that stays.
  have unmoved (a : ModuleOutcome) : a.withoutTexts.key = a.key := by cases a <;> rfl
  unfold inReportOrder
  rw [List.map_mergeSort]
  intro a _ b _
  rw [unmoved, unmoved]

theorem toData_withoutTexts {α : Type} {status : ModuleReport → RootStatus α} {encode : α → Data}
    (same : ∀ report : ModuleReport,
      (rootEntry status (analyzed report.withoutTexts)).toData encode =
        (rootEntry status (analyzed report)).toData encode)
    (outcomes : List ModuleOutcome) :
    (RootReport.ofEntries ((outcomes.map withoutTexts).map (rootEntry status))).toData encode =
      (RootReport.ofEntries (outcomes.map (rootEntry status))).toData encode := by
  have entries : RootEntry.toData encode ∘ rootEntry status ∘ withoutTexts =
      RootEntry.toData encode ∘ rootEntry status := by
    funext outcome
    cases outcome with
    | analyzed report => exact same report
    | skipped => rfl
  unfold RootReport.toData
  rw [ofEntries_rootEntry, ofEntries_rootEntry, inReportOrder_withoutTexts, List.map_map,
    List.map_map, List.map_map, Function.comp_assoc, entries]

theorem files_withoutTexts (outcomes : List ModuleOutcome) :
    (RootReports.ofOutcomes (outcomes.map withoutTexts)).files =
      (RootReports.ofOutcomes outcomes).files := by
  have misuse : (RootReports.ofOutcomes (outcomes.map withoutTexts)).misuse.toData Misuse.toData =
      (RootReports.ofOutcomes outcomes).misuse.toData Misuse.toData :=
    toData_withoutTexts (fun _ => rfl) outcomes
  have abi : (RootReports.ofOutcomes (outcomes.map withoutTexts)).abi.toData AbiReport.toData =
      (RootReports.ofOutcomes outcomes).abi.toData AbiReport.toData := by
    refine toData_withoutTexts (fun report => ?_) outcomes
    obtain ⟨_, _, _, _, _, _, _, abi⟩ := report
    cases abi <;> rfl
  rw [RootReports.files, misuse, abi]
  rfl

/-- An outcome is read back from either of its JSON texts, only without the text forms of its
surface. Root reports on outcomes that were reloaded are written as those on the original ones. -/
theorem outcomes_reload {outcomes : List ModuleOutcome}
    (fit : ∀ outcome ∈ outcomes, outcome.CountsFit) :
    (∀ outcome ∈ outcomes,
      ofJson? (Json.compact outcome.toData) = some outcome.withoutTexts ∧
      ofJson? (Json.pretty outcome.toData) = some outcome.withoutTexts) ∧
    ∀ (disk : FileSystem) (paths : List Path),
      List.Forall₂ (fun path outcome =>
        disk.read path = .ok (Json.pretty outcome.toData).toUTF8) paths outcomes →
      ∃ reloaded, paths.mapM (load disk) = .ok reloaded ∧
        ∀ events, ∃ reports reports' later,
          aggregate outcomes events = .ok reports later ∧
          aggregate reloaded events = .ok reports' later ∧ reports'.files = reports.files := by
  refine ⟨fun outcome member => ?_, fun disk paths held => ?_⟩
  · exact ⟨ofJson?_chars (fit outcome member) .compact,
      ofJson?_chars (fit outcome member) (.indented 0)⟩
  · have loaded : paths.mapM (load disk) = .ok (outcomes.map withoutTexts) := by
      rw [mapM_eq_ok, List.forall₂_map_right_iff]
      induction held with
      | nil => exact .nil
      | cons first _ ih =>
        exact .cons (load_of_read (fit _ List.mem_cons_self) first)
          (ih fun outcome member => fit outcome (List.mem_cons_of_mem _ member))
    refine ⟨_, loaded, fun events => ⟨_, _, _, rfl, ?_, files_withoutTexts outcomes⟩⟩
    rw [aggregate, List.length_map]
    rfl

namespace Reloading

/-- An outcome with every part that may be left out, and with texts that are escaped. -/
def built : ModuleOutcome := .analyzed {
  modulePath := ":lib"
  variant := "\"fast\"\t\x01é"
  flavor := .library
  usedSymbols := SymbolSet.ofList [⟨"p/A"⟩, ⟨"p/B"⟩]
  compileArtifacts := ⟨[⟨"g:a", .library, .direct, [⟨"p/A"⟩]⟩], [⟨⟨"p/A"⟩, "g:a", "g:b"⟩]⟩
  runtimeArtifacts := ⟨[⟨":b", .project, .transitive, [⟨"p/B"⟩]⟩], []⟩
  misuse := ⟨["g:a"], [⟨":b", [⟨"p/B"⟩], ["g:a"], ["g:a", "g:c", ":b"]⟩], ["g:d"], []⟩
  abi := some ⟨"0123", 1, 2, [⟨"g:a", [⟨"p/A"⟩]⟩], "dump\n", "reduced\n"⟩ }

def unbuilt : ModuleOutcome := .skipped ":app" "" "no output"

def disk (library app : ByteArray) : FileSystem :=
  ⟨.directory [("lib", .file library), ("app", .file app)], []⟩

theorem read_disk (library app : ByteArray) :
    (disk library app).read ⟨"lib"⟩ = .ok library ∧ (disk library app).read ⟨"app"⟩ = .ok app := by
  have found : (disk library app).find ⟨"lib"⟩ = .ok (.file library) ∧
      (disk library app).find ⟨"app"⟩ = .ok (.file app) :=
    ⟨FileSystem.find_name (by decide) rfl, FileSystem.find_name (by decide) rfl⟩
  exact ⟨by rw [FileSystem.read, found.1], by rw [FileSystem.read, found.2]⟩

theorem countsFit : ∀ other ∈ [built, unbuilt], other.CountsFit := by
  simp [CountsFit, built, unbuilt, UInt64.size]

end Reloading

open Reloading in
theorem outcomes_reload_texts :
    ofJson? (Json.compact built.toData) = some built.withoutTexts ∧
    built.withoutTexts ≠ built ∧
    ∃ disk reloaded, [⟨"lib"⟩, ⟨"app"⟩].mapM (load disk) = .ok reloaded ∧
      ∃ reports reports' later, aggregate [built, unbuilt] [] = .ok reports later ∧
        aggregate reloaded [] = .ok reports' later ∧ reports'.files = reports.files := by
  obtain ⟨read, reload⟩ := outcomes_reload countsFit
  have changed : built.withoutTexts ≠ built := by
    simp [built, withoutTexts, ModuleReport.withoutTexts, AbiReport.withoutTexts]
  refine ⟨(read _ List.mem_cons_self).1, changed, ?_⟩
  obtain ⟨first, second⟩ := read_disk (Json.pretty built.toData).toUTF8
    (Json.pretty unbuilt.toData).toUTF8
  obtain ⟨reloaded, loaded, same⟩ := reload _ _ (.cons first (.cons second .nil))
  exact ⟨_, reloaded, loaded, same []⟩

end Linkage
