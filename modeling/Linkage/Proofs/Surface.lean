import Linkage.Abi.Extraction
import Linkage.Proofs.ClassUnits

/-!
# When outputs have a surface

`ClassFile.WellDeclared` says which of a class file's signatures and descriptors must be right for
its type to enter a surface: those of the type and of its declared members, and no others.
-/

namespace Linkage

variable {disk : FileSystem} {config : Config} {unit : ClassFile} {member : Member}

def SignatureReads (signature : Option String) : Prop :=
  ∀ text, signature = some text → ∃ names, Signature.classNames text = .ok names

structure ClassFile.WellDeclared (unit : ClassFile) : Prop where
  signature : SignatureReads unit.signature
  fields : ∀ field ∈ unit.fields, field.isDeclared = true →
    (∃ type, FieldType.ofDescriptor field.descriptor = .ok type) ∧ SignatureReads field.signature
  methods : ∀ method ∈ unit.methods, method.isDeclaredMethod = true →
    (∃ type, MethodType.ofDescriptor method.descriptor = .ok type) ∧
      SignatureReads method.signature

theorem signatureReads_iff {signature : Option String} :
    (∃ names, signature.toList.mapM Signature.classNames = .ok names) ↔
      SignatureReads signature := by
  rw [mapM_succeeds]
  simp only [Option.mem_toList]
  rfl

theorem exposing_succeeds {modifiers : List Modifier} {type : MemberType} :
    (∃ exposed, member.exposing modifiers type = .ok exposed) ↔
      SignatureReads member.signature := by
  unfold Member.exposing
  simp only [bind_eq_ok, pure_eq_ok, ← signatureReads_iff]
  constructor
  · rintro ⟨_, names, read, rfl⟩
    exact ⟨names, read⟩
  · rintro ⟨names, read⟩
    exact ⟨_, names, read, rfl⟩

theorem exposing_read_succeeds {α : Type} {read : Except Fault α} {modifiers : List Modifier}
    {type : α → MemberType} :
    (∃ exposed, (read >>= fun value => member.exposing modifiers (type value)) = .ok exposed) ↔
      (∃ value, read = .ok value) ∧ SignatureReads member.signature := by
  simp only [bind_eq_ok]
  constructor
  · rintro ⟨exposed, value, opened, done⟩
    exact ⟨⟨value, opened⟩, exposing_succeeds.mp ⟨exposed, done⟩⟩
  · rintro ⟨⟨value, opened⟩, signature⟩
    obtain ⟨exposed, done⟩ := exposing_succeeds.mpr signature
    exact ⟨exposed, value, opened, done⟩

theorem visibleField_succeeds :
    (∃ visible, member.visibleField = .ok visible) ↔
      (∃ type, FieldType.ofDescriptor member.descriptor = .ok type) ∧
        SignatureReads member.signature :=
  exposing_read_succeeds

theorem visibleMethod_succeeds :
    (∃ visible, member.visibleMethod = .ok visible) ↔
      (∃ type, MethodType.ofDescriptor member.descriptor = .ok type) ∧
        SignatureReads member.signature :=
  exposing_read_succeeds

theorem ofClass_succeeds :
    (∃ candidate, Candidate.ofClass unit = .ok candidate) ↔ unit.WellDeclared := by
  have fields : (∃ fields, (unit.fields.filter Member.isDeclared).mapM Member.visibleField =
      .ok fields) ↔ _ := mapM_succeeds
  have methods : (∃ methods, (unit.methods.filter Member.isDeclaredMethod).mapM
      Member.visibleMethod = .ok methods) ↔ _ := mapM_succeeds
  simp only [List.mem_filter, visibleField_succeeds, visibleMethod_succeeds, and_imp]
    at fields methods
  unfold Candidate.ofClass
  simp only [bind_eq_ok, pure_eq_ok]
  constructor
  · rintro ⟨_, generic, signature, own, read, others, read', rfl⟩
    exact ⟨signatureReads_iff.mp ⟨generic, signature⟩, fields.mp ⟨own, read⟩,
      methods.mp ⟨others, read'⟩⟩
  · rintro ⟨signature, ownFields, ownMethods⟩
    obtain ⟨generic, signature⟩ := signatureReads_iff.mpr signature
    obtain ⟨own, read⟩ := fields.mpr ownFields
    obtain ⟨others, read'⟩ := methods.mpr ownMethods
    exact ⟨_, generic, signature, own, read, others, read', rfl⟩

theorem add_succeeds {candidates : Candidates} :
    (∃ next, candidates.add unit = .ok next) ↔ (unit.definesType = true → unit.WellDeclared) := by
  unfold Candidates.add
  by_cases defines : unit.definesType = true
  · rw [if_pos defines, ← ofClass_succeeds]
    simp only [bind_eq_ok, pure_eq_ok, defines, true_imp_iff]
    constructor
    · rintro ⟨_, candidate, read, rfl⟩
      exact ⟨candidate, read⟩
    · rintro ⟨candidate, read⟩
      exact ⟨_, candidate, read, rfl⟩
  · rw [if_neg defines]
    exact ⟨fun _ holds => absurd holds defines, fun _ => ⟨candidates, rfl⟩⟩

def Held (disk : FileSystem) (config : Config) (outputs : List Path) (unit : ClassFile) : Prop :=
  ∃ output ∈ outputs, HoldsClass disk config.limits output unit

theorem extractSurface_computes {outputs : List Path} :
    (extractSurface disk config outputs).Computes
      (∀ output ∈ outputs, Readable disk config.limits output ∧
        ∀ unit, HoldsClass disk config.limits output unit →
          unit.definesType = true → unit.WellDeclared)
      fun surface => ∃ classes candidates,
        (∀ unit, unit ∈ classes ↔ Held disk config outputs unit) ∧
        Candidates.ofClasses classes = .ok candidates ∧
        candidates.surface config.abi = surface := by
  have accepted (candidates : Candidates) (unit : ClassFile) :
      (∃ next, candidates.add unit = .ok next) ↔ (unit.definesType = true → unit.WellDeclared) :=
    add_succeeds
  have fold : (outputs.foldlM (fun candidates output =>
      foldClasses disk config.limits output Candidates.add candidates) Candidates.empty :
        Run Candidates).Computes _ _ := foldOutputs_computes accepted .empty
  have extract := fold.mapNoted (fun candidates => candidates.surface config.abi) fun candidates =>
    .surfaceExtracted candidates.size (candidates.surface config.abi).types.length
  apply extract.mono Iff.rfl
  rintro _ ⟨candidates, ⟨classes, held, read⟩, rfl⟩
  exact ⟨classes, candidates, held, read, rfl⟩

theorem analyzeAbi_computes {index : Option Index} {outputs : List Path} :
    (analyzeAbi disk config index outputs).Computes
      (∀ output ∈ outputs, Readable disk config.limits output ∧
        ∀ unit, HoldsClass disk config.limits output unit →
          unit.definesType = true → unit.WellDeclared)
      fun report => ∃ classes candidates,
        (∀ unit, unit ∈ classes ↔ Held disk config outputs unit) ∧
        Candidates.ofClasses classes = .ok candidates ∧
        AbiReport.ofSurface (candidates.surface config.abi) index = report := by
  have extract : (extractSurface disk config outputs).Computes _ _ := extractSurface_computes
  have report := extract.mapNoted (fun surface => AbiReport.ofSurface surface index) fun surface =>
    let report := AbiReport.ofSurface surface index
    .abiComputed report.typeCount report.memberCount report.fingerprint
  apply report.mono Iff.rfl
  rintro _ ⟨_, ⟨classes, candidates, held, read, rfl⟩, rfl⟩
  exact ⟨classes, candidates, held, read, rfl⟩

end Linkage
