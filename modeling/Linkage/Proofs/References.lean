import Linkage.Proofs.Decoding
import Linkage.Proofs.Signatures
import Linkage.Proofs.Visibility
import Linkage.ClassFile.References

/-!
# What a class exposes, it refers to

The classes that a surface exposes come from the superclass, the interfaces and the signatures of a
class file; those that it refers to come from its constants and signatures, by other readers.
`exposed_referenced` says that the first are among the second, if the class is plainly named.
-/

namespace Linkage

/-! ## Class constants -/

def Pool.NamesClass (pool : Pool) (name : String) : Prop :=
  ∃ index, some (Constant.classInfo index) ∈ pool.slots.toList ∧ pool.utf8 index = .ok name

theorem Pool.mem_of_get {pool : Pool} {index : UInt16} {constant : Constant}
    (found : pool.get index = .ok constant) : some constant ∈ pool.slots.toList := by
  unfold Pool.get at found
  split at found
  · rename_i located
    cases found
    exact Array.mem_toList_iff.mpr (Array.mem_of_getElem? located)
  · cases found

theorem namesClass_of_className {pool : Pool} {index : UInt16} {name : String}
    (found : pool.className index = .ok name) : pool.NamesClass name := by
  obtain ⟨constant, slot, named⟩ := bind_eq_ok.mp found
  split at named
  · exact ⟨_, Pool.mem_of_get slot, named⟩
  · cases named

open Decoder

theorem className_gives {pool : Pool} {index : UInt16} :
    (liftM (pool.className index) : Decoder String).Gives pool.NamesClass :=
  gives_lift fun _ => namesClass_of_className

theorem className?_gives {pool : Pool} {index : UInt16} :
    (liftM (pool.className? index) : Decoder (Option String)).Gives
      fun found => ∀ name ∈ found, pool.NamesClass name := by
  apply gives_lift
  intro found opened
  unfold Pool.className? at opened
  split at opened
  · cases opened
    exact nofun
  · obtain ⟨name, read, rfl⟩ := map_eq_ok.mp opened
    rintro _ ⟨⟩
    exact namesClass_of_className read

namespace ClassFile

/-- Whether the superclass and interfaces of a class file come from its pool. -/
def NamesParents (unit : ClassFile) : Prop :=
  (∀ name ∈ unit.superClass, unit.pool.NamesClass name) ∧
    ∀ name ∈ unit.interfaces, unit.pool.NamesClass name

theorem decoder_gives : ClassFile.decoder.Gives NamesParents := by
  unfold ClassFile.decoder
  refine gives_bind fun found => ?_
  split
  · intro _ _ _ opened
    cases opened
  · have parent (pool : Pool) :
        (do let name ← pool.className (← u2); return name).Gives pool.NamesClass :=
      gives_bind fun _ => className_gives
    -- The pool is read before the superclass and the interfaces, and nothing changes it later.
    exact gives_bind fun _ => gives_bind fun _ => gives_bind fun pool => gives_bind fun _ =>
      gives_bind fun _ => gives_bind fun _ => gives_bind fun _ => className?_gives.bind
      fun superClass extended => (parent pool).counted.bind fun interfaces implemented =>
      gives_bind fun _ => gives_bind fun _ => gives_bind fun _ => gives_pure ⟨extended, implemented⟩

theorem namesParents {data : List UInt8} {unit : ClassFile} (decoded : ofBytes data = .ok unit) :
    unit.NamesParents :=
  decoder_gives.decode decoded

end ClassFile

def Signature.Names (text name : String) : Prop :=
  ∃ names, Signature.classNames text = .ok names ∧ name ∈ names

variable {unit : ClassFile} {member : Member} {references : List String} {name : String}

theorem mem_referencesOf {texts : List String} (read : referencesOf texts = .ok references) :
    name ∈ references ↔ ∃ text ∈ texts, Signature.Names text name := by
  obtain ⟨lists, opened, rfl⟩ := map_eq_ok.mp read
  rw [List.mem_flatten]
  constructor
  · rintro ⟨names, listed, member⟩
    obtain ⟨text, given, reads⟩ := (mem_of_mapM opened).mp listed
    exact ⟨text, given, names, reads, member⟩
  · rintro ⟨text, given, names, reads, member⟩
    exact ⟨names, (mem_of_mapM opened).mpr ⟨text, given, reads⟩, member⟩

theorem references_eq_ok (read : unit.references = .ok references) :
    ∃ fromPool fromSignatures,
      (unit.pool.slots.toList.filterMap id).mapM (Constant.references unit.pool) = .ok fromPool ∧
      referencesOf unit.signatures = .ok fromSignatures ∧
      fromPool.flatten ++ fromSignatures = references := by
  obtain ⟨fromPool, constants, rest⟩ := bind_eq_ok.mp read
  obtain ⟨fromSignatures, signatures, done⟩ := bind_eq_ok.mp rest
  exact ⟨fromPool, fromSignatures, constants, signatures, pure_eq_ok.mp done⟩

theorem signature_referenced (read : unit.references = .ok references) {text : String}
    (given : text ∈ unit.signatures) (named : Signature.Names text name) : name ∈ references := by
  obtain ⟨fromPool, fromSignatures, -, signatures, rfl⟩ := references_eq_ok read
  exact List.mem_append_right _ ((mem_referencesOf signatures).mpr ⟨text, given, named⟩)

theorem parent_referenced (read : unit.references = .ok references)
    (named : unit.pool.NamesClass name) (noArray : name.startsWith "[" = false) :
    name ∈ references := by
  obtain ⟨fromPool, fromSignatures, constants, -, rfl⟩ := references_eq_ok read
  obtain ⟨index, slot, text⟩ := named
  have itself : classOfConstant name = .ok (some name) := if_neg (by simp [noArray])
  have referred : (Constant.classInfo index).references unit.pool = .ok [name] :=
    bind_eq_ok.mpr ⟨name, text, bind_eq_ok.mpr ⟨some name, itself, rfl⟩⟩
  refine List.mem_append_left _ (List.mem_flatten.mpr ⟨[name], ?_, List.mem_singleton_self name⟩)
  exact (mem_of_mapM constants).mpr ⟨_, List.mem_filterMap.mpr ⟨_, slot, rfl⟩, referred⟩

/-! ## Exposed types -/

/-- Whether the classes in the declarations of a class file are written so that all readers find the
same names in them. -/
structure ClassFile.PlainlyNamed (unit : ClassFile) : Prop where
  superclass : ∀ name ∈ unit.superClass, name.startsWith "[" = false
  interfaces : ∀ name ∈ unit.interfaces, name.startsWith "[" = false
  fields : ∀ field ∈ unit.fields, ∀ type, FieldType.ofDescriptor field.descriptor = .ok type →
    type.Unmarked
  methods : ∀ method ∈ unit.methods, ∀ type, MethodType.ofDescriptor method.descriptor = .ok type →
    type.Unmarked

theorem exposing_names {modifiers : List Modifier} {type : MemberType}
    {visible : VisibleMember × List String} (read : member.exposing modifiers type = .ok visible)
    (described : Signature.classNames member.descriptor = .ok type.classNames)
    (exposed : name ∈ visible.2) : ∃ text ∈ member.signatures, Signature.Names text name := by
  obtain ⟨generic, opened, done⟩ := bind_eq_ok.mp read
  cases done
  unfold Member.signatures
  rcases List.mem_append.mp exposed with erased | inSignature
  · exact ⟨member.descriptor, by simp, _, described, erased⟩
  · obtain ⟨names, listed, named⟩ := List.mem_flatten.mp inSignature
    obtain ⟨text, given, reads⟩ := (mem_of_mapM opened).mp listed
    exact ⟨text, by simp_all, names, reads, named⟩

theorem visible_names {α : Type} {readType : Except Fault α} {modifiers : List Modifier}
    {type : α → MemberType} {visible : VisibleMember × List String}
    (read : (readType >>= fun value => member.exposing modifiers (type value)) = .ok visible)
    (described : ∀ value, readType = .ok value →
      Signature.classNames member.descriptor = .ok (type value).classNames)
    (exposed : name ∈ visible.2) : ∃ text ∈ member.signatures, Signature.Names text name := by
  obtain ⟨value, opened, rest⟩ := bind_eq_ok.mp read
  exact exposing_names rest (described value opened) exposed

theorem ofClass_exposed {candidate : Candidate} (opened : Candidate.ofClass unit = .ok candidate)
    (parents : unit.NamesParents) (plain : unit.PlainlyNamed)
    (read : unit.references = .ok references) {symbol : Symbol}
    (exposed : symbol ∈ candidate.type.exposed) :
    (∃ name ∈ references, Symbol.ofInternal name = symbol) ∧ symbol.isSynthetic = false := by
  obtain ⟨generic, fields, methods, readGeneric, readFields, readMethods, rfl⟩ :=
    ofClass_eq_ok.mp opened
  obtain ⟨listed, genuine⟩ := SymbolSet.mem_filter.mp exposed
  obtain ⟨name, named, rfl⟩ := List.mem_map.mp (SymbolSet.mem_ofList.mp listed)
  refine ⟨⟨name, ?_, rfl⟩, by simp_all⟩
  have ofMember {member : Member} (declared : member ∈ unit.fields ++ unit.methods)
      (within : ∃ text ∈ member.signatures, Signature.Names text name) : name ∈ references := by
    obtain ⟨text, given, named⟩ := within
    apply signature_referenced read _ named
    exact List.mem_append_right _ (List.mem_flatMap.mpr ⟨member, declared, given⟩)
  simp only [List.mem_append, List.mem_flatMap] at named
  rcases named with ((extended | implemented) | inSignature) | ⟨visible, isField | isMethod, named⟩
  · have given := (Option.filter_eq_some_iff.mp (Option.mem_toList.mp extended)).1
    exact parent_referenced read (parents.1 name given) (plain.superclass name given)
  · exact parent_referenced read (parents.2 name implemented) (plain.interfaces name implemented)
  · obtain ⟨names, listed, named⟩ := List.mem_flatten.mp inSignature
    obtain ⟨text, given, reads⟩ := (mem_of_mapM readGeneric).mp listed
    apply signature_referenced read _ ⟨names, reads, named⟩
    exact List.mem_append_left _ (List.mem_append_left _ given)
  · obtain ⟨field, given, opened⟩ := (mem_of_mapM readFields).mp isField
    have declared := List.mem_of_mem_filter given
    have described := fun type read =>
      FieldType.classNames_descriptor read (plain.fields field declared type read)
    exact ofMember (List.mem_append_left _ declared) (visible_names opened described named)
  · obtain ⟨method, given, opened⟩ := (mem_of_mapM readMethods).mp isMethod
    have declared := List.mem_of_mem_filter given
    have described := fun type read =>
      MethodType.classNames_descriptor read (plain.methods method declared type read)
    exact ofMember (List.mem_append_right _ declared) (visible_names opened described named)

theorem mem_exposed {surface : Surface} {symbol : Symbol} :
    symbol ∈ surface.exposed ↔ ∃ type ∈ surface.types, symbol ∈ type.exposed := by
  rw [Surface.exposed, SymbolSet.mem_ofList, List.mem_flatMap]
  rfl

theorem exposed_referenced {units : List ClassFile} {candidates : Candidates} {config : AbiConfig}
    {order : List String} (opened : Candidates.ofClasses units = .ok candidates)
    (parents : ∀ unit ∈ units, unit.NamesParents) (plain : ∀ unit ∈ units, unit.PlainlyNamed)
    (read : ∀ unit ∈ units, ∃ references, unit.references = .ok references) {symbol : Symbol}
    (exposed : symbol ∈ (candidates.surfaceInOrder config order).exposed) :
    symbol.isSynthetic = false ∧ ∃ unit ∈ units, ∃ references, unit.references = .ok references ∧
      ∃ name ∈ references, Symbol.ofInternal name = symbol := by
  obtain ⟨type, listed, exposed⟩ := mem_exposed.mp exposed
  obtain ⟨name, candidate, found, rfl⟩ := Candidates.mem_surfaceInOrder_found listed
  obtain ⟨unit, given, -, -, opened⟩ := ofClasses_lookup opened found
  obtain ⟨references, reads⟩ := read unit given
  obtain ⟨referred, genuine⟩ :=
    ofClass_exposed opened (parents unit given) (plain unit given) reads exposed
  exact ⟨genuine, unit, given, references, reads, referred⟩

end Linkage
