import Linkage.ClassFile.Flags
import Linkage.ClassFile.Pool

/-!
The attributes of a class file that name types or say who may see one.

An attribute is a name and a body of stated length. Each body is read on its own, from position 0;
what a body holds beyond what is read of it does not matter, and neither does an attribute whose
name is not listed in `AttributeKind.ofName`.
-/

namespace Linkage

structure InnerClass where
  inner : String
  outer : Option String
  simpleName : Option String
  flags : AccessFlags
  deriving DecidableEq, Repr

inductive Attribute
  | sourceFile (name : String)
  | signature (text : String)
  | synthetic
  | innerClasses (entries : List InnerClass)
  /-- The descriptors of annotation types and of the enum and class values given to them. -/
  | annotations (descriptors : List String)
  /-- The types of local variables, as descriptors and signatures. -/
  | locals (types : List String)
  /-- What the attributes of a method's body say of annotation types and local variables. -/
  | code (descriptors types : List String)
  | other
  deriving DecidableEq, Repr

/-! ## Annotations and their values -/

namespace Annotations

open Decoder

def maxDepth : Nat := 64

def tooDeep : Decoder (List String) := throw (.limitExceeded "annotation nesting")

def decoder (pool : Pool) (value : Decoder (List String)) : Decoder (List String) := do
  let type ← pool.utf8 (← u2)
  let values ← counted do
    skip 2
    value
  return type :: values.flatten

def valueDecoder (pool : Pool) (element nested : Decoder (List String)) :
    Decoder (List String) := do
  let tag ← u1
  match Char.ofNat tag.toNat with
  | 'B' | 'C' | 'D' | 'F' | 'I' | 'J' | 'S' | 'Z' | 's' => do
      skip 2
      return []
  | 'e' => do
      let type ← pool.utf8 (← u2)
      skip 2
      return [type]
  | 'c' => do
      let descriptor ← pool.utf8 (← u2)
      return if descriptor = "V" then [] else [descriptor]
  | '@' => decoder pool nested
  | '[' => return (← counted element).flatten
  | _ => throw (.corruptEntry "annotation" s!"unknown element value tag {tag}")

/-- A value that may have values nested in it to `levels` levels, itself included. -/
def value (pool : Pool) : (levels : Nat) → Decoder (List String)
  | 0 => tooDeep
  | 1 => valueDecoder pool tooDeep tooDeep
  | levels + 2 => valueDecoder pool (value pool (levels + 1)) (value pool levels)

/-- The annotations on a declaration. Their values lie at depth 1. -/
def table (pool : Pool) : Decoder (List String) :=
  return (← counted (decoder pool (value pool maxDepth))).flatten

def parameterTables (pool : Pool) : Decoder (List String) := do
  return (← many (← u1).toNat (table pool)).flatten

/-- The default of an annotation's element, a value at depth 0. -/
def default (pool : Pool) : Decoder (List String) := value pool (maxDepth + 1)

end Annotations

/-! ## Attribute bodies -/

inductive AttributeKind
  | sourceFile
  | signature
  | synthetic
  | innerClasses
  | annotations
  | parameterAnnotations
  | annotationDefault
  | code
  | locals
  | other
  deriving DecidableEq, Repr

def AttributeKind.ofName : String → AttributeKind
  | "SourceFile" => .sourceFile
  | "Signature" => .signature
  | "Synthetic" => .synthetic
  | "InnerClasses" => .innerClasses
  | "RuntimeVisibleAnnotations" | "RuntimeInvisibleAnnotations" => .annotations
  | "RuntimeVisibleParameterAnnotations" | "RuntimeInvisibleParameterAnnotations" =>
      .parameterAnnotations
  | "AnnotationDefault" => .annotationDefault
  | "Code" => .code
  | "LocalVariableTable" | "LocalVariableTypeTable" => .locals
  | _ => .other

namespace InnerClass

open Decoder

def decoder (pool : Pool) : Decoder InnerClass := do
  let inner ← pool.className (← u2)
  let outer ← pool.className? (← u2)
  let simpleName ← pool.utf8? (← u2)
  return { inner, outer, simpleName, flags := ⟨← u2⟩ }

end InnerClass

namespace Attribute

open Decoder

def localDecoder (pool : Pool) : Decoder String := do
  skip 6
  let type ← pool.utf8 (← u2)
  skip 2
  return type

def body (pool : Pool) : AttributeKind → Decoder Attribute
  | .sourceFile => return sourceFile (← pool.utf8 (← u2))
  | .signature => return signature (← pool.utf8 (← u2))
  | .synthetic => return synthetic
  | .innerClasses => return innerClasses (← counted (InnerClass.decoder pool))
  | .annotations => return annotations (← Annotations.table pool)
  | .parameterAnnotations => return annotations (← Annotations.parameterTables pool)
  | .annotationDefault => return annotations (← Annotations.default pool)
  | .locals => return locals (← counted (localDecoder pool))
  | .code | .other => return other

def codePreamble : Decoder Unit := do
  skip 4
  let _ ← u4Prefixed
  skip ((← u2).toNat * 8)

def header (pool : Pool) : Decoder (AttributeKind × List UInt8) := do
  let name ← pool.utf8 (← u2)
  return (.ofName name, ← u4Prefixed)

/-! ## Attribute tables -/

theorem header_length {pool : Pool} {kind : AttributeKind} {part : List UInt8}
    {cursor next : Cursor} (success : header pool cursor = .ok (kind, part) next) :
    next.rest.length + part.length < cursor.rest.length := by
  obtain ⟨index, afterIndex, indexed, success⟩ := ok_of_bind success
  obtain ⟨name, afterName, named, success⟩ := ok_of_bind success
  obtain ⟨found, afterBody, bodied, success⟩ := ok_of_bind success
  cases success
  have := u2_length indexed
  obtain ⟨_, rfl⟩ := lift_ok named
  have := u4Prefixed_length bodied
  omega

theorem codePreamble_length {cursor next : Cursor} (success : codePreamble cursor = .ok () next) :
    next.rest.length ≤ cursor.rest.length := by
  obtain ⟨_, afterLimits, limits, success⟩ := ok_of_bind success
  obtain ⟨_, afterInstructions, instructions, success⟩ := ok_of_bind success
  obtain ⟨handlers, afterCount, counted, success⟩ := ok_of_bind success
  obtain ⟨_, _, skippedLimits, done⟩ := ok_of_bind limits
  cases done
  obtain ⟨_, _, skippedHandlers, done⟩ := ok_of_bind success
  cases done
  have := bytes_length skippedLimits
  have := u4Prefixed_length instructions
  have := u2_length counted
  have := bytes_length skippedHandlers
  omega

def descriptors : Attribute → List String
  | annotations descriptors | code descriptors _ => descriptors
  | _ => []

def localTypes : Attribute → List String
  | locals types | code _ types => types
  | _ => []

def rows (pool : Pool) (count : Nat) (before : List Attribute) :
    Decoder (List Attribute) := fun cursor =>
  match count with
  | 0 => .ok before.reverse cursor
  | count + 1 =>
    match opened : header pool cursor with
    | .error fault cursor => .error fault cursor
    | .ok (.code, part) next =>
      have shorter := header_length opened
      match passed : codePreamble (Cursor.start part) with
      | .error fault _ => .error fault next
      | .ok () inside =>
        match counted : u2 inside with
        | .error fault _ => .error fault next
        | .ok nested body =>
          have inner : body.rest.length < cursor.rest.length := by
            have := codePreamble_length passed
            have := u2_length counted
            simp only [Cursor.start] at *
            omega
          match rows pool nested.toNat [] body with
          | .error fault _ => .error fault next
          | .ok nested _ =>
            let gathered := code (nested.flatMap descriptors) (nested.flatMap localTypes)
            rows pool count (gathered :: before) next
    | .ok (kind, part) next =>
      have shorter := header_length opened
      match decode (body pool kind) part with
      | .error fault => .error fault next
      | .ok found => rows pool count (found :: before) next
termination_by cursor => cursor.rest.length
decreasing_by all_goals omega

def table (pool : Pool) : Decoder (List Attribute) := do
  rows pool (← u2).toNat []

end Attribute

end Linkage
