import Linkage.Proofs.AnnotationFormat

/-!
# Attributes and their bytes

A `BodyForm` is the body of an attribute without attributes of its own, with all that its bytes say.
An `AttributeForm` puts a name in front, or is a `Code` attribute with more attributes in it. What an
attribute says is read back from its bytes, and nothing is left of one that is not recognised.
-/

namespace Linkage

open Decoder

structure InnerClassForm where
  inner : ClassRef
  outer : Option ClassRef
  simpleName : Option TextRef
  flags : UInt16
  deriving DecidableEq, Repr

namespace InnerClassForm

def encode (form : InnerClassForm) : List UInt8 :=
  twoBytes form.inner.index ++ (twoBytes (ClassRef.indexOf form.outer)
    ++ (twoBytes (TextRef.indexOf form.simpleName) ++ twoBytes form.flags))

def line (form : InnerClassForm) : InnerClass where
  inner := form.inner.name
  outer := form.outer.map ClassRef.name
  simpleName := form.simpleName.map TextRef.text
  flags := ⟨form.flags⟩

structure Fits (pool : Pool) (form : InnerClassForm) : Prop where
  inner : form.inner.LiesIn pool
  outer : ∀ ref ∈ form.outer, ref.LiesIn pool
  simpleName : ∀ ref ∈ form.simpleName, ref.LiesIn pool

end InnerClassForm

structure LocalForm where
  start : UInt16
  length : UInt16
  name : UInt16
  type : TextRef
  slot : UInt16
  deriving DecidableEq, Repr

/-- Where the variable lies in the method, and its name: six bytes that are passed over. -/
def LocalForm.opening (form : LocalForm) : List UInt8 :=
  twoBytes form.start ++ twoBytes form.length ++ twoBytes form.name

def LocalForm.encode (form : LocalForm) : List UInt8 :=
  form.opening ++ (twoBytes form.type.index ++ twoBytes form.slot)

structure HandlerForm where
  start : UInt16
  stop : UInt16
  target : UInt16
  caught : UInt16
  deriving DecidableEq, Repr

def HandlerForm.encode (form : HandlerForm) : List UInt8 :=
  twoBytes form.start ++ twoBytes form.stop ++ twoBytes form.target ++ twoBytes form.caught

inductive BodyForm
  | sourceFile (name : TextRef)
  | signature (text : TextRef)
  | synthetic
  | innerClasses (lines : List InnerClassForm)
  | annotations (visible : Bool) (forms : List AnnotationForm)
  | parameterAnnotations (visible : Bool) (tables : List (List AnnotationForm))
  | annotationDefault (value : ValueForm)
  | locals (generic : Bool) (lines : List LocalForm)
  | unrecognised (name : String) (bytes : List UInt8)

namespace BodyForm

def recognised : List String :=
  ["SourceFile", "Signature", "Synthetic", "InnerClasses", "RuntimeVisibleAnnotations",
   "RuntimeInvisibleAnnotations", "RuntimeVisibleParameterAnnotations",
   "RuntimeInvisibleParameterAnnotations", "AnnotationDefault", "Code", "LocalVariableTable",
   "LocalVariableTypeTable"]

def name : BodyForm → String
  | sourceFile _ => "SourceFile"
  | signature _ => "Signature"
  | synthetic => "Synthetic"
  | innerClasses _ => "InnerClasses"
  | annotations true _ => "RuntimeVisibleAnnotations"
  | annotations false _ => "RuntimeInvisibleAnnotations"
  | parameterAnnotations true _ => "RuntimeVisibleParameterAnnotations"
  | parameterAnnotations false _ => "RuntimeInvisibleParameterAnnotations"
  | annotationDefault _ => "AnnotationDefault"
  | locals false _ => "LocalVariableTable"
  | locals true _ => "LocalVariableTypeTable"
  | unrecognised name _ => name

def kind : BodyForm → AttributeKind
  | sourceFile _ => .sourceFile
  | signature _ => .signature
  | synthetic => .synthetic
  | innerClasses _ => .innerClasses
  | annotations _ _ => .annotations
  | parameterAnnotations _ _ => .parameterAnnotations
  | annotationDefault _ => .annotationDefault
  | locals _ _ => .locals
  | unrecognised _ _ => .other

def encode : BodyForm → List UInt8
  | sourceFile ref | signature ref => twoBytes ref.index
  | synthetic => []
  | innerClasses lines => listed InnerClassForm.encode lines
  | annotations _ forms => listed AnnotationForm.encode forms
  | parameterAnnotations _ tables => parameterTables tables
  | annotationDefault value => value.encode
  | locals _ lines => listed LocalForm.encode lines
  | unrecognised _ bytes => bytes

def descriptors : BodyForm → List String
  | annotations _ forms => forms.flatMap AnnotationForm.descriptors
  | parameterAnnotations _ tables =>
      tables.flatMap fun forms => forms.flatMap AnnotationForm.descriptors
  | annotationDefault value => value.descriptors
  | _ => []

def localTypes : BodyForm → List String
  | locals _ lines => lines.map fun line => line.type.text
  | _ => []

def meaning : BodyForm → Attribute
  | sourceFile name => .sourceFile name.text
  | signature text => .signature text.text
  | synthetic => .synthetic
  | innerClasses lines => .innerClasses (lines.map InnerClassForm.line)
  | form@(annotations _ _) | form@(parameterAnnotations _ _) | form@(annotationDefault _) =>
      .annotations form.descriptors
  | form@(locals _ _) => .locals form.localTypes
  | unrecognised _ _ => .other

def Fits (pool : Pool) : BodyForm → Prop
  | sourceFile ref | signature ref => ref.LiesIn pool
  | synthetic => True
  | innerClasses lines => Listable (InnerClassForm.Fits pool) lines
  | annotations _ forms => Listable (AnnotationForm.Fits pool 1) forms
  | parameterAnnotations _ tables =>
      tables.length < 2 ^ 8 ∧ ∀ forms ∈ tables, Listable (AnnotationForm.Fits pool 1) forms
  | annotationDefault value => value.Fits pool 0
  | locals _ lines => Listable (fun line => line.type.LiesIn pool) lines
  | unrecognised name _ => name ∉ recognised

end BodyForm

section Bodies

variable {pool : Pool} {form : BodyForm}

theorem ofName_other {name : String} (unknown : name ∉ BodyForm.recognised) :
    AttributeKind.ofName name = .other := by
  simp only [BodyForm.recognised, List.mem_cons, List.not_mem_nil, or_false, not_or] at unknown
  unfold AttributeKind.ofName
  split
  all_goals simp_all

theorem ofName_name (fits : form.Fits pool) : AttributeKind.ofName form.name = form.kind := by
  cases form with
  | annotations visible forms => cases visible <;> rfl
  | parameterAnnotations visible tables => cases visible <;> rfl
  | locals generic lines => cases generic <;> rfl
  | unrecognised name bytes => exact ofName_other fits
  | _ => rfl

theorem kind_ne_code (form : BodyForm) : form.kind ≠ .code := by
  cases form <;> exact fun same => AttributeKind.noConfusion same

theorem innerClass_reads {line : InnerClassForm} (opens : pool.slots[0]? = some none)
    (fits : line.Fits pool) : (InnerClass.decoder pool).Reads line.encode line.line := by
  refine Reads.after_lookup fits.inner.className ?_
  refine Reads.after_lookup (className?_indexOf opens fits.outer) ?_
  exact (u2_reads line.flags).map.after_lookup (utf8?_indexOf opens fits.simpleName)

theorem local_reads {line : LocalForm} (located : line.type.LiesIn pool) :
    (Attribute.localDecoder pool).Reads line.encode line.type.text :=
  (skip_reads line.opening rfl).bind
    ((skip_reads (twoBytes line.slot) rfl).map.after_lookup located.utf8)

theorem decode_body (opens : pool.slots[0]? = some none) (fits : form.Fits pool) :
    decode (Attribute.body pool form.kind) form.encode = .ok form.meaning := by
  cases form with
  | sourceFile ref => exact (lookup_reads (TextRef.LiesIn.utf8 fits)).decode_all
  | signature ref => exact (lookup_reads (TextRef.LiesIn.utf8 fits)).decode_all
  | synthetic => rfl
  | innerClasses lines => exact (counted_reads fits fun _ => innerClass_reads opens).map.decode_all
  | annotations _ forms => exact (table_reads fits).map.decode_all
  | parameterAnnotations _ tables => exact (parameterTables_reads fits.1 fits.2).map.decode_all
  | annotationDefault value => exact (default_reads fits).map.decode_all
  | locals _ lines => exact (counted_reads fits fun _ => local_reads).map.decode_all
  | unrecognised name bytes => rfl

end Bodies

/-- An attribute behind the index of its name. Those of a `Code` attribute come last in it, after the
instructions and the exception handlers. -/
inductive AttributeForm
  | plain (name : UInt16) (body : BodyForm)
  | code (name maxStack maxLocals : UInt16) (instructions : List UInt8)
      (handlers : List HandlerForm) (attributes : List AttributeForm)

namespace AttributeForm

def preamble (maxStack maxLocals : UInt16) (instructions : List UInt8)
    (handlers : List HandlerForm) : List UInt8 :=
  (twoBytes maxStack ++ twoBytes maxLocals)
    ++ (prefixed instructions ++ listed HandlerForm.encode handlers)

-- As for annotations, the inner list is written out so that the recursion is seen to end.
def encode : AttributeForm → List UInt8
  | plain name body => twoBytes name ++ prefixed body.encode
  | code name maxStack maxLocals instructions handlers attributes =>
      twoBytes name ++ prefixed (preamble maxStack maxLocals instructions handlers
        ++ (twoBytes (UInt16.ofNat attributes.length) ++ attributes.flatMap encode))

theorem encode_code {name maxStack maxLocals : UInt16} {instructions : List UInt8}
    {handlers : List HandlerForm} {attributes : List AttributeForm} :
    encode (code name maxStack maxLocals instructions handlers attributes) =
      twoBytes name ++ prefixed (preamble maxStack maxLocals instructions handlers
        ++ listed encode attributes) := by
  rw [encode]
  rfl

def descriptors : AttributeForm → List String
  | plain _ body => body.descriptors
  | code _ _ _ _ _ attributes => attributes.flatMap descriptors

def localTypes : AttributeForm → List String
  | plain _ body => body.localTypes
  | code _ _ _ _ _ attributes => attributes.flatMap localTypes

def meaning : AttributeForm → Attribute
  | plain _ body => body.meaning
  | code _ _ _ _ _ attributes =>
      .code (attributes.flatMap descriptors) (attributes.flatMap localTypes)

inductive Fits (pool : Pool) : AttributeForm → Prop
  | plain {name : UInt16} {body : BodyForm} (named : TextRef.LiesIn pool ⟨name, body.name⟩)
      (short : body.encode.length < 2 ^ 32) (fits : body.Fits pool) : Fits pool (plain name body)
  | code {name maxStack maxLocals : UInt16} {instructions : List UInt8}
      {handlers : List HandlerForm} {attributes : List AttributeForm}
      (named : TextRef.LiesIn pool ⟨name, "Code"⟩)
      (short : (preamble maxStack maxLocals instructions handlers
        ++ listed encode attributes).length < 2 ^ 32)
      (fewHandlers : handlers.length < 2 ^ 16) (few : attributes.length < 2 ^ 16)
      (each : ∀ form ∈ attributes, Fits pool form) :
      Fits pool (code name maxStack maxLocals instructions handlers attributes)

end AttributeForm

section Attributes

variable {pool : Pool}

theorem header_reads {name : UInt16} {text : String} {part : List UInt8}
    (named : TextRef.LiesIn pool ⟨name, text⟩) (short : part.length < 2 ^ 32) :
    (Attribute.header pool).Reads (twoBytes name ++ prefixed part)
      (AttributeKind.ofName text, part) :=
  (u4Prefixed_reads part short).map.after_lookup named.utf8

theorem handlers_length (handlers : List HandlerForm) :
    (handlers.flatMap HandlerForm.encode).length = handlers.length * 8 := by
  induction handlers with
  | nil => rfl
  | cons handler handlers ih =>
    rw [List.flatMap_cons, List.length_append, ih, List.length_cons, Nat.succ_mul, Nat.add_comm]
    rfl

theorem preamble_reads (maxStack maxLocals : UInt16) {instructions : List UInt8}
    {handlers : List HandlerForm} (short : instructions.length < 2 ^ 32)
    (few : handlers.length < 2 ^ 16) :
    Attribute.codePreamble.Reads
      (AttributeForm.preamble maxStack maxLocals instructions handlers) () := by
  refine (skip_reads (twoBytes maxStack ++ twoBytes maxLocals) rfl).bind ?_
  refine (u4Prefixed_reads instructions short).bind ?_
  refine (u2_reads _).bind (skip_reads _ ?_)
  rw [UInt16.toNat_ofNat_of_lt' few, handlers_length]

theorem instructions_short {maxStack maxLocals : UInt16} {instructions : List UInt8}
    {handlers : List HandlerForm} {bound : Nat}
    (short : (AttributeForm.preamble maxStack maxLocals instructions handlers).length < bound) :
    instructions.length < bound := by
  unfold AttributeForm.preamble prefixed at short
  simp only [List.length_append] at short
  omega

/-! ## One attribute after the other -/

namespace Attribute

variable (pool)

def codeBody : Decoder Attribute := do
  codePreamble
  let nested ← rows pool (← u2).toNat []
  return code (nested.flatMap descriptors) (nested.flatMap localTypes)

def content (kind : AttributeKind) (part : List UInt8) : Except Fault Attribute :=
  if kind = .code then decode (codeBody pool) part else decode (body pool kind) part

theorem content_code (part : List UInt8) :
    content pool .code part = decode (codeBody pool) part := if_pos rfl

theorem rows_succ (count : Nat) (before : List Attribute) :
    rows pool (count + 1) before = header pool >>= fun (kind, part) =>
      (liftM (content pool kind part) : Decoder Attribute) >>= fun found =>
        rows pool count (found :: before) := by
  funext cursor
  rw [rows]
  split
  case h_1 failed => exact (bind_of_error failed).symm
  case h_2 part next coded =>
    rw [bind_of_ok coded]
    dsimp only
    rw [content_code]
    -- The body is followed through the decoders that it is made of.
    split
    case h_1 failed =>
      have body : decode (codeBody pool) part = _ := decode_of_error (bind_of_error failed)
      rw [lift_bind_of_error body]
    case h_2 passed =>
      split
      case h_1 failed =>
        have body : decode (codeBody pool) part = _ :=
          decode_of_error ((bind_of_ok passed).trans (bind_of_error failed))
        rw [lift_bind_of_error body]
      case h_2 counted =>
        split
        case h_1 failed =>
          have body : decode (codeBody pool) part = _ :=
            decode_of_error <|
              (bind_of_ok passed).trans ((bind_of_ok counted).trans (bind_of_error failed))
          rw [lift_bind_of_error body]
        case h_2 inner =>
          have body : decode (codeBody pool) part = _ :=
            decode_of_ok <|
              (bind_of_ok passed).trans ((bind_of_ok counted).trans (bind_of_ok inner))
          rw [lift_bind_of_ok body]
  case h_3 plain other =>
    rw [bind_of_ok other]
    dsimp only
    rw [content, if_neg plain]
    split
    case h_1 failed => rw [lift_bind_of_error failed]
    case h_2 found => rw [lift_bind_of_ok found]

end Attribute

variable {count : Nat} {before : List Attribute}

theorem meaning_descriptors (form : AttributeForm) :
    form.meaning.descriptors = form.descriptors := by
  cases form with
  | plain name body =>
    rw [AttributeForm.descriptors]
    cases body <;> rfl
  | code => rw [AttributeForm.descriptors]; rfl

theorem meaning_localTypes (form : AttributeForm) :
    form.meaning.localTypes = form.localTypes := by
  cases form with
  | plain name body =>
    rw [AttributeForm.localTypes]
    cases body <;> rfl
  | code => rw [AttributeForm.localTypes]; rfl

theorem flatMap_meaning_descriptors (forms : List AttributeForm) :
    (forms.map AttributeForm.meaning).flatMap Attribute.descriptors
      = forms.flatMap AttributeForm.descriptors := by
  rw [List.flatMap_map]
  exact List.flatMap_congr fun form _ => meaning_descriptors form

theorem flatMap_meaning_localTypes (forms : List AttributeForm) :
    (forms.map AttributeForm.meaning).flatMap Attribute.localTypes
      = forms.flatMap AttributeForm.localTypes := by
  rw [List.flatMap_map]
  exact List.flatMap_congr fun form _ => meaning_localTypes form

section Steps

variable {name maxStack maxLocals : UInt16} {instructions : List UInt8}
  {handlers : List HandlerForm} {attributes : List AttributeForm} {body : BodyForm}
  {bytes : List UInt8} {final : List Attribute}

theorem plain_step (opens : pool.slots[0]? = some none)
    (fits : (AttributeForm.plain name body).Fits pool)
    (others : (Attribute.rows pool count (body.meaning :: before)).Reads bytes final) :
    (Attribute.rows pool (count + 1) before).Reads
      ((AttributeForm.plain name body).encode ++ bytes) final := by
  obtain ⟨named, short, fits⟩ := fits
  have header := header_reads named short
  rw [ofName_name fits] at header
  have content : Attribute.content pool body.kind body.encode = .ok body.meaning :=
    (if_neg (kind_ne_code body)).trans (decode_body opens fits)
  rw [AttributeForm.encode, Attribute.rows_succ]
  exact header.bind (others.after_lift content)

theorem code_step
    (fits : (AttributeForm.code name maxStack maxLocals instructions handlers attributes).Fits pool)
    (nested : (Attribute.rows pool attributes.length []).Reads
      (attributes.flatMap AttributeForm.encode) (attributes.map AttributeForm.meaning))
    (others : (Attribute.rows pool count (AttributeForm.meaning
      (.code name maxStack maxLocals instructions handlers attributes) :: before)).Reads
        bytes final) :
    (Attribute.rows pool (count + 1) before).Reads
      ((AttributeForm.code name maxStack maxLocals instructions handlers attributes).encode
        ++ bytes) final := by
  cases fits with
  | code named short fewHandlers few each =>
    have header : (Attribute.header pool).Reads _ (.code, _) := header_reads named short
    rw [List.length_append] at short
    have preamble := preamble_reads maxStack maxLocals
      (instructions_short (Nat.lt_of_le_of_lt (Nat.le_add_right _ _) short)) fewHandlers
    rw [← UInt16.toNat_ofNat_of_lt' few] at nested
    have body : (Attribute.codeBody pool).Reads _ _ :=
      preamble.bind ((u2_reads (UInt16.ofNat attributes.length)).bind nested.map)
    rw [flatMap_meaning_descriptors, flatMap_meaning_localTypes] at body
    rw [AttributeForm.encode_code, Attribute.rows_succ]
    exact header.bind (others.after_lift ((Attribute.content_code pool _).trans body.decode_all))

end Steps

/-- The recursion is on the attributes, both those in a `Code` attribute and those after it. -/
theorem rows_reads (forms : List AttributeForm) (opens : pool.slots[0]? = some none)
    (fit : ∀ form ∈ forms, form.Fits pool) (before : List Attribute) :
    (Attribute.rows pool forms.length before).Reads (forms.flatMap AttributeForm.encode)
      (before.reverse ++ forms.map AttributeForm.meaning) := by
  match forms with
  | [] =>
    intro pos trailing
    rw [List.length_nil, Attribute.rows, List.map_nil, List.append_nil]
    rfl
  | .plain name body :: rest =>
    obtain ⟨fits, others⟩ := List.forall_mem_cons.mp fit
    have reads := rows_reads rest opens others (body.meaning :: before)
    rw [List.reverse_cons, List.append_assoc] at reads
    exact plain_step opens fits reads
  | .code name maxStack maxLocals instructions handlers attributes :: rest =>
    obtain ⟨fits, others⟩ := List.forall_mem_cons.mp fit
    have reads := rows_reads rest opens others (AttributeForm.meaning
      (.code name maxStack maxLocals instructions handlers attributes) :: before)
    rw [List.reverse_cons, List.append_assoc] at reads
    have nested : ∀ form ∈ attributes, form.Fits pool := by
      cases fits
      assumption
    exact code_step fits (rows_reads attributes opens nested []) reads

theorem attributes_reads {forms : List AttributeForm} (opens : pool.slots[0]? = some none)
    (listable : Listable (AttributeForm.Fits pool) forms) :
    (Attribute.table pool).Reads (listed AttributeForm.encode forms)
      (forms.map AttributeForm.meaning) := by
  refine (u2_reads _).bind ?_
  rw [UInt16.toNat_ofNat_of_lt' listable.few]
  exact rows_reads forms opens listable.each []

end Attributes

end Linkage
