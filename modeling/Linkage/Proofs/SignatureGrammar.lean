import Linkage.Proofs.GenericSignatures

/-!
# The grammar of signatures

What is read as a signature is derived in a grammar, and the classes found are those of the
derivation in the order in which they end. The grammar is the one of generic signatures in class
files, except that angle brackets may be empty, that the form without brackets is any number of types,
that a method may throw anything but a base type, and that names may hold all characters but the
delimiters.
-/

namespace Linkage.Signature

structure Glyph where
  char : Char
  ends : Option String := none

def plain (text : List Char) : List Glyph := text.map fun c => ⟨c, none⟩

def textOf (glyphs : List Glyph) : List Char := glyphs.map Glyph.char

def namesOf (glyphs : List Glyph) : List String := glyphs.filterMap Glyph.ends

@[simp]
theorem textOf_plain (text : List Char) : textOf (plain text) = text := by
  rw [textOf, plain, List.map_map]
  exact List.map_id _

@[simp]
theorem namesOf_plain (text : List Char) : namesOf (plain text) = [] := by simp [namesOf, plain]

@[simp]
theorem namesOf_nil : namesOf [] = [] := rfl

@[simp]
theorem namesOf_append (first others : List Glyph) :
    namesOf (first ++ others) = namesOf first ++ namesOf others := List.filterMap_append

@[simp]
theorem namesOf_cons_none (c : Char) (glyphs : List Glyph) :
    namesOf (⟨c, none⟩ :: glyphs) = namesOf glyphs := rfl

@[simp]
theorem namesOf_cons_some (c : Char) (name : String) (glyphs : List Glyph) :
    namesOf (⟨c, some name⟩ :: glyphs) = name :: namesOf glyphs := rfl

def Undelimited (text : List Char) : Prop := ∀ c ∈ text, isDelimiter c = false

structure IsIdentifier (name : List Char) : Prop where
  notEmpty : name ≠ []
  undelimited : Undelimited name

inductive Phrase
  | many (phrase : Phrase)
  | type
  | reference
  /-- What names a class, with the type arguments in it; dollar signs stand for the dots. -/
  | segments (name : List Char)
  | arguments
  | argument
  | typeParameters
  | interfaceBound
  | result
  | thrown
  | body
  | signature

/-- Whether an interface bound or the end of the type parameters follows, with no class bound. -/
def LacksClassBound (glyphs : List Glyph) : Prop :=
  ∃ c ∈ glyphs.head?, c.char = ':' ∨ c.char = '>'

inductive Derives : Phrase → List Glyph → Prop
  | done {phrase : Phrase} : Derives (.many phrase) []
  | more {phrase : Phrase} {first others : List Glyph} :
      Derives phrase first → Derives (.many phrase) others →
      Derives (.many phrase) (first ++ others)
  | base (type : BaseType) : Derives .type [⟨type.letter, none⟩]
  | reference {glyphs : List Glyph} : Derives .reference glyphs → Derives .type glyphs
  | class {name : List Char} {glyphs : List Glyph} : Derives (.segments name) glyphs →
      Derives .reference (⟨'L', none⟩ :: (glyphs ++ [⟨';', some (String.ofList name)⟩]))
  | variable {name : List Char} : IsIdentifier name →
      Derives .reference (⟨'T', none⟩ :: (plain name ++ [⟨';', none⟩]))
  | array {glyphs : List Glyph} : Derives .type glyphs → Derives .reference (⟨'[', none⟩ :: glyphs)
  | last {name : List Char} {arguments : List Glyph} :
      IsIdentifier name → Derives .arguments arguments →
      Derives (.segments name) (plain name ++ arguments)
  | nested {name inner : List Char} {arguments glyphs : List Glyph} :
      IsIdentifier name → Derives .arguments arguments → Derives (.segments inner) glyphs →
      Derives (.segments (name ++ '$' :: inner))
        (plain name ++ (arguments ++ ⟨'.', none⟩ :: glyphs))
  | noArguments : Derives .arguments []
  | arguments {glyphs : List Glyph} : Derives (.many .argument) glyphs →
      Derives .arguments (⟨'<', none⟩ :: (glyphs ++ [⟨'>', none⟩]))
  | exactly {glyphs : List Glyph} : Derives .reference glyphs → Derives .argument glyphs
  | upTo {glyphs : List Glyph} :
      Derives .reference glyphs → Derives .argument (⟨'+', none⟩ :: glyphs)
  | downTo {glyphs : List Glyph} :
      Derives .reference glyphs → Derives .argument (⟨'-', none⟩ :: glyphs)
  | any : Derives .argument [⟨'*', none⟩]
  | closed : Derives .typeParameters [⟨'>', none⟩]
  | bounded {name : List Char} {bound bounds others : List Glyph} :
      IsIdentifier name → Derives .reference bound → Derives (.many .interfaceBound) bounds →
      Derives .typeParameters others →
      Derives .typeParameters (plain name ++ ⟨':', none⟩ :: (bound ++ (bounds ++ others)))
  | unbounded {name : List Char} {bounds others : List Glyph} :
      IsIdentifier name → Derives (.many .interfaceBound) bounds → Derives .typeParameters others →
      LacksClassBound (bounds ++ others) →
      Derives .typeParameters (plain name ++ ⟨':', none⟩ :: (bounds ++ others))
  | interfaceBound {glyphs : List Glyph} :
      Derives .reference glyphs → Derives .interfaceBound (⟨':', none⟩ :: glyphs)
  | void : Derives .result [⟨'V', none⟩]
  | returned {glyphs : List Glyph} : Derives .type glyphs → Derives .result glyphs
  | thrown {glyphs : List Glyph} :
      Derives .reference glyphs → Derives .thrown (⟨'^', none⟩ :: glyphs)
  | types {glyphs : List Glyph} : Derives (.many .type) glyphs → Derives .body glyphs
  | method {parameters result thrown : List Glyph} :
      Derives (.many .type) parameters → Derives .result result → Derives (.many .thrown) thrown →
      Derives .body (⟨'(', none⟩ :: (parameters ++ ⟨')', none⟩ :: (result ++ thrown)))
  | ungeneric {glyphs : List Glyph} : Derives .body glyphs → Derives .signature glyphs
  | generic {parameters glyphs : List Glyph} :
      Derives .typeParameters parameters → Derives .body glyphs →
      Derives .signature (⟨'<', none⟩ :: (parameters ++ glyphs))

/-! ## What a part still expects -/

inductive Completes : Part → List Glyph → Prop
  | whole {glyphs : List Glyph} : Derives .signature glyphs → Completes .whole glyphs
  | body {glyphs : List Glyph} : Derives .body glyphs → Completes .body glyphs
  | types {glyphs : List Glyph} : Derives (.many .type) glyphs → Completes .types glyphs
  | parameters {parameters result thrown : List Glyph} :
      Derives (.many .type) parameters → Derives .result result → Derives (.many .thrown) thrown →
      Completes .parameters (parameters ++ ⟨')', none⟩ :: (result ++ thrown))
  | result {result thrown : List Glyph} :
      Derives .result result → Derives (.many .thrown) thrown → Completes .result (result ++ thrown)
  | thrown {glyphs : List Glyph} : Derives (.many .thrown) glyphs → Completes .thrown glyphs
  | typeParameters {glyphs : List Glyph} :
      Derives .typeParameters glyphs → Completes .typeParameters glyphs
  | typeParameterName {name : List Char} {glyphs : List Glyph} :
      Undelimited name → Completes .classBound glyphs →
      Completes .typeParameterName (plain name ++ ⟨':', none⟩ :: glyphs)
  | classBound {bound glyphs : List Glyph} :
      Derives .reference bound → Completes .moreBounds glyphs →
      Completes .classBound (bound ++ glyphs)
  | noClassBound {glyphs : List Glyph} :
      Completes .moreBounds glyphs → LacksClassBound glyphs → Completes .classBound glyphs
  | moreBounds {bounds others : List Glyph} :
      Derives (.many .interfaceBound) bounds → Derives .typeParameters others →
      Completes .moreBounds (bounds ++ others)
  | type {glyphs : List Glyph} : Derives .type glyphs → Completes .type glyphs
  | reference {glyphs : List Glyph} : Derives .reference glyphs → Completes .reference glyphs
  | classSegment {before name : List Char} {arguments glyphs : List Glyph} :
      IsIdentifier name → Derives .arguments arguments →
      Completes (.classSuffix (name.reverse ++ before)) glyphs →
      Completes (.classSegment before) (plain name ++ (arguments ++ glyphs))
  | className {before name : List Char} {arguments glyphs : List Glyph} :
      Undelimited name → Derives .arguments arguments →
      Completes (.classSuffix (name.reverse ++ before)) glyphs →
      Completes (.className before) (plain name ++ (arguments ++ glyphs))
  | classEnd {name : List Char} :
      Completes (.classSuffix name) [⟨';', some (String.ofList name.reverse)⟩]
  | classInside {name inner : List Char} {glyphs : List Glyph} : Derives (.segments inner) glyphs →
      Completes (.classSuffix name) (⟨'.', none⟩ ::
        (glyphs ++ [⟨';', some (String.ofList (name.reverse ++ '$' :: inner))⟩]))
  | typeArguments {glyphs : List Glyph} : Derives (.many .argument) glyphs →
      Completes .typeArguments (glyphs ++ [⟨'>', none⟩])
  | variable {name : List Char} :
      IsIdentifier name → Completes .variable (plain name ++ [⟨';', none⟩])
  | variableName {name : List Char} :
      Undelimited name → Completes .variableName (plain name ++ [⟨';', none⟩])

inductive CompletesAll : List Part → List Glyph → Prop
  | nil : CompletesAll [] []
  | cons {part : Part} {after : List Part} {first others : List Glyph} :
      Completes part first → CompletesAll after others →
      CompletesAll (part :: after) (first ++ others)

variable {c : Char} {part : Part} {after : List Part} {found : List String} {next : Reading}
  {before name : List Char} {glyphs : List Glyph} {phrase : Phrase}

theorem undelimited_nil : Undelimited [] := List.forall_mem_nil _

theorem undelimited_cons (unmarked : isDelimiter c = false) (others : Undelimited name) :
    Undelimited (c :: name) := List.forall_mem_cons.mpr ⟨unmarked, others⟩

theorem isIdentifier_cons (unmarked : isDelimiter c = false) (others : Undelimited name) :
    IsIdentifier (c :: name) := ⟨List.cons_ne_nil _ _, undelimited_cons unmarked others⟩

theorem isIdentifier_of_segments (derives : Derives phrase glyphs) :
    ∀ name, phrase = .segments name → IsIdentifier name := by
  induction derives with
  | last isName =>
    rintro _ ⟨⟩
    exact isName
  | nested isName _ _ _ ih =>
    rintro _ ⟨⟩
    have dollar : isDelimiter '$' = false := rfl
    have inner := undelimited_cons dollar (ih _ rfl).undelimited
    refine ⟨List.append_ne_nil_of_left_ne_nil isName.notEmpty _, fun c member => ?_⟩
    exact (List.mem_append.mp member).elim (isName.undelimited c) (inner c)
  | _ => exact nofun

theorem isIdentifier_of_derives (derives : Derives phrase glyphs) :
    ∀ name ∈ namesOf glyphs, IsIdentifier name.toList := by
  induction derives with
  | @«class» name glyphs derives ih =>
    have isName := isIdentifier_of_segments derives name rfl
    simpa [or_imp, forall_and, isName] using ih
  | _ => simp_all [or_imp]

theorem segments_of_name {arguments : List Glyph} (isName : IsIdentifier name)
    (isArguments : Derives .arguments arguments)
    (completes : Completes (.classSuffix (name.reverse ++ before)) glyphs) :
    ∃ inner segments, Derives (.segments inner) segments ∧ plain name ++ (arguments ++ glyphs) =
      segments ++ [⟨';', some (String.ofList (before.reverse ++ inner))⟩] := by
  cases completes with
  | classEnd => exact ⟨name, _, .last isName isArguments, by simp⟩
  | classInside isInner => exact ⟨_, _, .nested isName isArguments isInner, by simp⟩

/-! ## What opens a phrase -/

/-- A character opens a phrase that is completed by what follows, for a part of it at the least. -/
def Opens (phrase : Phrase) (after : List Part) (c : Char) (glyphs : List Glyph) : Prop :=
  ∃ first others, ⟨c, none⟩ :: glyphs = first ++ others ∧ Derives phrase first ∧
    CompletesAll after others

theorem opens_append {first others : List Glyph} (derives : Derives phrase (⟨c, none⟩ :: first))
    (completes : CompletesAll after others) : Opens phrase after c (first ++ others) :=
  ⟨_, others, rfl, derives, completes⟩

theorem Opens.completes (opens : Opens phrase after c glyphs)
    (whole : ∀ {first}, Derives phrase first → Completes part first) :
    CompletesAll (part :: after) (⟨c, none⟩ :: glyphs) := by
  obtain ⟨first, others, split, derives, completes⟩ := opens
  rw [split]
  exact .cons (whole derives) completes

theorem Opens.completes_before {behind : Part} (opens : Opens phrase (behind :: after) c glyphs)
    (whole : ∀ {first others}, Derives phrase first → Completes behind others →
      Completes part (first ++ others)) : CompletesAll (part :: after) (⟨c, none⟩ :: glyphs) := by
  obtain ⟨first, others, split, derives, _ | ⟨completes, rest⟩⟩ := opens
  rw [split, ← List.append_assoc]
  exact .cons (whole derives completes) rest

open Signature.Reading

theorem openReference_opens (opened : openReference after found c = some next)
    (completes : CompletesAll next.expected glyphs) :
    next.found = found ∧ Opens .reference after c glyphs := by
  unfold openReference at opened
  split at opened <;> cases opened
  case h_1 =>
    obtain _ | ⟨completes, others⟩ := completes
    cases completes with
    | classSegment isName isArguments completes =>
      obtain ⟨inner, segments, isSegments, split⟩ := segments_of_name isName isArguments completes
      rw [split]
      exact ⟨rfl, opens_append (.class isSegments) others⟩
  case h_2 =>
    obtain _ | ⟨completes, others⟩ := completes
    cases completes with
    | «variable» isName => exact ⟨rfl, opens_append (.variable isName) others⟩
  case h_3 =>
    obtain _ | ⟨completes, others⟩ := completes
    cases completes with
    | type isType => exact ⟨rfl, opens_append (.array isType) others⟩

theorem openType_opens (opened : openType after found c = some next)
    (completes : CompletesAll next.expected glyphs) :
    next.found = found ∧ Opens .type after c glyphs := by
  unfold openType at opened
  split at opened
  case h_1 type letter =>
    cases opened
    obtain rfl := BaseType.ofLetter?_eq_some_iff.mp letter
    exact ⟨rfl, opens_append (.base type) completes⟩
  case h_2 =>
    obtain ⟨same, first, others, split, isReference, completes⟩ :=
      openReference_opens opened completes
    exact ⟨same, first, others, split, .reference isReference, completes⟩

theorem openTypeParameter_opens (opened : openTypeParameter after found c = some next)
    (completes : CompletesAll next.expected glyphs) :
    next.found = found ∧ Opens .typeParameters after c glyphs := by
  unfold openTypeParameter at opened
  split at opened
  case isTrue closes =>
    cases opened
    subst closes
    exact ⟨rfl, opens_append .closed completes⟩
  case isFalse =>
    split at opened
    case isTrue => cases opened
    case isFalse unmarked =>
      cases opened
      obtain _ | ⟨completes, others⟩ := completes
      refine ⟨rfl, opens_append ?_ others⟩
      cases completes with
      | typeParameterName rest completes =>
        have isName := isIdentifier_cons (Bool.eq_false_iff.mpr unmarked) rest
        cases completes with
        | classBound isBound completes =>
          cases completes with
          | moreBounds areBounds areOthers => exact .bounded isName isBound areBounds areOthers
        | noClassBound completes follows =>
          cases completes with
          | moreBounds areBounds areOthers => exact .unbounded isName areBounds areOthers follows

theorem openBound_opens (opened : openBound after found c = some next)
    (completes : CompletesAll next.expected glyphs) :
    next.found = found ∧ CompletesAll (.moreBounds :: after) (⟨c, none⟩ :: glyphs) := by
  unfold openBound at opened
  split at opened
  case isTrue isColon =>
    cases opened
    subst isColon
    obtain _ | ⟨completes, _ | ⟨completes', others⟩⟩ := completes
    cases completes with
    | reference isBound =>
      cases completes' with
      | moreBounds areBounds areOthers =>
        have completes := Completes.moreBounds (.more (.interfaceBound isBound) areBounds) areOthers
        exact ⟨rfl, by simpa using CompletesAll.cons completes others⟩
  case isFalse =>
    obtain ⟨same, first, others, split, areParameters, completes⟩ :=
      openTypeParameter_opens opened completes
    exact ⟨same, split ▸ .cons (.moreBounds .done areParameters) completes⟩

theorem openBody_opens (opened : openBody after found c = some next)
    (completes : CompletesAll next.expected glyphs) :
    next.found = found ∧ Opens .body after c glyphs := by
  unfold openBody at opened
  split at opened
  case isTrue bracket =>
    cases opened
    subst bracket
    obtain _ | ⟨completes, others⟩ := completes
    cases completes with
    | parameters areTypes isResult areThrown =>
      exact ⟨rfl, opens_append (.method areTypes isResult areThrown) others⟩
  case isFalse =>
    obtain ⟨same, first, others, split, isType, completes⟩ := openType_opens opened completes
    obtain _ | ⟨completes, others⟩ := completes
    cases completes with
    | types areTypes =>
      exact ⟨same, _, _, by rw [split, List.append_assoc], .types (.more isType areTypes), others⟩

/-! ## Every step -/

theorem Completes.moreBounds_ne_nil (completes : Completes .moreBounds glyphs) : glyphs ≠ [] := by
  cases completes with
  | moreBounds _ areOthers =>
    apply List.append_ne_nil_of_right_ne_nil
    cases areOthers <;> simp

theorem CompletesAll.noClassBound (completes : CompletesAll (.moreBounds :: after) glyphs)
    (lacks : LacksClassBound glyphs) : CompletesAll (.classBound :: after) glyphs := by
  obtain _ | ⟨completes, others⟩ := completes
  rw [LacksClassBound, List.head?_append_of_ne_nil _ completes.moreBounds_ne_nil] at lacks
  exact .cons (.noClassBound completes lacks) others

theorem isWildcard (isBound : Derives .reference glyphs) (isMark : c = '+' ∨ c = '-') :
    Derives .argument (⟨c, none⟩ :: glyphs) := by
  rcases isMark with rfl | rfl
  · exact .upTo isBound
  · exact .downTo isBound

theorem Completes.segment (unmarked : isDelimiter c = false)
    (completes : Completes (.className (c :: before)) glyphs) :
    Completes (.classSegment before) (⟨c, none⟩ :: glyphs) := by
  cases completes with
  | className rest isArguments completes =>
    exact .classSegment (isIdentifier_cons unmarked rest) isArguments (by simpa using completes)

theorem Completes.goesOn (unmarked : isDelimiter c = false)
    (completes : Completes (.className (c :: before)) glyphs) :
    Completes (.className before) (⟨c, none⟩ :: glyphs) := by
  cases completes with
  | className rest isArguments completes =>
    exact .className (undelimited_cons unmarked rest) isArguments (by simpa using completes)

theorem Completes.alone (completes : Completes (.classSuffix name) glyphs) :
    Completes (.className name) glyphs :=
  .className undelimited_nil .noArguments completes

theorem Completes.behind {arguments : List Glyph} (completes : Completes (.classSuffix name) glyphs)
    (areArguments : Derives (.many .argument) arguments) :
    Completes (.className name) (⟨'<', none⟩ :: (arguments ++ ⟨'>', none⟩ :: glyphs)) := by
  simpa [plain] using Completes.className undelimited_nil (.arguments areArguments) completes

theorem Completes.inside (completes : Completes (.classSegment ('$' :: name)) glyphs) :
    Completes (.classSuffix name) (⟨'.', none⟩ :: glyphs) := by
  cases completes with
  | classSegment isName isArguments completes =>
    obtain ⟨inner, segments, isSegments, split⟩ := segments_of_name isName isArguments completes
    rw [split, List.reverse_cons, List.append_assoc]
    exact .classInside isSegments

/-- Whether a character and the glyphs behind it complete a reading, from which the character leads
to another one. -/
def Continues (reading : Reading) (c : Char) (next : Reading) (glyphs : List Glyph) : Prop :=
  ∃ ends : Option String, next.found = ends.toList ++ reading.found ∧
    CompletesAll reading.expected (⟨c, ends⟩ :: glyphs)

theorem continues (same : next.found = found)
    (completes : CompletesAll (part :: after) (⟨c, none⟩ :: glyphs)) :
    Continues ⟨part :: after, found⟩ c next glyphs := ⟨none, same, completes⟩

theorem continues_name (stepped : step ⟨.className before :: after, found⟩ c = some next)
    (completes : CompletesAll next.expected glyphs) :
    Continues ⟨.className before :: after, found⟩ c next glyphs := by
  simp only [step] at stepped
  split_ifs at stepped with isEnd isDot isBracket delimited <;> cases stepped
  · subst isEnd
    exact ⟨some _, rfl, .cons (Completes.alone .classEnd) completes⟩
  · subst isDot
    obtain _ | ⟨completes, others⟩ := completes
    exact continues rfl (.cons completes.inside.alone others)
  · subst isBracket
    obtain _ | ⟨isList, _ | ⟨completes, others⟩⟩ := completes
    cases isList with
    | typeArguments areArguments =>
      refine continues rfl ?_
      simpa using CompletesAll.cons (completes.behind areArguments) others
  · obtain _ | ⟨completes, others⟩ := completes
    exact continues rfl (.cons (completes.goesOn (Bool.eq_false_iff.mpr delimited)) others)

theorem continues_arguments (stepped : step ⟨.typeArguments :: after, found⟩ c = some next)
    (completes : CompletesAll next.expected glyphs) :
    Continues ⟨.typeArguments :: after, found⟩ c next glyphs := by
  simp only [step] at stepped
  split_ifs at stepped with closes isAny isWild
  · cases stepped
    subst closes
    exact continues rfl (.cons (.typeArguments .done) completes)
  · cases stepped
    subst isAny
    obtain _ | ⟨completes, others⟩ := completes
    cases completes with
    | typeArguments areArguments =>
      exact continues rfl (.cons (.typeArguments (.more .any areArguments)) others)
  · cases stepped
    obtain _ | ⟨completes, _ | ⟨completes', others⟩⟩ := completes
    cases completes with
    | reference isBound =>
      cases completes' with
      | typeArguments areArguments =>
        refine continues rfl ?_
        have wild := isWildcard isBound (by simpa using isWild)
        simpa using CompletesAll.cons (.typeArguments (.more wild areArguments)) others
  · obtain ⟨same, opens⟩ := openReference_opens stepped completes
    refine continues same (opens.completes_before fun isReference completes => ?_)
    cases completes with
    | typeArguments areArguments =>
      rw [← List.append_assoc]
      exact .typeArguments (.more (.exactly isReference) areArguments)

/-- What completes a reading behind a character completes it with the character before. -/
theorem step_continues {reading : Reading} (stepped : reading.step c = some next)
    (completes : CompletesAll next.expected glyphs) : Continues reading c next glyphs := by
  obtain ⟨_ | ⟨part, after⟩, found⟩ := reading
  · cases stepped
  cases part
  case className => exact continues_name stepped completes
  case typeArguments => exact continues_arguments stepped completes
  all_goals simp only [step] at stepped
  case whole =>
    split_ifs at stepped with isBracket
    · cases stepped
      subst isBracket
      obtain _ | ⟨completes, _ | ⟨completes', others⟩⟩ := completes
      cases completes with
      | typeParameters areParameters =>
        cases completes' with
        | body isBody =>
          refine continues rfl ?_
          simpa using CompletesAll.cons (.whole (.generic areParameters isBody)) others
    · obtain ⟨same, opens⟩ := openBody_opens stepped completes
      exact continues same (opens.completes fun isBody => .whole (.ungeneric isBody))
  case body =>
    obtain ⟨same, opens⟩ := openBody_opens stepped completes
    exact continues same (opens.completes .body)
  case types =>
    obtain ⟨same, opens⟩ := openType_opens stepped completes
    refine continues same (opens.completes_before fun isType completes => ?_)
    cases completes with
    | types areTypes => exact .types (.more isType areTypes)
  case parameters =>
    split_ifs at stepped with isBracket
    · cases stepped
      subst isBracket
      obtain _ | ⟨completes, others⟩ := completes
      cases completes with
      | result isResult areThrown =>
        exact continues rfl (.cons (.parameters .done isResult areThrown) others)
    · obtain ⟨same, opens⟩ := openType_opens stepped completes
      refine continues same (opens.completes_before fun isType completes => ?_)
      cases completes with
      | parameters areTypes isResult areThrown =>
        rw [← List.append_assoc]
        exact .parameters (.more isType areTypes) isResult areThrown
  case result =>
    split_ifs at stepped with isVoid
    · cases stepped
      subst isVoid
      obtain _ | ⟨completes, others⟩ := completes
      cases completes with
      | thrown areThrown =>
        exact continues rfl (.cons (.result .void areThrown) others)
    · obtain ⟨same, opens⟩ := openType_opens stepped completes
      refine continues same (opens.completes_before fun isType completes => ?_)
      cases completes with
      | thrown areThrown => exact .result (.returned isType) areThrown
  case thrown =>
    split_ifs at stepped with isMark
    cases stepped
    subst isMark
    obtain _ | ⟨completes, _ | ⟨completes', others⟩⟩ := completes
    cases completes with
    | reference isReference =>
      cases completes' with
      | thrown areThrown =>
        refine continues rfl ?_
        simpa using CompletesAll.cons (.thrown (.more (.thrown isReference) areThrown)) others
  case typeParameters =>
    obtain ⟨same, opens⟩ := openTypeParameter_opens stepped completes
    exact continues same (opens.completes .typeParameters)
  case typeParameterName =>
    split_ifs at stepped with isColon delimited <;> cases stepped
    · subst isColon
      obtain _ | ⟨completes, others⟩ := completes
      exact continues rfl (.cons (.typeParameterName undelimited_nil completes) others)
    · obtain _ | ⟨completes, others⟩ := completes
      cases completes with
      | typeParameterName rest completes =>
        have all := undelimited_cons (Bool.eq_false_iff.mpr delimited) rest
        exact continues rfl (.cons (.typeParameterName all completes) others)
  case classBound =>
    split_ifs at stepped with isMark
    · obtain ⟨same, completes⟩ := openBound_opens stepped completes
      exact continues same (completes.noClassBound ⟨_, rfl, by simpa using isMark⟩)
    · obtain ⟨same, opens⟩ := openReference_opens stepped completes
      exact continues same (opens.completes_before .classBound)
  case moreBounds =>
    obtain ⟨same, completes⟩ := openBound_opens stepped completes
    exact continues same completes
  case type =>
    obtain ⟨same, opens⟩ := openType_opens stepped completes
    exact continues same (opens.completes .type)
  case reference =>
    obtain ⟨same, opens⟩ := openReference_opens stepped completes
    exact continues same (opens.completes .reference)
  case classSegment before =>
    split_ifs at stepped with delimited
    cases stepped
    obtain _ | ⟨completes, others⟩ := completes
    exact continues rfl (.cons (completes.segment (Bool.eq_false_iff.mpr delimited)) others)
  case classSuffix name =>
    split_ifs at stepped with isEnd isDot <;> cases stepped
    · subst isEnd
      exact ⟨some _, rfl, .cons .classEnd completes⟩
    · subst isDot
      obtain _ | ⟨completes, others⟩ := completes
      exact continues rfl (.cons completes.inside others)
  case «variable» =>
    split_ifs at stepped with delimited
    cases stepped
    obtain _ | ⟨completes, others⟩ := completes
    cases completes with
    | variableName rest =>
      have isName := isIdentifier_cons (Bool.eq_false_iff.mpr delimited) rest
      exact continues rfl (.cons (.variable isName) others)
  case variableName =>
    split_ifs at stepped with isEnd delimited <;> cases stepped
    · subst isEnd
      exact continues rfl (.cons (.variableName undelimited_nil) completes)
    · obtain _ | ⟨completes, others⟩ := completes
      cases completes with
      | variableName rest =>
        have all := undelimited_cons (Bool.eq_false_iff.mpr delimited) rest
        exact continues rfl (.cons (.variableName all) others)

theorem completesAll_of_mayEnd {reading : Reading} (ends : reading.mayEnd = true) :
    CompletesAll reading.expected [] := by
  unfold mayEnd at ends
  split at ends
  case h_1 expected => exact expected ▸ .cons (.whole (.ungeneric (.types .done))) .nil
  case h_2 expected => exact expected ▸ .cons (.body (.types .done)) .nil
  case h_3 expected => exact expected ▸ .cons (.types .done) .nil
  case h_4 expected => exact expected ▸ .cons (.thrown .done) .nil
  case h_5 => cases ends

theorem run_completes {text : List Char} {reading final : Reading}
    (ran : reading.run text = some final) (ends : final.mayEnd = true) :
    ∃ glyphs, textOf glyphs = text ∧ CompletesAll reading.expected glyphs ∧
      final.found = (namesOf glyphs).reverse ++ reading.found := by
  induction text generalizing reading with
  | nil =>
    cases ran
    exact ⟨[], rfl, completesAll_of_mayEnd ends, rfl⟩
  | cons c text ih =>
    unfold run at ran
    split at ran
    case h_1 next stepped =>
      obtain ⟨glyphs, rfl, completes, found⟩ := ih ran
      obtain ⟨last, found', completes⟩ := step_continues stepped completes
      refine ⟨⟨c, last⟩ :: glyphs, rfl, completes, ?_⟩
      rw [found, found']
      cases last <;> simp [namesOf]
    case h_2 => cases ran

theorem classNames?_derives {text : List Char} {names : List String}
    (read : classNames? text = some names) :
    ∃ glyphs, Derives .signature glyphs ∧ textOf glyphs = text ∧ namesOf glyphs = names := by
  unfold classNames? at read
  split at read
  case h_1 final ran =>
    split at read
    case isTrue ends =>
      cases read
      obtain ⟨glyphs, spelled, completes, found⟩ := run_completes ran ends
      obtain _ | ⟨completes, _ | _⟩ := completes
      cases completes with
      | whole derives =>
        rw [List.append_nil] at spelled found
        refine ⟨_, derives, spelled, ?_⟩
        simp [found]
    case isFalse => cases read
  case h_2 => cases read

end Linkage.Signature
