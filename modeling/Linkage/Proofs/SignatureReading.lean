import Linkage.Proofs.SignatureGrammar

/-!
# What the grammar of signatures derives

Whatever is derived is read, and the classes of the derivation are found. Together with what is read
being derived, a signature is read exactly if it is derived: `classNames?_eq_some`.
-/

namespace Linkage.Signature

open Signature.Reading

variable {c : Char} {part : Part} {after expected following final : List Part} {name : List Char}
  {glyphs first others : List Glyph} {phrase : Phrase}

def Passes (expected following : List Part) (glyphs : List Glyph) : Prop :=
  ∀ found, Takes ⟨expected, found⟩ (textOf glyphs) ⟨following, (namesOf glyphs).reverse ++ found⟩

theorem passes_nil : Passes expected expected [] := fun _ => takes_nil _

theorem Passes.append (passes : Passes expected following first)
    (passes' : Passes following final others) : Passes expected final (first ++ others) := by
  intro found
  have takes := (passes found).append (passes' _)
  rw [← List.append_assoc, ← List.reverse_append] at takes
  simpa only [textOf, namesOf, List.map_append, List.filterMap_append] using takes

theorem passes_glyph (steps : ∀ found, step ⟨expected, found⟩ c = some ⟨following, found⟩) :
    Passes expected following [⟨c, none⟩] := fun found => takes_step (steps found)

theorem Passes.cons (passes : Passes following final glyphs)
    (steps : ∀ found, step ⟨expected, found⟩ c = some ⟨following, found⟩) :
    Passes expected final (⟨c, none⟩ :: glyphs) :=
  (passes_glyph steps).append passes

theorem passes_of_takes {text : List Char}
    (takes : ∀ found, Takes ⟨expected, found⟩ text ⟨following, found⟩) :
    Passes expected following (plain text) := by
  intro found
  rw [textOf_plain, namesOf_plain]
  exact takes found

theorem passes_flatten {pieces : List (List Glyph)}
    (passes : ∀ piece ∈ pieces, Passes expected expected piece) :
    Passes expected expected pieces.flatten := by
  induction pieces with
  | nil => exact passes_nil
  | cons piece pieces ih =>
    rw [List.forall_mem_cons] at passes
    exact passes.1.append (ih passes.2)

def Reads : Phrase → List Glyph → Prop
  | .many phrase, glyphs =>
      ∃ pieces : List (List Glyph), glyphs = pieces.flatten ∧ ∀ piece ∈ pieces, Reads phrase piece
  | .type, glyphs => ∀ part after following, LetsIn part after following →
      Passes (part :: after) following glyphs
  | .reference, glyphs => ∀ part after following, Admits part after following →
      Passes (part :: after) following glyphs
  | .segments name, glyphs => ∀ before after, ∃ part, MayClose part (name.reverse ++ before) ∧
      Passes (.classSegment before :: after) (part :: after) glyphs
  | .arguments, glyphs => ∀ name after, ∃ part, MayClose part name ∧
      Passes (.className name :: after) (part :: after) glyphs
  | .argument, glyphs =>
      ∀ after, Passes (.typeArguments :: after) (.typeArguments :: after) glyphs
  | .typeParameters, glyphs =>
      ∀ part after, MayFollow part → Passes (part :: after) after glyphs
  | .interfaceBound, glyphs => ∀ part after, part = .classBound ∨ part = .moreBounds →
      Passes (part :: after) (.moreBounds :: after) glyphs
  | .result, glyphs => ∀ after, Passes (.result :: after) (.thrown :: after) glyphs
  | .thrown, glyphs => ∀ after, Passes (.thrown :: after) (.thrown :: after) glyphs
  | .body, glyphs => ∀ part, part = .whole ∨ part = .body →
      ∃ final, (∀ found, mayEnd ⟨final, found⟩ = true) ∧ Passes [part] final glyphs
  | .signature, glyphs =>
      ∃ final, (∀ found, mayEnd ⟨final, found⟩ = true) ∧ Passes [.whole] final glyphs

theorem IsIdentifier.passes_segment (isName : IsIdentifier name) (before : List Char) :
    Passes (.classSegment before :: after) (.className (name.reverse ++ before) :: after)
      (plain name) :=
  passes_of_takes fun _ => takes_segment isName.notEmpty isName.undelimited before

theorem IsIdentifier.passes_variable (isName : IsIdentifier name) :
    Passes (.variable :: after) after (plain name ++ [⟨';', none⟩]) := by
  have takes (found : List String) :
      Takes ⟨.variable :: after, found⟩ (name ++ [';']) ⟨after, found⟩ :=
    takes_variable_named isName.notEmpty isName.undelimited
  simpa [plain] using passes_of_takes takes

theorem IsIdentifier.passes_typeParameter (isName : IsIdentifier name)
    (mayFollow : MayFollow part) (passes : Passes (.classBound :: after) final glyphs) :
    Passes (part :: after) final (plain name ++ ⟨':', none⟩ :: glyphs) := by
  have takes (found : List String) :
      Takes ⟨part :: after, found⟩ (name ++ [':']) ⟨.classBound :: after, found⟩ :=
    takes_typeParameter_named isName.notEmpty isName.undelimited mayFollow
  simpa [plain] using (passes_of_takes takes).append passes

theorem IsIdentifier.not_lacksClassBound (isName : IsIdentifier name) :
    ¬ LacksClassBound (plain name ++ glyphs) := by
  rintro ⟨mark, first, isMark⟩
  obtain ⟨c, rest, rfl⟩ := List.exists_cons_of_ne_nil isName.notEmpty
  obtain rfl : ⟨c, none⟩ = mark := by simpa [plain] using first
  have undelimited := (List.forall_mem_cons.mp isName.undelimited).1
  rcases isMark with rfl | rfl <;> cases undelimited

theorem reads_class (reads : Reads (.segments name) glyphs) : Reads .reference
    (⟨'L', none⟩ :: (glyphs ++ [⟨';', some (String.ofList name)⟩])) := by
  intro part after following admits
  obtain ⟨part', mayClose, passes⟩ := reads [] following
  have ends : Passes (part' :: following) following [⟨';', some (String.ofList name)⟩] := by
    intro found
    have takes : Takes ⟨part' :: following, found⟩ [';']
        ⟨following, String.ofList (name.reverse ++ []).reverse :: found⟩ := mayClose.ends
    rwa [List.append_nil, List.reverse_reverse] at takes
  exact (passes.append ends).cons fun found => admits 'L' (by decide) found

theorem reads_nested {inner : List Char} {arguments : List Glyph} (isName : IsIdentifier name)
    (reads : Reads .arguments arguments) (reads' : Reads (.segments inner) glyphs) :
    Reads (.segments (name ++ '$' :: inner))
      (plain name ++ (arguments ++ ⟨'.', none⟩ :: glyphs)) := by
  intro before after
  obtain ⟨part, mayClose, passes⟩ := reads (name.reverse ++ before) after
  obtain ⟨part', mayClose', passes'⟩ := reads' ('$' :: (name.reverse ++ before)) after
  have dot : Passes (part :: after) (.classSegment ('$' :: (name.reverse ++ before)) :: after)
      [⟨'.', none⟩] := fun found => mayClose.nests
  refine ⟨part', by simpa using mayClose', ?_⟩
  exact (isName.passes_segment before).append (passes.append (dot.append passes'))

theorem reads_many (reads : Reads (.many phrase) glyphs)
    (passes : ∀ piece, Reads phrase piece → Passes expected expected piece) :
    Passes expected expected glyphs := by
  obtain ⟨pieces, rfl, reads⟩ := reads
  exact passes_flatten fun piece listed => passes piece (reads piece listed)

theorem passes_bounds (reads : Reads (.many .interfaceBound) glyphs) :
    Passes (.moreBounds :: after) (.moreBounds :: after) glyphs :=
  reads_many reads fun _ reads => reads _ _ (.inr rfl)

theorem passes_unbounded (reads : Reads (.many .interfaceBound) first)
    (derives : Derives .typeParameters others) (reads' : Reads .typeParameters others)
    (lacks : LacksClassBound (first ++ others)) :
    Passes (.classBound :: after) after (first ++ others) := by
  obtain ⟨_ | ⟨bound, bounds⟩, rfl, reads⟩ := reads
  · cases derives with
    | closed => exact passes_glyph fun found => rfl
    | bounded isName => exact absurd lacks isName.not_lacksClassBound
    | unbounded isName => exact absurd lacks isName.not_lacksClassBound
  · rw [List.forall_mem_cons] at reads
    rw [List.flatten_cons, List.append_assoc]
    refine (reads.1 _ _ (.inl rfl)).append ?_
    exact (passes_bounds ⟨bounds, rfl, reads.2⟩).append (reads' _ _ (.inr rfl))

theorem reads_types (reads : Reads (.many .type) glyphs) : Reads .body glyphs := by
  intro part opens
  obtain ⟨_ | ⟨first, others⟩, rfl, reads⟩ := reads
  · refine ⟨[part], fun found => ?_, passes_nil⟩
    rcases opens with rfl | rfl <;> rfl
  · have letsIn : LetsIn part [] [.types] := by
      rcases opens with rfl | rfl
      · exact letsIn_whole
      · exact SignatureForm.letsIn_body
    have letsIn_types : LetsIn .types [] [.types] := fun _ _ _ => rfl
    rw [List.forall_mem_cons] at reads
    refine ⟨[.types], fun found => rfl, (reads.1 _ _ _ letsIn).append ?_⟩
    exact passes_flatten fun piece listed => reads.2 piece listed _ _ _ letsIn_types

theorem reads_method {result thrown : List Glyph} (reads : Reads (.many .type) glyphs)
    (reads' : Reads .result result) (reads'' : Reads (.many .thrown) thrown) : Reads .body
      (⟨'(', none⟩ :: (glyphs ++ ⟨')', none⟩ :: (result ++ thrown))) := by
  intro part opens
  refine ⟨[.thrown], fun found => rfl, Passes.cons ?_ fun found => SignatureForm.opens_method opens⟩
  have letsIn : LetsIn .parameters [] [.parameters] := letsIn_parameters
  have parameters := reads_many reads fun piece reads => reads _ _ _ letsIn
  have throws := reads_many reads'' fun piece reads => reads []
  exact parameters.append (((reads' []).append throws).cons fun found => rfl)

theorem reads_of_derives (derives : Derives phrase glyphs) : Reads phrase glyphs := by
  induction derives with
  | done => exact ⟨[], rfl, List.forall_mem_nil _⟩
  | @more phrase first others _ _ ih ih' =>
    obtain ⟨pieces, rfl, reads⟩ := ih'
    exact ⟨first :: pieces, rfl, List.forall_mem_cons.mpr ⟨ih, reads⟩⟩
  | base type =>
    intro part after following letsIn
    apply passes_glyph
    cases type <;> exact letsIn _ (by decide)
  | reference _ ih => exact fun part after following letsIn => ih _ _ _ letsIn.admits
  | «class» _ ih => exact reads_class ih
  | «variable» isName =>
    exact fun part after following admits =>
      isName.passes_variable.cons fun found => admits 'T' (by decide) found
  | array _ ih =>
    exact fun part after following admits =>
      (ih _ _ _ letsIn_type).cons fun found => admits '[' (by decide) found
  | last isName _ ih =>
    intro before after
    obtain ⟨part, mayClose, passes⟩ := ih (_ ++ before) after
    exact ⟨part, mayClose, (isName.passes_segment before).append passes⟩
  | nested isName _ _ ih ih' => exact reads_nested isName ih ih'
  | noArguments => exact fun name after => ⟨_, .inl rfl, passes_nil⟩
  | arguments _ ih =>
    intro name after
    have inside := reads_many ih fun piece reads => reads (.classSuffix name :: after)
    refine ⟨.classSuffix name, .inr rfl, Passes.cons ?_ fun found => rfl⟩
    exact inside.append (passes_glyph fun found => rfl)
  | exactly _ ih => exact fun after => ih _ _ _ admits_typeArguments
  | upTo _ ih | downTo _ ih =>
    exact fun after => (ih _ _ _ admits_reference).cons fun found => rfl
  | any => exact fun after => passes_glyph fun found => rfl
  | closed =>
    intro part after mayFollow
    apply passes_glyph
    rcases mayFollow with rfl | rfl <;> exact fun found => rfl
  | bounded isName _ _ _ ih ih' ih'' =>
    intro part after mayFollow
    refine isName.passes_typeParameter mayFollow ((ih _ _ _ admits_classBound).append ?_)
    exact (passes_bounds ih').append (ih'' _ _ (.inr rfl))
  | unbounded isName _ areOthers follows ih ih' =>
    intro part after mayFollow
    exact isName.passes_typeParameter mayFollow (passes_unbounded ih areOthers ih' follows)
  | interfaceBound _ ih =>
    intro part after opens
    refine (ih _ _ _ admits_reference).cons fun found => ?_
    rcases opens with rfl | rfl <;> rfl
  | void => exact fun after => passes_glyph fun found => rfl
  | returned _ ih => exact fun after => ih _ _ _ letsIn_result
  | thrown _ ih => exact fun after => (ih _ _ _ admits_reference).cons fun found => rfl
  | types _ ih => exact reads_types ih
  | method _ _ _ ih ih' ih'' => exact reads_method ih ih' ih''
  | ungeneric _ ih => exact ih _ (.inl rfl)
  | generic _ _ ih ih' =>
    obtain ⟨final, ends, passes⟩ := ih' _ (.inr rfl)
    exact ⟨final, ends, ((ih _ _ (.inl rfl)).append passes).cons fun found => rfl⟩

theorem classNames?_eq_some {text : List Char} {names : List String} :
    classNames? text = some names ↔
      ∃ glyphs, Derives .signature glyphs ∧ textOf glyphs = text ∧ namesOf glyphs = names := by
  constructor
  · exact classNames?_derives
  · rintro ⟨glyphs, derives, rfl, rfl⟩
    obtain ⟨final, ends, passes⟩ := reads_of_derives derives
    rw [classNames?_of_takes (passes []) (ends _), List.append_nil, List.reverse_reverse]

end Linkage.Signature
