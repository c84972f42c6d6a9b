import Linkage.Abi.Basic
import Linkage.Proofs.Descriptors
import Linkage.Proofs.Pieces

/-!
# Members as source code writes them

With proper names, the type, the name and the modifiers of a member can be told from the way in which
source code writes it: `VisibleMember.display_inj`.
-/

namespace Linkage

/-! ## Names and words -/

/-- Whether a text has something in it, but no white space and none of some marks. -/
def Avoids (marks : List Char) (text : String) : Prop :=
  text ≠ "" ∧ ∀ c ∈ text.toList, c.isWhitespace = false ∧ c ∉ marks

/-- Whether nothing in a name could end it in a declaration. -/
abbrev IsName (name : String) : Prop := Avoids [',', '(', ')', '[', ']', ';'] name

/-- Whether a text is a word of a declaration. Brackets of arrays belong to the word before them. -/
abbrev IsWord (text : String) : Prop := Avoids [',', '(', ')'] text

structure IsClassName (name : String) : Prop where
  proper : IsName name
  noDot : '.' ∉ name.toList
  notVoid : name ≠ "void"
  notBase : ∀ base : BaseType, name ≠ base.name

theorem avoids_of_all {marks : List Char} {text : String} (notEmpty : text.isEmpty = false)
    (all : (text.toList.all fun c => !c.isWhitespace && !marks.contains c) = true) :
    Avoids marks text := by
  simp only [List.all_eq_true, Bool.and_eq_true, Bool.not_eq_true', List.contains_eq_mem,
    decide_eq_false_iff_not] at all
  exact ⟨by simpa using notEmpty, all⟩

theorem IsName.isWord {name : String} (proper : IsName name) : IsWord name := by
  refine ⟨proper.1, fun c member => ?_⟩
  obtain ⟨noBlank, noMark⟩ := proper.2 c member
  exact ⟨noBlank, fun mark => noMark (by simp_all)⟩

namespace IsWord

variable {text : String}

theorem ne_nil (word : IsWord text) : text.toList ≠ [] := by
  simpa using word.1

theorem notMem {c : Char} (word : IsWord text) (mark : c.isWhitespace = true ∨ c ∈ [',', '(', ')']) :
    c ∉ text.toList := by
  intro member
  obtain ⟨noBlank, noMark⟩ := word.2 c member
  rcases mark with blank | mark
  · rw [blank] at noBlank
    cases noBlank
  · exact noMark mark

theorem proper_space (word : IsWord text) : Text.Proper ' ' text.toList :=
  ⟨word.ne_nil, word.notMem (by decide)⟩

theorem proper_comma (word : IsWord text) : Text.Proper ',' text.toList :=
  ⟨word.ne_nil, word.notMem (by decide)⟩

end IsWord

theorem Modifier.isWord (modifier : Modifier) : IsWord modifier.name := by
  cases modifier <;> exact avoids_of_all (by decide) (by decide)

theorem Modifier.name_inj {modifier modifier' : Modifier} (same : modifier.name = modifier'.name) :
    modifier = modifier' := by
  cases modifier <;> cases modifier' <;> first | rfl | exact absurd same (by decide)

theorem Modifier.names_inj {modifiers modifiers' : List Modifier}
    (same : modifiers.map Modifier.name = modifiers'.map Modifier.name) :
    modifiers = modifiers' := by
  apply Text.map_inj_on _ same
  exact fun _ _ _ _ => Modifier.name_inj

theorem BaseType.isName (base : BaseType) : IsName base.name := by
  cases base <;> exact avoids_of_all (by decide) (by decide)

def dotted (name : String) : String := name.map fun c => if c = '/' then '.' else c

theorem mem_dotted {name : String} {c : Char} (member : c ∈ (dotted name).toList) :
    c = '.' ∨ c ∈ name.toList := by
  simp only [dotted, String.toList_map, List.mem_map] at member
  obtain ⟨d, listed, same⟩ := member
  split at same
  · exact .inl same.symm
  · exact .inr (same ▸ listed)

theorem IsName.dotted {name : String} (proper : IsName name) : IsName (Linkage.dotted name) := by
  refine ⟨by simpa [Linkage.dotted] using proper.1, fun c member => ?_⟩
  rcases mem_dotted member with rfl | listed
  · decide
  · exact proper.2 c listed

theorem dotted_inj {name name' : String} (noDot : '.' ∉ name.toList) (noDot' : '.' ∉ name'.toList)
    (same : dotted name = dotted name') : name = name' := by
  have back {name : String} (noDot : '.' ∉ name.toList) :
      (dotted name).toList.map (fun c => if c = '.' then '/' else c) = name.toList := by
    rw [dotted, String.toList_map, List.map_map]
    conv => rhs; rw [← List.map_id name.toList]
    apply List.map_congr_left
    intro c member
    have other : c ≠ '.' := fun dot => noDot (dot ▸ member)
    by_cases slash : c = '/' <;> simp [slash, other]
  apply String.toList_injective
  rw [← back noDot, ← back noDot', same]

theorem dotted_of_notMem {name : String} (plain : '/' ∉ name.toList) : dotted name = name :=
  congrArg Symbol.name (Symbol.ofInternal_of_notMem plain)

theorem dotted_base (base : BaseType) : dotted base.name = base.name :=
  dotted_of_notMem (by cases base <;> decide)

theorem dotted_void : dotted "void" = "void" := dotted_of_notMem (by decide)

namespace ElementType

variable {element element' : ElementType}

def name : ElementType → String
  | base type => type.name
  | object name => name

def ClassNamed (element : ElementType) : Prop := ∀ name, element = object name → IsClassName name

theorem ClassNamed.isName (named : element.ClassNamed) : IsName element.name := by
  cases element with
  | base type => exact type.isName
  | object name => exact (named name rfl).proper

theorem ClassNamed.noDot (named : element.ClassNamed) : '.' ∉ element.name.toList := by
  cases element with
  | base type => cases type <;> decide
  | object name => exact (named name rfl).noDot

theorem ClassNamed.notVoid (named : element.ClassNamed) : element.name ≠ "void" := by
  cases element with
  | base type => cases type <;> decide
  | object name => exact (named name rfl).notVoid

theorem name_inj (named : element.ClassNamed) (named' : element'.ClassNamed)
    (same : element.name = element'.name) : element = element' := by
  cases element with
  | base type =>
    cases element' with
    | base type' =>
      cases type <;> cases type' <;> first | rfl | exact absurd same (by decide)
    | object name' => exact absurd same.symm ((named' name' rfl).notBase type)
  | object name =>
    cases element' with
    | base type' => exact absurd same ((named name rfl).notBase type')
    | object name' => exact congrArg object same

end ElementType

namespace FieldType

variable {type type' : FieldType}

theorem toList_display (type : FieldType) : type.display.toList =
    (dotted type.element.name).toList ++ (List.replicate type.dimensions ['[', ']']).flatten := by
  unfold display
  cases element : type.element with
  | base base =>
    simp only [ElementType.name, dotted_base, String.toList_ofList]
  | object name =>
    simp only [ElementType.name, dotted, String.toList_ofList]

theorem isWord_display (named : type.element.ClassNamed) : IsWord type.display := by
  obtain ⟨notEmpty, proper⟩ := named.isName.dotted
  constructor
  · intro empty
    have characters := congrArg String.toList empty
    rw [toList_display, String.toList_empty, List.append_eq_nil_iff] at characters
    exact notEmpty (String.toList_eq_nil_iff.mp characters.1)
  · intro c member
    rw [toList_display, List.mem_append] at member
    rcases member with element | bracket
    · obtain ⟨noBlank, noMark⟩ := proper c element
      exact ⟨noBlank, fun mark => noMark (by simp_all)⟩
    · simp only [List.mem_flatten, List.mem_replicate] at bracket
      obtain ⟨_, ⟨-, rfl⟩, bracket⟩ := bracket
      simp only [List.mem_cons, List.not_mem_nil, or_false] at bracket
      rcases bracket with rfl | rfl <;> decide

theorem brackets_inj {element element' : List Char} (proper : '[' ∉ element)
    (proper' : '[' ∉ element') {dimensions dimensions' : Nat}
    (same : element ++ (List.replicate dimensions ['[', ']']).flatten =
      element' ++ (List.replicate dimensions' ['[', ']']).flatten) :
    element = element' ∧ dimensions = dimensions' := by
  cases dimensions with
  | zero =>
    cases dimensions' with
    | zero => exact ⟨by simpa using same, rfl⟩
    | succ dimensions' =>
      simp only [List.replicate_zero, List.flatten_nil, List.append_nil] at same
      exact absurd (by simp [same, List.replicate_succ]) proper
  | succ dimensions =>
    cases dimensions' with
    | zero =>
      simp only [List.replicate_zero, List.flatten_nil, List.append_nil] at same
      exact absurd (by simp [← same, List.replicate_succ]) proper'
    | succ dimensions' =>
      simp only [List.replicate_succ, List.flatten_cons, List.cons_append] at same
      obtain ⟨rfl, others⟩ := Text.append_mark_inj proper proper' same
      have lengths := congrArg List.length others
      simp [List.length_flatten] at lengths
      exact ⟨rfl, by omega⟩

theorem display_inj (named : type.element.ClassNamed) (named' : type'.element.ClassNamed)
    (same : type.display = type'.display) : type = type' := by
  have noBracket {element : ElementType} (named : element.ClassNamed) :
      '[' ∉ (dotted element.name).toList := fun member =>
    absurd (named.isName.dotted.2 _ member).2 (by decide)
  have characters := congrArg String.toList same
  rw [toList_display, toList_display] at characters
  obtain ⟨dotted, dimensions⟩ := brackets_inj (noBracket named) (noBracket named') characters
  have names := dotted_inj named.noDot named'.noDot (String.toList_injective dotted)
  have elements := ElementType.name_inj named named' names
  cases type
  cases type'
  cases dimensions
  cases elements
  rfl

theorem display_ne_void (named : type.element.ClassNamed) : type.display ≠ "void" := by
  intro same
  have characters : _ = "void".toList ++ (List.replicate 0 ['[', ']']).flatten :=
    (toList_display type).symm.trans (congrArg String.toList same)
  have noBracket : '[' ∉ (dotted type.element.name).toList := fun member =>
    absurd (named.isName.dotted.2 _ member).2 (by decide)
  obtain ⟨name, -⟩ := brackets_inj noBracket (by decide) characters
  have name := String.toList_injective name
  rw [← dotted_void] at name
  exact named.notVoid (dotted_inj named.noDot (by decide) name)

end FieldType

namespace MethodType

variable {type type' : MethodType}

def ClassNamed (type : MethodType) : Prop :=
  (∀ parameter ∈ type.parameters, parameter.element.ClassNamed) ∧
    ∀ result ∈ type.result, result.element.ClassNamed

theorem isWord_displayResult (named : type.ClassNamed) : IsWord type.displayResult := by
  unfold displayResult
  cases result : type.result with
  | none => exact avoids_of_all (by decide) (by decide)
  | some result' => exact FieldType.isWord_display (named.2 _ result)

theorem displayResult_inj (named : type.ClassNamed) (named' : type'.ClassNamed)
    (same : type.displayResult = type'.displayResult) : type.result = type'.result := by
  unfold displayResult at same
  cases result : type.result with
  | none =>
    cases result' : type'.result with
    | none => rfl
    | some r' =>
      rw [result, result'] at same
      exact absurd same.symm (FieldType.display_ne_void (named'.2 r' result'))
  | some r =>
    cases result' : type'.result with
    | none =>
      rw [result, result'] at same
      exact absurd same (FieldType.display_ne_void (named.2 r result))
    | some r' =>
      rw [result, result'] at same
      rw [FieldType.display_inj (named.2 r result) (named'.2 r' result') same]

theorem parameters_inj (named : type.ClassNamed) (named' : type'.ClassNamed)
    (same : ", ".intercalate (type.parameters.map FieldType.display) =
      ", ".intercalate (type'.parameters.map FieldType.display)) :
    type.parameters = type'.parameters := by
  have proper {type : MethodType} (named : type.ClassNamed) :
      ∀ word ∈ type.parameters.map FieldType.display, Text.Proper ',' word.toList := by
    intro word listed
    obtain ⟨parameter, member, rfl⟩ := List.mem_map.mp listed
    exact (FieldType.isWord_display (named.1 parameter member)).proper_comma
  have displays := Text.words_inj rfl (proper named) (proper named') same
  apply Text.map_inj_on _ displays
  intro parameter listed parameter' listed'
  exact FieldType.display_inj (named.1 parameter listed) (named'.1 parameter' listed')

end MethodType

namespace MemberType

def descriptor : MemberType → List Char
  | field type => type.descriptor
  | method type => type.descriptor

def ClassNamed : MemberType → Prop
  | field type => type.element.ClassNamed
  | method type => type.ClassNamed

def words (name : String) : MemberType → List String
  | field type => [type.display, name]
  | method type => if name = "<init>" then [name] else [type.displayResult, name]

theorem getLast?_words (name : String) (type : MemberType) :
    (type.words name).getLast? = some name := by
  cases type with
  | field type => rfl
  | method type => by_cases isConstructor : name = "<init>" <;> simp [words, isConstructor]

theorem methodWords_inj {name : String} {type type' : MethodType}
    {modifiers modifiers' : List Modifier} (named : type.ClassNamed) (named' : type'.ClassNamed)
    (constructs : name = "<init>" → type.result = none)
    (constructs' : name = "<init>" → type'.result = none)
    (same : modifiers.map Modifier.name ++ (method type).words name =
      modifiers'.map Modifier.name ++ (method type').words name) :
    type.result = type'.result ∧ modifiers = modifiers' := by
  by_cases isConstructor : name = "<init>"
  · simp only [words, if_pos isConstructor] at same
    obtain ⟨front, -⟩ := List.append_inj' same rfl
    rw [constructs isConstructor, constructs' isConstructor]
    exact ⟨rfl, Modifier.names_inj front⟩
  · simp only [words, if_neg isConstructor] at same
    obtain ⟨front, back⟩ := List.append_inj' same rfl
    have display : type.displayResult = type'.displayResult := by simpa using back
    exact ⟨MethodType.displayResult_inj named named' display, Modifier.names_inj front⟩

theorem words_ne_nil (name : String) (type : MemberType) : type.words name ≠ [] := by
  intro none
  have last := getLast?_words name type
  rw [none] at last
  cases last

end MemberType

namespace VisibleMember

variable {member member' : VisibleMember}

structure Clean (member : VisibleMember) : Prop where
  named : IsName member.name
  described : member.descriptor.toList = member.type.descriptor
  classNamed : member.type.ClassNamed
  constructs : ∀ type, member.type = .method type → member.name = "<init>" → type.result = none
  visible : member.modifiers ≠ []

def words (member : VisibleMember) : List String :=
  member.modifiers.map Modifier.name ++ member.type.words member.name

def arguments (member : VisibleMember) : String :=
  match member.type with
  | .field _ => ""
  | .method type => "(" ++ ", ".intercalate (type.parameters.map FieldType.display) ++ ")"

theorem display_eq (clean : member.Clean) :
    member.display = " ".intercalate member.words ++ member.arguments := by
  have modifiers : member.modifiers.map Modifier.name ≠ [] := by simpa using clean.visible
  unfold display words arguments MemberType.declare
  rw [String.intercalate_append_of_ne_nil modifiers (by simp),
    String.intercalate_append_of_ne_nil modifiers (member.type.words_ne_nil member.name)]
  apply String.toList_injective
  cases member.type with
  | field type => simp [MemberType.words, toString]
  | method type =>
    by_cases isConstructor : member.name = "<init>"
    · simp [MemberType.words, isConstructor, toString]
    · simp [MemberType.words, isConstructor, toString]

theorem isWord_words (clean : member.Clean) {word : String} (listed : word ∈ member.words) :
    IsWord word := by
  unfold words at listed
  rcases List.mem_append.mp listed with modifier | declared
  · obtain ⟨given, -, rfl⟩ := List.mem_map.mp modifier
    exact given.isWord
  · have classNamed := clean.classNamed
    cases type : member.type with
    | field fieldType =>
      rw [type] at classNamed declared
      simp only [MemberType.words, List.mem_cons, List.not_mem_nil, or_false] at declared
      rcases declared with rfl | rfl
      · exact FieldType.isWord_display classNamed
      · exact clean.named.isWord
    | method methodType =>
      rw [type] at classNamed declared
      by_cases isConstructor : member.name = "<init>"
      · simp only [MemberType.words, if_pos isConstructor, List.mem_singleton] at declared
        exact declared ▸ clean.named.isWord
      · simp only [MemberType.words, if_neg isConstructor, List.mem_cons, List.not_mem_nil,
          or_false] at declared
        rcases declared with rfl | rfl
        · exact MethodType.isWord_displayResult classNamed
        · exact clean.named.isWord

theorem noParameters_words (clean : member.Clean) : '(' ∉ (" ".intercalate member.words).toList := by
  rw [String.toList_intercalate]
  intro listed
  rcases Text.mem_intercalate listed with gap | ⟨_, word, listed⟩
  · exact absurd gap (by decide)
  · obtain ⟨word, within, rfl⟩ := List.mem_map.mp word
    exact (isWord_words clean within).notMem (by decide) listed

theorem append_arguments_inj {front front' : String} (noOpen : '(' ∉ front.toList)
    (noOpen' : '(' ∉ front'.toList)
    (same : front ++ member.arguments = front' ++ member'.arguments) :
    front = front' ∧ member.arguments = member'.arguments := by
  have characters := congrArg String.toList same
  rw [String.toList_append, String.toList_append] at characters
  unfold arguments at characters ⊢
  split at characters
  · split at characters
    · exact ⟨String.toList_injective (by simpa using characters), rfl⟩
    · rw [String.toList_empty, List.append_nil] at characters
      exact absurd (by simp [characters]) noOpen
  · split at characters
    · rw [String.toList_empty, List.append_nil] at characters
      exact absurd (by simp [← characters]) noOpen'
    · have opens : "(".toList = ['('] := rfl
      simp only [String.toList_append, opens, List.singleton_append] at characters
      obtain ⟨fronts, parameters⟩ := Text.append_mark_inj noOpen noOpen' characters
      have parameters := String.toList_injective (List.append_cancel_right parameters)
      exact ⟨String.toList_injective fronts, by rw [parameters]⟩

theorem parts_inj (clean : member.Clean) (clean' : member'.Clean)
    (same : member.display = member'.display) :
    member.words = member'.words ∧ member.arguments = member'.arguments := by
  rw [display_eq clean, display_eq clean'] at same
  obtain ⟨fronts, arguments⟩ :=
    append_arguments_inj (noParameters_words clean) (noParameters_words clean') same
  refine ⟨Text.words_inj rfl ?_ ?_ fronts, arguments⟩
  · exact fun word listed => (isWord_words clean listed).proper_space
  · exact fun word listed => (isWord_words clean' listed).proper_space

theorem getLast?_words (member : VisibleMember) : member.words.getLast? = some member.name := by
  rw [words, List.getLast?_append, MemberType.getLast?_words]
  rfl

theorem type_inj (clean : member.Clean) (clean' : member'.Clean)
    (words : member.words = member'.words) (arguments : member.arguments = member'.arguments)
    (name : member.name = member'.name) :
    member.type = member'.type ∧ member.modifiers = member'.modifiers := by
  have classNamed := clean.classNamed
  have classNamed' := clean'.classNamed
  have constructs := clean.constructs
  have constructs' := clean'.constructs
  obtain ⟨given, _, type, modifiers⟩ := member
  obtain ⟨given', _, type', modifiers'⟩ := member'
  obtain rfl : given = given' := name
  simp only [VisibleMember.words, VisibleMember.arguments] at *
  cases type with
  | field type =>
    cases type' with
    | field type' =>
      obtain ⟨front, back⟩ := List.append_inj' words rfl
      have display : type.display = type'.display := by simpa [MemberType.words] using back
      exact ⟨congrArg _ (FieldType.display_inj classNamed classNamed' display),
        Modifier.names_inj front⟩
    | method type' => exact absurd (congrArg String.toList arguments) (by simp)
  | method type =>
    cases type' with
    | field type' => exact absurd (congrArg String.toList arguments) (by simp)
    | method type' =>
      have parameters : type.parameters = type'.parameters := by
        apply MethodType.parameters_inj classNamed classNamed'
        simpa using arguments
      obtain ⟨result, modifiers⟩ := MemberType.methodWords_inj classNamed classNamed'
        (constructs type rfl) (constructs' type' rfl) words
      cases type
      cases type'
      simp_all

theorem display_inj (clean : member.Clean) (clean' : member'.Clean)
    (same : member.display = member'.display) : member = member' := by
  obtain ⟨words, arguments⟩ := parts_inj clean clean' same
  have name : member.name = member'.name := by
    have last := getLast?_words member
    rw [words, getLast?_words] at last
    exact (Option.some.inj last).symm
  obtain ⟨type, modifiers⟩ := type_inj clean clean' words arguments name
  have descriptor : member.descriptor = member'.descriptor := by
    apply String.toList_injective
    rw [clean.described, clean'.described, type]
  cases member
  cases member'
  simp_all

end VisibleMember

end Linkage
