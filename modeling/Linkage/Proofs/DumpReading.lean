import Linkage.Abi.Dump
import Linkage.Proofs.Declarations
import Linkage.Proofs.Displays

/-!
# Reading a reduced dump back

The reduced form of a dump leaves out where types come from, and nothing else: of surfaces with proper
names it tells every type with all its members. So surfaces with the same reduced form, and with it
the same fingerprint text, declare the same: `reduceDump_dump_inj`.
-/

namespace Linkage

theorem Symbol.name_inj {symbol symbol' : Symbol} (same : symbol.name = symbol'.name) :
    symbol = symbol' := by
  cases symbol
  cases symbol'
  cases same
  rfl

theorem TypeKind.isWord (kind : TypeKind) : IsWord kind.keyword := by
  cases kind <;> exact avoids_of_all (by decide) (by decide)

def TypeKind.relation : TypeKind → String
  | .interfaceType | .annotationType => "extends"
  | .classType | .enumType => "implements"

namespace VisibleType

variable {type type' : VisibleType}

structure Clean (type : VisibleType) : Prop where
  named : IsName type.symbol.name
  superclass : ∀ symbol ∈ type.superclass, IsName symbol.name
  interfaces : ∀ symbol ∈ type.interfaces, IsName symbol.name
  /-- Behind an interface or annotation, `extends` opens the list of interfaces. -/
  extending : type.kind = .interfaceType ∨ type.kind = .annotationType → type.superclass = none
  members : ∀ member ∈ type.members, member.Clean
  sourceFile : ∀ name ∈ type.sourceFile, '\n' ∉ name.toList

structure SameDeclaration (type type' : VisibleType) : Prop where
  symbol : type.symbol = type'.symbol
  kind : type.kind = type'.kind
  modifiers : type.modifiers = type'.modifiers
  superclass : type.superclass = type'.superclass
  interfaces : type.interfaces = type'.interfaces
  members : type.members = type'.members

def relations (type : VisibleType) : List String :=
  (type.superclass.elim [] fun symbol => ["extends", symbol.name]) ++
    type.interfaces.head?.elim [] fun first => [type.kind.relation, first.name]

def words (type : VisibleType) : List String :=
  type.modifiers.map Modifier.name ++ type.kind.keyword :: type.symbol.name :: type.relations

theorem header_words (type : VisibleType) : type.header = " ".intercalate
    (type.modifiers.map Modifier.name ++ [type.kind.keyword, type.symbol.name] ++
      (type.superclass.elim [] fun symbol => ["extends", symbol.name]) ++
      if type.interfaces.isEmpty then []
      else [type.kind.relation, ", ".intercalate (type.interfaces.map Symbol.name)]) := by
  obtain ⟨_, kind, _, superclass, _, _, _, _, _, _⟩ := type
  cases superclass <;> cases kind <;> rfl

theorem header_eq (type : VisibleType) : type.header =
    ", ".intercalate (" ".intercalate type.words :: type.interfaces.tail.map Symbol.name) := by
  rw [header_words, words, relations]
  cases type.interfaces with
  | nil => simp
  | cons first others =>
    have last := Text.words_concat " " ", " first.name
      (type.modifiers.map Modifier.name ++ [type.kind.keyword, type.symbol.name] ++
        (type.superclass.elim [] fun symbol => ["extends", symbol.name]) ++ [type.kind.relation])
      (others.map Symbol.name)
    simpa [List.append_assoc] using last

theorem isWord_relations (clean : type.Clean) {word : String} (listed : word ∈ type.relations) :
    IsWord word := by
  have keyword (kind : TypeKind) : IsWord kind.relation := by
    cases kind <;> exact avoids_of_all (by decide) (by decide)
  rcases List.mem_append.mp listed with above | first
  · cases superclass : type.superclass with
    | none =>
      rw [superclass] at above
      cases above
    | some symbol =>
      simp only [superclass, Option.elim_some, List.mem_cons, List.not_mem_nil, or_false] at above
      rcases above with rfl | rfl
      · exact avoids_of_all (by decide) (by decide)
      · exact (clean.superclass symbol superclass).isWord
  · cases interfaces : type.interfaces with
    | nil =>
      rw [interfaces] at first
      cases first
    | cons symbol others =>
      simp only [interfaces, List.head?_cons, Option.elim_some, List.mem_cons, List.not_mem_nil,
        or_false] at first
      rcases first with rfl | rfl
      · exact keyword type.kind
      · exact (clean.interfaces symbol (interfaces ▸ .head _)).isWord

theorem isWord_words (clean : type.Clean) {word : String} (listed : word ∈ type.words) :
    IsWord word := by
  simp only [words, List.mem_append, List.mem_map, List.mem_cons] at listed
  rcases listed with ⟨modifier, -, rfl⟩ | rfl | rfl | relation
  · exact modifier.isWord
  · exact type.kind.isWord
  · exact clean.named.isWord
  · exact isWord_relations clean relation

theorem proper_front (clean : type.Clean) : Text.Proper ',' (" ".intercalate type.words).toList := by
  rw [String.toList_intercalate]
  constructor
  · cases words : type.words with
    | nil => simp [VisibleType.words] at words
    | cons word others =>
      have listed : word ∈ type.words := words ▸ .head _
      exact Text.intercalate_ne_nil (isWord_words clean listed).proper_space
  · intro comma
    rcases Text.mem_intercalate comma with gap | ⟨_, word, comma⟩
    · exact absurd gap (by decide)
    · obtain ⟨word, within, rfl⟩ := List.mem_map.mp word
      exact (isWord_words clean within).notMem (by decide) comma

theorem modifiers_inj {modifiers modifiers' : List Modifier} {kind kind' : TypeKind}
    {rest rest' : List String}
    (same : modifiers.map Modifier.name ++ kind.keyword :: rest =
      modifiers'.map Modifier.name ++ kind'.keyword :: rest') :
    modifiers = modifiers' ∧ kind = kind' ∧ rest = rest' := by
  have other (modifier : Modifier) (kind : TypeKind) : modifier.name ≠ kind.keyword := by
    cases modifier <;> cases kind <;> decide
  induction modifiers generalizing modifiers' with
  | nil =>
    cases modifiers' with
    | nil =>
      obtain ⟨keyword, rest⟩ := List.cons.inj same
      refine ⟨rfl, ?_, rest⟩
      revert keyword
      cases kind <;> cases kind' <;> decide
    | cons modifier' modifiers' =>
      exact absurd (List.cons.inj same).1.symm (other modifier' kind)
  | cons modifier modifiers ih =>
    cases modifiers' with
    | nil => exact absurd (List.cons.inj same).1 (other modifier kind')
    | cons modifier' modifiers' =>
      obtain ⟨name, others⟩ := List.cons.inj same
      obtain ⟨rfl, kind, rest⟩ := ih others
      exact ⟨by rw [Modifier.name_inj name], kind, rest⟩

theorem no_superclass (clean : type.Clean) (kind : type.kind = type'.kind)
    (same : type.relations = type'.relations) (missing : type'.superclass = none) :
    type.superclass = none := by
  cases superclass : type.superclass with
  | none => rfl
  | some symbol =>
    have relation : type'.kind.relation ≠ "extends" := by
      have extending := clean.extending
      rw [superclass, kind] at extending
      revert extending
      cases type'.kind <;> simp [TypeKind.relation]
    rw [relations, relations, superclass, missing] at same
    cases first : type'.interfaces.head? with
    | none => simp [first] at same
    | some symbol' =>
      simp only [first, Option.elim_some, Option.elim_none, List.cons_append, List.nil_append]
        at same
      exact absurd (List.cons.inj same).1.symm relation

theorem relations_inj (clean : type.Clean) (clean' : type'.Clean) (kind : type.kind = type'.kind)
    (same : type.relations = type'.relations) :
    type.superclass = type'.superclass ∧ type.interfaces.head? = type'.interfaces.head? := by
  have superclass : type.superclass = type'.superclass := by
    cases superclass : type.superclass with
    | none => exact (no_superclass clean' kind.symm same.symm superclass).symm
    | some symbol =>
      cases superclass' : type'.superclass with
      | none =>
        exact superclass.symm.trans (no_superclass clean kind same superclass')
      | some symbol' =>
        simp only [relations, superclass, superclass', Option.elim_some, List.cons_append] at same
        have names := (List.cons.inj (List.cons.inj same).2).1
        rw [Symbol.name_inj names]
  refine ⟨superclass, ?_⟩
  rw [relations, relations, superclass] at same
  have firsts := List.append_cancel_left same
  cases first : type.interfaces.head? with
  | none =>
    cases first' : type'.interfaces.head? with
    | none => rfl
    | some symbol' => simp [first, first'] at firsts
  | some symbol =>
    cases first' : type'.interfaces.head? with
    | none => simp [first, first'] at firsts
    | some symbol' =>
      simp only [first, first', Option.elim_some] at firsts
      rw [Symbol.name_inj (List.cons.inj (List.cons.inj firsts).2).1]

theorem header_inj (clean : type.Clean) (clean' : type'.Clean) (same : type.header = type'.header) :
    type.symbol = type'.symbol ∧ type.kind = type'.kind ∧ type.modifiers = type'.modifiers ∧
      type.superclass = type'.superclass ∧ type.interfaces = type'.interfaces := by
  have proper {type : VisibleType} (clean : type.Clean) :
      ∀ item ∈ " ".intercalate type.words :: type.interfaces.tail.map Symbol.name,
        Text.Proper ',' item.toList := by
    refine List.forall_mem_cons.mpr ⟨proper_front clean, fun item listed => ?_⟩
    obtain ⟨symbol, member, rfl⟩ := List.mem_map.mp listed
    exact (clean.interfaces symbol (List.mem_of_mem_tail member)).isWord.proper_comma
  rw [header_eq, header_eq] at same
  obtain ⟨front, others⟩ := List.cons.inj (Text.words_inj rfl (proper clean) (proper clean') same)
  have words : type.words = type'.words :=
    Text.words_inj rfl (fun _ listed => (isWord_words clean listed).proper_space)
      (fun _ listed => (isWord_words clean' listed).proper_space) front
  -- The kind must be known first: it decides what `extends` stands before.
  obtain ⟨modifiers, kind, rest⟩ := modifiers_inj words
  obtain ⟨name, relations⟩ := List.cons.inj rest
  obtain ⟨superclass, first⟩ := relations_inj clean clean' kind relations
  have tails : type.interfaces.tail = type'.interfaces.tail :=
    Text.map_inj_on (fun _ _ _ _ => Symbol.name_inj) others
  refine ⟨Symbol.name_inj name, kind, modifiers, superclass, ?_⟩
  cases interfaces : type.interfaces with
  | nil =>
    rw [interfaces] at first
    exact (List.head?_eq_none_iff.mp first.symm).symm
  | cons symbol rest =>
    rw [interfaces] at first tails
    rw [List.eq_cons_of_mem_head? first.symm, ← tails]
    rfl

end VisibleType

def IsLine (text : String) : Prop := ∀ c ∈ text.toList, c = ' ' ∨ c.isWhitespace = false

namespace IsLine

variable {text text' gap : String} {pieces : List String}

theorem notMem {c : Char} (line : IsLine text) (blank : c.isWhitespace = true) (other : c ≠ ' ') :
    c ∉ text.toList := by
  intro member
  rcases line c member with same | noBlank
  · exact other same
  · rw [blank] at noBlank
    cases noBlank

theorem append (line : IsLine text) (line' : IsLine text') : IsLine (text ++ text') := by
  intro c member
  rw [String.toList_append, List.mem_append] at member
  exact member.elim (line c) (line' c)

theorem intercalate (line : IsLine gap) (each : ∀ piece ∈ pieces, IsLine piece) :
    IsLine (gap.intercalate pieces) := by
  intro c member
  rw [String.toList_intercalate] at member
  rcases Text.mem_intercalate member with within | ⟨_, listed, within⟩
  · exact line c within
  · obtain ⟨piece, member, rfl⟩ := List.mem_map.mp listed
    exact each piece member c within

end IsLine

theorem isLine_of_all {text : String}
    (all : (text.toList.all fun c => c = ' ' || !c.isWhitespace) = true) : IsLine text := by
  simpa [IsLine] using all

theorem Avoids.isLine {marks : List Char} {text : String} (avoids : Avoids marks text) :
    IsLine text := fun c member => .inr (avoids.2 c member).1

theorem VisibleMember.isLine_display {member : VisibleMember} (clean : member.Clean) :
    IsLine member.display := by
  rw [display_eq clean]
  apply IsLine.append
  · apply IsLine.intercalate (isLine_of_all (by decide))
    exact fun word listed => (isWord_words clean listed).isLine
  · have classNamed := clean.classNamed
    unfold arguments
    split
    · exact isLine_of_all (by decide)
    · rename_i type isMethod
      rw [isMethod] at classNamed
      have parameters : IsLine (", ".intercalate (type.parameters.map FieldType.display)) := by
        apply IsLine.intercalate (isLine_of_all (by decide))
        intro word listed
        obtain ⟨parameter, member, rfl⟩ := List.mem_map.mp listed
        exact (FieldType.isWord_display (classNamed.1 parameter member)).isLine
      exact ((isLine_of_all (by decide)).append parameters).append (isLine_of_all (by decide))

theorem VisibleType.isLine_header {type : VisibleType} (clean : type.Clean) :
    IsLine type.header := by
  rw [header_eq]
  apply IsLine.intercalate (isLine_of_all (by decide))
  refine List.forall_mem_cons.mpr ⟨?_, fun item listed => ?_⟩
  · apply IsLine.intercalate (isLine_of_all (by decide))
    exact fun word listed => (isWord_words clean listed).isLine
  · obtain ⟨symbol, member, rfl⟩ := List.mem_map.mp listed
    exact (clean.interfaces symbol (List.mem_of_mem_tail member)).isLine

def Starts (text : List Char) : Prop :=
  ∃ c rest, text = c :: rest ∧ Text.isBlank c = false ∧ c ≠ '/'

theorem Starts.append {text : List Char} (starts : Starts text) (rest : List Char) :
    Starts (text ++ rest) := by
  obtain ⟨c, others, rfl, noBlank, noSlash⟩ := starts
  exact ⟨c, others ++ rest, rfl, noBlank, noSlash⟩

theorem Starts.intercalate {gap first : String} (starts : Starts first.toList)
    (pieces : List String) : Starts (gap.intercalate (first :: pieces)).toList := by
  cases pieces with
  | nil => rwa [String.intercalate_singleton]
  | cons next pieces =>
    rw [String.intercalate_cons_cons, String.toList_append, String.toList_append, List.append_assoc]
    exact starts.append _

theorem Starts.isComment {text : List Char} (starts : Starts text) : isComment text = false := by
  obtain ⟨c, rest, rfl, noBlank, noSlash⟩ := starts
  have marks : commentMark.toList = ['/', '/'] := rfl
  simp [Linkage.isComment, marks, noBlank, List.isPrefixOf, Ne.symm noSlash]

theorem isComment_indented (text : List Char) : isComment (' ' :: ' ' :: text) = isComment text := by
  have blank : Text.isBlank ' ' = true := by decide
  simp [isComment, blank]

theorem isComment_slashes (rest : List Char) : isComment ('/' :: '/' :: rest) = true := by
  have marks : commentMark.toList = ['/', '/'] := rfl
  have noBlank : Text.isBlank '/' = false := by decide
  simp [isComment, marks, noBlank]

theorem Modifier.starts (modifier : Modifier) : Starts modifier.name.toList := by
  cases modifier <;> exact ⟨_, _, rfl, by decide, by decide⟩

theorem VisibleType.starts_header (type : VisibleType) : Starts type.header.toList := by
  have first : ∃ word others, type.words = word :: others ∧ Starts word.toList := by
    unfold words
    cases type.modifiers with
    | nil =>
      refine ⟨_, _, rfl, ?_⟩
      cases type.kind <;> exact ⟨_, _, rfl, by decide, by decide⟩
    | cons modifier modifiers => exact ⟨_, _, rfl, modifier.starts⟩
  obtain ⟨word, others, words, starts⟩ := first
  rw [header_eq, words]
  exact (starts.intercalate others).intercalate _

theorem VisibleMember.starts_display {member : VisibleMember} (clean : member.Clean) :
    Starts member.display.toList := by
  obtain ⟨modifier, modifiers, given⟩ := List.exists_cons_of_ne_nil clean.visible
  rw [display, given]
  exact modifier.starts.intercalate _

/-! ## Reduced dumps -/

variable {type type' : VisibleType} {surface surface' : Surface}

def keptLine (line : String) : Option String :=
  let found := Text.lineOfReversed line.toList.reverse
  if isComment found then none else some (String.ofList found)

theorem reduceDump_ofLines {list : List String} (noFeed : ∀ line ∈ list, '\n' ∉ line.toList) :
    reduceDump (Text.ofLines list) = Text.ofLines (list.filterMap keptLine) := by
  rw [reduceDump, Text.lines_ofLines noFeed]
  congr 1
  clear noFeed
  induction list with
  | nil => rfl
  | cons line list ih =>
    rw [List.map_cons, List.filter_cons, List.filterMap_cons, keptLine]
    cases isComment (Text.lineOfReversed line.toList.reverse) with
    | true => simpa using ih
    | false => simpa using ih

theorem keptLine_plain {line : String} (plain : IsLine line)
    (noComment : isComment line.toList = false) : keptLine line = some line := by
  have whole := Text.lineOfReversed_eq (plain.notMem (c := '\r') (by decide) (by decide))
  simp [keptLine, whole, noComment]

theorem keptLine_comment {line : String} {rest : List Char}
    (opens : line.toList = '/' :: '/' :: rest) : keptLine line = none := by
  obtain ⟨tail, found⟩ : ∃ tail, Text.lineOfReversed line.toList.reverse = '/' :: '/' :: tail := by
    rw [opens]
    exact Text.lineOfReversed_append ['/'] (by decide)
  simp [keptLine, found, isComment_slashes]

namespace VisibleType

def commentLines (type : VisibleType) : List String :=
  type.sourceFile.toList.map (fun name => s!"{commentMark} source: {name}") ++
    [s!"{commentMark} class version: {type.major}.{type.minor}"]

def declarationLines (type : VisibleType) : List String :=
  type.header :: type.members.map fun member => "  " ++ member.display

theorem dumpLines_eq (type : VisibleType) :
    type.dumpLines = type.commentLines ++ (type.declarationLines ++ [""]) := by
  simp [dumpLines, commentLines, declarationLines]

theorem versionLine_opens (type : VisibleType) :
    (∃ rest, s!"{commentMark} class version: {type.major}.{type.minor}".toList = '/' :: '/' :: rest) ∧
      '\n' ∉ s!"{commentMark} class version: {type.major}.{type.minor}".toList := by
  have digits (number : UInt16) : '\n' ∉ (toString number).toList := by
    have text : (toString number).toList = Nat.toDigits 10 number.toNat := Nat.toList_repr
    rw [text]
    intro member
    exact absurd (Nat.isDigit_of_mem_toDigits (by decide) (by decide) member) (by decide)
  have marks : (toString commentMark).toList = ['/', '/'] := rfl
  simp only [String.toList_append, marks]
  refine ⟨⟨_, rfl⟩, ?_⟩
  have major := digits type.major
  have minor := digits type.minor
  have text : '\n' ∉ (toString " class version: ").toList ∧ '\n' ∉ (toString ".").toList := by decide
  simp only [List.mem_cons, List.mem_append, not_or, List.cons_append]
  exact ⟨by decide, by decide, ⟨⟨⟨nofun, text.1⟩, major⟩, text.2⟩, minor⟩

theorem commentLines_open (clean : type.Clean) {line : String} (listed : line ∈ type.commentLines) :
    (∃ rest, line.toList = '/' :: '/' :: rest) ∧ '\n' ∉ line.toList := by
  rcases List.mem_append.mp listed with source | version
  · obtain ⟨name, given, rfl⟩ := List.mem_map.mp source
    have marks : (toString commentMark).toList = ['/', '/'] := rfl
    have noFeed : '\n' ∉ (toString name).toList := clean.sourceFile name (Option.mem_toList.mp given)
    simp only [String.toList_append, marks]
    exact ⟨⟨_, rfl⟩, by simpa [toString] using noFeed⟩
  · cases List.mem_singleton.mp version
    exact type.versionLine_opens

theorem declarationLines_plain (clean : type.Clean) {line : String}
    (listed : line ∈ type.declarationLines) :
    IsLine line ∧ isComment line.toList = false ∧ line ≠ "" := by
  rcases List.mem_cons.mp listed with rfl | listed
  · refine ⟨isLine_header clean, type.starts_header.isComment, ?_⟩
    intro empty
    obtain ⟨c, rest, opens, -⟩ := type.starts_header
    rw [empty] at opens
    cases opens
  · obtain ⟨member, given, rfl⟩ := List.mem_map.mp listed
    have clean := clean.members member given
    have characters : ("  " ++ member.display).toList = ' ' :: ' ' :: member.display.toList := by
      rw [String.toList_append]
      rfl
    refine ⟨(isLine_of_all (by decide)).append (VisibleMember.isLine_display clean), ?_, ?_⟩
    · rw [characters, isComment_indented]
      exact (VisibleMember.starts_display clean).isComment
    · intro empty
      rw [empty] at characters
      cases characters

theorem noFeed_dumpLines (clean : type.Clean) {line : String} (listed : line ∈ type.dumpLines) :
    '\n' ∉ line.toList := by
  rw [dumpLines_eq, List.mem_append, List.mem_append, List.mem_singleton] at listed
  rcases listed with comment | declaration | rfl
  · exact (commentLines_open clean comment).2
  · exact (declarationLines_plain clean declaration).1.notMem (by decide) (by decide)
  · exact nofun

theorem keptLines (clean : type.Clean) :
    type.dumpLines.filterMap keptLine = type.declarationLines ++ [""] := by
  rw [dumpLines_eq, List.filterMap_append, List.filterMap_append]
  have comments : type.commentLines.filterMap keptLine = [] := by
    rw [List.filterMap_eq_nil_iff]
    intro line listed
    obtain ⟨⟨rest, opens⟩, -⟩ := commentLines_open clean listed
    exact keptLine_comment opens
  have declarations : type.declarationLines.filterMap keptLine = type.declarationLines := by
    rw [List.filterMap_congr (g := some), List.filterMap_some]
    intro line listed
    obtain ⟨plain, noComment, -⟩ := declarationLines_plain clean listed
    exact keptLine_plain plain noComment
  have empty : keptLine "" = some "" := keptLine_plain nofun (by decide)
  rw [comments, declarations]
  simp [empty]

end VisibleType

theorem reduceDump_dump (clean : ∀ type ∈ surface.types, type.Clean) :
    reduceDump surface.dump =
      Text.ofLines (surface.types.flatMap fun type => type.declarationLines ++ [""]) := by
  rw [Surface.dump, reduceDump_ofLines, List.filterMap_flatMap]
  · congr 1
    apply List.flatMap_congr
    exact fun type listed => VisibleType.keptLines (clean type listed)
  · intro line listed
    obtain ⟨type, member, listed⟩ := List.mem_flatMap.mp listed
    exact VisibleType.noFeed_dumpLines (clean type member) listed

theorem declarationLines_inj (clean : type.Clean) (clean' : type'.Clean)
    (same : type.declarationLines = type'.declarationLines) : type.SameDeclaration type' := by
  obtain ⟨header, members⟩ := List.cons.inj same
  obtain ⟨symbol, kind, modifiers, superclass, interfaces⟩ :=
    VisibleType.header_inj clean clean' header
  refine ⟨symbol, kind, modifiers, superclass, interfaces, ?_⟩
  apply Text.map_inj_on _ members
  intro member listed member' listed' lines
  have displays : member.display = member'.display := by
    apply String.toList_injective
    have characters := congrArg String.toList lines
    simpa using characters
  exact VisibleMember.display_inj (clean.members member listed) (clean'.members member' listed')
    displays

theorem reduceDump_dump_inj (clean : ∀ type ∈ surface.types, type.Clean)
    (clean' : ∀ type ∈ surface'.types, type.Clean)
    (same : reduceDump surface.dump = reduceDump surface'.dump) :
    List.Forall₂ VisibleType.SameDeclaration surface.types surface'.types := by
  have noFeed {surface : Surface} (clean : ∀ type ∈ surface.types, type.Clean) :
      ∀ line ∈ surface.types.flatMap fun type => type.declarationLines ++ [""],
        '\n' ∉ line.toList := by
    intro line listed
    obtain ⟨type, member, listed⟩ := List.mem_flatMap.mp listed
    rcases List.mem_append.mp listed with declaration | empty
    · exact (VisibleType.declarationLines_plain (clean type member) declaration).1.notMem
        (by decide) (by decide)
    · rw [List.mem_singleton.mp empty]
      exact nofun
  have noEmpty {surface : Surface} (clean : ∀ type ∈ surface.types, type.Clean) :
      ∀ lines ∈ surface.types.map VisibleType.declarationLines, "" ∉ lines := by
    intro lines listed empty
    obtain ⟨type, member, rfl⟩ := List.mem_map.mp listed
    exact (VisibleType.declarationLines_plain (clean type member) empty).2.2 rfl
  rw [reduceDump_dump clean, reduceDump_dump clean'] at same
  have lines := Text.ofLines_inj (noFeed clean) (noFeed clean') same
  rw [← List.flatMap_map VisibleType.declarationLines (· ++ [""]),
    ← List.flatMap_map VisibleType.declarationLines (· ++ [""])] at lines
  -- No declaration is an empty line, so the empty lines show where a type ends.
  apply Text.forall₂_of_map_eq _ (Text.flatMap_mark_inj (noEmpty clean) (noEmpty clean') lines)
  intro type listed type' listed'
  exact declarationLines_inj (clean type listed) (clean' type' listed')

/-! ## Surfaces of classes -/

variable {config config' : AbiConfig} {unit : ClassFile} {units units' : List ClassFile}
  {candidate : Candidate} {candidates candidates' : Candidates} {member : Member}

/-- Whether the names in what a class declares cannot be mistaken for each other or for other words. -/
structure ClassFile.CleanlyNamed (unit : ClassFile) : Prop where
  name : IsName unit.thisClass
  superclass : ∀ name ∈ unit.superClass, IsName name
  interfaces : ∀ name ∈ unit.interfaces, IsName name
  annotation : unit.flags.isAnnotationType = true → unit.superClass = some "java/lang/Object"
  fields : ∀ field ∈ unit.declaredFields, IsName field.name ∧
    ∀ type, FieldType.ofDescriptor field.descriptor = .ok type → type.element.ClassNamed
  methods : ∀ method ∈ unit.declaredMethods, IsName method.name ∧
    ∀ type, MethodType.ofDescriptor method.descriptor = .ok type → type.ClassNamed
  constructors : ∀ method ∈ unit.declaredMethods, method.name = "<init>" →
    ∀ type, MethodType.ofDescriptor method.descriptor = .ok type → type.result = none
  sourceFile : ∀ name ∈ unit.sourceFile, '\n' ∉ name.toList

theorem exposing_eq_ok {modifiers : List Modifier} {type : MemberType}
    {visible : VisibleMember × List String} (read : member.exposing modifiers type = .ok visible) :
    visible.1 = ⟨member.name, member.descriptor, type, modifiers⟩ := by
  obtain ⟨_, -, done⟩ := bind_eq_ok.mp read
  cases done
  rfl

theorem Member.Declared.visibility_ne_nil (declared : member.Declared) :
    member.flags.visibility ≠ [] := by
  unfold AccessFlags.visibility
  rcases declared.letsIn with isPublic | isProtected
  · simp [isPublic]
  · by_cases isPublic : member.flags.isPublic = true <;> simp [isPublic, isProtected]

theorem visibleField_clean {visible : VisibleMember × List String} (declared : member.Declared)
    (named : IsName member.name)
    (classNamed : ∀ type, FieldType.ofDescriptor member.descriptor = .ok type →
      type.element.ClassNamed)
    (read : member.visibleField = .ok visible) : visible.1.Clean := by
  obtain ⟨type, opened, exposed⟩ := bind_eq_ok.mp read
  rw [exposing_eq_ok exposed]
  refine ⟨named, (FieldType.ofDescriptor_eq_ok opened).1, classNamed type opened, nofun, ?_⟩
  simp [Member.fieldModifiers, declared.visibility_ne_nil]

theorem visibleMethod_clean {visible : VisibleMember × List String} (declared : member.Declared)
    (named : IsName member.name)
    (classNamed : ∀ type, MethodType.ofDescriptor member.descriptor = .ok type → type.ClassNamed)
    (constructs : member.name = "<init>" →
      ∀ type, MethodType.ofDescriptor member.descriptor = .ok type → type.result = none)
    (read : member.visibleMethod = .ok visible) : visible.1.Clean := by
  obtain ⟨type, opened, exposed⟩ := bind_eq_ok.mp read
  rw [exposing_eq_ok exposed]
  refine ⟨named, (MethodType.ofDescriptor_eq_ok opened).1, classNamed type opened, ?_, ?_⟩
  · rintro _ ⟨⟩ isConstructor
    exact constructs isConstructor type opened
  · simp [Member.methodModifiers, Member.fieldModifiers, declared.visibility_ne_nil]

theorem superclass_eq_none (named : unit.CleanlyNamed)
    (kind : TypeKind.ofFlags unit.flags = .interfaceType ∨
      TypeKind.ofFlags unit.flags = .annotationType) : Candidate.superclass unit = none := by
  rw [Candidate.superclass, Option.filter_eq_none_iff]
  intro name extended
  rcases kind with isInterface | isAnnotation
  · simp [isInterface]
  · have annotates : unit.flags.isAnnotationType = true := by
      unfold TypeKind.ofFlags at isAnnotation
      split at isAnnotation
      · assumption
      · split at isAnnotation
        · cases isAnnotation
        · split at isAnnotation <;> cases isAnnotation
    rw [named.annotation annotates] at extended
    cases extended
    simp

theorem ofClass_clean (named : unit.CleanlyNamed) (read : Candidate.ofClass unit = .ok candidate) :
    candidate.type.Clean := by
  obtain ⟨generic, fields, methods, -, readFields, readMethods, rfl⟩ := ofClass_eq_ok.mp read
  rw [filter_isDeclared] at readFields
  rw [filter_isDeclaredMethod] at readMethods
  refine ⟨named.name.dotted, ?_, ?_, ?_, ?_, named.sourceFile⟩
  · intro symbol given
    obtain ⟨name, extended, rfl⟩ := Option.map_eq_some_iff.mp given
    exact (named.superclass name (Option.filter_eq_some_iff.mp extended).1).dotted
  · intro symbol given
    obtain ⟨name, listed, rfl⟩ := List.mem_map.mp (List.mem_mergeSort.mp given)
    exact (named.interfaces name listed).dotted
  · exact fun kind => Option.map_eq_none_iff.mpr (superclass_eq_none named kind)
  · intro visible given
    obtain ⟨exposed, listed, rfl⟩ := List.mem_map.mp (List.mem_mergeSort.mp given)
    rcases List.mem_append.mp listed with isField | isMethod
    · obtain ⟨field, declared, opened⟩ := (mem_of_mapM readFields).mp isField
      obtain ⟨name, classNamed⟩ := named.fields field declared
      have included := (List.mem_filter.mp declared).2
      exact visibleField_clean (of_decide_eq_true included) name classNamed opened
    · obtain ⟨method, declared, opened⟩ := (mem_of_mapM readMethods).mp isMethod
      obtain ⟨name, classNamed⟩ := named.methods method declared
      have included := (List.mem_filter.mp declared).2
      exact visibleMethod_clean (of_decide_eq_true included).1 name classNamed
        (named.constructors method declared) opened

/-! ### A class compiled again

The second form of the class is of another version and names its source file.
-/

namespace Recompiled

def before : ClassFile := Rearranged.plain

def after : ClassFile := { before with major := 61, attributes := [.sourceFile "A.java"] }

theorem read_method : MethodType.ofDescriptor "()V" = .ok ⟨[], none⟩ := by cbv

theorem declares_before : before.declaredFields = [] ∧ ∀ method ∈ before.declaredMethods,
    (method.name = "b" ∨ method.name = "a") ∧ method.descriptor = "()V" := by
  decide

theorem named_before : before.CleanlyNamed where
  name := avoids_of_all (by decide) (by decide)
  superclass := by
    rintro _ ⟨⟩
    exact avoids_of_all (by decide) (by decide)
  interfaces := by
    refine List.forall_mem_cons.mpr ⟨?_, List.forall_mem_singleton.mpr ?_⟩
    · exact avoids_of_all (by decide) (by decide)
    · exact avoids_of_all (by decide) (by decide)
  annotation := fun annotates => absurd annotates (by decide)
  fields := by
    rw [declares_before.1]
    exact nofun
  methods := by
    intro method declared
    obtain ⟨name, descriptor⟩ := declares_before.2 method declared
    rw [descriptor, read_method]
    refine ⟨?_, ?_⟩
    · rcases name with name | name <;> rw [name] <;> exact avoids_of_all (by decide) (by decide)
    · rintro _ ⟨⟩
      exact ⟨nofun, nofun⟩
  constructors := by
    intro method declared isConstructor
    obtain ⟨name | name, -⟩ := declares_before.2 method declared
    · exact absurd (name.symm.trans isConstructor) (by decide)
    · exact absurd (name.symm.trans isConstructor) (by decide)
  sourceFile := nofun

theorem named_after : after.CleanlyNamed :=
  { named_before with
    sourceFile := by
      rintro _ ⟨⟩
      decide }

theorem visible {unit : ClassFile} (form : unit = before ∨ unit = after) :
    VisibleAmong (· = unit) {} unit := by
  have opens : unit.definesType = true ∧ unit.flags.isPublic = true ∧ unit.markedSynthetic = false ∧
      unit.flags.isSynthetic = false ∧ unit.selfEntry = none := by
    rcases form with rfl | rfl <;> decide
  obtain ⟨defines, isPublic, unmarked, unflagged, alone⟩ := opens
  exact .outermost rfl ⟨defines, isPublic, unmarked, unflagged, by simp [AbiConfig.LeavesOut]⟩ alone

def members : List (VisibleMember × List String) :=
  [(⟨"b", "()V", .method ⟨[], none⟩, [.isPublic]⟩, []),
    (⟨"a", "()V", .method ⟨[], none⟩, [.isPublic]⟩, [])]

theorem ofClass_form {unit : ClassFile} (form : unit = before ∨ unit = after) :
    Candidate.ofClass unit = .ok (Candidate.assemble unit [] members) := by
  have parts : unit.signature = none ∧ unit.fields = [] ∧ unit.methods = before.methods := by
    rcases form with rfl | rfl <;> decide
  obtain ⟨signature, fields, methods⟩ := parts
  have readMethods : (before.methods.filter Member.isDeclaredMethod).mapM Member.visibleMethod =
      .ok members := by
    cbv
  refine ofClass_eq_ok.mpr ⟨[], [], members, ?_, ?_, methods ▸ readMethods, rfl⟩
  · rw [signature]
    rfl
  · rw [fields]
    rfl

end Recompiled

/-- Of surfaces of classes with proper names, the reduced forms of the dumps tell all types and members
apart. -/
theorem reduceDump_tells_declarations
    (named : ∀ unit ∈ units, unit.definesType = true → unit.CleanlyNamed)
    (named' : ∀ unit ∈ units', unit.definesType = true → unit.CleanlyNamed)
    (read : Candidates.ofClasses units = .ok candidates)
    (read' : Candidates.ofClasses units' = .ok candidates') {order order' : List String}
    (same : reduceDump (candidates.surfaceInOrder config order).dump =
      reduceDump (candidates'.surfaceInOrder config' order').dump) :
    List.Forall₂ VisibleType.SameDeclaration (candidates.surfaceInOrder config order).types
      (candidates'.surfaceInOrder config' order').types := by
  have clean {units : List ClassFile} {candidates : Candidates} {config : AbiConfig}
      {order : List String} (named : ∀ unit ∈ units, unit.definesType = true → unit.CleanlyNamed)
      (read : Candidates.ofClasses units = .ok candidates) :
      ∀ type ∈ (candidates.surfaceInOrder config order).types, type.Clean := by
    intro type listed
    obtain ⟨name, candidate, found, rfl⟩ := Candidates.mem_surfaceInOrder_found listed
    obtain ⟨unit, given, defines, -, opened⟩ := ofClasses_lookup read found
    exact ofClass_clean (named unit given defines) opened
  exact reduceDump_dump_inj (clean named read) (clean named' read') same

theorem reduceDump_tells_declarations_recompiled :
    ∃ candidates candidates',
      (∀ unit ∈ [Recompiled.before], unit.definesType = true → unit.CleanlyNamed) ∧
      (∀ unit ∈ [Recompiled.after], unit.definesType = true → unit.CleanlyNamed) ∧
      Candidates.ofClasses [Recompiled.before] = .ok candidates ∧
      Candidates.ofClasses [Recompiled.after] = .ok candidates' ∧
      candidates.surface {} ≠ candidates'.surface {} ∧
      reduceDump (candidates.surface {}).dump = reduceDump (candidates'.surface {}).dump ∧
      List.Forall₂ VisibleType.SameDeclaration (candidates.surface {}).types
        (candidates'.surface {}).types := by
  have opens {unit : ClassFile} (form : unit = Recompiled.before ∨ unit = Recompiled.after) :
      ∃ candidates, Candidates.ofClasses [unit] = .ok candidates ∧
        candidates.surface {} = ⟨[(Candidate.assemble unit [] Recompiled.members).type]⟩ := by
    have wellDeclared := ofClass_succeeds.mp ⟨_, Recompiled.ofClass_form form⟩
    obtain ⟨candidates, read⟩ := ofClasses_succeeds.mpr <|
      List.forall_mem_singleton.mpr fun _ : unit.definesType = true => wellDeclared
    exact ⟨candidates, read, surface_singleton (fun _ => List.mem_singleton)
      (Recompiled.visible form) (Recompiled.ofClass_form form) read⟩
  obtain ⟨candidates, read, surface⟩ := opens (.inl rfl)
  obtain ⟨candidates', read', surface'⟩ := opens (.inr rfl)
  have named : ∀ unit ∈ [Recompiled.before], unit.definesType = true → unit.CleanlyNamed :=
    List.forall_mem_singleton.mpr fun _ => Recompiled.named_before
  have named' : ∀ unit ∈ [Recompiled.after], unit.definesType = true → unit.CleanlyNamed :=
    List.forall_mem_singleton.mpr fun _ => Recompiled.named_after
  have same : reduceDump (candidates.surface {}).dump =
      reduceDump (candidates'.surface {}).dump := by
    rw [surface, surface', reduceDump_dump, reduceDump_dump]
    · rfl
    · exact List.forall_mem_singleton.mpr
        (ofClass_clean Recompiled.named_after (Recompiled.ofClass_form (.inr rfl)))
    · exact List.forall_mem_singleton.mpr
        (ofClass_clean Recompiled.named_before (Recompiled.ofClass_form (.inl rfl)))
  refine ⟨candidates, candidates', named, named', read, read', ?_, same, ?_⟩
  · rw [surface, surface']
    intro equal
    have versions := congrArg (fun surface => surface.types.map VisibleType.major) equal
    exact absurd versions (by decide)
  · exact reduceDump_tells_declarations named named' read read' same

end Linkage
