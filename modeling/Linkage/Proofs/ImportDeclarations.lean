import Linkage.Proofs.ImportForms
import Mathlib.Data.List.Basic

/-!
# Import declarations in a text

Which declarations a scan of a stub finds, whatever stands around them, and what they contribute. A
place where one is found lies at the start of a line (`Declares`). No declaration begins within
another, the white space before it aside (`declares_spelled`), so that none is missed by going on
behind the last one found.
-/

namespace Linkage.Scan

variable {text rest name gap word ending spelled : List Char} {names : List (List Char)}
  {declaration : ImportDeclaration} {isWildcard : Bool}

/-! ## Declarations in a text -/

namespace ImportDeclaration

/-- The path that a declaration names, without the last identifier if that is a member. -/
inductive Contributes : ImportDeclaration → List (List Char) → Prop
  | type {path : List (List Char)} : Contributes ⟨false, path, false⟩ path
  | owner {path : List (List Char)} {member : List Char} :
      Contributes ⟨true, path ++ [member], false⟩ path
  | members {path : List (List Char)} : Contributes ⟨true, path, true⟩ path

end ImportDeclaration

def Opens (declaration : ImportDeclaration) (text : List Char) : Prop :=
  ∃ spelled rest, Spells declaration spelled ∧ text = spelled ++ rest

/-- Whether a line starts behind some text; `opensLine` says whether one starts before it. -/
def startsLine (opensLine : Bool) (before : List Char) : Bool :=
  before.getLast?.elim opensLine (· = '\n')

/-- Whether a declaration stands at the start of a line of a text. -/
def Declares (opensLine : Bool) (text : List Char) (declaration : ImportDeclaration) : Prop :=
  ∃ before rest, text = before ++ rest ∧ startsLine opensLine before ∧ Opens declaration rest

theorem opens_iff : Opens declaration text ↔
    ∃ rest, declaration? text = some (declaration, rest) := by
  simp only [Opens, declaration?_eq_some]
  exact exists_comm

theorem Opens.unique {other : ImportDeclaration} (opens : Opens declaration text)
    (opens' : Opens other text) : declaration = other := by
  obtain ⟨rest, found⟩ := opens_iff.mp opens
  obtain ⟨rest', found'⟩ := opens_iff.mp opens'
  cases found.symm.trans found'
  rfl

theorem Spells.exists_import (spells : Spells declaration spelled) :
    ∃ indent gap next more, IsGap indent ∧ IsGap gap ∧ gap ≠ [] ∧ IsIdentifier next ∧
      spelled = indent ++ ("import".toList ++ (gap ++ (next ++ more))) := by
  cases spells with
  | @plain indent gap path ending names isWildcard indented blanks wide isPath isEnding =>
    cases isPath with
    | last isName => exact ⟨indent, gap, _, ending, indented, blanks, wide, isName, rfl⟩
    | @more name before after path names isName =>
      exact ⟨indent, gap, name, before ++ '.' :: (after ++ path) ++ ending, indented, blanks, wide,
        isName, by simp⟩
  | static indented blanks wide =>
    exact ⟨_, _, _, _, indented, blanks, wide, isIdentifier_static, rfl⟩

theorem not_opens_nil : ¬ Opens declaration [] := by
  rintro ⟨spelled, rest, spells, empty⟩
  obtain ⟨indent, gap, next, more, -, -, -, -, rfl⟩ := spells.exists_import
  simp at empty

theorem declares_nil {opensLine : Bool} : ¬ Declares opensLine [] declaration := by
  rintro ⟨before, rest, empty, -, opens⟩
  obtain ⟨-, rfl⟩ := List.append_eq_nil_iff.mp empty.symm
  exact not_opens_nil opens

theorem startsLine_cons {opensLine : Bool} {c : Char} {before : List Char} :
    startsLine opensLine (c :: before) = startsLine (c = '\n') before := by
  cases before with
  | nil => rfl
  | cons d before => simp [startsLine, List.getLast?_cons]

theorem declares_cons {opensLine : Bool} {c : Char} : Declares opensLine (c :: text) declaration ↔
    (opensLine ∧ Opens declaration (c :: text)) ∨ Declares (c = '\n') text declaration := by
  constructor
  · rintro ⟨before, rest, split, starts, opens⟩
    cases before with
    | nil =>
      obtain rfl : c :: text = rest := split
      exact .inl ⟨starts, opens⟩
    | cons d before =>
      obtain ⟨rfl, rfl⟩ := List.cons.inj split
      exact .inr ⟨before, rest, rfl, startsLine_cons ▸ starts, opens⟩
  · rintro (⟨starts, opens⟩ | ⟨before, rest, rfl, starts, opens⟩)
    · exact ⟨[], _, rfl, starts, opens⟩
    · exact ⟨c :: before, rest, rfl, startsLine_cons ▸ starts, opens⟩

theorem Declares.prepend {opensLine : Bool} (declares : Declares false text declaration)
    (before : List Char) : Declares opensLine (before ++ text) declaration := by
  obtain ⟨between, rest, rfl, starts, opens⟩ := declares
  refine ⟨before ++ between, rest, (List.append_assoc ..).symm, ?_, opens⟩
  cases between with
  | nil => cases starts
  | cons c between =>
    unfold startsLine at starts ⊢
    rw [List.getLast?_append_of_ne_nil _ (List.cons_ne_nil _ _)]
    rwa [List.getLast?_cons] at starts ⊢

theorem Declares.behind_word (declares : Declares false (word ++ text) declaration)
    (oneLine : '\n' ∉ word) : Declares false text declaration := by
  induction word with
  | nil => exact declares
  | cons c word ih =>
    rw [List.mem_cons, not_or] at oneLine
    rcases declares_cons.mp declares with ⟨starts, -⟩ | behind
    · cases starts
    · rw [decide_eq_false (Ne.symm oneLine.1)] at behind
      exact ih behind oneLine.2

theorem Declares.behind_mark {c : Char} (declares : Declares false (c :: text) declaration)
    (sameLine : '\n' ≠ c) : Declares false text declaration :=
  Declares.behind_word (List.append_cons [] c text ▸ declares) (List.mem_singleton.not.mpr sameLine)

theorem opens_append (blanks : IsGap gap) :
    Opens declaration (gap ++ text) ↔ Opens declaration text := by
  simp only [opens_iff, declaration?, skipBlanks_append blanks]

theorem Declares.behind_gap {opensLine : Bool} (blanks : IsGap gap)
    (declares : Declares opensLine (gap ++ text) declaration) :
    Opens declaration text ∨ Declares false text declaration := by
  induction gap generalizing opensLine with
  | nil =>
    cases text with
    | nil => exact absurd declares declares_nil
    | cons c text =>
      rcases declares_cons.mp declares with ⟨-, opens⟩ | behind
      · exact .inl opens
      · exact .inr (declares_cons.mpr (.inr behind))
  | cons c gap ih =>
    rcases declares_cons.mp declares with ⟨-, opens⟩ | behind
    · exact .inl ((opens_append blanks).mp opens)
    · exact ih (List.forall_mem_cons.mp blanks).2 behind

/-! ## No declaration begins within another -/

theorem not_opens_of_head {c : Char} (visible : Text.isBlank c = false) (other : c ≠ 'i') :
    ¬ Opens declaration (c :: text) := by
  rintro ⟨spelled, rest, spells, split⟩
  obtain ⟨indent, gap, next, more, indented, -, -, -, rfl⟩ := spells.exists_import
  cases indent with
  | nil => exact other (List.cons.inj split).1
  | cons d indent =>
    obtain rfl : c = d := (List.cons.inj split).1
    exact absurd (indented c List.mem_cons_self) (visible ▸ Bool.false_ne_true)

theorem not_opens_name (named : identifier? text = some (name, rest)) (marked : Marked rest) :
    ¬ Opens declaration text := by
  rintro ⟨spelled, after, spells, rfl⟩
  obtain ⟨indent, gap, next, more, indented, blanks, wide, isNext, rfl⟩ := spells.exists_import
  cases indent with
  | nil =>
    rw [List.nil_append, List.append_assoc, List.append_assoc, List.append_assoc,
      identifier?_append isIdentifier_import blanks wide] at named
    cases named
    exact not_marked blanks isNext marked
  | cons c indent =>
    obtain ⟨isName, split, -⟩ := identifier?_eq_some.mp named
    have bare := split ▸ isName.bare
    exact absurd (indented c List.mem_cons_self) (bare c rfl ▸ Bool.false_ne_true)

theorem newline_not_mem_identifier (isName : IsIdentifier name) : '\n' ∉ name := by
  cases name with
  | nil => exact isName.elim
  | cons c name =>
    rintro (_ | ⟨_, member⟩)
    · exact absurd isName.1 (by decide)
    · exact absurd (isName.2 _ member) (by decide)

theorem Declares.behind_path {path : List Char} {opensLine : Bool} (isPath : IsPath path names)
    (ends : moreSegments text = ([], text)) (marked : Marked text) (blanks : IsGap gap)
    (declared : Declares opensLine (gap ++ (path ++ text)) declaration) :
    Declares false text declaration := by
  have unopened {path : List Char} {names : List (List Char)} (isPath : IsPath path names) :
      ¬ Opens declaration (path ++ text) := by
    obtain ⟨first, others, after, -, named, -, marked⟩ := isPath.read ends marked
    exact not_opens_name named marked
  have declares := (declared.behind_gap blanks).resolve_left (unopened isPath)
  clear declared blanks
  induction isPath with
  | last isName => exact declares.behind_word (newline_not_mem_identifier isName)
  | @more name before behind path names isName blanks blanks' isPath ih =>
    simp only [List.append_assoc, List.cons_append] at declares
    have dotted := declares.behind_word (newline_not_mem_identifier isName)
    have dotted := (dotted.behind_gap blanks).resolve_left (not_opens_of_head rfl (by decide))
    have next := dotted.behind_mark (by decide)
    exact ih ((next.behind_gap blanks').resolve_left (unopened isPath))

theorem Declares.behind_ending (isEnding : IsEnding ending isWildcard)
    (declares : Declares false (ending ++ text) declaration) : Declares false text declaration := by
  cases isEnding with
  | plain blanks =>
    rw [List.append_assoc] at declares
    have closed := (declares.behind_gap blanks).resolve_left (not_opens_of_head rfl (by decide))
    exact closed.behind_mark (by decide)
  | wildcard blanks blanks' blanks'' =>
    simp only [List.append_assoc, List.cons_append] at declares
    have dotted := (declares.behind_gap blanks).resolve_left (not_opens_of_head rfl (by decide))
    have star := dotted.behind_mark (by decide)
    have star := (star.behind_gap blanks').resolve_left (not_opens_of_head rfl (by decide))
    have closed := star.behind_mark (by decide)
    have closed := (closed.behind_gap blanks'').resolve_left (not_opens_of_head rfl (by decide))
    exact closed.behind_mark (by decide)

theorem declares_spelled (spells : Spells declaration spelled) {other : ImportDeclaration} :
    Declares true (spelled ++ rest) other ↔ other = declaration ∨ Declares false rest other := by
  have opens : Opens declaration (spelled ++ rest) := ⟨spelled, rest, spells, rfl⟩
  constructor
  · intro declares
    cases spells with
    | @plain indent gap path ending names isWildcard indented blanks wide isPath isEnding =>
      simp only [List.append_assoc] at opens declares
      rcases declares.behind_gap indented with opens' | declares
      · exact .inl (opens'.unique ((opens_append indented).mp opens))
      · have declares := declares.behind_word (by decide)
        obtain ⟨marked, ends⟩ := isEnding.ends rest
        exact .inr ((declares.behind_path isPath ends marked blanks).behind_ending isEnding)
    | @static indent gap gap' path ending names isWildcard indented blanks wide blanks' wide' isPath
        isEnding =>
      simp only [List.append_assoc] at opens declares
      rcases declares.behind_gap indented with opens' | declares
      · exact .inl (opens'.unique ((opens_append indented).mp opens))
      · have declares := declares.behind_word (by decide)
        have declares := (declares.behind_gap blanks).resolve_left
          (not_opens_of_head rfl (by decide))
        have declares := declares.behind_word (by decide)
        obtain ⟨marked, ends⟩ := isEnding.ends rest
        exact .inr ((declares.behind_path isPath ends marked blanks').behind_ending isEnding)
  · rintro (rfl | behind)
    · exact ⟨[], _, rfl, rfl, opens⟩
    · exact behind.prepend spelled

/-! ## What a scan finds -/

theorem mem_declarationsFrom {opensLine : Bool} {before : List ImportDeclaration} :
    declaration ∈ declarationsFrom opensLine before text ↔
      declaration ∈ before ∨ Declares opensLine text declaration := by
  fun_induction declarationsFrom opensLine before text with
  | case1 => simp [declares_nil]
  | case2 opensLine before c text after declaration' read shorter ih =>
    split at read
    case isTrue opensLine =>
      obtain ⟨spelled, spells, split⟩ := declaration?_eq_some.mp read
      rw [ih, opensLine, split, declares_spelled spells, List.mem_cons]
      tauto
    case isFalse => cases read
  | case3 opensLine before c text none ih =>
    have unopened : ¬ (opensLine ∧ Opens declaration (c :: text)) := by
      rintro ⟨opensLine, opens⟩
      obtain ⟨rest, found⟩ := opens_iff.mp opens
      rw [dif_pos opensLine, found] at none
      cases none
    rw [ih, declares_cons, or_iff_right unopened]

theorem mem_importedNames {text : String} {symbol : Symbol} : symbol ∈ importedNames text ↔
    ∃ declaration, Declares true text.toList declaration ∧ declaration.symbol? = some symbol := by
  simp [importedNames, mem_declarationsFrom]

/-! ## What a declaration contributes -/

theorem IsPath.isIdentifier (isPath : IsPath path names) : ∀ name ∈ names, IsIdentifier name := by
  induction isPath with
  | last isName => exact List.forall_mem_singleton.mpr isName
  | more isName _ _ _ ih => exact List.forall_mem_cons.mpr ⟨isName, ih⟩

theorem Declares.isIdentifier {opensLine : Bool} (declares : Declares opensLine text declaration) :
    ∀ name ∈ declaration.path, IsIdentifier name := by
  obtain ⟨before, _, -, -, spelled, rest, spells, -⟩ := declares
  cases spells with
  | plain _ _ _ isPath | static _ _ _ _ _ isPath => exact isPath.isIdentifier

theorem dot_not_mem_identifier (isName : IsIdentifier name) : '.' ∉ name := by
  cases name with
  | nil => exact isName.elim
  | cons c name =>
    rintro (_ | ⟨_, member⟩)
    · exact absurd isName.1 (by decide)
    · exact absurd (isName.2 _ member) (by decide)

theorem dot_mem_intercalate (isNames : ∀ name ∈ names, IsIdentifier name) :
    '.' ∈ List.intercalate ['.'] names ↔ 2 ≤ names.length := by
  match names with
  | [] => simp
  | [name] => simpa using dot_not_mem_identifier (List.forall_mem_singleton.mp isNames)
  | name :: next :: names => simp [List.intercalate_cons_cons]

theorem ImportDeclaration.Contributes.subset (contributes : declaration.Contributes names) :
    names ⊆ declaration.path := by
  cases contributes with
  | type | members => exact List.Subset.refl _
  | owner => exact List.subset_append_left _ _

theorem symbol?_eq_some {symbol : Symbol} : declaration.symbol? = some symbol ↔
    ∃ names, declaration.Contributes names ∧ 2 ≤ names.length ∧
      ⟨String.ofList (List.intercalate ['.'] names)⟩ = symbol := by
  have named (names : List (List Char)) :
      (if names.length < 2 then none
        else some (⟨String.ofList (List.intercalate ['.'] names)⟩ : Symbol)) = some symbol ↔
      2 ≤ names.length ∧ ⟨String.ofList (List.intercalate ['.'] names)⟩ = symbol := by
    rw [Option.ite_none_left_eq_some, not_lt, Option.some.injEq]
  obtain ⟨isStatic, path, isWildcard⟩ := declaration
  match isStatic, isWildcard with
  | false, false | true, true =>
    refine (named path).trans ⟨fun found => ⟨path, by constructor, found⟩, ?_⟩
    rintro ⟨names, ⟨⟩, found⟩
    exact found
  | true, false =>
    refine (named path.dropLast).trans ⟨fun found => ⟨path.dropLast, ?_, found⟩, ?_⟩
    · have some : path ≠ [] := by
        rintro rfl
        exact absurd found.1 (by decide)
      rw [← List.dropLast_append_getLast some, List.dropLast_concat]
      exact .owner
    · rintro ⟨names, ⟨⟩, found⟩
      rwa [List.dropLast_concat]
  | false, true =>
    refine (named []).trans ⟨fun found => absurd found.1 (by decide), ?_⟩
    rintro ⟨names, ⟨⟩, -⟩

/-- A stub contributes the names in its text, and those of the import declarations that stand at the
starts of its lines, whatever stands around them. The word `static` may be part of a path, too. -/
theorem mem_stub_symbols {text : String} {symbol : Symbol} :
    symbol ∈ Scanner.stub.symbols text ↔ symbol ∈ Scanner.pattern.symbols text ∨
      ∃ declaration names, Declares true text.toList declaration ∧ declaration.Contributes names ∧
        symbol.name.toList = List.intercalate ['.'] names ∧ '.' ∈ symbol.name.toList := by
  have imported : symbol ∈ importedNames text ↔ ∃ declaration names,
      Declares true text.toList declaration ∧ declaration.Contributes names ∧
        symbol.name.toList = List.intercalate ['.'] names ∧ '.' ∈ symbol.name.toList := by
    simp only [mem_importedNames, symbol?_eq_some]
    constructor
    · rintro ⟨declaration, declares, names, contributes, long, rfl⟩
      have isNames name (member : name ∈ names) : IsIdentifier name :=
        declares.isIdentifier name (contributes.subset member)
      refine ⟨declaration, names, declares, contributes, String.toList_ofList, ?_⟩
      rw [String.toList_ofList]
      exact (dot_mem_intercalate isNames).mpr long
    · rintro ⟨declaration, names, declares, contributes, named, dotted⟩
      have isNames name (member : name ∈ names) : IsIdentifier name :=
        declares.isIdentifier name (contributes.subset member)
      rw [named, dot_mem_intercalate isNames] at dotted
      refine ⟨declaration, declares, names, contributes, dotted, ?_⟩
      rw [← named, String.ofList_toList]
  rw [← imported, or_comm]
  exact List.mem_append

end Linkage.Scan
