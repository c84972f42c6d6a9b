import Linkage.Scan.QualifiedName

/-!
Import declarations in source stubs: `import com.example.Foo;`.

A declaration starts at the start of a line, blanks aside. White space, line breaks included, may
stand around the dots of its path and before the semicolon. What a declaration contributes is in
`ImportDeclaration.symbol?`; other text of the stub is scanned for qualified names as well.
-/

namespace Linkage.Scan

/-- An import declaration: whether it is static, the segments of its path, and whether it ends in
`.*`. -/
structure ImportDeclaration where
  isStatic : Bool
  path : List (List Char)
  isWildcard : Bool
  deriving DecidableEq, Repr

def skipBlanks (text : List Char) : List Char := text.dropWhile Text.isBlank

theorem skipBlanks_length_le (text : List Char) : (skipBlanks text).length ≤ text.length :=
  (List.dropWhile_sublist _).length_le

def skipBlank? : List Char → Option (List Char)
  | c :: rest => if Text.isBlank c then some (skipBlanks rest) else none
  | [] => none

def skipWord? : (word text : List Char) → Option (List Char)
  | [], text => some text
  | w :: word, c :: text => if w = c then skipWord? word text else none
  | _ :: _, [] => none

/-- The longest identifier that opens a text, dollar signs included, and what follows it. -/
def identifier? : List Char → Option (List Char × List Char)
  | c :: rest =>
    if opensSegment c then
      let goesOn := fun c => isSegmentChar c || c = '$'
      some (c :: rest.takeWhile goesOn, rest.dropWhile goesOn)
    else none
  | [] => none

theorem identifier?_length {text name rest : List Char}
    (found : identifier? text = some (name, rest)) : rest.length < text.length := by
  unfold identifier? at found
  split at found
  · split at found <;> cases found
    have := (List.dropWhile_sublist (l := ‹List Char›)
      fun c => isSegmentChar c || decide (c = '$')).length_le
    simpa [Nat.lt_succ_iff] using this
  · cases found

theorem segmentBehind_length {text after name rest : List Char}
    (dotted : skipBlanks text = '.' :: after)
    (named : identifier? (skipBlanks after) = some (name, rest)) : rest.length < text.length := by
  have outside := skipBlanks_length_le text
  have inside := skipBlanks_length_le after
  have := identifier?_length named
  rw [dotted, List.length_cons] at outside
  omega

def moreSegments (text : List Char) : List (List Char) × List Char :=
  match dotted : skipBlanks text with
  | '.' :: after =>
    match named : identifier? (skipBlanks after) with
    | some (name, rest) =>
      have := segmentBehind_length dotted named
      let (names, rest) := moreSegments rest
      (name :: names, rest)
    | none => ([], text)
  | _ => ([], text)
termination_by text.length

def skipWildcard? (text : List Char) : Option (List Char) := do
  let text ← skipWord? ['.'] (skipBlanks text)
  skipWord? ['*'] (skipBlanks text)

def wildcard (text : List Char) : Bool × List Char :=
  match skipWildcard? text with
  | some rest => (true, rest)
  | none => (false, text)

def declarationTail? (isStatic : Bool) (text : List Char) :
    Option (ImportDeclaration × List Char) := do
  let (first, text) ← identifier? text
  let (more, text) := moreSegments text
  let (isWildcard, text) := wildcard text
  let text ← skipWord? [';'] (skipBlanks text)
  return ({ isStatic, path := first :: more, isWildcard }, text)

/-- The declaration that opens a line, and what follows it. The word `static` is a part of the path
only if the text is no declaration otherwise. -/
def declaration? (text : List Char) : Option (ImportDeclaration × List Char) := do
  let text ← skipWord? "import".toList (skipBlanks text)
  let text ← skipBlank? text
  let asStatic := do
    let text ← skipWord? "static".toList text
    let text ← skipBlank? text
    declarationTail? true text
  asStatic.or (declarationTail? false text)

/-! ## A declaration takes up some text -/

theorem skipWord?_length {word text rest : List Char} (found : skipWord? word text = some rest) :
    rest.length + word.length = text.length := by
  fun_induction skipWord? word text with
  | case1 => cases found; simp
  | case2 _ _ _ ih => simp only [List.length_cons]; have := ih found; omega
  | case3 | case4 => cases found

theorem skipBlank?_length {text rest : List Char} (found : skipBlank? text = some rest) :
    rest.length ≤ text.length := by
  unfold skipBlank? at found
  split at found
  · split at found <;> cases found
    exact Nat.le_succ_of_le (skipBlanks_length_le _)
  · cases found

theorem moreSegments_length (text : List Char) : (moreSegments text).2.length ≤ text.length := by
  fun_induction moreSegments text with
  | case1 => simp_all; omega
  | case2 | case3 => exact Nat.le_refl _

theorem skipWildcard?_length {text rest : List Char} (found : skipWildcard? text = some rest) :
    rest.length ≤ text.length := by
  obtain ⟨afterDot, dotted, starred⟩ := Option.bind_eq_some_iff.mp found
  have := skipWord?_length dotted
  have := skipWord?_length starred
  have := skipBlanks_length_le text
  have := skipBlanks_length_le afterDot
  omega

theorem wildcard_length (text : List Char) : (wildcard text).2.length ≤ text.length := by
  unfold wildcard
  split
  · exact skipWildcard?_length ‹_›
  · exact Nat.le_refl _

theorem declarationTail?_length {isStatic : Bool} {text rest : List Char}
    {declaration : ImportDeclaration}
    (found : declarationTail? isStatic text = some (declaration, rest)) :
    rest.length ≤ text.length := by
  obtain ⟨⟨first, afterFirst⟩, opened, found⟩ := Option.bind_eq_some_iff.mp found
  have := identifier?_length opened
  have := moreSegments_length afterFirst
  have := wildcard_length (moreSegments afterFirst).2
  obtain ⟨afterEnd, ended, done⟩ := Option.bind_eq_some_iff.mp found
  cases done
  have ended : skipWord? [';'] (skipBlanks (wildcard (moreSegments afterFirst).2).2) = some rest :=
    ended
  have := skipWord?_length ended
  have := skipBlanks_length_le (wildcard (moreSegments afterFirst).2).2
  omega

theorem declaration?_length {text rest : List Char} {declaration : ImportDeclaration}
    (found : declaration? text = some (declaration, rest)) : rest.length < text.length := by
  obtain ⟨afterWord, word, found⟩ := Option.bind_eq_some_iff.mp found
  obtain ⟨afterBlank, blank, found⟩ := Option.bind_eq_some_iff.mp found
  have := skipWord?_length word
  have := skipBlanks_length_le text
  have := skipBlank?_length blank
  have : "import".toList.length = 6 := rfl
  rcases Option.or_eq_some_iff.mp found with isStatic | ⟨_, plain⟩
  · obtain ⟨afterStatic, word, isStatic⟩ := Option.bind_eq_some_iff.mp isStatic
    obtain ⟨afterGap, gap, isStatic⟩ := Option.bind_eq_some_iff.mp isStatic
    have := skipWord?_length word
    have := skipBlank?_length gap
    have := declarationTail?_length isStatic
    omega
  · have := declarationTail?_length plain
    omega

/-! ## All declarations of a text -/

/-- The declarations in a text behind those found before it, the last one first; `opensLine` says
whether the text begins at the start of a line. -/
def declarationsFrom (opensLine : Bool) (before : List ImportDeclaration) (text : List Char) :
    List ImportDeclaration :=
  match text with
  | [] => before
  | c :: rest =>
    match found : if opensLine then declaration? (c :: rest) else none with
    | some (declaration, after) =>
      have : after.length < (c :: rest).length := by
        split at found
        · exact declaration?_length found
        · cases found
      declarationsFrom false (declaration :: before) after
    | none => declarationsFrom (c = '\n') before rest
termination_by text.length
decreasing_by all_goals simp only [List.length_cons] at *; omega

namespace ImportDeclaration

/-- The type that a declaration names, if its name has a package. A static declaration names the
type that owns the member, a wildcard one that is not static names a package only. -/
def symbol? (declaration : ImportDeclaration) : Option Symbol :=
  let path := match declaration.isStatic, declaration.isWildcard with
    | false, false | true, true => declaration.path
    | true, false => declaration.path.dropLast
    | false, true => []
  if path.length < 2 then none
  else some ⟨String.ofList (List.intercalate ['.'] path)⟩

end ImportDeclaration

def importedNames (text : String) : List Symbol :=
  (declarationsFrom true [] text.toList).reverse.filterMap ImportDeclaration.symbol?

end Linkage.Scan
