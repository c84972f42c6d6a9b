import Linkage.Proofs.QualifiedNames

/-!
# How import declarations are written

What the text of an import declaration is, white space included, and that a declaration is read from
a text exactly if the text opens with one: `declaration?_eq_some`.
-/

namespace Linkage.Scan

variable {text rest name path ending gap word spelled : List Char} {names : List (List Char)}
  {declaration : ImportDeclaration} {isStatic isWildcard : Bool}

/-- A letter or an underscore, and letters, digits, underscores and dollar signs behind it. -/
def IsIdentifier : List Char → Prop
  | [] => False
  | c :: more => opensSegment c ∧ ∀ d ∈ more, isSegmentChar d || d = '$'

def IsGap (gap : List Char) : Prop := ∀ c ∈ gap, Text.isBlank c

/-- Identifiers with dots between them, and white space on both sides of the dots. -/
inductive IsPath : List Char → List (List Char) → Prop
  | last {name : List Char} : IsIdentifier name → IsPath name [name]
  | more {name before after path : List Char} {names : List (List Char)} :
      IsIdentifier name → IsGap before → IsGap after → IsPath path names →
      IsPath (name ++ (before ++ '.' :: (after ++ path))) (name :: names)

inductive IsEnding : List Char → Bool → Prop
  | plain {gap : List Char} : IsGap gap → IsEnding (gap ++ [';']) false
  | wildcard {before after gap : List Char} : IsGap before → IsGap after → IsGap gap →
      IsEnding (before ++ '.' :: (after ++ '*' :: (gap ++ [';']))) true

/-- The texts of a declaration, with the white space before it. -/
inductive Spells : ImportDeclaration → List Char → Prop
  | plain {indent gap path ending : List Char} {names : List (List Char)} {isWildcard : Bool} :
      IsGap indent → IsGap gap → gap ≠ [] → IsPath path names → IsEnding ending isWildcard →
      Spells ⟨false, names, isWildcard⟩
        (indent ++ ("import".toList ++ (gap ++ (path ++ ending))))
  | static {indent gap gap' path ending : List Char} {names : List (List Char)}
      {isWildcard : Bool} :
      IsGap indent → IsGap gap → gap ≠ [] → IsGap gap' → gap' ≠ [] → IsPath path names →
      IsEnding ending isWildcard →
      Spells ⟨true, names, isWildcard⟩
        (indent ++ ("import".toList ++ (gap ++ ("static".toList ++ (gap' ++ (path ++ ending))))))

/-! ## White space and words -/

def Bare (text : List Char) : Prop := ∀ c ∈ text.head?, Text.isBlank c = false

def EndsIdentifier (text : List Char) : Prop :=
  ∀ c ∈ text.head?, (isSegmentChar c || decide (c = '$')) = false

theorem bare_cons {c : Char} (visible : Text.isBlank c = false) : Bare (c :: rest) := by
  simpa [Bare] using visible

theorem skipBlanks_append (blank : IsGap gap) : skipBlanks (gap ++ text) = skipBlanks text :=
  List.dropWhile_append_of_pos blank

theorem skipBlanks_of_bare (bare : Bare text) : skipBlanks text = text := by
  cases text with
  | nil => rfl
  | cons c text => exact List.dropWhile_cons_of_neg (by simp [bare c rfl])

theorem not_of_head?_dropWhile {accepts : Char → Bool} :
    ∀ c ∈ (text.dropWhile accepts).head?, accepts c = false := by
  intro c first
  have := List.head?_dropWhile_not accepts text
  rwa [Option.mem_def.mp first] at this

theorem bare_skipBlanks : Bare (skipBlanks text) := not_of_head?_dropWhile

theorem skipBlanks_eq : skipBlanks text = rest ↔
    ∃ gap, IsGap gap ∧ text = gap ++ rest ∧ Bare rest := by
  constructor
  · rintro rfl
    exact ⟨text.takeWhile Text.isBlank, fun c => List.mem_takeWhile_imp,
      List.takeWhile_append_dropWhile.symm, bare_skipBlanks⟩
  · rintro ⟨gap, blank, rfl, bare⟩
    rw [skipBlanks_append blank, skipBlanks_of_bare bare]

theorem skipWord?_eq_some : skipWord? word text = some rest ↔ text = word ++ rest := by
  fun_induction skipWord? word text with
  | case1 text => simp
  | case2 w word text ih => simp [ih]
  | case3 w word c text other =>
    simp only [reduceCtorEq, List.cons_append, List.cons.injEq, false_iff, not_and]
    exact fun same => absurd same.symm other
  | case4 => simp

theorem skipBlank?_eq_some : skipBlank? text = some rest ↔
    ∃ gap, IsGap gap ∧ gap ≠ [] ∧ text = gap ++ rest ∧ Bare rest := by
  constructor
  · intro skipped
    unfold skipBlank? at skipped
    split at skipped
    case h_1 c text =>
      split at skipped
      case isTrue blank =>
        obtain ⟨gap, blanks, rfl, bare⟩ := skipBlanks_eq.mp (Option.some.inj skipped)
        exact ⟨c :: gap, List.forall_mem_cons.mpr ⟨blank, blanks⟩, List.cons_ne_nil _ _, rfl, bare⟩
      case isFalse => cases skipped
    case h_2 => cases skipped
  · rintro ⟨gap, blanks, some, rfl, bare⟩
    obtain ⟨c, gap, rfl⟩ := List.exists_cons_of_ne_nil some
    obtain ⟨blank, blanks⟩ := List.forall_mem_cons.mp blanks
    rw [List.cons_append, skipBlank?, if_pos blank, skipBlanks_append blanks,
      skipBlanks_of_bare bare]

theorem identifier?_eq_some : identifier? text = some (name, rest) ↔
    IsIdentifier name ∧ text = name ++ rest ∧ EndsIdentifier rest := by
  constructor
  · intro found
    unfold identifier? at found
    split at found
    case h_1 c text =>
      split at found
      case isTrue opens =>
        cases found
        refine ⟨⟨opens, fun d => List.mem_takeWhile_imp⟩, ?_, not_of_head?_dropWhile⟩
        rw [List.cons_append, List.takeWhile_append_dropWhile]
      case isFalse => cases found
    case h_2 => cases found
  · rintro ⟨isName, rfl, ends⟩
    cases name with
    | nil => exact isName.elim
    | cons c name =>
      obtain ⟨opens, more⟩ := isName
      have stop : rest.takeWhile (fun d => isSegmentChar d || d = '$') = [] ∧
          rest.dropWhile (fun d => isSegmentChar d || d = '$') = rest := by
        cases rest with
        | nil => exact ⟨rfl, rfl⟩
        | cons d rest =>
          have neg : ¬ (isSegmentChar d || decide (d = '$')) = true := by simp [ends d rfl]
          exact ⟨List.takeWhile_cons_of_neg neg, List.dropWhile_cons_of_neg neg⟩
      rw [List.cons_append, identifier?, if_pos opens]
      dsimp only
      rw [List.takeWhile_append_of_pos more, List.dropWhile_append_of_pos more, stop.1, stop.2,
        List.append_nil]

theorem goesOn_of_isBlank {c : Char} (blank : Text.isBlank c) :
    (isSegmentChar c || decide (c = '$')) = false := by
  by_contra goesOn
  rw [Bool.not_eq_false, Bool.or_eq_true, decide_eq_true_eq] at goesOn
  rcases goesOn with segment | rfl
  · have code := toNat_of_isSegmentChar segment
    simp only [Text.isBlank, Bool.or_eq_true, Bool.and_eq_true, decide_eq_true_eq] at blank
    omega
  · exact absurd blank (by decide)

theorem isBlank_of_opensSegment {c : Char} (opens : opensSegment c) : Text.isBlank c = false := by
  by_contra blank
  have goesOn := goesOn_of_isBlank (Bool.not_eq_false _ ▸ blank)
  simp [opensSegment_isSegmentChar opens] at goesOn

theorem IsIdentifier.bare (isName : IsIdentifier name) : Bare (name ++ rest) := by
  cases name with
  | nil => exact isName.elim
  | cons c name => exact bare_cons (isBlank_of_opensSegment isName.1)

theorem identifier?_append (isName : IsIdentifier name) (blanks : IsGap gap) (wide : gap ≠ []) :
    identifier? (name ++ (gap ++ rest)) = some (name, gap ++ rest) := by
  refine identifier?_eq_some.mpr ⟨isName, rfl, ?_⟩
  obtain ⟨c, gap, rfl⟩ := List.exists_cons_of_ne_nil wide
  intro d first
  obtain rfl : c = d := by simpa using first
  exact goesOn_of_isBlank (blanks c List.mem_cons_self)

def Marked (text : List Char) : Prop :=
  ∃ mark rest, skipBlanks text = mark :: rest ∧ (mark = '.' ∨ mark = ';')

theorem Marked.endsIdentifier (marked : Marked text) : EndsIdentifier text := by
  obtain ⟨mark, rest, skipped, isMark⟩ := marked
  obtain ⟨gap, blank, rfl, -⟩ := skipBlanks_eq.mp skipped
  intro c first
  cases gap with
  | nil =>
    obtain rfl : mark = c := by simpa using first
    rcases isMark with rfl | rfl <;> decide
  | cons d gap =>
    obtain rfl : d = c := by simpa using first
    exact goesOn_of_isBlank (blank d List.mem_cons_self)

theorem marked_of_gap {mark : Char} (blank : IsGap gap) (isMark : mark = '.' ∨ mark = ';') :
    Marked (gap ++ mark :: rest) := by
  refine ⟨mark, rest, ?_, isMark⟩
  rw [skipBlanks_append blank, skipBlanks_of_bare]
  rcases isMark with rfl | rfl <;> exact bare_cons rfl

theorem moreSegments_dot {after : List Char} (dotted : skipBlanks text = '.' :: after)
    (named : identifier? (skipBlanks after) = some (name, rest)) :
    moreSegments text = (name :: (moreSegments rest).1, (moreSegments rest).2) := by
  rw [moreSegments]
  split
  case h_1 after' dotted' =>
    cases dotted.symm.trans dotted'
    split
    case h_1 found =>
      cases named.symm.trans found
      rfl
    case h_2 missing => cases named.symm.trans missing
  case h_2 undotted => exact absurd dotted (undotted after)

theorem moreSegments_path (isName : IsIdentifier name) (text : List Char) :
    ∃ more, text = more ++ (moreSegments text).2 ∧
      IsPath (name ++ more) (name :: (moreSegments text).1) := by
  have alone : IsPath (name ++ []) [name] := (List.append_nil name).symm ▸ .last isName
  fun_induction moreSegments text generalizing name with
  | case1 text after dotted next rest named shorter names rest' split ih =>
    obtain ⟨before, blank, rfl, -⟩ := skipBlanks_eq.mp dotted
    obtain ⟨isNext, continues, -⟩ := identifier?_eq_some.mp named
    obtain ⟨behind, blank', rfl, -⟩ := skipBlanks_eq.mp continues
    obtain ⟨more, others, isPath⟩ := ih isNext ((List.append_nil next).symm ▸ .last isNext)
    rw [split] at others isPath
    refine ⟨before ++ '.' :: (behind ++ (next ++ more)), ?_, .more isName blank blank' isPath⟩
    simp [← others]
  | case2 => exact ⟨[], rfl, alone⟩
  | case3 => exact ⟨[], rfl, alone⟩

theorem IsPath.read {tail : List Char} (isPath : IsPath path names)
    (ends : moreSegments tail = ([], tail)) (marked : Marked tail) :
    ∃ first others after, names = first :: others ∧
      identifier? (path ++ tail) = some (first, after) ∧ moreSegments after = (others, tail) ∧
      Marked after := by
  induction isPath with
  | @last name isName =>
    exact ⟨name, [], tail, rfl,
      identifier?_eq_some.mpr ⟨isName, rfl, marked.endsIdentifier⟩, ends, marked⟩
  | @more name before behind path names isName blank blank' isPath ih =>
    obtain ⟨first, others, after, rfl, named, onwards, -⟩ := ih
    have dot : Marked (before ++ '.' :: (behind ++ (path ++ tail))) :=
      marked_of_gap blank (.inl rfl)
    refine ⟨name, first :: others, before ++ '.' :: (behind ++ (path ++ tail)), rfl, ?_, ?_, dot⟩
    · exact identifier?_eq_some.mpr ⟨isName, by simp, dot.endsIdentifier⟩
    · have dotted : skipBlanks (before ++ '.' :: (behind ++ (path ++ tail))) =
          '.' :: (behind ++ (path ++ tail)) := by
        rw [skipBlanks_append blank, skipBlanks_of_bare (bare_cons rfl)]
      obtain ⟨isName', split, -⟩ := identifier?_eq_some.mp named
      have named' : identifier? (skipBlanks (behind ++ (path ++ tail))) = some (first, after) := by
        rw [skipBlanks_append blank', skipBlanks_of_bare, named]
        rw [split]
        exact isName'.bare
      rw [moreSegments_dot dotted named', onwards]

theorem skipWildcard?_eq_some : skipWildcard? text = some rest ↔
    ∃ before after, IsGap before ∧ IsGap after ∧
      text = before ++ '.' :: (after ++ '*' :: rest) := by
  constructor
  · intro skipped
    obtain ⟨afterDot, dotted, starred⟩ := Option.bind_eq_some_iff.mp skipped
    obtain ⟨before, blank, rfl, -⟩ := skipBlanks_eq.mp (skipWord?_eq_some.mp dotted)
    obtain ⟨after, blank', rfl, -⟩ := skipBlanks_eq.mp (skipWord?_eq_some.mp starred)
    exact ⟨before, after, blank, blank', rfl⟩
  · rintro ⟨before, after, blank, blank', rfl⟩
    refine Option.bind_eq_some_iff.mpr ⟨after ++ '*' :: rest, ?_, ?_⟩
    · rw [skipBlanks_append blank, skipBlanks_of_bare (bare_cons rfl)]
      rfl
    · rw [skipBlanks_append blank', skipBlanks_of_bare (bare_cons rfl)]
      rfl

theorem IsEnding.ends (ends : IsEnding ending isWildcard) (rest : List Char) :
    Marked (ending ++ rest) ∧ moreSegments (ending ++ rest) = ([], ending ++ rest) := by
  cases ends with
  | @plain gap blank =>
    have split : gap ++ [';'] ++ rest = gap ++ ';' :: rest := by simp
    have skipped : skipBlanks (gap ++ ';' :: rest) = ';' :: rest := by
      rw [skipBlanks_append blank, skipBlanks_of_bare (bare_cons rfl)]
    rw [split]
    refine ⟨marked_of_gap blank (.inr rfl), ?_⟩
    rw [moreSegments]
    split
    case h_1 after dotted => cases dotted.symm.trans skipped
    case h_2 => rfl
  | @wildcard before after gap blank blank' blank'' =>
    have split : before ++ '.' :: (after ++ '*' :: (gap ++ [';'])) ++ rest =
        before ++ '.' :: (after ++ '*' :: (gap ++ ';' :: rest)) := by
      simp
    have skipped : skipBlanks (before ++ '.' :: (after ++ '*' :: (gap ++ ';' :: rest))) =
        '.' :: (after ++ '*' :: (gap ++ ';' :: rest)) := by
      rw [skipBlanks_append blank, skipBlanks_of_bare (bare_cons rfl)]
    have star : identifier? (skipBlanks (after ++ '*' :: (gap ++ ';' :: rest))) = none := by
      rw [skipBlanks_append blank', skipBlanks_of_bare (bare_cons rfl)]
      rfl
    rw [split]
    refine ⟨marked_of_gap blank (.inl rfl), ?_⟩
    rw [moreSegments]
    split
    case h_1 behind dotted =>
      cases dotted.symm.trans skipped
      split
      case h_1 found => cases star.symm.trans found
      case h_2 => rfl
    case h_2 => rfl

theorem closes_of_isEnding (ends : IsEnding ending isWildcard) (rest : List Char) :
    ∃ after, wildcard (ending ++ rest) = (isWildcard, after) ∧
      skipWord? [';'] (skipBlanks after) = some rest := by
  have closed {gap : List Char} (blank : IsGap gap) :
      skipWord? [';'] (skipBlanks (gap ++ ';' :: rest)) = some rest := by
    rw [skipBlanks_append blank, skipBlanks_of_bare (bare_cons rfl)]
    rfl
  cases ends with
  | @plain gap blank =>
    refine ⟨gap ++ ';' :: rest, ?_, closed blank⟩
    have none : skipWildcard? (gap ++ ';' :: rest) = none := by
      rw [skipWildcard?, skipBlanks_append blank, skipBlanks_of_bare (bare_cons rfl)]
      rfl
    rw [List.append_assoc, List.singleton_append, wildcard, none]
  | @wildcard before after gap blank blank' blank'' =>
    refine ⟨gap ++ ';' :: rest, ?_, closed blank''⟩
    have some : skipWildcard? (before ++ '.' :: (after ++ '*' :: (gap ++ [';'])) ++ rest) =
        some (gap ++ ';' :: rest) :=
      skipWildcard?_eq_some.mpr ⟨before, after, blank, blank', by simp⟩
    rw [wildcard, some]

theorem isEnding_of_closes {after : List Char} (marked : wildcard text = (isWildcard, after))
    (closed : skipWord? [';'] (skipBlanks after) = some rest) :
    ∃ ending, text = ending ++ rest ∧ IsEnding ending isWildcard := by
  obtain ⟨gap, blank, rfl, -⟩ := skipBlanks_eq.mp (skipWord?_eq_some.mp closed)
  unfold wildcard at marked
  split at marked
  case h_1 behind skipped =>
    cases marked
    obtain ⟨before, between, blank', blank'', rfl⟩ := skipWildcard?_eq_some.mp skipped
    exact ⟨_, by simp, .wildcard blank' blank'' blank⟩
  case h_2 =>
    cases marked
    exact ⟨gap ++ [';'], by simp, .plain blank⟩

theorem declarationTail?_eq_some : declarationTail? isStatic text = some (declaration, rest) ↔
    declaration.isStatic = isStatic ∧ ∃ path ending, text = path ++ (ending ++ rest) ∧
      IsPath path declaration.path ∧ IsEnding ending declaration.isWildcard := by
  constructor
  · intro found
    obtain ⟨⟨first, afterFirst⟩, named, found⟩ := Option.bind_eq_some_iff.mp found
    obtain ⟨afterEnd, closed, done⟩ := Option.bind_eq_some_iff.mp found
    cases done
    obtain ⟨isName, rfl, -⟩ := identifier?_eq_some.mp named
    obtain ⟨more, others, isPath⟩ := moreSegments_path isName afterFirst
    obtain ⟨ending, ends, isEnding⟩ := isEnding_of_closes rfl closed
    refine ⟨rfl, first ++ more, ending, ?_, isPath, isEnding⟩
    rw [List.append_assoc, ← ends, ← others]
  · rintro ⟨rfl, path, ending, rfl, isPath, isEnding⟩
    obtain ⟨marked, ends⟩ := isEnding.ends rest
    obtain ⟨first, others, after, names, named, segments, -⟩ := isPath.read ends marked
    obtain ⟨behind, isWildcard, closed⟩ := closes_of_isEnding isEnding rest
    refine Option.bind_eq_some_iff.mpr ⟨(first, after), named, ?_⟩
    dsimp only
    rw [segments, isWildcard]
    refine Option.bind_eq_some_iff.mpr ⟨rest, closed, ?_⟩
    rw [← names]
    rfl

theorem IsPath.bare (isPath : IsPath path names) (rest : List Char) : Bare (path ++ rest) := by
  cases isPath with
  | last isName => exact isName.bare
  | more isName => rw [List.append_assoc]; exact isName.bare

theorem isIdentifier_import : IsIdentifier "import".toList := ⟨rfl, List.all_eq_true.mp rfl⟩

theorem isIdentifier_static : IsIdentifier "static".toList :=
  ⟨rfl, List.all_eq_true.mp rfl⟩

theorem not_marked {next : List Char} (blanks : IsGap gap) (isNext : IsIdentifier next) :
    ¬ Marked (gap ++ (next ++ rest)) := by
  rintro ⟨mark, tail, skipped, isMark⟩
  rw [skipBlanks_append blanks, skipBlanks_of_bare isNext.bare] at skipped
  cases next with
  | nil => exact isNext.elim
  | cons c next =>
    obtain rfl : c = mark := (List.cons.inj skipped).1
    rcases isMark with rfl | rfl <;> exact absurd isNext.1 (by decide)

/-- A declaration that is not static is never read as one that is, for behind an identifier that
opens a path there is a dot or the end. -/
theorem not_static_of_plain {path ending afterWord afterGap : List Char}
    (isPath : IsPath path names) (isEnding : IsEnding ending isWildcard)
    (word : skipWord? "static".toList (path ++ (ending ++ rest)) = some afterWord)
    (gap : skipBlank? afterWord = some afterGap) : declarationTail? true afterGap = none := by
  by_contra found
  obtain ⟨⟨declaration, rest'⟩, found⟩ := Option.ne_none_iff_exists'.mp found
  obtain ⟨⟨next, after⟩, named, -⟩ := Option.bind_eq_some_iff.mp found
  obtain ⟨isNext, rfl, -⟩ := identifier?_eq_some.mp named
  obtain ⟨blank, blanks, wide, rfl, -⟩ := skipBlank?_eq_some.mp gap
  obtain ⟨marked, ends⟩ := isEnding.ends rest
  obtain ⟨first, others, behind, -, named', -, marked⟩ := isPath.read ends marked
  rw [skipWord?_eq_some.mp word, identifier?_append isIdentifier_static blanks wide] at named'
  cases named'
  exact not_marked blanks isNext marked

theorem opens_declaration? {indent afterGap : List Char} {read : ImportDeclaration × List Char}
    (indented : IsGap indent) (blanks : IsGap gap) (wide : gap ≠ [])
    (split : text = indent ++ ("import".toList ++ (gap ++ afterGap))) (bare : Bare afterGap)
    (found : ((skipWord? "static".toList afterGap).bind fun afterWord =>
      (skipBlank? afterWord).bind (declarationTail? true)).or (declarationTail? false afterGap) =
        some read) :
    declaration? text = some read := by
  have word : skipWord? "import".toList (skipBlanks text) = some (gap ++ afterGap) := by
    rw [skipWord?_eq_some, split, skipBlanks_append indented]
    exact skipBlanks_of_bare (bare_cons rfl)
  have blank : skipBlank? (gap ++ afterGap) = some afterGap :=
    skipBlank?_eq_some.mpr ⟨gap, blanks, wide, rfl, bare⟩
  exact Option.bind_eq_some_iff.mpr ⟨_, word, Option.bind_eq_some_iff.mpr ⟨_, blank, found⟩⟩

/-- A declaration is read from a text exactly if the text opens with it. -/
theorem declaration?_eq_some : declaration? text = some (declaration, rest) ↔
    ∃ spelled, Spells declaration spelled ∧ text = spelled ++ rest := by
  constructor
  · intro found
    obtain ⟨afterWord, word, found⟩ := Option.bind_eq_some_iff.mp found
    obtain ⟨afterBlank, blank, found⟩ := Option.bind_eq_some_iff.mp found
    obtain ⟨indent, indented, split, -⟩ := skipBlanks_eq.mp (skipWord?_eq_some.mp word)
    obtain ⟨gap, blanks, wide, split', -⟩ := skipBlank?_eq_some.mp blank
    rcases Option.or_eq_some_iff.mp found with static | ⟨-, plain⟩
    · obtain ⟨afterStatic, word', static⟩ := Option.bind_eq_some_iff.mp static
      obtain ⟨afterGap, blank', static⟩ := Option.bind_eq_some_iff.mp static
      obtain ⟨isStatic, path, ending, rfl, isPath, isEnding⟩ := declarationTail?_eq_some.mp static
      obtain ⟨gap', blanks', wide', split'', -⟩ := skipBlank?_eq_some.mp blank'
      obtain ⟨_, names, isWildcard⟩ := declaration
      obtain rfl : _ = true := isStatic
      exact ⟨_, .static indented blanks wide blanks' wide' isPath isEnding,
        by simp [split, split', skipWord?_eq_some.mp word', split'']⟩
    · obtain ⟨isStatic, path, ending, rfl, isPath, isEnding⟩ := declarationTail?_eq_some.mp plain
      obtain ⟨_, names, isWildcard⟩ := declaration
      obtain rfl : _ = false := isStatic
      exact ⟨_, .plain indented blanks wide isPath isEnding, by simp [split, split']⟩
  · rintro ⟨spelled, spells, rfl⟩
    cases spells with
    | @plain indent gap path ending names isWildcard indented blanks wide isPath isEnding =>
      have plain : declarationTail? false (path ++ (ending ++ rest)) =
          some (⟨false, names, isWildcard⟩, rest) :=
        declarationTail?_eq_some.mpr ⟨rfl, path, ending, rfl, isPath, isEnding⟩
      have bare := isPath.bare (ending ++ rest)
      refine opens_declaration? indented blanks wide (by simp only [List.append_assoc]) bare ?_
      refine Option.or_eq_some_iff.mpr (.inr ⟨?_, plain⟩)
      refine Option.eq_none_iff_forall_ne_some.mpr fun found static => ?_
      obtain ⟨afterStatic, word, static⟩ := Option.bind_eq_some_iff.mp static
      obtain ⟨afterGap, blank, static⟩ := Option.bind_eq_some_iff.mp static
      cases static.symm.trans (not_static_of_plain isPath isEnding word blank)
    | @static indent gap gap' path ending names isWildcard indented blanks wide blanks' wide' isPath
        isEnding =>
      have static : declarationTail? true (path ++ (ending ++ rest)) =
          some (⟨true, names, isWildcard⟩, rest) :=
        declarationTail?_eq_some.mpr ⟨rfl, path, ending, rfl, isPath, isEnding⟩
      have bare : Bare ("static".toList ++ (gap' ++ (path ++ (ending ++ rest)))) := bare_cons rfl
      refine opens_declaration? indented blanks wide (by simp only [List.append_assoc]) bare ?_
      refine Option.or_eq_some_iff.mpr (.inl ?_)
      refine Option.bind_eq_some_iff.mpr ⟨_, skipWord?_eq_some.mpr rfl, ?_⟩
      exact Option.bind_eq_some_iff.mpr
        ⟨_, skipBlank?_eq_some.mpr ⟨gap', blanks', wide', rfl, isPath.bare _⟩, static⟩

end Linkage.Scan
