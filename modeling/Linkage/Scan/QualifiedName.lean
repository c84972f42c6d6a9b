import Linkage.SymbolSet
import Linkage.Text.WordChar

/-!
Qualified type names in running text: `com.example.widget.FancyView`.

A qualified name has one or more segments, each followed by a dot, and ends in a segment that begins
with a capital letter. Only ASCII letters, digits and underscores belong to a segment; the last one
may have dollar signs too. A name is found where no word character stands before it, and it is taken
as long as possible.
-/

namespace Linkage.Scan

def opensSegment (c : Char) : Bool := c.isAlpha || c = '_'

def isSegmentChar (c : Char) : Bool := c.isAlphanum || c = '_'

def lastSegment? (text : List Char) : Option (List Char × List Char) :=
  match text with
  | c :: rest =>
    if c.isUpper then
      let goesOn := fun c => isSegmentChar c || c = '$'
      some (c :: rest.takeWhile goesOn, rest.dropWhile goesOn)
    else none
  | [] => none

def qualifiedName? (text : List Char) : Option (List Char × List Char) :=
  match text with
  | c :: rest =>
    if opensSegment c then
      match dotted : rest.dropWhile isSegmentChar with
      | '.' :: after =>
        have : after.length < rest.length := by
          have := dotted ▸ (List.dropWhile_sublist isSegmentChar (l := rest)).length_le
          simpa [Nat.succ_le_iff] using this
        match (qualifiedName? after).or (lastSegment? after) with
        | some (name, rest') => some (c :: rest.takeWhile isSegmentChar ++ '.' :: name, rest')
        | none => none
      | _ => none
    else none
  | [] => none
termination_by text.length

theorem lastSegment?_split {text name rest : List Char}
    (found : lastSegment? text = some (name, rest)) : text = name ++ rest ∧ name ≠ [] := by
  unfold lastSegment? at found
  split at found
  · split at found <;> cases found
    simp [List.takeWhile_append_dropWhile]
  · cases found

theorem qualifiedName?_split {text name rest : List Char}
    (found : qualifiedName? text = some (name, rest)) : text = name ++ rest ∧ name ≠ [] := by
  fun_induction qualifiedName? text generalizing name rest with
  | case1 c more _ after dotted _ inner rest' longer ih =>
    cases found
    refine ⟨?_, by simp⟩
    have split : after = inner ++ rest' := by
      rcases Option.or_eq_some_iff.mp longer with deep | ⟨_, last⟩
      · exact (ih deep).1
      · exact (lastSegment?_split last).1
    have whole := List.takeWhile_append_dropWhile (p := isSegmentChar) (l := more)
    rw [dotted, split] at whole
    simp only [List.cons_append, List.append_assoc, whole]
  | case2 | case3 | case4 | case5 => cases found

/-- The qualified names in a text behind those found before it, the last one first; `inWord` says
whether a word character stands before the text. -/
def namesFrom (inWord : Bool) (before : List Symbol) (text : List Char) : List Symbol :=
  match text with
  | [] => before
  | c :: rest =>
    match found : if inWord then none else qualifiedName? (c :: rest) with
    | some (name, after) =>
      have : after.length < (c :: rest).length := by
        split at found
        · cases found
        · obtain ⟨split, nonempty⟩ := qualifiedName?_split found
          have := List.length_pos_iff.mpr nonempty
          rw [split, List.length_append]
          omega
      namesFrom (name.getLast?.any Text.isWordChar) (⟨String.ofList name⟩ :: before) after
    | none => namesFrom (Text.isWordChar c) before rest
termination_by text.length
decreasing_by all_goals simp only [List.length_cons] at *; omega

def qualifiedNames (text : String) : List Symbol := (namesFrom false [] text.toList).reverse

end Linkage.Scan
