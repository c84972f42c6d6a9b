import Linkage.Scan.TextFiles
import Mathlib.Data.List.TakeWhile
import Mathlib.Data.Nat.Basic
import Mathlib.Tactic.Conv
import Mathlib.Tactic.Tauto

/-!
# Qualified names in a text

What a qualified name is, which is the longest one that a text opens with, and how the names in a
text are found: from left to right, the longest one at the first place where there is one, and on
from its end. `Finds` says so, and `namesFrom_finds` that it is what a scan does.
-/

namespace Linkage.Scan

variable {text rest name other last : List Char} {position start : Nat}
  {found : List (Nat × List Char)}

/-- A letter or an underscore, and letters, digits and underscores behind it. -/
def IsSegment : List Char → Prop
  | [] => False
  | c :: more => opensSegment c ∧ ∀ d ∈ more, isSegmentChar d

/-- A capital letter, and letters, digits, underscores and dollar signs behind it. -/
def IsLastSegment : List Char → Prop
  | [] => False
  | c :: more => c.isUpper ∧ ∀ d ∈ more, isSegmentChar d || d = '$'

inductive IsQualified : List Char → Prop
  | last {segment last : List Char} :
      IsSegment segment → IsLastSegment last → IsQualified (segment ++ '.' :: last)
  | inner {segment name : List Char} :
      IsSegment segment → IsQualified name → IsQualified (segment ++ '.' :: name)

def IsTail (name : List Char) : Prop := IsQualified name ∨ IsLastSegment name

theorem IsQualified.ne_nil (qualified : IsQualified name) : name ≠ [] := by
  cases qualified <;> simp

structure Longest (isName : List Char → Prop) (text name : List Char) : Prop where
  named : isName name
  opens : name <+: text
  longest : ∀ other, isName other → other <+: text → other.length ≤ name.length

theorem Longest.unique {isName : List Char → Prop} (longest : Longest isName text name)
    (longest' : Longest isName text other) : name = other := by
  have short := longest'.longest _ longest.named longest.opens
  have long := longest.longest _ longest'.named longest'.opens
  exact (List.prefix_of_prefix_length_le longest.opens longest'.opens short).eq_of_length
    (short.antisymm long)

theorem opensSegment_isSegmentChar {c : Char} (opens : opensSegment c) : isSegmentChar c := by
  simp only [opensSegment, isSegmentChar, Char.isAlphanum, Bool.or_eq_true] at opens ⊢
  tauto

theorem toNat_of_isSegmentChar {c : Char} (segment : isSegmentChar c) :
    48 ≤ c.toNat ∧ c.toNat ≤ 122 := by
  have codes : 'A'.val.toNat = 65 ∧ 'Z'.val.toNat = 90 ∧ 'a'.val.toNat = 97 ∧
      'z'.val.toNat = 122 ∧ '0'.val.toNat = 48 ∧ '9'.val.toNat = 57 ∧ '_'.toNat = 95 := by
    decide
  have same : c.toNat = c.val.toNat := rfl
  delta isSegmentChar Char.isAlphanum Char.isAlpha Char.isUpper Char.isLower Char.isDigit at segment
  simp only [Bool.or_eq_true, Bool.and_eq_true, decide_eq_true_eq, ge_iff_le,
    UInt32.le_iff_toNat_le, ← Char.toNat_inj] at segment
  omega

theorem not_isSegmentChar_dot : ¬ isSegmentChar '.' := by decide

/-! ## Segments at the start of a text -/

theorem prefix_upTo {accepts : Char → Bool} {mark : Char} (all : ∀ c ∈ name, accepts c)
    (stops : ¬ accepts mark) (opens : name ++ mark :: rest <+: text) :
    name = text.takeWhile accepts ∧ mark :: rest <+: text.dropWhile accepts := by
  obtain ⟨after, rfl⟩ := opens
  rw [List.append_assoc, List.takeWhile_append_of_pos all, List.dropWhile_append_of_pos all,
    List.cons_append, List.takeWhile_cons_of_neg stops, List.dropWhile_cons_of_neg stops]
  exact ⟨(List.append_nil _).symm, ⟨after, rfl⟩⟩

theorem length_le_takeWhile {accepts : Char → Bool} (all : ∀ c ∈ name, accepts c)
    (opens : name <+: text) : name.length ≤ (text.takeWhile accepts).length := by
  obtain ⟨after, rfl⟩ := opens
  rw [List.takeWhile_append_of_pos all, List.length_append]
  exact Nat.le_add_right _ _

theorem lastSegment?_longest (found : lastSegment? text = some (last, rest)) :
    Longest IsLastSegment text last := by
  have opens : last <+: text := ⟨rest, (lastSegment?_split found).1.symm⟩
  unfold lastSegment? at found
  split at found
  case h_1 c more =>
    split at found
    case isFalse => cases found
    case isTrue upper =>
      cases found
      refine ⟨⟨upper, fun d => List.mem_takeWhile_imp (p := fun d => isSegmentChar d || d = '$')⟩,
        opens, fun other ends opens' => ?_⟩
      cases other with
      | nil => exact Nat.zero_le _
      | cons d others =>
        exact Nat.succ_le_succ (length_le_takeWhile ends.2 (List.cons_prefix_cons.mp opens').2)
  case h_2 => cases found

theorem not_prefix_of_lastSegment? (missing : lastSegment? text = none)
    (ends : IsLastSegment last) : ¬ last <+: text := by
  intro opens
  cases last with
  | nil => exact ends
  | cons c more =>
    obtain ⟨after, rfl⟩ := opens
    simp [lastSegment?, ends.1] at missing

/-- A name opens a text exactly if its first segment is as long as it can be there, a dot follows,
and the rest of the name opens what comes behind the dot. -/
theorem isQualified_prefix_iff {c : Char} : IsQualified name ∧ name <+: c :: text ↔
    opensSegment c ∧ ∃ after tail, text.dropWhile isSegmentChar = '.' :: after ∧
      name = c :: text.takeWhile isSegmentChar ++ '.' :: tail ∧
      IsTail tail ∧ tail <+: after := by
  constructor
  · rintro ⟨qualified, opens⟩
    obtain ⟨segment, tail, rfl, first, ends⟩ : ∃ segment tail, name = segment ++ '.' :: tail ∧
        IsSegment segment ∧ IsTail tail := by
      cases qualified with
      | last first ends => exact ⟨_, _, rfl, first, .inr ends⟩
      | inner first ends => exact ⟨_, _, rfl, first, .inl ends⟩
    cases segment with
    | nil => exact first.elim
    | cons d more =>
      rw [List.cons_append, List.cons_prefix_cons] at opens
      obtain ⟨rfl, opens⟩ := opens
      obtain ⟨rfl, after, dotted⟩ := prefix_upTo first.2 not_isSegmentChar_dot opens
      exact ⟨first.1, tail ++ after, tail, dotted.symm, rfl, ends, tail.prefix_append after⟩
  · rintro ⟨opens, after, tail, dotted, rfl, ends, continues⟩
    have first : IsSegment (c :: text.takeWhile isSegmentChar) :=
      ⟨opens, fun d member => List.mem_takeWhile_imp member⟩
    refine ⟨ends.elim (.inner first) (.last first), ?_⟩
    rw [List.cons_append, List.cons_prefix_cons]
    refine ⟨rfl, ?_⟩
    conv_rhs => rw [← List.takeWhile_append_dropWhile (p := isSegmentChar) (l := text), dotted]
    simpa using continues

theorem IsLastSegment.length_le (ends : IsLastSegment last) (opens : last <+: text)
    (qualified : IsQualified name) (opens' : name <+: text) : last.length ≤ name.length := by
  cases last with
  | nil => exact ends.elim
  | cons c more =>
    obtain ⟨behind, rfl⟩ := opens
    rw [List.cons_append] at opens'
    obtain ⟨-, after, tail, dotted, rfl, -⟩ := isQualified_prefix_iff.mp ⟨qualified, opens'⟩
    have short := length_le_takeWhile ends.2 (more.prefix_append behind)
    have segment : ∀ d ∈ (more ++ behind).takeWhile isSegmentChar, isSegmentChar d || d = '$' :=
      fun d member => by simp [List.mem_takeWhile_imp member]
    rw [← List.takeWhile_append_dropWhile (p := isSegmentChar) (l := more ++ behind), dotted,
      List.takeWhile_append_of_pos segment, List.takeWhile_cons_of_neg (by decide),
      List.append_nil] at short
    simp only [List.length_append, List.length_cons]
    omega

theorem not_prefix_of_qualifiedName? (missing : qualifiedName? text = none)
    (qualified : IsQualified name) : ¬ name <+: text := by
  intro opens
  fun_induction qualifiedName? text generalizing name with
  | case1 => cases missing
  | case2 c more first after dotted shorter longer ih =>
    obtain ⟨-, after', tail, dotted', rfl, ends, continues⟩ :=
      isQualified_prefix_iff.mp ⟨qualified, opens⟩
    cases dotted.symm.trans dotted'
    rw [Option.or_eq_none_iff] at longer
    rcases ends with deep | last
    · exact ih longer.1 deep continues
    · exact not_prefix_of_lastSegment? longer.2 last continues
  | case3 c more first undotted =>
    obtain ⟨-, after, tail, dotted, -⟩ := isQualified_prefix_iff.mp ⟨qualified, opens⟩
    exact undotted after dotted
  | case4 c more first => exact first (isQualified_prefix_iff.mp ⟨qualified, opens⟩).1
  | case5 => exact qualified.ne_nil (List.prefix_nil.mp opens)

theorem longest_tail
    (deeper : ∀ {name rest}, qualifiedName? text = some (name, rest) →
      Longest IsQualified text name)
    (found : (qualifiedName? text).or (lastSegment? text) = some (name, rest)) :
    Longest IsTail text name := by
  rcases Option.or_eq_some_iff.mp found with deep | ⟨shallow, last⟩
  · have longest := deeper deep
    refine ⟨.inl longest.named, longest.opens, fun other ends opens => ?_⟩
    rcases ends with qualified | ends
    · exact longest.longest other qualified opens
    · exact ends.length_le opens longest.named longest.opens
  · have longest := lastSegment?_longest last
    refine ⟨.inr longest.named, longest.opens, fun other ends opens => ?_⟩
    rcases ends with qualified | ends
    · exact absurd opens (not_prefix_of_qualifiedName? shallow qualified)
    · exact longest.longest other ends opens

theorem qualifiedName?_longest (found : qualifiedName? text = some (name, rest)) :
    Longest IsQualified text name := by
  fun_induction qualifiedName? text generalizing name rest with
  | case1 c more first after dotted shorter inner rest' continued ih =>
    cases found
    have tail := longest_tail ih continued
    obtain ⟨qualified, opens⟩ :=
      isQualified_prefix_iff.mpr ⟨first, after, inner, dotted, rfl, tail.named, tail.opens⟩
    refine ⟨qualified, opens, fun other qualified' opens' => ?_⟩
    obtain ⟨-, after', tail', dotted', rfl, ends, continues⟩ :=
      isQualified_prefix_iff.mp ⟨qualified', opens'⟩
    cases dotted.symm.trans dotted'
    have := tail.longest tail' ends continues
    simp only [List.length_append, List.length_cons]
    omega
  | case2 | case3 | case4 | case5 => cases found

theorem qualifiedName?_eq_some_iff : qualifiedName? text = some (name, rest) ↔
    Longest IsQualified text name ∧ text = name ++ rest := by
  constructor
  · exact fun found => ⟨qualifiedName?_longest found, (qualifiedName?_split found).1⟩
  · rintro ⟨longest, rfl⟩
    cases found : qualifiedName? (name ++ rest) with
    | none => exact absurd longest.opens (not_prefix_of_qualifiedName? found longest.named)
    | some result =>
      obtain ⟨name', rest'⟩ := result
      obtain rfl := longest.unique (qualifiedName?_longest found)
      rw [List.append_cancel_left (qualifiedName?_split found).1]

/-! ## Names in a text -/

def wordBefore (text : List Char) : Nat → Bool
  | 0 => false
  | position + 1 => text[position]?.any Text.isWordChar

/-- Whether a qualified name begins at a position, with no word character before it. -/
structure OccursAt (text : List Char) (position : Nat) (name : List Char) : Prop where
  outside : wordBefore text position = false
  qualified : IsQualified name
  opens : name <+: text.drop position

structure LongestAt (text : List Char) (position : Nat) (name : List Char) : Prop where
  outside : wordBefore text position = false
  longest : Longest IsQualified (text.drop position) name

theorem LongestAt.occurs (longest : LongestAt text position name) : OccursAt text position name :=
  ⟨longest.outside, longest.longest.named, longest.longest.opens⟩

theorem OccursAt.exists_longest (occurs : OccursAt text position name) :
    ∃ name, LongestAt text position name := by
  cases found : qualifiedName? (text.drop position) with
  | none => exact absurd occurs.opens (not_prefix_of_qualifiedName? found occurs.qualified)
  | some result => exact ⟨result.1, occurs.outside, qualifiedName?_longest found⟩

/-- Names found in a text from some position on, each with its own: the longest one at the first
position at which one begins, and on from its end as long as there is one. -/
inductive Finds (text : List Char) : Nat → List (Nat × List Char) → Prop
  | stop {position : Nat} (none : ∀ start name, position ≤ start → ¬ OccursAt text start name) :
      Finds text position []
  | next {position start : Nat} {name : List Char} {found : List (Nat × List Char)}
      (ahead : position ≤ start)
      (first : ∀ earlier other, position ≤ earlier → earlier < start →
        ¬ OccursAt text earlier other)
      (longest : LongestAt text start name) (onwards : Finds text (start + name.length) found) :
      Finds text position ((start, name) :: found)

theorem Finds.unique {found' : List (Nat × List Char)} (finds : Finds text position found)
    (finds' : Finds text position found') : found = found' := by
  induction finds generalizing found' with
  | stop none =>
    cases finds' with
    | stop => rfl
    | next ahead _ longest _ => exact absurd longest.occurs (none _ _ ahead)
  | @next position start name found ahead first longest onwards ih =>
    cases finds' with
    | stop none => exact absurd longest.occurs (none _ _ ahead)
    | @next _ start' name' found' ahead' first' longest' onwards' =>
      obtain rfl : start = start' := by
        rcases Nat.lt_trichotomy start start' with before | same | behind
        · exact absurd longest.occurs (first' _ _ ahead before)
        · exact same
        · exact absurd longest'.occurs (first _ _ ahead' behind)
      obtain rfl := longest.longest.unique longest'.longest
      rw [ih onwards']

theorem Finds.skip (none : ∀ name, ¬ OccursAt text position name)
    (finds : Finds text (position + 1) found) : Finds text position found := by
  have still {start : Nat} {name : List Char} (ahead : position ≤ start)
      (occurs : OccursAt text start name) : position + 1 ≤ start := by
    refine Nat.lt_of_le_of_ne ahead ?_
    rintro rfl
    exact none name occurs
  cases finds with
  | stop none => exact .stop fun start name ahead occurs => none _ _ (still ahead occurs) occurs
  | next ahead first longest onwards =>
    exact .next (Nat.le_of_succ_le ahead)
      (fun earlier other behind before occurs => first _ _ (still behind occurs) before occurs)
      longest onwards

theorem drop_eq_cons {c : Char} (left : text.drop position = c :: rest) :
    text[position]? = some c ∧ text.drop (position + 1) = rest := by
  rw [← List.head?_drop, ← List.drop_drop, left]
  exact ⟨rfl, rfl⟩

theorem wordBefore_end (opens : name <+: text.drop position) (nonempty : name ≠ []) :
    wordBefore text (position + name.length) = name.getLast?.any Text.isWordChar := by
  obtain ⟨length, long⟩ := Nat.exists_eq_add_one.mpr (List.length_pos_iff.mpr nonempty)
  obtain ⟨after, split⟩ := opens
  rw [List.getLast?_eq_getElem?, long, ← Nat.add_assoc, wordBefore, ← List.getElem?_drop, ← split,
    List.getElem?_append_left (by omega), Nat.add_sub_cancel]

theorem namesFrom_finds {inWord : Bool} (before : List Symbol)
    (outside : wordBefore text position = inWord) :
    ∃ found, Finds text position found ∧ namesFrom inWord before (text.drop position) =
      (found.map fun entry => ⟨String.ofList entry.2⟩).reverse ++ before := by
  generalize left : text.drop position = rest
  fun_induction namesFrom inWord before rest generalizing position with
  | case1 inWord before =>
    refine ⟨[], .stop fun start name ahead occurs => ?_, rfl⟩
    have opens := occurs.opens
    rw [List.drop_eq_nil_iff.mpr ((List.drop_eq_nil_iff.mp left).trans ahead)] at opens
    exact occurs.qualified.ne_nil (List.prefix_nil.mp opens)
  | case2 inWord before c rest name after found shorter ih =>
    split at found
    case isTrue => cases found
    case isFalse clear =>
      have longest : LongestAt text position name :=
        ⟨by simpa [outside] using clear, left ▸ qualifiedName?_longest found⟩
      obtain ⟨split, nonempty⟩ := qualifiedName?_split found
      have onwards : text.drop (position + name.length) = after := by
        rw [← List.drop_drop, left, split, List.drop_left]
      obtain ⟨found, finds, same⟩ := ih (wordBefore_end longest.occurs.opens nonempty) onwards
      refine ⟨(position, name) :: found, .next le_rfl ?_ longest finds, ?_⟩
      · exact fun earlier other behind before => absurd before (Nat.not_lt.mpr behind)
      · simp [same]
  | case3 inWord before c rest missing ih =>
    have none : ∀ name, ¬ OccursAt text position name := by
      intro name occurs
      rw [← outside, occurs.outside] at missing
      exact not_prefix_of_qualifiedName? missing occurs.qualified (left ▸ occurs.opens)
    obtain ⟨here, onwards⟩ := drop_eq_cons left
    have outside' : wordBefore text (position + 1) = Text.isWordChar c := by
      simp [wordBefore, here]
    obtain ⟨found, finds, same⟩ := ih outside' onwards
    exact ⟨found, finds.skip none, same⟩

theorem qualifiedNames_finds (text : String) :
    ∃ found, Finds text.toList 0 found ∧
      qualifiedNames text = found.map fun entry => ⟨String.ofList entry.2⟩ := by
  have outside : wordBefore text.toList 0 = false := rfl
  obtain ⟨found, finds, same⟩ := namesFrom_finds [] outside
  refine ⟨found, finds, ?_⟩
  rw [List.drop_zero] at same
  simp [qualifiedNames, same]

end Linkage.Scan
