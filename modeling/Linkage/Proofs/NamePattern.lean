import Linkage.Proofs.QualifiedNames
import Mathlib.Data.List.Basic

/-!
# The pattern of qualified names

Patterns that are matched by backtracking, and `\b(?:[A-Za-z_][A-Za-z0-9_]*\.)+[A-Z][A-Za-z0-9_$]*`
among them. The first match of it that a backtracking matcher comes to is the longest name at its
position, so that searching from left to right for first matches gives what a scan finds:
`pattern_finds_longest`.
-/

namespace Linkage.Scan

variable {text name rest : List Char} {position stop : Nat} {accepts : Char → Bool}

inductive Pattern
  /-- Reads nothing, where a test of the position holds. -/
  | here (holds : List Char → Nat → Bool)
  | one (accepts : Char → Bool)
  | seq (first second : Pattern)
  | many (repeated : Pattern)

namespace Pattern

def many1 (repeated : Pattern) : Pattern := .seq repeated (.many repeated)

/-- Where the matches end that begin at a position, in the order in which backtracking comes to
them: another repetition is tried before none, as long as it reads something. -/
def ends (text : List Char) (pattern : Pattern) (position : Nat) : List Nat :=
  match pattern with
  | .here holds => if holds text position then [position] else []
  | .one accepts => if text[position]?.any accepts then [position + 1] else []
  | .seq first second => (first.ends text position).flatMap fun next => second.ends text next
  | .many repeated =>
    ((repeated.ends text position).flatMap fun next =>
      if text.length - next < text.length - position then (many repeated).ends text next else []) ++
      [position]
termination_by (sizeOf pattern, text.length - position)

end Pattern

/-- Whether a word character stands on one side of a position only. -/
def wordBoundary (text : List Char) (position : Nat) : Bool :=
  wordBefore text position != text[position]?.any Text.isWordChar

namespace Pattern

def segment : Pattern :=
  .seq (.one opensSegment) (.seq (.many (.one isSegmentChar)) (.one (· = '.')))

def lastSegment : Pattern :=
  .seq (.one Char.isUpper) (.many (.one fun c => isSegmentChar c || c = '$'))

def qualifiedName : Pattern := .seq (.here wordBoundary) (.seq (.many1 segment) lastSegment)

theorem ends_seq {first second : Pattern} : (seq first second).ends text position =
    (first.ends text position).flatMap fun next => second.ends text next := by
  rw [ends]

theorem ends_one : (one accepts).ends text position =
    if text[position]?.any accepts then [position + 1] else [] := by
  rw [ends]

theorem ends_seq_assoc {a b c : Pattern} :
    (seq (seq a b) c).ends text position = (seq a (seq b c)).ends text position := by
  simp only [ends_seq, List.flatMap_assoc]

theorem ends_many {repeated : Pattern}
    (reads : ∀ next ∈ repeated.ends text position, position < next ∧ next ≤ text.length) :
    (many repeated).ends text position =
      (seq repeated (many repeated)).ends text position ++ [position] := by
  rw [ends_seq, ends]
  congr 1
  refine List.flatMap_congr fun next listed => if_pos ?_
  have := reads next listed
  omega

theorem ends_many_seq {repeated last : Pattern}
    (reads : ∀ next ∈ repeated.ends text position, position < next ∧ next ≤ text.length) :
    (seq (many repeated) last).ends text position =
      (seq repeated (seq (many repeated) last)).ends text position ++ last.ends text position := by
  rw [ends_seq, ends_many reads, List.flatMap_append, ← ends_seq, ends_seq_assoc,
    List.flatMap_singleton]

theorem ends_one_seq {last : Pattern} : (seq (one accepts) last).ends text position =
    if text[position]?.any accepts then last.ends text (position + 1) else [] := by
  rw [ends_seq, ends]
  split <;> simp

theorem ends_many_one : (many (one accepts)).ends text position =
    if text[position]?.any accepts then (many (one accepts)).ends text (position + 1) ++ [position]
    else [position] := by
  have reads : ∀ next ∈ (one accepts).ends text position, position < next ∧ next ≤ text.length := by
    intro next listed
    rw [ends, List.mem_ite_nil_right, List.mem_singleton] at listed
    obtain ⟨accepted, rfl⟩ := listed
    obtain ⟨c, listed, -⟩ := (Option.any_eq_true _ _).mp accepted
    exact ⟨Nat.lt_succ_self _, (List.getElem?_eq_some_iff.mp listed).1⟩
  rw [ends_many reads, ends_one_seq]
  split <;> simp

theorem head?_ends_many_one : ((many (one accepts)).ends text position).head? =
    some (position + ((text.drop position).takeWhile accepts).length) := by
  generalize left : text.drop position = rest
  induction rest generalizing position with
  | nil => simp [ends_many_one, ← List.head?_drop, left]
  | cons c rest ih =>
    obtain ⟨here, onwards⟩ := drop_eq_cons left
    rw [ends_many_one, here, Option.any_some, List.takeWhile_cons]
    split
    case isTrue => simp [ih onwards, Nat.add_assoc, Nat.add_comm 1]
    case isFalse => simp

theorem ends_many_one_seq {last : Pattern}
    (behind : ∀ position, text[position]?.any accepts → last.ends text position = []) :
    (seq (many (one accepts)) last).ends text position =
      last.ends text (position + ((text.drop position).takeWhile accepts).length) := by
  generalize left : text.drop position = rest
  induction rest generalizing position with
  | nil => simp [ends_seq, ends_many_one, ← List.head?_drop, left]
  | cons c rest ih =>
    obtain ⟨here, onwards⟩ := drop_eq_cons left
    rw [ends_seq, ends_many_one, here, Option.any_some, List.takeWhile_cons]
    split
    case isTrue accepted =>
      have nothing : last.ends text position = [] := behind position (by simp [here, accepted])
      simp [nothing, ← ends_seq, ih onwards, Nat.add_assoc, Nat.add_comm 1]
    case isFalse => simp

def runEnd (text : List Char) (position : Nat) : Nat :=
  position + ((text.drop position).takeWhile isSegmentChar).length

theorem drop_runEnd : text.drop (runEnd text position) =
    (text.drop position).dropWhile isSegmentChar := by
  have taken := List.prefix_iff_eq_append.mp
    (List.takeWhile_prefix isSegmentChar (l := text.drop position))
  rw [List.drop_drop] at taken
  exact List.append_cancel_left (taken.trans List.takeWhile_append_dropWhile.symm)

theorem ends_segment : segment.ends text position =
    if text[position]?.any opensSegment ∧ text[runEnd text (position + 1)]? = some '.' then
      [runEnd text (position + 1) + 1]
    else [] := by
  have dotted (place : Nat) : text[place]?.any (· = '.') ↔ text[place]? = some '.' := by
    cases text[place]? <;> simp
  have behind (place : Nat) (accepted : text[place]?.any isSegmentChar) :
      (one (· = '.')).ends text place = [] := by
    rw [ends_one, if_neg]
    intro dot
    rw [(dotted place).mp dot] at accepted
    exact not_isSegmentChar_dot accepted
  rw [segment, ends_one_seq, ends_many_one_seq behind, ← runEnd, ends_one, ite_and]
  simp only [dotted]

theorem segment_reads : ∀ next ∈ segment.ends text position,
    position < next ∧ next ≤ text.length := by
  intro next listed
  rw [ends_segment, List.mem_ite_nil_right, List.mem_singleton] at listed
  obtain ⟨⟨-, dotted⟩, rfl⟩ := listed
  have := (List.getElem?_eq_some_iff.mp dotted).1
  constructor
  · rw [runEnd]
    omega
  · omega

theorem ends_segment_dotted {c : Char} {more after : List Char}
    (left : text.drop position = c :: more) (first : opensSegment c)
    (dotted : more.dropWhile isSegmentChar = '.' :: after) :
    ∃ next, segment.ends text position = [next] ∧ text.drop next = after ∧
      next = position + (more.takeWhile isSegmentChar).length + 2 := by
  obtain ⟨here, onwards⟩ := drop_eq_cons left
  have behind : text.drop (runEnd text (position + 1)) = '.' :: after := by
    rw [drop_runEnd, onwards, dotted]
  obtain ⟨dot, behind⟩ := drop_eq_cons behind
  refine ⟨_, ?_, behind, ?_⟩
  · rw [ends_segment, if_pos ⟨by simpa [here] using first, dot⟩]
  · rw [runEnd, onwards]
    omega

theorem head?_ends_lastSegment (left : text.drop position = rest) :
    (lastSegment.ends text position).head? =
      (lastSegment? rest).map fun found => position + found.1.length := by
  rw [lastSegment, ends_one_seq]
  cases rest with
  | nil => simp [← List.head?_drop, left, lastSegment?]
  | cons c rest =>
    obtain ⟨here, onwards⟩ := drop_eq_cons left
    rw [here, Option.any_some, lastSegment?]
    split
    case isTrue => simp [head?_ends_many_one, onwards, Nat.add_assoc, Nat.add_comm 1]
    case isFalse => rfl

theorem head?_ends_tail (left : text.drop position = rest)
    (deeper : ((seq segment (seq (many segment) lastSegment)).ends text position).head? =
      (qualifiedName? rest).map fun found => position + found.1.length) :
    ((seq (many segment) lastSegment).ends text position).head? =
      ((qualifiedName? rest).or (lastSegment? rest)).map fun found =>
        position + found.1.length := by
  rw [ends_many_seq segment_reads, List.head?_append, deeper, head?_ends_lastSegment left,
    Option.map_or]

theorem head?_ends_segments (left : text.drop position = rest) :
    ((seq segment (seq (many segment) lastSegment)).ends text position).head? =
      (qualifiedName? rest).map fun found => position + found.1.length := by
  fun_induction qualifiedName? rest generalizing position with
  | case1 c more first after dotted shorter name rest' found ih =>
    obtain ⟨next, only, behind, rfl⟩ := ends_segment_dotted left first dotted
    rw [ends_seq, only, List.flatMap_singleton, head?_ends_tail behind (ih behind), found]
    simp only [Option.map_some, List.length_append, List.length_cons]
    congr 1
    omega
  | case2 c more first after dotted shorter missing ih =>
    obtain ⟨next, only, behind, -⟩ := ends_segment_dotted left first dotted
    rw [ends_seq, only, List.flatMap_singleton, head?_ends_tail behind (ih behind), missing]
    rfl
  | case3 c more first undotted =>
    rw [ends_seq, ends_segment, if_neg]
    · rfl
    · rintro ⟨-, dot⟩
      rw [← List.head?_drop, drop_runEnd, (drop_eq_cons left).2, List.head?_eq_some_iff] at dot
      obtain ⟨after, dotted⟩ := dot
      exact undotted after dotted
  | case4 c more first =>
    rw [ends_seq, ends_segment, (drop_eq_cons left).1, if_neg (by simp [first])]
    rfl
  | case5 =>
    rw [ends_seq, ends_segment, ← List.head?_drop, left, if_neg (by simp)]
    rfl

theorem isWordChar_of_opensSegment {c : Char} (opens : opensSegment c) : Text.isWordChar c := by
  have segment := opensSegment_isSegmentChar opens
  have ascii : c.toNat < 0x80 := (toNat_of_isSegmentChar segment).2.trans_lt (by decide)
  rw [Text.isWordChar, if_pos ascii]
  exact segment

theorem wordBoundary_iff (qualified : IsQualified name) (opens : name <+: text.drop position) :
    wordBoundary text position ↔ wordBefore text position = false := by
  cases left : text.drop position with
  | nil => exact absurd (List.prefix_nil.mp (left ▸ opens)) qualified.ne_nil
  | cons c rest =>
    have first := (isQualified_prefix_iff.mp ⟨qualified, left ▸ opens⟩).1
    simp [wordBoundary, (drop_eq_cons left).1, isWordChar_of_opensSegment first]

theorem head?_ends_qualifiedName : (qualifiedName.ends text position).head? = some stop ↔
    ∃ name, LongestAt text position name ∧ stop = position + name.length := by
  have bounded : (qualifiedName.ends text position).head? = if wordBoundary text position then
      (qualifiedName? (text.drop position)).map fun found => position + found.1.length
      else none := by
    rw [qualifiedName, ends_seq, ends]
    split
    · rw [List.flatMap_singleton, many1, ends_seq_assoc, head?_ends_segments rfl]
    · rfl
  rw [bounded, Option.ite_none_right_eq_some, Option.map_eq_some_iff]
  constructor
  · rintro ⟨boundary, ⟨name, rest⟩, found, rfl⟩
    have longest := qualifiedName?_longest found
    exact ⟨name, ⟨(wordBoundary_iff longest.named longest.opens).mp boundary, longest⟩, rfl⟩
  · rintro ⟨name, ⟨outside, longest⟩, rfl⟩
    obtain ⟨rest, split⟩ := longest.opens
    exact ⟨(wordBoundary_iff longest.named longest.opens).mpr outside, (name, rest),
      qualifiedName?_eq_some_iff.mpr ⟨longest, split.symm⟩, rfl⟩

theorem ends_qualifiedName_eq_nil_iff :
    qualifiedName.ends text position = [] ↔ ∀ name, ¬ OccursAt text position name := by
  rw [← List.head?_eq_none_iff, Option.eq_none_iff_forall_ne_some]
  constructor
  · intro missing name occurs
    obtain ⟨name, longest⟩ := occurs.exists_longest
    exact missing _ (head?_ends_qualifiedName.mpr ⟨name, longest, rfl⟩)
  · intro missing stop found
    obtain ⟨name, longest, -⟩ := head?_ends_qualifiedName.mp found
    exact missing name longest.occurs

end Pattern

/-- What a scan for qualified names finds is what reading from left to right finds, and nothing
else: the longest name at the first position at which one begins, and so on from its end. Where one
begins, the longest is also the first match that a backtracking matcher comes to. -/
theorem pattern_finds_longest (text : String) :
    ∃ found, (∀ other, Finds text.toList 0 other ↔ other = found) ∧
      Scanner.pattern.symbols text = found.map (fun entry => ⟨String.ofList entry.2⟩) ∧
      ∀ position,
        (Pattern.qualifiedName.ends text.toList position = [] ↔
          ∀ name, ¬ OccursAt text.toList position name) ∧
        ∀ stop, (Pattern.qualifiedName.ends text.toList position).head? = some stop ↔
          ∃ name, LongestAt text.toList position name ∧ stop = position + name.length := by
  obtain ⟨found, finds, same⟩ := qualifiedNames_finds text
  refine ⟨found, fun other => ⟨fun finds' => finds'.unique finds, ?_⟩, same, fun position => ?_⟩
  · rintro rfl
    exact finds
  · exact ⟨Pattern.ends_qualifiedName_eq_nil_iff, fun _ => Pattern.head?_ends_qualifiedName⟩

end Linkage.Scan
