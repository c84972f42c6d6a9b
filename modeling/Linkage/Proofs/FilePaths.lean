import Linkage.FileSystem.Basic
import Linkage.Proofs.Identities
import Mathlib.Data.List.TakeWhile
import Mathlib.Data.String.Basic

/-!
# Paths of files below a root

A path continued by names of files has the parts of the path and the names. So its extension is that
of the last name, and two such paths are in the order of their names: `parts_below`,
`extension?_below` and `inOrder_below`.
-/

namespace Linkage

namespace Text

variable {mark : Char} {text before after : List Char}

theorem cutAtLast?_append (behind : mark ∉ after) :
    cutAtLast? mark (before ++ mark :: after) = some (before, after) := by
  have apart : (before ++ mark :: after).reverse = after.reverse ++ mark :: before.reverse := by
    simp
  have kept : (before ++ mark :: after).reverse.takeWhile (· ≠ mark) = after.reverse := by
    rw [apart, List.takeWhile_append_of_pos, List.takeWhile_cons_of_neg (by simp), List.append_nil]
    intro c member
    have other : c ≠ mark := fun same => behind (same ▸ List.mem_reverse.mp member)
    simpa using other
  have dropped : (before ++ mark :: after).reverse.drop after.reverse.length =
      mark :: before.reverse := by
    rw [apart, List.drop_left]
  simp only [cutAtLast?, kept, dropped, List.reverse_reverse]

theorem cutAtLast?_of_notMem (apart : mark ∉ text) : cutAtLast? mark text = none := by
  have kept : text.reverse.takeWhile (· ≠ mark) = text.reverse := by
    apply List.takeWhile_eq_self_iff.mpr
    intro c member
    have other : c ≠ mark := fun same => apart (same ▸ List.mem_reverse.mp member)
    simpa using other
  simp only [cutAtLast?, kept, List.drop_length]

theorem exists_last (member : mark ∈ text) :
    ∃ before after, text = before ++ mark :: after ∧ mark ∉ after := by
  obtain ⟨after, before, split, behind⟩ :=
    List.eq_append_cons_of_mem (List.mem_reverse.mpr member)
  refine ⟨before.reverse, after.reverse, ?_, List.mem_reverse.not.mpr behind⟩
  rw [← List.reverse_reverse text, split]
  simp

theorem cutAtLast?_eq_none : cutAtLast? mark text = none ↔ mark ∉ text := by
  refine ⟨fun uncut member => ?_, cutAtLast?_of_notMem⟩
  obtain ⟨before, after, rfl, behind⟩ := exists_last member
  rw [cutAtLast?_append behind] at uncut
  cases uncut

theorem cutAtLast?_eq_some : cutAtLast? mark text = some (before, after) ↔
    text = before ++ mark :: after ∧ mark ∉ after := by
  constructor
  · intro cut
    by_cases apart : mark ∈ text
    · obtain ⟨before', after', last, behind⟩ := exists_last apart
      rw [last, cutAtLast?_append behind] at cut
      cases cut
      exact ⟨last, behind⟩
    · rw [cutAtLast?_of_notMem apart] at cut
      cases cut
  · rintro ⟨rfl, behind⟩
    exact cutAtLast?_append behind

theorem partsAt_append (mark : Char) (before after : List Char) :
    partsAt mark (before ++ mark :: after) = partsAt mark before ++ partsAt mark after := by
  simp only [partsAt_eq_splitOn, List.splitOn_append_cons_self]

theorem partsAt_of_notMem (apart : mark ∉ text) : partsAt mark text = [text] := by
  rw [partsAt_eq_splitOn, List.splitOn_eq_singleton apart]

end Text

namespace Path

structure IsName (name : String) : Prop where
  notIdle : isIdle name.toList = false
  notUp : name.toList ≠ ['.', '.']
  whole : '/' ∉ name.toList

instance (name : String) : Decidable (IsName name) :=
  decidable_of_iff
    (isIdle name.toList = false ∧ name.toList ≠ ['.', '.'] ∧ '/' ∉ name.toList)
    ⟨fun ⟨notIdle, notUp, whole⟩ => ⟨notIdle, notUp, whole⟩,
      fun ⟨notIdle, notUp, whole⟩ => ⟨notIdle, notUp, whole⟩⟩

def below (root : Path) (names : List String) : Path :=
  names.foldl (fun path name => path.join ⟨name⟩) root

variable {root : Path} {name : String} {names names' : List String}

theorem IsName.ne_empty (isName : IsName name) : name ≠ "" := by
  rintro rfl
  exact absurd isName.notIdle (by decide)

theorem IsName.isAbsolute (isName : IsName name) : (⟨name⟩ : Path).isAbsolute = false := by
  rw [Path.isAbsolute, Bool.eq_false_iff, ne_eq, String.startsWith_string_iff]
  intro opens
  exact isName.whole (opens.subset (by simp))

theorem IsName.pieces (isName : IsName name) : (⟨name⟩ : Path).pieces = [name.toList] :=
  Text.partsAt_of_notMem isName.whole

theorem parts_name (isName : IsName name) : (⟨name⟩ : Path).parts = [.name name] := by
  have noDot : name.toList ≠ ['.'] := by
    intro dot
    have idle := isName.notIdle
    rw [dot] at idle
    cases idle
  simp [parts, isName.isAbsolute, isName.pieces, noDot, isName.notIdle, isName.notUp]

theorem isStandardInput_name (isName : IsName name) :
    (⟨name⟩ : Path).isStandardInput = decide (name = "-") := by
  simp [isStandardInput, parts_name isName]

theorem text_join (some : root.text ≠ "") (isName : IsName name) :
    ∃ stem, (root.text.toList = stem ∧ stem ≠ [] ∨ root.text.toList = stem ++ ['/']) ∧
      (root.join ⟨name⟩).text.toList = stem ++ '/' :: name.toList := by
  have notEmpty : root.text.isEmpty = false := by simpa [String.isEmpty_iff] using some
  have relative : ((⟨name⟩ : Path).isAbsolute || root.text.isEmpty) = false := by
    rw [isName.isAbsolute, notEmpty]
    rfl
  rw [join, relative]
  by_cases closed : root.text.endsWith "/" = true
  · rw [if_neg Bool.false_ne_true, if_pos closed]
    rw [String.endsWith, String.Slice.endsWith_string_iff] at closed
    obtain ⟨stem, text⟩ := closed
    rw [String.copy_toSlice] at text
    exact ⟨stem, .inr text.symm, by simp [← text]⟩
  · rw [if_neg Bool.false_ne_true, if_neg closed]
    exact ⟨root.text.toList, .inl ⟨rfl, by simpa using some⟩, by simp⟩

theorem isAbsolute_iff {path : Path} : path.isAbsolute = true ↔ ['/'] <+: path.text.toList := by
  rw [isAbsolute, String.startsWith_string_iff]
  rfl

theorem join_ne_empty (some : root.text ≠ "") (isName : IsName name) :
    (root.join ⟨name⟩).text ≠ "" := by
  obtain ⟨stem, -, text⟩ := text_join some isName
  intro empty
  rw [empty] at text
  simp at text

theorem parts_join (some : root.text ≠ "") (isName : IsName name) :
    (root.join ⟨name⟩).parts = root.parts ++ [.name name] := by
  obtain ⟨stem, shape, text⟩ := text_join some isName
  have absolute : (root.join ⟨name⟩).isAbsolute = root.isAbsolute := by
    rw [Bool.eq_iff_iff, isAbsolute_iff, isAbsolute_iff, text]
    rcases shape with ⟨whole, filled⟩ | closed
    · obtain ⟨c, rest, rfl⟩ := List.exists_cons_of_ne_nil filled
      simp [whole]
    · cases stem <;> simp [closed]
  have pieces : (root.join ⟨name⟩).pieces = Text.partsAt '/' stem ++ [name.toList] := by
    rw [Path.pieces, text, Text.partsAt_append, Text.partsAt_of_notMem isName.whole]
  obtain ⟨first, more, split⟩ : ∃ first more, Text.partsAt '/' stem = first :: more :=
    List.exists_cons_of_ne_nil (Text.partsAt_eq_splitOn .. ▸ List.splitOn_ne_nil _ _)
  -- A root that ends in a slash has an empty last piece, which is idle.
  have last : root.pieces = first :: more ∨ root.pieces = first :: more ++ [[]] := by
    rcases shape with ⟨whole, -⟩ | closed
    · exact .inl (by rw [Path.pieces, whole, split])
    · exact .inr (by rw [Path.pieces, closed, Text.partsAt_append, split]; rfl)
  have head : (root.join ⟨name⟩).pieces.head? = root.pieces.head? := by
    rw [pieces, split]
    rcases last with whole | closed
    · rw [whole]
      rfl
    · rw [closed]
      rfl
  have idle : isIdle [] = true := rfl
  unfold parts
  rw [absolute, head, List.append_assoc, pieces, List.filterMap_append, split]
  rcases last with whole | closed
  · simp [whole, isName.notIdle, isName.notUp]
  · rw [closed, List.filterMap_append]
    simp [idle, isName.notIdle, isName.notUp]

theorem parts_below (some : root.text ≠ "") (proper : ∀ name ∈ names, IsName name) :
    (root.below names).parts = root.parts ++ names.map .name := by
  induction names generalizing root with
  | nil => simp [below]
  | cons name names ih =>
    rw [List.forall_mem_cons] at proper
    rw [below, List.foldl_cons, ← below, ih (join_ne_empty some proper.1) proper.2,
      parts_join some proper.1]
    simp

/-- Whether a name ends in an extension, with something before its dot. -/
def HasExtension (extension name : String) : Prop :=
  ∃ stem, stem ≠ "" ∧ name = stem ++ "." ++ extension

theorem extension?_of_fileName {path : Path} {extension : String}
    (named : path.fileName? = some name) (undotted : '.' ∉ extension.toList) :
    path.extension? = some extension ↔ HasExtension extension name := by
  rw [extension?, named, Option.map_some]
  constructor
  · intro cut
    split at cut
    case h_1 c stem extension' found =>
      obtain rfl : String.ofList extension' = extension := Option.some.inj cut
      obtain ⟨split, -⟩ := Text.cutAtLast?_eq_some.mp (Option.some.inj found)
      refine ⟨String.ofList (c :: stem), by simp, ?_⟩
      rw [← String.toList_inj, split]
      simp
    case h_2 => cases cut
  · rintro ⟨stem, filled, rfl⟩
    obtain ⟨c, rest, characters⟩ :=
      List.exists_cons_of_ne_nil (mt String.toList_eq_nil_iff.mp filled)
    have split : (stem ++ "." ++ extension).toList = (c :: rest) ++ '.' :: extension.toList := by
      simp [characters]
    rw [split, Text.cutAtLast?_append undotted]
    simp

theorem extension?_below {extension : String} (some : root.text ≠ "")
    (proper : ∀ name ∈ names, IsName name) (last : names.getLast? = .some name)
    (undotted : '.' ∉ extension.toList) :
    (root.below names).extension? = .some extension ↔ HasExtension extension name := by
  apply extension?_of_fileName _ undotted
  rw [fileName?, parts_below some proper, List.getLast?_append, List.getLast?_map, last]
  rfl

theorem extension?_name {extension : String} (isName : IsName name)
    (undotted : '.' ∉ extension.toList) :
    (⟨name⟩ : Path).extension? = some extension ↔ HasExtension extension name := by
  apply extension?_of_fileName _ undotted
  rw [fileName?, parts_name isName]
  rfl

theorem before_irrefl (part : Part) : part.before part = false := by
  cases part with
  | name name => simp [Part.before]
  | _ => rfl

theorem partsInOrder_append (front : List Part) {parts parts' : List Part} :
    partsInOrder (front ++ parts) (front ++ parts') = partsInOrder parts parts' := by
  induction front with
  | nil => rfl
  | cons part front ih => simp [partsInOrder, before_irrefl, ih]

theorem partsInOrder_names :
    partsInOrder (names.map .name) (names'.map .name) = !decide (names' < names) := by
  induction names generalizing names' with
  | nil => simp [partsInOrder]
  | cons name names ih =>
    cases names' with
    | nil => simp [partsInOrder]
    | cons name' names' =>
      rw [List.map_cons, List.map_cons, partsInOrder, ih]
      rcases lt_trichotomy name name' with lower | rfl | higher
      · simp only [Part.before, List.cons_lt_cons_iff, lower, lt_asymm lower,
          (ne_of_lt lower).symm, false_and, or_false, decide_true, decide_false, Bool.true_or,
          Bool.not_false]
      · simp only [Part.before, List.cons_lt_cons_iff, lt_irrefl, true_and, false_or,
          decide_false, Bool.not_false, Bool.true_and, Bool.false_or]
      · simp only [Part.before, List.cons_lt_cons_iff, higher, lt_asymm higher, true_or,
          decide_true, decide_false, Bool.not_true, Bool.false_and, Bool.false_or]

theorem inOrder_below (some : root.text ≠ "") (proper : ∀ name ∈ names, IsName name)
    (proper' : ∀ name ∈ names', IsName name) :
    (root.below names).inOrder (root.below names') = !decide (names' < names) := by
  rw [inOrder, parts_below some proper, parts_below some proper', partsInOrder_append,
    partsInOrder_names]

end Path

end Linkage
