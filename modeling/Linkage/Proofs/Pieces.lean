import Linkage.Text.Lines
import Mathlib.Data.List.Forall2

/-!
# Texts put together from pieces

A piece that avoids some character goes up to the first such character of the text around it. So the
pieces can be told from the text, be they lines or the items of a list with separators between them.
-/

namespace Linkage.Text

variable {α : Type} {mark : α} {piece piece' rest rest' after : List α}
  {pieces pieces' : List (List α)}

theorem append_mark_inj (avoids : mark ∉ piece) (avoids' : mark ∉ piece')
    (same : piece ++ mark :: rest = piece' ++ mark :: rest') : piece = piece' ∧ rest = rest' := by
  induction piece generalizing piece' with
  | nil =>
    cases piece' with
    | nil => exact ⟨rfl, (List.cons.inj same).2⟩
    | cons c piece' => exact absurd (.head _) ((List.cons.inj same).1 ▸ avoids')
  | cons c piece ih =>
    cases piece' with
    | nil => exact absurd (.head _) ((List.cons.inj same).1 ▸ avoids)
    | cons c' piece' =>
      obtain ⟨rfl, others⟩ := List.cons.inj same
      obtain ⟨rfl, same_rest⟩ := ih (fun member => avoids (.tail _ member))
        (fun member => avoids' (.tail _ member)) others
      exact ⟨rfl, same_rest⟩

theorem flatMap_mark_inj (avoid : ∀ piece ∈ pieces, mark ∉ piece)
    (avoid' : ∀ piece ∈ pieces', mark ∉ piece)
    (same : pieces.flatMap (· ++ [mark]) = pieces'.flatMap (· ++ [mark])) : pieces = pieces' := by
  induction pieces generalizing pieces' with
  | nil =>
    cases pieces' with
    | nil => rfl
    | cons piece' pieces' => simp at same
  | cons piece pieces ih =>
    cases pieces' with
    | nil => simp at same
    | cons piece' pieces' =>
      rw [List.forall_mem_cons] at avoid avoid'
      simp only [List.flatMap_cons, List.append_assoc, List.singleton_append] at same
      obtain ⟨rfl, others⟩ := append_mark_inj avoid.1 avoid'.1 same
      rw [ih avoid.2 avoid'.2 others]

def Proper (mark : α) (piece : List α) : Prop := piece ≠ [] ∧ mark ∉ piece

theorem intercalate_ne_nil (proper : Proper mark piece) :
    List.intercalate (mark :: after) (piece :: pieces) ≠ [] := by
  cases pieces with
  | nil => simpa using proper.1
  | cons next pieces => simp [List.intercalate_cons_cons]

theorem intercalate_inj (proper : ∀ piece ∈ pieces, Proper mark piece)
    (proper' : ∀ piece ∈ pieces', Proper mark piece)
    (same : List.intercalate (mark :: after) pieces = List.intercalate (mark :: after) pieces') :
    pieces = pieces' := by
  induction pieces generalizing pieces' with
  | nil =>
    cases pieces' with
    | nil => rfl
    | cons piece' pieces' => exact absurd same.symm (intercalate_ne_nil (proper' _ (.head _)))
  | cons piece pieces ih =>
    cases pieces' with
    | nil => exact absurd same (intercalate_ne_nil (proper _ (.head _)))
    | cons piece' pieces' =>
      rw [List.forall_mem_cons] at proper proper'
      cases pieces with
      | nil =>
        cases pieces' with
        | nil => simpa using same
        | cons next' pieces' =>
          rw [List.intercalate_singleton, List.intercalate_cons_cons] at same
          exact absurd (by simp [same]) proper.1.2
      | cons next pieces =>
        cases pieces' with
        | nil =>
          rw [List.intercalate_singleton, List.intercalate_cons_cons] at same
          exact absurd (by simp [← same]) proper'.1.2
        | cons next' pieces' =>
          simp only [List.intercalate_cons_cons, List.append_assoc, List.cons_append] at same
          obtain ⟨rfl, others⟩ := append_mark_inj proper.1.2 proper'.1.2 same
          rw [ih proper.2 proper'.2 (List.append_cancel_left others)]

theorem forall₂_of_map_eq {β : Type} {f : α → β} {related : α → α → Prop} {items items' : List α}
    (each : ∀ item ∈ items, ∀ item' ∈ items', f item = f item' → related item item')
    (same : items.map f = items'.map f) : List.Forall₂ related items items' := by
  induction items generalizing items' with
  | nil =>
    cases items' with
    | nil => exact .nil
    | cons item' items' => cases same
  | cons item items ih =>
    cases items' with
    | nil => cases same
    | cons item' items' =>
      obtain ⟨first, others⟩ := List.cons.inj same
      exact .cons (each item (.head _) item' (.head _) first)
        (ih (fun a listed b listed' => each a (.tail _ listed) b (.tail _ listed')) others)

theorem map_inj_on {β : Type} {f : α → β} {items items' : List α}
    (inj : ∀ item ∈ items, ∀ item' ∈ items', f item = f item' → item = item')
    (same : items.map f = items'.map f) : items = items' := by
  rw [← List.forall₂_eq_eq_eq]
  exact forall₂_of_map_eq inj same

theorem words_inj {mark : Char} {after : List Char} {gap : String} {words words' : List String}
    (opens : gap.toList = mark :: after) (proper : ∀ word ∈ words, Proper mark word.toList)
    (proper' : ∀ word ∈ words', Proper mark word.toList)
    (same : gap.intercalate words = gap.intercalate words') : words = words' := by
  have characters := congrArg String.toList same
  rw [String.toList_intercalate, String.toList_intercalate, opens] at characters
  apply map_inj_on fun _ _ _ _ => String.toList_injective
  apply intercalate_inj _ _ characters
  · simpa using proper
  · simpa using proper'

theorem intercalate_cons {gap : List α} (first : List α) (pieces : List (List α)) :
    List.intercalate gap (first :: pieces) = first ++ pieces.flatMap (gap ++ ·) := by
  induction pieces generalizing first with
  | nil => simp
  | cons next pieces ih =>
    rw [List.intercalate_cons_cons, ih, List.flatMap_cons]
    simp only [List.append_assoc]

theorem intercalate_concat {gap : List α} (pieces : List (List α)) (last : List α) :
    List.intercalate gap (pieces ++ [last]) = pieces.flatMap (· ++ gap) ++ last := by
  induction pieces with
  | nil => simp
  | cons first pieces ih =>
    have notEmpty : pieces ++ [last] ≠ [] := by simp
    rw [List.cons_append, List.intercalate_cons_of_ne_nil notEmpty, ih, List.flatMap_cons]
    simp only [List.append_assoc]

theorem intercalate_concat_append {gap : List α} (front : List (List α)) :
    List.intercalate gap (front ++ [piece ++ rest]) =
      List.intercalate gap (front ++ [piece]) ++ rest := by
  rw [intercalate_concat, intercalate_concat, List.append_assoc]

theorem intercalate_concat_intercalate {gap comma first : List α} (front items : List (List α)) :
    List.intercalate gap (front ++ [List.intercalate comma (first :: items)]) =
      List.intercalate comma (List.intercalate gap (front ++ [first]) :: items) := by
  rw [intercalate_cons, intercalate_cons, intercalate_concat_append]

theorem words_concat (gap comma first : String) (front items : List String) :
    gap.intercalate (front ++ [comma.intercalate (first :: items)]) =
      comma.intercalate (gap.intercalate (front ++ [first]) :: items) := by
  apply String.toList_injective
  simp only [String.toList_intercalate, List.map_append, List.map_cons, List.map_nil]
  exact intercalate_concat_intercalate _ _

theorem mem_intercalate {item : α} {gap : List α} (member : item ∈ List.intercalate gap pieces) :
    item ∈ gap ∨ ∃ piece ∈ pieces, item ∈ piece := by
  induction pieces with
  | nil => cases member
  | cons first pieces ih =>
    cases pieces with
    | nil => exact .inr ⟨first, by simp, by simpa using member⟩
    | cons next pieces =>
      rw [List.intercalate_cons_cons, List.append_assoc, List.mem_append, List.mem_append]
        at member
      rcases member with member | member | member
      · exact .inr ⟨first, by simp, member⟩
      · exact .inl member
      · rcases ih member with member | ⟨piece, listed, member⟩
        · exact .inl member
        · exact .inr ⟨piece, .tail _ listed, member⟩

variable {line text : List Char} {list list' : List String}

theorem linesAfter_append (noFeed : '\n' ∉ line) (before : List Char) :
    linesAfter before (line ++ '\n' :: text) =
      lineOfReversed (line.reverse ++ before) :: lines text := by
  induction line generalizing before with
  | nil => rfl
  | cons c line ih =>
    rw [List.mem_cons, not_or] at noFeed
    rw [List.cons_append, linesAfter, ih noFeed.2, List.reverse_cons, List.append_assoc]
    · rfl
    · exact Ne.symm noFeed.1

theorem toList_ofLines :
    (ofLines list).toList = (list.map String.toList).flatMap (· ++ ['\n']) := by
  simp [ofLines, List.flatMap_map]

theorem lines_ofLines (noFeed : ∀ line ∈ list, '\n' ∉ line.toList) :
    lines (ofLines list).toList = list.map fun line => lineOfReversed line.toList.reverse := by
  rw [toList_ofLines]
  induction list with
  | nil => rfl
  | cons line list ih =>
    rw [List.forall_mem_cons] at noFeed
    rw [List.map_cons, List.flatMap_cons, List.append_assoc, List.singleton_append, lines,
      linesAfter_append noFeed.1, ih noFeed.2, List.append_nil, List.map_cons]

theorem ofLines_inj (noFeed : ∀ line ∈ list, '\n' ∉ line.toList)
    (noFeed' : ∀ line ∈ list', '\n' ∉ line.toList) (same : ofLines list = ofLines list') :
    list = list' := by
  have characters := congrArg String.toList same
  rw [toList_ofLines, toList_ofLines] at characters
  apply map_inj_on fun _ _ _ _ => String.toList_injective
  apply flatMap_mark_inj _ _ characters
  · simpa using noFeed
  · simpa using noFeed'

theorem lineOfReversed_eq (noReturn : '\r' ∉ line) : lineOfReversed line.reverse = line := by
  unfold lineOfReversed
  split
  · rename_i before ends
    exact absurd (List.mem_reverse.mp (ends ▸ .head _)) noReturn
  · exact List.reverse_reverse line

/-- A carriage return at the end of a line is all that is lost of it. -/
theorem lineOfReversed_append (stem : List Char) {c : Char} (noReturn : c ≠ '\r') :
    ∃ tail, lineOfReversed (stem ++ c :: line).reverse = stem ++ c :: tail := by
  have reversed : (stem ++ c :: line).reverse = line.reverse ++ c :: stem.reverse := by simp
  rw [reversed]
  cases line.reverse with
  | nil =>
    refine ⟨[], ?_⟩
    rw [List.nil_append, lineOfReversed.eq_2]
    · simp
    · rintro before same
      exact noReturn (List.cons.inj same).1
  | cons last before =>
    by_cases isReturn : last = '\r'
    · subst isReturn
      exact ⟨before.reverse, by simp [lineOfReversed]⟩
    · refine ⟨before.reverse ++ [last], ?_⟩
      rw [List.cons_append, lineOfReversed.eq_2]
      · simp
      · rintro before same
        exact isReturn (List.cons.inj same).1

end Linkage.Text
