import Linkage.Proofs.NamePattern

/-!
# What stands around a name in a text

No word character stands right before a name that is found in a text. Right behind it stands no
character that a name could go on with, so that a name is never cut short at an ASCII character. A
word character of another alphabet ends a name, though, and may stand there: `names_bounded`.
-/

namespace Linkage.Scan

variable {text name rest : List Char} {position : Nat} {found : List (Nat × List Char)}

/-- Whether a name that begins at a position has no word character next to it, on either side. -/
structure Freestanding (text : List Char) (position : Nat) (name : List Char) : Prop where
  before : wordBefore text position = false
  behind : ∀ c, text[position + name.length]? = some c → ¬ Text.isWordChar c

/-! ## Names that could go on -/

theorem IsQualified.append_char {c : Char} (qualified : IsQualified name)
    (goesOn : isSegmentChar c || c = '$') : IsQualified (name ++ [c]) := by
  induction qualified with
  | @last segment last first ends =>
    cases last with
    | nil => exact ends.elim
    | cons d more =>
      rw [List.append_assoc]
      refine .last first ⟨ends.1, fun e member => ?_⟩
      rcases List.mem_append.mp member with inside | new
      · exact ends.2 e inside
      · exact List.mem_singleton.mp new ▸ goesOn
  | inner first _ ih =>
    rw [List.append_assoc]
    exact .inner first ih

theorem Longest.stops {c : Char} (longest : Longest IsQualified (name ++ c :: rest) name) :
    isSegmentChar c = false ∧ c ≠ '$' := by
  by_contra goesOn
  have further : IsQualified (name ++ [c]) := by
    apply longest.named.append_char
    simp only [not_and, not_not, Bool.or_eq_true, decide_eq_true_eq] at goesOn ⊢
    cases segment : isSegmentChar c with
    | true => exact .inl rfl
    | false => exact .inr (goesOn segment)
  have longer := longest.longest _ further ⟨rest, by simp⟩
  rw [List.length_append, List.length_singleton] at longer
  exact Nat.not_succ_le_self _ longer

theorem not_ascii_of_isWordChar {c : Char} (word : Text.isWordChar c)
    (stops : isSegmentChar c = false) : 0x80 ≤ c.toNat := by
  by_contra ascii
  rw [Text.isWordChar, if_pos (not_le.mp ascii)] at word
  exact absurd word (Bool.eq_false_iff.mp stops)

/-! ## Names in a text -/

theorem Finds.longestAt (finds : Finds text position found) :
    ∀ entry ∈ found, LongestAt text entry.1 entry.2 := by
  induction finds with
  | stop => exact fun _ listed => absurd listed List.not_mem_nil
  | next _ _ longest _ ih => exact List.forall_mem_cons.mpr ⟨longest, ih⟩

theorem LongestAt.stops {c : Char} (longest : LongestAt text position name)
    (behind : text[position + name.length]? = some c) : isSegmentChar c = false ∧ c ≠ '$' := by
  obtain ⟨rest, split⟩ := longest.longest.opens
  have next : rest.head? = some c := by
    rw [← behind, ← List.getElem?_drop, ← split, List.getElem?_append_right le_rfl,
      Nat.sub_self, List.head?_eq_getElem?]
  obtain ⟨rest, rfl⟩ := List.head?_eq_some_iff.mp next
  exact Longest.stops (split ▸ longest.longest)

theorem LongestAt.freestanding_iff (longest : LongestAt text position name) :
    Freestanding text position name ↔
      ∀ c, text[position + name.length]? = some c → 0x80 ≤ c.toNat → ¬ Text.isWordChar c := by
  constructor
  · exact fun freestanding c behind _ => freestanding.behind c behind
  · intro foreign
    refine ⟨longest.outside, fun c behind word => ?_⟩
    exact foreign c behind (not_ascii_of_isWordChar word (longest.stops behind).1) word

/-- A name found in a text stands where the text says so, with no word character before it and no
character behind it that a name could go on with. It has no word character next to it at all exactly
if none that is not ASCII stands behind it. -/
theorem names_bounded (text : String) :
    ∃ found, (∀ other, Finds text.toList 0 other ↔ other = found) ∧
      Scanner.pattern.symbols text = found.map (fun entry => ⟨String.ofList entry.2⟩) ∧
      ∀ entry ∈ found,
        entry.2 <+: text.toList.drop entry.1 ∧ wordBefore text.toList entry.1 = false ∧
        (∀ c, text.toList[entry.1 + entry.2.length]? = some c →
          isSegmentChar c = false ∧ c ≠ '$') ∧
        (Freestanding text.toList entry.1 entry.2 ↔
          ∀ c, text.toList[entry.1 + entry.2.length]? = some c → 0x80 ≤ c.toNat →
            ¬ Text.isWordChar c) := by
  obtain ⟨found, finds, same⟩ := qualifiedNames_finds text
  refine ⟨found, fun other => ⟨fun finds' => finds'.unique finds, ?_⟩, same, ?_⟩
  · rintro rfl
    exact finds
  · intro entry listed
    have longest := finds.longestAt entry listed
    exact ⟨longest.longest.opens, longest.outside, fun _ => longest.stops, longest.freestanding_iff⟩

/-- A name that has a letter outside ASCII in it is cut short there. -/
theorem names_cut_short :
    Scanner.pattern.symbols "a.Größe" = [⟨"a.Gr"⟩] ∧
      ∃ found, Finds "a.Größe".toList 0 found ∧ (0, "a.Gr".toList) ∈ found ∧
        ¬ Freestanding "a.Größe".toList 0 "a.Gr".toList := by
  have only : Scanner.pattern.symbols "a.Größe" = [⟨"a.Gr"⟩] := by decide +kernel
  have longest : LongestAt "a.Größe".toList 0 "a.Gr".toList := by
    have read : qualifiedName? "a.Größe".toList = some ("a.Gr".toList, "öße".toList) := by
      decide +kernel
    exact ⟨rfl, qualifiedName?_longest read⟩
  have outside : wordBefore "a.Größe".toList 4 = true := rfl
  obtain ⟨found, onwards, -⟩ := namesFrom_finds [] outside
  refine ⟨only, _, .next le_rfl (by omega) longest onwards, List.mem_cons_self, ?_⟩
  intro freestanding
  exact freestanding.behind 'ö' (by decide) (by decide +kernel)

end Linkage.Scan
