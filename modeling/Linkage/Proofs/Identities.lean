import Linkage.Artifact
import Mathlib.Data.Char

/-!
# What identities are called

A text without a tag stands for at most one identity, and that identity is called by a text which
stands for it again: `ofText?_untagged`. So identities that can be written without a tag are told
apart by their canonical texts: `Untagged.inj`. Others need not be.
-/

namespace Linkage

namespace Text

variable {mark : Char} {text part : List Char}

theorem partsAt_eq_splitOn (mark : Char) (text : List Char) :
    partsAt mark text = text.splitOn mark := by
  induction text with
  | nil => rfl
  | cons c text ih =>
    rw [List.splitOn_cons_eq_if_modifyHead, ← ih, partsAt, List.foldr_cons, ← partsAt]
    cases parts : partsAt mark text with
    | nil => exact absurd (ih.symm.trans parts) (List.splitOn_ne_nil _ _)
    | cons part more => simp

theorem notMem_of_mem_partsAt (listed : part ∈ partsAt mark text) : mark ∉ part := by
  rw [partsAt_eq_splitOn] at listed
  induction text generalizing part with
  | nil =>
    rw [List.splitOn_nil, List.mem_singleton] at listed
    exact listed ▸ List.not_mem_nil
  | cons c text ih =>
    rw [List.splitOn_cons_eq_if_modifyHead] at listed
    split at listed
    case isTrue =>
      rcases List.mem_cons.mp listed with rfl | later
      · exact List.not_mem_nil
      · exact ih later
    case isFalse other =>
      cases parts : text.splitOn mark with
      | nil => exact absurd parts (List.splitOn_ne_nil _ _)
      | cons first more =>
        rw [parts, List.modifyHead_cons, List.mem_cons] at listed
        rcases listed with rfl | later
        · rw [List.mem_cons, not_or]
          exact ⟨fun same => other (by simp [same]), ih (parts ▸ .head _)⟩
        · exact ih (parts ▸ .tail _ later)

theorem partsAt_intercalate {parts : List (List Char)} (avoid : ∀ part ∈ parts, mark ∉ part)
    (some : parts ≠ []) : partsAt mark ([mark].intercalate parts) = parts := by
  rw [partsAt_eq_splitOn, List.splitOn_intercalate mark avoid some]

end Text

namespace Identity

variable {text : String} {identity a b : Identity}

/-- Whether an identity is what its canonical text stands for, so that it needs no tag. -/
def Untagged (identity : Identity) : Prop := ofText? identity.canonical = some identity

theorem Untagged.inj (untagged : a.Untagged) (untagged' : b.Untagged)
    (same : a.canonical = b.canonical) : a = b := by
  rw [Untagged, same, untagged'] at untagged
  exact (Option.some.inj untagged).symm

theorem parts_of_written {c : Char} {group : List Char} {others : List (List Char)}
    (avoid : ∀ part ∈ (c :: group) :: others, ':' ∉ part)
    (written : text.toList = [':'].intercalate ((c :: group) :: others)) :
    text.startsWith ":" = false ∧ Text.partsAt ':' text.toList = (c :: group) :: others := by
  constructor
  · have other : ':' ≠ c := List.ne_of_not_mem_cons (avoid _ (.head _))
    have opens : ∃ rest, text.toList = c :: rest := by
      rw [written]
      cases others <;> exact ⟨_, rfl⟩
    obtain ⟨rest, opens⟩ := opens
    rw [Bool.eq_false_iff, ne_eq, String.startsWith_string_iff, opens]
    change ¬ [':'] <+: c :: rest
    rw [List.cons_prefix_cons]
    exact fun begins => other begins.1
  · rw [written, Text.partsAt_intercalate avoid (List.cons_ne_nil _ _)]

section Written

variable {c d : Char} {group name version : List Char}

theorem ofText?_unversioned (avoid : ∀ part ∈ [c :: group, d :: name], ':' ∉ part)
    (written : text.toList = [':'].intercalate [c :: group, d :: name]) :
    ofText? text = some (library (String.ofList (c :: group)) (String.ofList (d :: name)) "") := by
  obtain ⟨begins, parts⟩ := parts_of_written avoid written
  rw [ofText?, begins, parts]
  rfl

theorem ofText?_versioned (avoid : ∀ part ∈ [c :: group, d :: name, version], ':' ∉ part)
    (written : text.toList = [':'].intercalate [c :: group, d :: name, version]) :
    ofText? text = some (library (String.ofList (c :: group)) (String.ofList (d :: name))
      (String.ofList version)) := by
  obtain ⟨begins, parts⟩ := parts_of_written avoid written
  rw [ofText?, begins, parts]
  rfl

end Written

theorem ofText?_untagged (read : ofText? text = some identity) : identity.Untagged := by
  unfold ofText? at read
  split at read
  case isTrue begins =>
    cases read
    rw [Untagged, canonical, ofText?, if_pos begins]
  case isFalse =>
    have avoid : ∀ part ∈ Text.partsAt ':' text.toList, ':' ∉ part :=
      fun _ => Text.notMem_of_mem_partsAt
    split at read
    case h_1 parts =>
      cases read
      exact ofText?_unversioned (parts ▸ avoid) (by simp [canonical])
    case h_2 c group d name version parts =>
      cases read
      rw [parts] at avoid
      -- An empty version leaves no trace in the canonical text.
      cases version with
      | nil =>
        have avoid' : ∀ part ∈ [c :: group, d :: name], ':' ∉ part :=
          fun part listed => avoid part (List.mem_append_left [[]] listed)
        exact ofText?_unversioned avoid' (by simp [canonical])
      | cons e version => exact ofText?_versioned avoid (by simp [canonical])
    case h_3 => cases read

end Identity

end Linkage
