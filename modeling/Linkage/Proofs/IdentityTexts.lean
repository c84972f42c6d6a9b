import Linkage.Proofs.Identities
import Linkage.Proofs.OutcomeReading
import Mathlib.Data.Option.Basic

/-!
# Identities as text and as data

`Spells` says which texts stand for which identity: a project's text begins with a colon, a
library's has two or three parts. A text that is read is the canonical one of what it stands for,
apart from a colon with no version behind it: `ofText?_canonical`. As data, every identity can be
read back.
-/

namespace Linkage

namespace Identity

variable {text text' : String} {identity a b : Identity}

/-- Whether a text can be the group or the name of a library that is written without a tag. -/
def IsPart (part : String) : Prop := part ≠ "" ∧ ':' ∉ part.toList

inductive Spells : String → Identity → Prop
  | project {path : String} (begins : path.startsWith ":" = true) : Spells path (project path)
  | unversioned {group name : String} (first : IsPart group) (second : IsPart name) :
      Spells (group ++ ":" ++ name) (library group name "")
  | versioned {group name version : String} (first : IsPart group) (second : IsPart name)
      (last : ':' ∉ version.toList) :
      Spells (group ++ ":" ++ name ++ ":" ++ version) (library group name version)

theorem IsPart.of_cons {c : Char} {rest : List Char} (avoids : ':' ∉ c :: rest) :
    IsPart (String.ofList (c :: rest)) := by
  refine ⟨fun empty => ?_, by rwa [String.toList_ofList]⟩
  have := congrArg String.toList empty
  simp at this

theorem IsPart.exists_cons {part : String} (proper : IsPart part) :
    ∃ c rest, part = String.ofList (c :: rest) ∧ ':' ∉ c :: rest := by
  obtain ⟨nonempty, avoids⟩ := proper
  cases given : part.toList with
  | nil => exact absurd (String.toList_eq_nil_iff.mp given) nonempty
  | cons c rest => exact ⟨c, rest, by rw [← given, String.ofList_toList], given ▸ avoids⟩

theorem spells_of_ofText? (read : ofText? text = some identity) : Spells text identity := by
  have whole : [':'].intercalate (Text.partsAt ':' text.toList) = text.toList := by
    rw [Text.partsAt_eq_splitOn, List.intercalate_splitOn]
  have avoid : ∀ part ∈ Text.partsAt ':' text.toList, ':' ∉ part :=
    fun _ => Text.notMem_of_mem_partsAt
  unfold ofText? at read
  split at read
  case isTrue begins =>
    cases read
    exact .project begins
  case isFalse =>
    split at read
    case h_1 c group d name parts =>
      cases read
      rw [parts] at whole avoid
      have written : text = String.ofList (c :: group) ++ ":" ++ String.ofList (d :: name) := by
        rw [← String.toList_inj, ← whole]
        simp
      rw [written]
      exact .unversioned (.of_cons (avoid _ (by simp))) (.of_cons (avoid _ (by simp)))
    case h_2 c group d name version parts =>
      cases read
      rw [parts] at whole avoid
      have written : text = String.ofList (c :: group) ++ ":" ++ String.ofList (d :: name) ++ ":"
          ++ String.ofList version := by
        rw [← String.toList_inj, ← whole]
        simp
      rw [written]
      have last : ':' ∉ (String.ofList version).toList := by
        rw [String.toList_ofList]
        exact avoid _ (by simp)
      exact .versioned (.of_cons (avoid _ (by simp))) (.of_cons (avoid _ (by simp))) last
    case h_3 => cases read

theorem ofText?_eq_some_iff : ofText? text = some identity ↔ Spells text identity := by
  refine ⟨spells_of_ofText?, fun spells => ?_⟩
  cases spells with
  | project begins => exact if_pos begins
  | unversioned first second =>
    obtain ⟨c, group, rfl, avoids⟩ := first.exists_cons
    obtain ⟨d, name, rfl, avoids'⟩ := second.exists_cons
    have avoid : ∀ part ∈ [c :: group, d :: name], ':' ∉ part :=
      List.forall_mem_cons.mpr ⟨avoids, List.forall_mem_singleton.mpr avoids'⟩
    exact ofText?_unversioned avoid (by simp)
  | @versioned _ _ version first second last =>
    obtain ⟨c, group, rfl, avoids⟩ := first.exists_cons
    obtain ⟨d, name, rfl, avoids'⟩ := second.exists_cons
    have avoid : ∀ part ∈ [c :: group, d :: name, version.toList], ':' ∉ part :=
      List.forall_mem_cons.mpr ⟨avoids, List.forall_mem_cons.mpr
        ⟨avoids', List.forall_mem_singleton.mpr last⟩⟩
    have read : ofText? (String.ofList (c :: group) ++ ":" ++ String.ofList (d :: name) ++ ":"
        ++ version) = some (library (String.ofList (c :: group)) (String.ofList (d :: name))
          (String.ofList version.toList)) :=
      ofText?_versioned avoid (by simp)
    rwa [String.ofList_toList] at read

/-! ## Canonical texts -/

/-- Whether a text has a second colon, but no version behind it. -/
def IsOpenEnded (text : String) : Prop :=
  ∃ group name, IsPart group ∧ IsPart name ∧ text = group ++ ":" ++ name ++ ":"

/-- Whether a text has two or three parts with colons between them, the first two not empty. -/
def IsCoordinate (text : String) : Prop :=
  ∃ group name, IsPart group ∧ IsPart name ∧ (text = group ++ ":" ++ name ∨
    ∃ version : String, ':' ∉ version.toList ∧ text = group ++ ":" ++ name ++ ":" ++ version)

theorem Spells.unique (spells : Spells text a) (spells' : Spells text b) : a = b := by
  rw [← ofText?_eq_some_iff] at spells spells'
  exact Option.some.inj (spells.symm.trans spells')

theorem Spells.canonical_of_openEnded (spells : Spells text identity) (ended : IsOpenEnded text) :
    text = identity.canonical ++ ":" := by
  obtain ⟨group, name, first, second, rfl⟩ := ended
  have empty : Spells (group ++ ":" ++ name ++ ":") (library group name "") := by
    have spelled : Spells (group ++ ":" ++ name ++ ":" ++ "") (library group name "") :=
      .versioned first second (by simp)
    rwa [String.append_empty] at spelled
  rw [spells.unique empty]
  simp [canonical]

theorem Spells.canonical_eq (spells : Spells text identity) (ended : ¬ IsOpenEnded text) :
    identity.canonical = text := by
  cases spells with
  | project => rfl
  | unversioned => simp [canonical]
  | @versioned group name version first second =>
    have given : version ≠ "" := by
      rintro rfl
      exact ended ⟨group, name, first, second, by simp⟩
    simp [canonical, given]

theorem ofText?_eq_none_iff :
    ofText? text = none ↔ text.startsWith ":" = false ∧ ¬ IsCoordinate text := by
  rw [Option.eq_none_iff_forall_ne_some]
  simp only [ne_eq, ofText?_eq_some_iff]
  constructor
  · intro unread
    refine ⟨Bool.eq_false_iff.mpr fun begins => unread _ (.project begins), ?_⟩
    rintro ⟨group, name, first, second, rfl | ⟨version, last, rfl⟩⟩
    · exact unread _ (.unversioned first second)
    · exact unread _ (.versioned first second last)
  · rintro ⟨begins, other⟩ identity spells
    cases spells with
    | project begins' => exact absurd (begins.symm.trans begins') Bool.false_ne_true
    | @unversioned group name first second => exact other ⟨group, name, first, second, .inl rfl⟩
    | @versioned group name version first second last =>
      exact other ⟨group, name, first, second, .inr ⟨version, last, rfl⟩⟩

/-! ## Identities as data -/

theorem writable_toData {depth : Nat} (identity : Identity) :
    identity.toData.Writable (depth + 1) := by
  cases identity <;> simp [toData]

theorem ofData?_toData (origin : Origin) {depth : Nat} (shallow : depth < Data.maxDepth)
    (identity : Identity) : ofData? origin depth identity.toData = some identity := by
  have kept : identity.toData.kept? origin depth = some identity.toData := by
    obtain ⟨left, room⟩ := Nat.exists_eq_add_of_lt shallow
    have plain : identity.toData.isPlain (Data.maxDepth - depth) = true := by
      have : Data.maxDepth - depth = left + 1 := by omega
      exact this ▸ (writable_toData identity).isPlain
    rw [Data.kept?, plain, Bool.or_true]
    rfl
  rw [ofData?, kept, Option.bind_eq_bind, Option.bind_some]
  cases identity with
  | project path =>
    have tagged : Data.tagged? origin.keep "kind" ["project", "library"] (project path).toData =
        some ("project", .table [("path", .text path)]) :=
      Data.tagged?_table (by simp [kind, ArtifactKind.name]) (by simp)
    simp only [toData] at tagged ⊢
    rw [tagged]
    simp [Data.record?]
  | library group name version =>
    have tagged : Data.tagged? origin.keep "kind" ["project", "library"]
        (library group name version).toData = some ("library",
          .table [("group", .text group), ("name", .text name), ("version", .text version)]) :=
      Data.tagged?_table (by simp [kind, ArtifactKind.name]) (by simp)
    simp only [toData] at tagged ⊢
    rw [tagged]
    simp [Data.record?, List.lookup_cons]

theorem ofData?_read (identity : Identity) (layout : Json.Layout) :
    (Json.read? (String.ofList (Json.chars layout identity.toData))).bind (ofData? .json 0) =
      some identity := by
  have writable : identity.toData.Writable 1 := identity.writable_toData
  rw [read?_chars writable, Option.bind_some, ofData?_toData .json (by decide)]

/-- What a text stands for is called by that text, or by that text without a colon at its end, and
is what that name stands for in turn. No two such identities are called alike. A text stands for
nothing if it neither begins with a colon nor has two or three parts. As data, every identity is
read back. -/
theorem ofText?_canonical :
    (∀ text identity, ofText? text = some identity →
      ofText? identity.canonical = some identity ∧
      (IsOpenEnded text → text = identity.canonical ++ ":") ∧
      (¬ IsOpenEnded text → identity.canonical = text)) ∧
    (∀ text text' a b, ofText? text = some a → ofText? text' = some b →
      a.canonical = b.canonical → a = b) ∧
    (∀ text, ofText? text = none ↔ text.startsWith ":" = false ∧ ¬ IsCoordinate text) ∧
    ∀ identity : Identity,
      (Json.read? (Json.compact identity.toData)).bind (ofData? .json 0) = some identity ∧
      (Json.read? (Json.pretty identity.toData)).bind (ofData? .json 0) = some identity := by
  refine ⟨fun text identity read => ?_, fun text text' a b read read' => ?_,
    fun text => ofText?_eq_none_iff, fun identity => ?_⟩
  · have spells := ofText?_eq_some_iff.mp read
    exact ⟨ofText?_untagged read, spells.canonical_of_openEnded, spells.canonical_eq⟩
  · exact (ofText?_untagged read).inj (ofText?_untagged read')
  · exact ⟨ofData?_read identity .compact, ofData?_read identity (.indented 0)⟩

/-- A text with a colon at its end, and an identity that only data can write. -/
theorem ofText?_canonical_openEnded :
    ofText? "g:n:" = some (library "g" "n" "") ∧
    (library "g" "n" "").canonical ++ ":" = "g:n:" ∧
    ofText? (library "g" "n" "").canonical = some (library "g" "n" "") ∧
    ofText? (library "g" "a:b" "1").canonical = none ∧
    (Json.read? (Json.compact (library "g" "a:b" "1").toData)).bind (ofData? .json 0) =
      some (library "g" "a:b" "1") := by
  obtain ⟨read, unread⟩ : ofText? "g:n:" = some (library "g" "n" "") ∧
      ofText? (library "g" "a:b" "1").canonical = none := by
    decide +kernel
  obtain ⟨texts, -, -, data⟩ := ofText?_canonical
  obtain ⟨again, ended, -⟩ := texts "g:n:" _ read
  refine ⟨read, (ended ⟨"g", "n", ⟨by decide, by decide⟩, ⟨by decide, by decide⟩, by decide⟩).symm,
    again, unread, (data _).1⟩

end Identity

end Linkage
