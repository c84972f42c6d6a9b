import Linkage.Index
import Mathlib.Algebra.Ring.Nat
import Mathlib.Data.List.Basic

/-!
# Ownership on a classpath

An index is built one artifact at a time. `Describes` says what it holds once some definitions have
been taken in; `add_describes` is the step and `addAll_describes` the whole run.
-/

namespace Linkage

abbrev Definition := Dependency × SymbolSet

variable {definitions before : List Definition} {definition : Definition} {symbol : Symbol}

def identitiesOf (definitions : List Definition) : List Identity :=
  definitions.map fun definition => definition.1.identity

def firstDefiner? (definitions : List Definition) (symbol : Symbol) : Option Definition :=
  definitions.find? fun definition => definition.2.contains symbol

def allDefined (definitions : List Definition) : SymbolSet :=
  SymbolSet.ofList (definitions.flatMap fun definition => definition.2.toList)

def withEarlier (definitions : List Definition) : List (List Definition × Definition) :=
  definitions.zipIdx.map fun (definition, place) => (definitions.take place, definition)

def ownedArtifact (before : List Definition) (definition : Definition) : Artifact where
  identity := definition.1.identity
  declaration := definition.1.declaration
  parents := definition.1.parents
  symbols := definition.2 \ allDefined before

/-- The ambiguities of a definition: its symbols that an earlier one defines, in order. -/
def contested (before : List Definition) (definition : Definition) : List Ambiguity :=
  definition.2.toList.filterMap fun symbol =>
    (firstDefiner? before symbol).map fun owner =>
      { symbol, owner := owner.1.identity.canonical,
        claimant := definition.1.identity.canonical }

theorem firstDefiner?_concat :
    firstDefiner? (before ++ [definition]) symbol =
      (firstDefiner? before symbol).or
        (if symbol ∈ definition.2 then some definition else none) := by
  rw [firstDefiner?, List.find?_append, firstDefiner?]
  congr 1
  by_cases member : symbol ∈ definition.2
  · rw [if_pos member]
    exact List.find?_cons_of_pos (SymbolSet.contains_eq_true_iff.mpr member)
  · rw [if_neg member]
    exact List.find?_cons_of_neg (by simpa using member)

theorem mem_allDefined :
    symbol ∈ allDefined definitions ↔ ∃ definition ∈ definitions, symbol ∈ definition.2 := by
  rw [allDefined, SymbolSet.mem_ofList, List.mem_flatMap]
  rfl

theorem firstDefiner?_isNone :
    firstDefiner? definitions symbol = none ↔ symbol ∉ allDefined definitions := by
  simp [firstDefiner?, mem_allDefined]

theorem firstDefiner?_defines (first : firstDefiner? definitions symbol = some definition) :
    definition ∈ definitions ∧ symbol ∈ definition.2 := by
  rw [firstDefiner?] at first
  have defines := List.find?_some first
  exact ⟨List.mem_of_find?_eq_some first, SymbolSet.contains_eq_true_iff.mp defines⟩

theorem withEarlier_concat :
    withEarlier (before ++ [definition]) = withEarlier before ++ [(before, definition)] := by
  unfold withEarlier
  rw [List.zipIdx_append, List.map_append]
  congr 1
  · apply List.map_congr_left
    rintro ⟨earlier, place⟩ member
    have bound := (List.mem_zipIdx' member).1
    change (List.take place (before ++ _), earlier) = (List.take place before, earlier)
    rw [List.take_append_of_le_length (Nat.le_of_lt bound)]
  · simp

theorem mem_withEarlier :
    (before, definition) ∈ withEarlier definitions ↔
      ∃ after, definitions = before ++ definition :: after := by
  rw [withEarlier, List.mem_map]
  constructor
  · rintro ⟨⟨_, place⟩, member, ⟨⟩⟩
    obtain ⟨bound, here⟩ := List.mem_zipIdx' member
    refine ⟨definitions.drop (place + 1), ?_⟩
    rw [here, ← List.drop_eq_getElem_cons bound, List.take_append_drop]
  · rintro ⟨after, rfl⟩
    refine ⟨(definition, before.length), ?_, ?_⟩
    · rw [List.mem_zipIdx_iff_getElem?]
      simp
    · simp

/-! ## The owners -/

theorem owners_foldl (symbols : List Symbol) (identity : Identity)
    (owners : Std.HashMap Symbol Identity) (symbol : Symbol) :
    (symbols.foldl (fun owners symbol => owners.insert symbol identity) owners)[symbol]? =
      if symbol ∈ symbols then some identity else owners[symbol]? := by
  induction symbols generalizing owners with
  | nil => simp
  | cons first rest ih =>
    rw [List.foldl_cons, ih, Std.HashMap.getElem?_insert]
    by_cases later : symbol ∈ rest
    · simp [later]
    · by_cases same : first = symbol
      · simp [same]
      · simp [later, same, Ne.symm same]

theorem owners_foldl_size (symbols : List Symbol) (identity : Identity)
    (owners : Std.HashMap Symbol Identity) (distinct : symbols.Nodup)
    (fresh : ∀ symbol ∈ symbols, symbol ∉ owners) :
    (symbols.foldl (fun owners symbol => owners.insert symbol identity) owners).size =
      owners.size + symbols.length := by
  induction symbols generalizing owners with
  | nil => rfl
  | cons first rest ih =>
    obtain ⟨new, distinct⟩ := List.nodup_cons.mp distinct
    have unseen : first ∉ owners := fresh first (by simp)
    have fresh' : ∀ symbol ∈ rest, symbol ∉ owners.insert first identity := by
      intro symbol member
      rw [Std.HashMap.mem_insert]
      rintro (same | seen)
      · exact new (eq_of_beq same ▸ member)
      · exact fresh symbol (List.mem_cons_of_mem _ member) seen
    rw [List.foldl_cons, ih _ distinct fresh', Std.HashMap.size_insert, if_neg unseen,
      List.length_cons]
    omega

/-! ## One artifact more -/

structure Index.Describes (index : Index) (definitions : List Definition) : Prop where
  artifacts : index.artifacts = (withEarlier definitions).map fun (before, definition) =>
    ownedArtifact before definition
  owners : ∀ symbol, index.owners[symbol]? =
    (firstDefiner? definitions symbol).map fun definition => definition.1.identity
  ambiguities : index.ambiguities = (withEarlier definitions).flatMap fun (before, definition) =>
    contested before definition
  total : index.owners.size = (index.artifacts.map fun artifact => artifact.symbols.size).sum

namespace Index

variable {index : Index}

theorem empty_describes : Index.empty.Describes [] where
  artifacts := rfl
  owners symbol := by
    change (∅ : Std.HashMap Symbol Identity)[symbol]? = none
    exact Std.HashMap.getElem?_empty
  ambiguities := rfl
  total := Std.HashMap.size_empty

theorem Describes.mem_owners (described : index.Describes before) :
    symbol ∈ index.owners ↔ symbol ∈ allDefined before := by
  rw [Std.HashMap.mem_iff_isSome_getElem?, described.owners, Option.isSome_map,
    ← Option.ne_none_iff_isSome, ne_eq, firstDefiner?_isNone, not_not]

theorem Describes.owned (described : index.Describes before) (defined : SymbolSet) :
    (defined.filter fun symbol => !index.owners.contains symbol) =
      defined \ allDefined before := by
  apply SymbolSet.ext
  intro symbol
  rw [SymbolSet.mem_filter, SymbolSet.mem_diff, Bool.not_eq_true', ← Bool.not_eq_true,
    Std.HashMap.contains_iff_mem, described.mem_owners]

theorem Describes.contested (described : index.Describes before) (definition : Definition) :
    (definition.2.toList.filterMap fun symbol => index.owners[symbol]?.map fun owner =>
      ({ symbol, owner := owner.canonical,
         claimant := definition.1.identity.canonical } : Ambiguity)) =
      contested before definition := by
  unfold Linkage.contested
  congr 1
  funext symbol
  rw [described.owners, Option.map_map]
  rfl

theorem add_describes (described : index.Describes before) (definition : Definition) :
    (index.add definition.1 definition.2).Describes (before ++ [definition]) where
  artifacts := by
    rw [withEarlier_concat, List.map_append, ← described.artifacts]
    simp only [add, described.owned]
    rfl
  owners symbol := by
    simp only [add]
    rw [owners_foldl, firstDefiner?_concat, described.owners]
    cases seen : firstDefiner? before symbol with
    | none =>
      have new : symbol ∉ index.owners :=
        described.mem_owners.not.mpr (firstDefiner?_isNone.mp seen)
      by_cases member : symbol ∈ definition.2
      · simp [← SymbolSet.mem_def, member, new]
      · simp [← SymbolSet.mem_def, member]
    | some owner =>
      have old : symbol ∈ index.owners := by
        rw [described.mem_owners]
        by_contra unseen
        rw [firstDefiner?_isNone.mpr unseen] at seen
        cases seen
      simp [← SymbolSet.mem_def, old]
  ambiguities := by
    rw [withEarlier_concat, List.flatMap_append, ← described.ambiguities]
    simp only [add, described.contested]
    simp
  total := by
    simp only [add, List.map_append, List.sum_append, ← described.total]
    rw [owners_foldl_size _ _ _ (SymbolSet.nodup _)]
    · simp [SymbolSet.size]
    · intro symbol member
      have fresh := (SymbolSet.mem_filter.mp (SymbolSet.mem_def.mpr member)).2
      simpa using fresh

/-! ## All artifacts -/

def FirstRepeat (definitions : List Definition) (repeated : Definition) : Prop :=
  ∃ earlier later, definitions = earlier ++ repeated :: later ∧
    (identitiesOf earlier).Nodup ∧ repeated.1.identity ∈ identitiesOf earlier

theorem FirstRepeat.not_nodup {repeated : Definition}
    (first : FirstRepeat definitions repeated) : ¬ (identitiesOf definitions).Nodup := by
  obtain ⟨earlier, later, rfl, -, known⟩ := first
  intro distinct
  rw [identitiesOf, List.map_append, List.map_cons, List.nodup_append] at distinct
  exact distinct.2.2 _ known _ (List.mem_cons_self ..) rfl

theorem FirstRepeat.unique {first second : Definition} (left : FirstRepeat definitions first)
    (right : FirstRepeat definitions second) : first = second := by
  obtain ⟨earlier, later, rfl, distinct, known⟩ := left
  obtain ⟨earlier', later', same, distinct', known'⟩ := right
  -- The shorter front has no repeat, so the longer one cannot reach past its end.
  rcases List.append_eq_append_iff.mp same with ⟨middle, front, back⟩ | ⟨middle, front, back⟩
  · cases middle with
    | nil => exact (List.cons.inj (by simpa using back)).1
    | cons next middle =>
      obtain ⟨rfl, -⟩ := List.cons.inj back
      exact absurd distinct' (FirstRepeat.not_nodup ⟨earlier, middle, front, distinct, known⟩)
  · cases middle with
    | nil => exact (List.cons.inj (by simpa using back)).1.symm
    | cons next middle =>
      obtain ⟨rfl, -⟩ := List.cons.inj back
      exact absurd distinct (FirstRepeat.not_nodup ⟨earlier', middle, front, distinct', known'⟩)

theorem Describes.identities (described : index.Describes before) :
    index.artifacts.map Artifact.identity = identitiesOf before := by
  rw [described.artifacts, List.map_map, withEarlier, List.map_map, identitiesOf]
  conv_rhs => rw [← List.zipIdx_map_fst 0 before, List.map_map]
  rfl

theorem Describes.any_identity (described : index.Describes before) (identity : Identity) :
    (index.artifacts.any fun artifact => artifact.identity = identity) = true ↔
      identity ∈ identitiesOf before := by
  rw [← described.identities, List.any_eq_true, List.mem_map]
  simp only [decide_eq_true_eq]

theorem addAll_describes (described : index.Describes before)
    (distinct : (identitiesOf before).Nodup) (rest : List Definition) :
    match index.addAll rest with
    | .ok result =>
        result.Describes (before ++ rest) ∧ (identitiesOf (before ++ rest)).Nodup
    | .error failure => ∃ repeated, FirstRepeat (before ++ rest) repeated ∧
        failure = .duplicateArtifact repeated.1.identity.canonical := by
  induction rest generalizing index before with
  | nil =>
    rw [addAll, List.append_nil]
    exact ⟨described, distinct⟩
  | cons definition rest ih =>
    obtain ⟨dependency, defined⟩ := definition
    rw [addAll]
    by_cases known : dependency.identity ∈ identitiesOf before
    · rw [if_pos ((described.any_identity _).mpr known)]
      exact ⟨(dependency, defined), ⟨before, rest, rfl, distinct, known⟩, rfl⟩
    · rw [if_neg ((described.any_identity _).not.mpr known)]
      have more : (identitiesOf (before ++ [(dependency, defined)])).Nodup := by
        rw [identitiesOf, List.map_append, List.nodup_append]
        refine ⟨distinct, by simp, ?_⟩
        intro identity member other single same
        rw [List.map_singleton, List.mem_singleton] at single
        exact known (single ▸ same ▸ member)
      have result := ih (add_describes described (dependency, defined)) more
      rwa [List.append_assoc] at result

theorem Describes.symbolCount_eq (described : index.Describes definitions) :
    index.symbolCount = (allDefined definitions).size := by
  have keys : index.owners.keys.Perm (allDefined definitions).toList := by
    apply (List.perm_ext_iff_of_nodup _ (SymbolSet.nodup _)).mpr
    · intro symbol
      rw [Std.HashMap.mem_keys, described.mem_owners, SymbolSet.mem_def]
    · apply Std.HashMap.distinct_keys.imp
      intro a b different same
      simp [same] at different
  rw [symbolCount, ← Std.HashMap.length_keys, keys.length_eq, SymbolSet.size]

theorem find?_identity (artifacts : List Artifact) (distinct : (artifacts.map (·.identity)).Nodup)
    {artifact : Artifact} (member : artifact ∈ artifacts) :
    artifacts.find? (·.identity = artifact.identity) = some artifact := by
  induction artifacts with
  | nil => cases member
  | cons first rest ih =>
    obtain ⟨new, distinct⟩ := List.nodup_cons.mp distinct
    rcases List.mem_cons.mp member with rfl | later
    · exact List.find?_cons_of_pos (by simp)
    · rw [List.find?_cons_of_neg, ih distinct later]
      have different : first.identity ≠ artifact.identity := by
        intro same
        exact new (List.mem_map.mpr ⟨artifact, later, same.symm⟩)
      simpa using different

theorem ofDefinitions_describes (definitions : List Definition) :
    match ofDefinitions definitions with
    | .ok index => index.Describes definitions ∧ (identitiesOf definitions).Nodup
    | .error failure => ∃ repeated, FirstRepeat definitions repeated ∧
        failure = .duplicateArtifact repeated.1.identity.canonical :=
  addAll_describes empty_describes List.nodup_nil definitions

theorem accepted_of_distinct (distinct : (identitiesOf definitions).Nodup) :
    ∃ index, ofDefinitions definitions = .ok index ∧ index.Describes definitions := by
  have built := ofDefinitions_describes definitions
  cases accepted : ofDefinitions definitions with
  | error failure =>
    rw [accepted] at built
    obtain ⟨repeated, first, -⟩ := built
    exact absurd distinct first.not_nodup
  | ok index =>
    rw [accepted] at built
    exact ⟨index, rfl, built.1⟩

/-- What an index of some definitions holds: artifacts in order, each with what it is the first to
define, the first definer of each symbol, and one ambiguity for each later definition of it. -/
theorem ofDefinitions_correct (definitions : List Definition) :
    (∀ failure, ofDefinitions definitions = .error failure ↔
      ∃ repeated, FirstRepeat definitions repeated ∧
        failure = .duplicateArtifact repeated.1.identity.canonical) ∧
    ((∃ index, ofDefinitions definitions = .ok index) ↔ (identitiesOf definitions).Nodup) ∧
    ∀ index, ofDefinitions definitions = .ok index →
      (index.artifacts = (withEarlier definitions).map fun (before, definition) =>
        ownedArtifact before definition) ∧
      (∀ symbol, index.ownerOf? symbol =
        (firstDefiner? definitions symbol).map fun definition => definition.1.identity) ∧
      (∀ artifact ∈ index.artifacts, index.get? artifact.identity = some artifact) ∧
      index.symbolCount = (allDefined definitions).size ∧
      index.symbolCount = (index.artifacts.map fun artifact => artifact.symbols.size).sum ∧
      index.ambiguities = (withEarlier definitions).flatMap fun (before, definition) =>
        contested before definition := by
  have built := ofDefinitions_describes definitions
  cases result : ofDefinitions definitions with
  | error failure =>
    rw [result] at built
    obtain ⟨repeated, first, rfl⟩ := built
    refine ⟨fun failure => ?_, ?_, nofun⟩
    · constructor
      · rintro ⟨⟩
        exact ⟨repeated, first, rfl⟩
      · rintro ⟨other, first', rfl⟩
        rw [first.unique first']
    · exact ⟨nofun, fun distinct => absurd distinct first.not_nodup⟩
  | ok index =>
    rw [result] at built
    obtain ⟨described, distinct⟩ := built
    refine ⟨fun failure => ?_, ⟨fun _ => distinct, fun _ => ⟨index, rfl⟩⟩, ?_⟩
    · constructor
      · nofun
      · rintro ⟨repeated, first, -⟩
        exact absurd distinct first.not_nodup
    · rintro _ ⟨⟩
      exact ⟨described.artifacts, described.owners,
        fun artifact => find?_identity _ (described.identities ▸ distinct),
        described.symbolCount_eq, described.total, described.ambiguities⟩

end Index

end Linkage
