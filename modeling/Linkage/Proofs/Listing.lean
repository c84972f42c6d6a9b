import Linkage.Proofs.Classification
import Linkage.Proofs.Identities

/-!
# Names in a report on misuse

A report names artifacts by their canonical texts, while a classpath holds artifacts of different
identities. So a report names nothing twice exactly if no two of the artifacts that it lists share
their canonical text: `ofUse_namesOnce`. Identities that need no tag never do.
-/

namespace Linkage

variable {config : MisuseConfig} {used : SymbolSet} {index : Index} {graph : DependencyGraph}
  {definitions : List Definition}

/-- Whether a report names nothing in two lists, nor twice in one. -/
structure Misuse.NamesOnce (misuse : Misuse) : Prop where
  once : ∀ heading, (misuse.under heading).Nodup
  apart : ∀ {heading heading' text}, text ∈ misuse.under heading → text ∈ misuse.under heading' →
    heading = heading'

def Artifact.IsListed (artifact : Artifact) (config : MisuseConfig) (used : SymbolSet) : Prop :=
  ∃ heading, artifact.BelongsUnder config used heading

theorem under_nodup {heading : Misuse.Heading} :
    ((Misuse.ofUse config index used graph).under heading).Nodup ↔
      ((index.artifacts.filter fun artifact =>
        (artifact.standing config used).heading? = some heading).map Artifact.canonical).Nodup := by
  rw [under_eq]
  exact (List.mergeSort_perm _ _).nodup_iff

theorem namesOnce_iff (distinct : index.artifacts.Nodup) :
    (Misuse.ofUse config index used graph).NamesOnce ↔
      ∀ a ∈ index.artifacts, ∀ b ∈ index.artifacts, a.IsListed config used →
        b.IsListed config used → a.canonical = b.canonical → a = b := by
  constructor
  · rintro ⟨once, apart⟩ a member b member' ⟨heading, belongs⟩ ⟨heading', belongs'⟩ same
    have together : heading = heading' := by
      apply apart (mem_under.mpr ⟨a, member, belongs, rfl⟩)
      exact mem_under.mpr ⟨b, member', belongs', same.symm⟩
    subst together
    rw [belongsUnder_iff] at belongs belongs'
    have alone := under_nodup.mp (once heading)
    apply List.inj_on_of_nodup_map alone _ _ same
    · exact List.mem_filter.mpr ⟨member, decide_eq_true belongs⟩
    · exact List.mem_filter.mpr ⟨member', decide_eq_true belongs'⟩
  · intro apart
    constructor
    · intro heading
      refine under_nodup.mpr (List.Nodup.map_on ?_ (distinct.filter _))
      intro a listed b listed' same
      obtain ⟨member, stands⟩ := List.mem_filter.mp listed
      obtain ⟨member', stands'⟩ := List.mem_filter.mp listed'
      exact apart a member b member' ⟨heading, belongsUnder_iff.mpr (of_decide_eq_true stands)⟩
        ⟨heading, belongsUnder_iff.mpr (of_decide_eq_true stands')⟩ same
    · intro heading heading' text listed listed'
      obtain ⟨a, member, belongs, rfl⟩ := mem_under.mp listed
      obtain ⟨b, member', belongs', same⟩ := mem_under.mp listed'
      cases apart b member' a member ⟨heading', belongs'⟩ ⟨heading, belongs⟩ same
      exact belongs.unique belongs'

theorem identities_of_accepted (accepted : Index.ofDefinitions definitions = .ok index) :
    index.artifacts.map Artifact.identity = identitiesOf definitions ∧
      (identitiesOf definitions).Nodup := by
  have built := Index.ofDefinitions_describes definitions
  rw [accepted] at built
  exact ⟨built.1.identities, built.2⟩

/-- A report on the artifacts of an index names nothing twice exactly if those that are listed differ
in their canonical texts, and in any case if every identity can be written without a tag. -/
theorem ofUse_namesOnce (accepted : Index.ofDefinitions definitions = .ok index)
    (config : MisuseConfig) (used : SymbolSet) (graph : DependencyGraph) :
    ((Misuse.ofUse config index used graph).NamesOnce ↔
      ∀ a ∈ index.artifacts, ∀ b ∈ index.artifacts, a.IsListed config used →
        b.IsListed config used → a.canonical = b.canonical → a.identity = b.identity) ∧
    ((∀ identity ∈ identitiesOf definitions, ∃ text, Identity.ofText? text = some identity) →
      (Misuse.ofUse config index used graph).NamesOnce) := by
  obtain ⟨identities, distinct⟩ := identities_of_accepted accepted
  rw [← identities] at distinct
  have tells : ∀ a ∈ index.artifacts, ∀ b ∈ index.artifacts, a.identity = b.identity → a = b :=
    fun a member b member' => List.inj_on_of_nodup_map distinct member member'
  rw [namesOnce_iff distinct.of_map]
  constructor
  · constructor
    · exact fun apart a member b member' listed listed' same =>
        congrArg Artifact.identity (apart a member b member' listed listed' same)
    · exact fun apart a member b member' listed listed' same =>
        tells a member b member' (apart a member b member' listed listed' same)
  · intro written a member b member' _ _ same
    have untagged : ∀ artifact ∈ index.artifacts, artifact.identity.Untagged := by
      intro artifact held
      obtain ⟨text, read⟩ := written _ (identities ▸ List.mem_map_of_mem held)
      exact Identity.ofText?_untagged read
    exact tells a member b member' ((untagged a member).inj (untagged b member') same)

open Shadowing in
theorem ofUse_namesOnce_shadowing :
    ∃ index, Index.ofDefinitions [early, late, behind] = .ok index ∧
      (∀ identity ∈ identitiesOf [early, late, behind],
        ∃ text, Identity.ofText? text = some identity) ∧
      (Misuse.ofUse {} index (.ofList [⟨"T"⟩])
        (.ofDependencies [early.1, late.1, behind.1])).NamesOnce := by
  have distinct : (identitiesOf [early, late, behind]).Nodup := by decide
  obtain ⟨index, accepted, -⟩ := Index.accepted_of_distinct distinct
  have written : ∀ identity ∈ identitiesOf [early, late, behind],
      ∃ text, Identity.ofText? text = some identity := by
    have read : Identity.ofText? "g:a" = some early.1.identity ∧
        Identity.ofText? "g:b" = some late.1.identity ∧
        Identity.ofText? "g:t" = some behind.1.identity := by
      decide +kernel
    simp only [identitiesOf, List.map_cons, List.map_nil, List.forall_mem_cons]
    exact ⟨⟨_, read.1⟩, ⟨_, read.2.1⟩, ⟨_, read.2.2⟩,
      fun _ listed => absurd listed List.not_mem_nil⟩
  exact ⟨index, accepted, written, (ofUse_namesOnce accepted _ _ _).2 written⟩

/-! ## Two libraries of one canonical text

The colon before the version of one library is a part of the name of the other.
-/

namespace SharedText

def versioned : Definition := (⟨.library "g" "n" "1", ⟨"a.jar"⟩, .direct, []⟩, .ofList [⟨"A"⟩])

def named : Definition := (⟨.library "g" "n:1" "", ⟨"b.jar"⟩, .transitive, []⟩, .ofList [⟨"B"⟩])

theorem read :
    Identity.ofData? .json 0 (.text "g:n:1") = some versioned.1.identity ∧
    Identity.ofData? .json 0 (.table [("kind", .text "library"), ("group", .text "g"),
      ("name", .text "n:1")]) = some named.1.identity := by
  decide +kernel

theorem versioned_belongs :
    (ownedArtifact [] versioned).BelongsUnder {} (.ofList [⟨"B"⟩]) .unusedDirect := by
  simp [Artifact.BelongsUnder, Artifact.InUse, MisuseConfig.Excuses, ownedArtifact, versioned,
    mem_allDefined]

theorem named_belongs :
    (ownedArtifact [versioned] named).BelongsUnder {} (.ofList [⟨"B"⟩]) .usedTransitive := by
  simp [Artifact.BelongsUnder, Artifact.InUse, ownedArtifact, versioned, named, mem_allDefined]

end SharedText

open SharedText in
/-- One text can name an unused and a used library, both accepted into one index. -/
theorem ofUse_names_twice :
    Identity.ofData? .json 0 (.text "g:n:1") = some versioned.1.identity ∧
    Identity.ofData? .json 0 (.table [("kind", .text "library"), ("group", .text "g"),
      ("name", .text "n:1")]) = some named.1.identity ∧
    ∃ index misuse, Index.ofDefinitions [versioned, named] = .ok index ∧
      misuse = Misuse.ofUse {} index (.ofList [⟨"B"⟩]) (.ofDependencies [versioned.1, named.1]) ∧
      "g:n:1" ∈ misuse.under .unusedDirect ∧ "g:n:1" ∈ misuse.under .usedTransitive ∧
      ¬ misuse.NamesOnce := by
  have distinct : (identitiesOf [versioned, named]).Nodup := by decide
  obtain ⟨index, accepted, described⟩ := Index.accepted_of_distinct distinct
  have artifacts : index.artifacts =
    [ownedArtifact [] versioned, ownedArtifact [versioned] named] := described.artifacts
  have unused : "g:n:1" ∈ (Misuse.ofUse {} index (.ofList [⟨"B"⟩])
      (.ofDependencies [versioned.1, named.1])).under .unusedDirect :=
    mem_under.mpr ⟨_, by simp [artifacts], versioned_belongs, by decide⟩
  have inUse : "g:n:1" ∈ (Misuse.ofUse {} index (.ofList [⟨"B"⟩])
      (.ofDependencies [versioned.1, named.1])).under .usedTransitive :=
    mem_under.mpr ⟨_, by simp [artifacts], named_belongs, by decide⟩
  refine ⟨read.1, read.2, index, _, accepted, rfl, unused, inUse, fun namesOnce => ?_⟩
  exact absurd (namesOnce.apart unused inUse) (by decide)

end Linkage
