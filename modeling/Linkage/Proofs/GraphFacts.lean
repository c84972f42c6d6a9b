import Linkage.DependencyGraph
import Mathlib.Data.List.Induction
import Mathlib.Data.List.Nodup

/-!
# Graphs and what is noted in them

A graph is built by noting facts, one after the other: `Fact` says what can be noted and
`ofFacts_reflects` what the graph then holds, whatever the order of the facts.
-/

namespace Linkage

namespace DependencyGraph

inductive Fact
  | artifact (identity : Identity) (declaration : Declaration)
  | brings (parent child : Identity)
  deriving DecidableEq, Repr

def record (graph : DependencyGraph) : Fact → DependencyGraph
  | .artifact identity declaration => graph.addArtifact identity declaration
  | .brings parent child => graph.addEdge parent child

def ofFacts (facts : List Fact) : DependencyGraph := facts.foldl record empty

def Fact.Mentions : Fact → Identity → Prop
  | .artifact identity _, other => other = identity
  | .brings parent child, other => other = parent ∨ other = child

structure Reflects (graph : DependencyGraph) (facts : List Fact) : Prop where
  nodes_nodup : graph.nodes.Nodup
  edges_nodup : graph.edges.Nodup
  nodes : ∀ identity, identity ∈ graph.nodes ↔ ∃ fact ∈ facts, fact.Mentions identity
  edges : ∀ parent child,
    (parent, child) ∈ graph.edges ↔ parent ≠ child ∧ .brings parent child ∈ facts
  direct : ∀ identity, identity ∈ graph.direct ↔ .artifact identity .direct ∈ facts

variable {graph : DependencyGraph} {facts : List Fact} {identity parent child : Identity}
  {declaration : Declaration}

theorem mem_addNode {other : Identity} :
    other ∈ (graph.addNode identity).nodes ↔ other ∈ graph.nodes ∨ other = identity := by
  unfold addNode
  split
  case isTrue known => exact ⟨.inl, fun either => either.elim id fun same => same ▸ known⟩
  case isFalse => simp

theorem addNode_nodup (distinct : graph.nodes.Nodup) : (graph.addNode identity).nodes.Nodup := by
  unfold addNode
  split
  case isTrue => exact distinct
  case isFalse new => exact List.nodup_append.mpr ⟨distinct, List.nodup_singleton _, by
    rintro a member b single rfl
    exact new (List.mem_singleton.mp single ▸ member)⟩

@[simp] theorem addNode_edges : (graph.addNode identity).edges = graph.edges := by
  unfold addNode
  split <;> rfl

@[simp] theorem addNode_direct : (graph.addNode identity).direct = graph.direct := by
  unfold addNode
  split <;> rfl

@[simp] theorem addArtifact_nodes :
    (graph.addArtifact identity declaration).nodes = (graph.addNode identity).nodes := by
  unfold addArtifact
  dsimp only
  split <;> rfl

@[simp] theorem addArtifact_edges :
    (graph.addArtifact identity declaration).edges = graph.edges := by
  unfold addArtifact
  dsimp only
  split <;> exact addNode_edges

theorem mem_addArtifact_direct {other : Identity} :
    other ∈ (graph.addArtifact identity declaration).direct ↔
      other ∈ graph.direct ∨ declaration = .direct ∧ other = identity := by
  unfold addArtifact
  dsimp only
  split <;> simp_all [or_comm]

@[simp] theorem addEdge_nodes :
    (graph.addEdge parent child).nodes = ((graph.addNode parent).addNode child).nodes := by
  unfold addEdge
  dsimp only
  split <;> rfl

@[simp] theorem addEdge_direct : (graph.addEdge parent child).direct = graph.direct := by
  unfold addEdge
  dsimp only
  split <;> simp

theorem addEdge_edges : (graph.addEdge parent child).edges =
    if parent = child ∨ (parent, child) ∈ graph.edges then graph.edges
    else (parent, child) :: graph.edges := by
  unfold addEdge
  simp only [addNode_edges]
  split <;> simp

theorem mem_addEdge_edges {edge : Identity × Identity} :
    edge ∈ (graph.addEdge parent child).edges ↔
      edge ∈ graph.edges ∨ parent ≠ child ∧ edge = (parent, child) := by
  rw [addEdge_edges]
  split
  case isTrue idle =>
    constructor
    · exact .inl
    · rintro (known | ⟨different, rfl⟩)
      · exact known
      · exact idle.resolve_left different
  case isFalse new =>
    rw [not_or] at new
    simp [new.1, or_comm]

theorem addEdge_edges_nodup (distinct : graph.edges.Nodup) :
    (graph.addEdge parent child).edges.Nodup := by
  rw [addEdge_edges]
  split
  case isTrue => exact distinct
  case isFalse new => exact List.nodup_cons.mpr ⟨fun known => new (.inr known), distinct⟩

/-! ## One fact, and all facts -/

theorem empty_reflects : empty.Reflects [] := by
  constructor <;> simp [empty]

theorem record_reflects (reflects : graph.Reflects facts) (fact : Fact) :
    (graph.record fact).Reflects (facts ++ [fact]) := by
  cases fact with
  | artifact identity declaration =>
    constructor
    · simpa [record] using addNode_nodup reflects.nodes_nodup
    · simpa [record] using reflects.edges_nodup
    · intro other
      simp [record, mem_addNode, reflects.nodes, Fact.Mentions, or_and_right, exists_or]
    · intro parent child
      simp [record, reflects.edges]
    · intro other
      simp [record, mem_addArtifact_direct, reflects.direct, and_comm, eq_comm]
  | brings parent child =>
    constructor
    · simpa [record] using addNode_nodup (addNode_nodup reflects.nodes_nodup)
    · exact addEdge_edges_nodup reflects.edges_nodup
    · intro other
      simp [record, mem_addNode, reflects.nodes, Fact.Mentions, or_and_right, exists_or, or_assoc]
    · intro parent' child'
      simp only [record, mem_addEdge_edges, reflects.edges, Prod.mk.injEq, List.mem_append,
        List.mem_singleton, Fact.brings.injEq]
      constructor
      · rintro (⟨different, noted⟩ | ⟨different, rfl, rfl⟩)
        · exact ⟨different, .inl noted⟩
        · exact ⟨different, .inr ⟨rfl, rfl⟩⟩
      · rintro ⟨different, noted | ⟨rfl, rfl⟩⟩
        · exact .inl ⟨different, noted⟩
        · exact .inr ⟨different, rfl, rfl⟩
    · intro other
      simp [record, reflects.direct]

theorem ofFacts_reflects (facts : List Fact) : (ofFacts facts).Reflects facts := by
  induction facts using List.reverseRecOn with
  | nil => exact empty_reflects
  | append_singleton facts fact ih =>
    rw [ofFacts, List.foldl_concat]
    exact record_reflects ih fact

def factsOf (dependencies : List Dependency) : List Fact :=
  (dependencies.map fun dependency => .artifact dependency.identity dependency.declaration) ++
    dependencies.flatMap fun dependency =>
      dependency.parents.map fun parent => .brings parent dependency.identity

theorem ofDependencies_eq (dependencies : List Dependency) :
    ofDependencies dependencies = ofFacts (factsOf dependencies) := by
  rw [ofFacts, factsOf, List.foldl_append, List.foldl_map, List.foldl_flatMap]
  simp only [List.foldl_map]
  rfl

end DependencyGraph

end Linkage
