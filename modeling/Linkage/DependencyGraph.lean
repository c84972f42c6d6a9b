import Linkage.Artifact

/-!
Which dependency brings in which.

An edge leads from an artifact to one that it brings in. Questions are asked about a target and
answered by searching from it against the edges, breadth first, the newest edge into an artifact
first. A search keeps the artifacts that it has not seen and ends when none are left.
-/

namespace Linkage

/-- A graph of artifacts. `edges` holds parent and child, the newest edge first. -/
structure DependencyGraph where
  nodes : List Identity
  edges : List (Identity × Identity)
  direct : List Identity
  deriving DecidableEq, Repr

namespace DependencyGraph

def empty : DependencyGraph := ⟨[], [], []⟩

def addNode (graph : DependencyGraph) (identity : Identity) : DependencyGraph :=
  if identity ∈ graph.nodes then graph else { graph with nodes := graph.nodes ++ [identity] }

def addArtifact (graph : DependencyGraph) (identity : Identity) (declaration : Declaration) :
    DependencyGraph :=
  let graph := graph.addNode identity
  if declaration = .direct then { graph with direct := identity :: graph.direct } else graph

/-- Notes that an artifact brings in another. Nothing brings in itself, and noting an edge again
changes nothing. -/
def addEdge (graph : DependencyGraph) (parent child : Identity) : DependencyGraph :=
  let graph := (graph.addNode parent).addNode child
  if parent = child ∨ (parent, child) ∈ graph.edges then graph
  else { graph with edges := (parent, child) :: graph.edges }

/-- The graph of a resolved classpath. Parents that are not on it are part of the graph as well. -/
def ofDependencies (dependencies : List Dependency) : DependencyGraph :=
  let graph := dependencies.foldl
    (fun graph dependency => graph.addArtifact dependency.identity dependency.declaration) empty
  dependencies.foldl (fun graph dependency =>
    dependency.parents.foldl (fun graph parent => graph.addEdge parent dependency.identity) graph)
    graph

def isDirect (graph : DependencyGraph) (identity : Identity) : Bool :=
  graph.direct.contains identity

def parentsOf (graph : DependencyGraph) (child : Identity) : List Identity :=
  graph.edges.filterMap fun (parent, target) => if target = child then some parent else none

/-- Those of some artifacts that have not been seen, each once, and the ones that then remain
unseen. -/
def discover : (found unseen : List Identity) → List Identity × List Identity
  | [], unseen => ([], unseen)
  | identity :: found, unseen =>
    if identity ∈ unseen then
      let (new, left) := discover found (unseen.erase identity)
      (identity :: new, left)
    else discover found unseen

theorem discover_length (found unseen : List Identity) :
    (discover found unseen).1.length + (discover found unseen).2.length = unseen.length := by
  fun_induction discover found unseen with
  | case1 => simp
  | case2 unseen identity found member new left split ih =>
    have := List.length_pos_of_mem member
    rw [List.length_erase_of_mem member, split] at ih
    simp only [List.length_cons] at ih ⊢
    omega
  | case3 _ _ _ _ ih => exact ih

def ancestors (graph : DependencyGraph) (queue unseen : List Identity) : List Identity :=
  match queue with
  | [] => []
  | identity :: rest =>
    have := discover_length (graph.parentsOf identity) unseen
    let found := discover (graph.parentsOf identity) unseen
    identity :: ancestors graph (rest ++ found.1) found.2
termination_by queue.length + unseen.length
decreasing_by
  simp only [List.length_append, List.length_cons]
  omega

def via (graph : DependencyGraph) (target : Identity) : List Identity :=
  if target ∈ graph.nodes then
    let found := graph.ancestors [target] (graph.nodes.erase target)
    (found.filter fun identity => identity ≠ target && graph.isDirect identity).mergeSort
      Identity.inOrder
  else []

/-- The chains that are one longer than those in a list and lead on to unseen artifacts, and the
artifacts that then remain unseen. A chain runs from its newest artifact to the target. -/
def lengthen (graph : DependencyGraph) :
    (chains : List (List Identity)) → (unseen : List Identity) →
    List (List Identity) × List Identity
  | [], unseen => ([], unseen)
  | chain :: chains, unseen =>
    let parents := (chain.head?.map graph.parentsOf).getD []
    let (new, left) := discover parents unseen
    let (more, left) := lengthen graph chains left
    (new.map (· :: chain) ++ more, left)

theorem lengthen_length (graph : DependencyGraph) (chains : List (List Identity))
    (unseen : List Identity) :
    (graph.lengthen chains unseen).1.length + (graph.lengthen chains unseen).2.length
      = unseen.length := by
  fun_induction lengthen graph chains unseen with
  | case1 => simp
  | case2 chain chains unseen parents new left found more last longer ih =>
    have := discover_length parents unseen
    rw [found] at this
    rw [longer] at ih
    simp only [List.length_append, List.length_map] at *
    omega

def firstChain? (chains : List (List Identity)) : Option (List Identity) :=
  (chains.mergeSort fun a b =>
    match a.head?, b.head? with
    | some a, some b => a.inOrder b
    | _, _ => true).head?

/-- A shortest chain from a direct dependency to the target, given all chains of one length: the
first in canonical order among those that begin with a direct dependency, or else one found among
longer ones. -/
def shortest? (graph : DependencyGraph) (target : Identity) (chains : List (List Identity))
    (unseen : List Identity) : Option (List Identity) :=
  match chains with
  | [] => none
  | chain :: more =>
    let arrived := (chain :: more).filter fun chain =>
      chain.head?.any fun identity => identity ≠ target && graph.isDirect identity
    match firstChain? arrived with
    | some chain => some chain
    | none =>
      have := lengthen_length graph (chain :: more) unseen
      let longer := graph.lengthen (chain :: more) unseen
      shortest? graph target longer.1 longer.2
termination_by chains.length + unseen.length
decreasing_by
  simp only [List.length_cons]
  omega

def pathTo? (graph : DependencyGraph) (target : Identity) : Option (List Identity) :=
  if target ∈ graph.nodes then graph.shortest? target [[target]] (graph.nodes.erase target)
  else none

end DependencyGraph

end Linkage
