import Linkage.Proofs.GraphFacts
import Linkage.Proofs.Ordering
import Mathlib.Data.List.Perm.Subperm
import Mathlib.Logic.Relation

/-!
# What leads to an artifact

A search from an artifact against the edges finds all artifacts that lead to it: what has been seen
and does not wait in the queue has no parent that has not been seen. So `via` lists the direct
dependencies that lead to an artifact, and no others: `mem_via`. It lists each once, and which ones it
lists depends on what has been noted and not on when or how often: `via_lists_leading`.
-/

namespace Linkage

namespace DependencyGraph

variable {graph : DependencyGraph} {facts : List Fact} {x y parent child target : Identity}
  {found unseen queue : List Identity}

def Brings (graph : DependencyGraph) (parent child : Identity) : Prop :=
  (parent, child) ∈ graph.edges

theorem mem_parentsOf : parent ∈ graph.parentsOf child ↔ graph.Brings parent child := by
  simp [parentsOf, Brings]

theorem mem_discover (distinct : unseen.Nodup) :
    x ∈ (discover found unseen).1 ↔ x ∈ found ∧ x ∈ unseen := by
  fun_induction discover found unseen with
  | case1 => simp
  | case2 identity found unseen member new left split ih =>
    rw [split] at ih
    simp only [List.mem_cons, ih (distinct.erase identity), distinct.mem_erase_iff]
    by_cases same : x = identity
    · simp [same, member]
    · simp [same]
  | case3 identity found unseen absent ih =>
    rw [ih distinct, List.mem_cons]
    constructor
    · exact fun both => ⟨.inr both.1, both.2⟩
    · rintro ⟨rfl | later, member⟩
      · exact absurd member absent
      · exact ⟨later, member⟩

theorem mem_left (distinct : unseen.Nodup) :
    x ∈ (discover found unseen).2 ↔ x ∈ unseen ∧ x ∉ found := by
  fun_induction discover found unseen with
  | case1 => simp
  | case2 identity found unseen member new left split ih =>
    rw [split] at ih
    rw [ih (distinct.erase identity), distinct.mem_erase_iff, List.mem_cons, not_or]
    tauto
  | case3 identity found unseen absent ih =>
    rw [ih distinct, List.mem_cons, not_or]
    constructor
    · rintro ⟨member, others⟩
      exact ⟨member, fun same => absent (same ▸ member), others⟩
    · rintro ⟨member, -, others⟩
      exact ⟨member, others⟩

theorem discover_perm (found unseen : List Identity) :
    ((discover found unseen).1 ++ (discover found unseen).2).Perm unseen := by
  fun_induction discover found unseen with
  | case1 => exact .refl _
  | case2 unseen identity found member new left split ih =>
    rw [split] at ih
    exact (ih.cons unseen).trans (List.perm_cons_erase member).symm
  | case3 identity unseen found absent ih => exact ih

theorem left_nodup (distinct : unseen.Nodup) : (discover found unseen).2.Nodup := by
  fun_induction discover found unseen with
  | case1 => exact distinct
  | case2 identity found unseen member new left split ih =>
    rw [split] at ih
    exact ih (distinct.erase identity)
  | case3 identity found unseen absent ih => exact ih distinct

/-! ## The search -/

theorem mem_ancestors_of_queue (queued : x ∈ queue) : x ∈ graph.ancestors queue unseen := by
  fun_induction ancestors graph queue unseen with
  | case1 => exact queued
  | case2 unseen identity rest _ found ih =>
    rcases List.mem_cons.mp queued with rfl | later
    · exact .head _
    · exact .tail _ (ih (List.mem_append_left _ later))

theorem leads_of_mem_ancestors (distinct : unseen.Nodup) (listed : x ∈ graph.ancestors queue unseen) :
    ∃ y ∈ queue, Relation.ReflTransGen graph.Brings x y := by
  fun_induction ancestors graph queue unseen with
  | case1 => cases listed
  | case2 unseen identity rest _ found ih =>
    rcases List.mem_cons.mp listed with rfl | later
    · exact ⟨x, .head _, .refl⟩
    · obtain ⟨y, queued, leads⟩ := ih (left_nodup distinct) later
      rcases List.mem_append.mp queued with waiting | new
      · exact ⟨y, .tail _ waiting, leads⟩
      · exact ⟨identity, .head _, leads.tail (mem_parentsOf.mp ((mem_discover distinct).mp new).1)⟩

/-- What has been seen has no unseen parents, unless it is still in the queue. -/
def Closed (graph : DependencyGraph) (queue unseen : List Identity) : Prop :=
  ∀ parent child, graph.Brings parent child → child ∉ unseen → child ∈ queue ∨ parent ∉ unseen

theorem Closed.leads_seen (closed : graph.Closed [] unseen) (seen : y ∉ unseen)
    (leads : Relation.ReflTransGen graph.Brings x y) : x ∉ unseen := by
  induction leads using Relation.ReflTransGen.head_induction_on with
  | refl => exact seen
  | head edge _ ih => exact (closed _ _ edge ih).resolve_left List.not_mem_nil

theorem Closed.discover (distinct : unseen.Nodup) (closed : graph.Closed (x :: queue) unseen) :
    graph.Closed (queue ++ (discover (graph.parentsOf x) unseen).1)
      (discover (graph.parentsOf x) unseen).2 := by
  intro parent child edge seen
  rw [mem_left distinct] at seen ⊢
  rw [List.mem_append, mem_discover distinct]
  by_cases before : child ∈ unseen
  · exact .inl (.inr ⟨not_not.mp fun other => seen ⟨before, other⟩, before⟩)
  · rcases closed parent child edge before with queued | already
    · rcases List.mem_cons.mp queued with rfl | waiting
      · exact .inr fun ⟨_, other⟩ => other (mem_parentsOf.mpr edge)
      · exact .inl (.inl waiting)
    · exact .inr fun ⟨new, _⟩ => already new

theorem mem_ancestors_of_leads (distinct : unseen.Nodup) (closed : graph.Closed queue unseen)
    (seen : y ∉ unseen) (leads : Relation.ReflTransGen graph.Brings x y) (new : x ∈ unseen) :
    x ∈ graph.ancestors queue unseen := by
  fun_induction ancestors graph queue unseen with
  | case1 => exact absurd new (closed.leads_seen seen leads)
  | case2 unseen identity rest _ found ih =>
    by_cases later : x ∈ found.2
    · have seen' : y ∉ found.2 := fun member => seen ((mem_left distinct).mp member).1
      exact .tail _ (ih (left_nodup distinct) (closed.discover distinct) seen' later)
    · have parent : x ∈ graph.parentsOf identity :=
        not_not.mp fun other => later ((mem_left distinct).mpr ⟨new, other⟩)
      exact .tail _ (mem_ancestors_of_queue
        (List.mem_append_right _ ((mem_discover distinct).mpr ⟨parent, new⟩)))

/-! ## Direct dependencies -/

theorem Reflects.mem_nodes_of_brings (reflects : graph.Reflects facts)
    (edge : graph.Brings parent child) : parent ∈ graph.nodes ∧ child ∈ graph.nodes := by
  have noted := ((reflects.edges parent child).mp edge).2
  exact ⟨(reflects.nodes parent).mpr ⟨_, noted, .inl rfl⟩,
    (reflects.nodes child).mpr ⟨_, noted, .inr rfl⟩⟩

theorem Reflects.mem_unseen (reflects : graph.Reflects facts) :
    x ∈ graph.nodes.erase target ↔ x ≠ target ∧ x ∈ graph.nodes :=
  reflects.nodes_nodup.mem_erase_iff

theorem Reflects.closed (reflects : graph.Reflects facts) (target : Identity) :
    graph.Closed [target] (graph.nodes.erase target) := by
  intro parent child edge seen
  rw [reflects.mem_unseen, not_and_or, not_not] at seen
  exact .inl (List.mem_singleton.mpr
    (seen.resolve_right (not_not.mpr (reflects.mem_nodes_of_brings edge).2)))

theorem Reflects.isDirect_iff (reflects : graph.Reflects facts) :
    graph.isDirect x = true ↔ .artifact x .direct ∈ facts := by
  rw [isDirect, List.contains_iff_mem, reflects.direct]

theorem Reflects.mem_ancestors (reflects : graph.Reflects facts) :
    x ∈ graph.ancestors [target] (graph.nodes.erase target) ↔
      Relation.ReflTransGen graph.Brings x target := by
  have distinct : (graph.nodes.erase target).Nodup := reflects.nodes_nodup.erase target
  constructor
  · intro listed
    obtain ⟨y, queued, leads⟩ := leads_of_mem_ancestors distinct listed
    exact List.mem_singleton.mp queued ▸ leads
  · intro leads
    by_cases same : x = target
    · exact mem_ancestors_of_queue (List.mem_singleton.mpr same)
    · have known : x ∈ graph.nodes := by
        rcases leads.cases_head with rfl | ⟨next, edge, -⟩
        · exact absurd rfl same
        · exact (reflects.mem_nodes_of_brings edge).1
      have seen : target ∉ graph.nodes.erase target := fun member =>
        (reflects.mem_unseen.mp member).1 rfl
      exact mem_ancestors_of_leads distinct (reflects.closed target) seen leads
        (reflects.mem_unseen.mpr ⟨same, known⟩)

theorem Reflects.mem_via (reflects : graph.Reflects facts) :
    x ∈ graph.via target ↔ .artifact x .direct ∈ facts ∧ x ≠ target ∧
      Relation.ReflTransGen graph.Brings x target := by
  unfold via
  split
  case isTrue =>
    rw [List.mem_mergeSort, List.mem_filter, reflects.mem_ancestors, Bool.and_eq_true,
      decide_eq_true_eq, reflects.isDirect_iff]
    tauto
  case isFalse unknown =>
    simp only [List.not_mem_nil, false_iff, not_and]
    intro _ different leads
    rcases leads.cases_tail with rfl | ⟨last, -, edge⟩
    · exact different rfl
    · exact unknown (reflects.mem_nodes_of_brings edge).2

/-! ## Each once, in canonical order -/

theorem ancestors_subperm (graph : DependencyGraph) (queue unseen : List Identity) :
    (graph.ancestors queue unseen).Subperm (queue ++ unseen) := by
  fun_induction ancestors graph queue unseen with
  | case1 => exact List.nil_subperm
  | case2 unseen identity rest _ found ih =>
    have kept : (rest ++ found.1 ++ found.2).Perm (rest ++ unseen) := by
      rw [List.append_assoc]
      exact (discover_perm _ _).append_left rest
    exact (List.subperm_cons identity).mpr (ih.trans kept.subperm)

theorem Reflects.ancestors_nodup (reflects : graph.Reflects facts) (target : Identity) :
    (graph.ancestors [target] (graph.nodes.erase target)).Nodup := by
  have distinct : ([target] ++ graph.nodes.erase target).Nodup :=
    List.nodup_cons.mpr ⟨reflects.nodes_nodup.not_mem_erase, reflects.nodes_nodup.erase target⟩
  obtain ⟨listed, perm, within⟩ := graph.ancestors_subperm [target] (graph.nodes.erase target)
  exact perm.nodup_iff.mp (distinct.sublist within)

theorem Reflects.via_nodup (reflects : graph.Reflects facts) : (graph.via target).Nodup := by
  unfold via
  split
  case isTrue =>
    exact (List.mergeSort_perm _ _).nodup_iff.mpr ((reflects.ancestors_nodup target).filter _)
  case isFalse => exact .nil

theorem via_inOrder (graph : DependencyGraph) (target : Identity) :
    (graph.via target).Pairwise fun a b => a.canonical ≤ b.canonical := by
  unfold via
  split
  case isTrue => exact mergeSort_by_text Identity.canonical _
  case isFalse => exact .nil

/-! ## Noted chains -/

/-- Whether a chain of one or more noted edges goes from one artifact to another. -/
def LeadsTo (facts : List Fact) : Identity → Identity → Prop :=
  Relation.TransGen fun parent child => .brings parent child ∈ facts

/-- Noted edges from an artifact to itself are no edges, but they lead nowhere else either. -/
theorem Reflects.leadsTo_iff (reflects : graph.Reflects facts) (other : x ≠ target) :
    LeadsTo facts x target ↔ Relation.ReflTransGen graph.Brings x target := by
  constructor
  · intro leads
    refine Relation.reflTransGen_closed (fun parent child noted => ?_) _ _ leads.to_reflTransGen
    by_cases same : parent = child
    · exact same ▸ .refl
    · exact .single ((reflects.edges parent child).mpr ⟨same, noted⟩)
  · intro leads
    have noted : Relation.ReflTransGen (fun parent child => .brings parent child ∈ facts) x target :=
      Relation.ReflTransGen.mono
        (fun parent child edge => ((reflects.edges parent child).mp edge).2) _ _ leads
    exact (Relation.reflTransGen_iff_eq_or_transGen.mp noted).resolve_left (Ne.symm other)

theorem Reflects.mem_via_iff (reflects : graph.Reflects facts) :
    x ∈ graph.via target ↔
      x ≠ target ∧ .artifact x .direct ∈ facts ∧ LeadsTo facts x target := by
  rw [reflects.mem_via]
  constructor
  · rintro ⟨direct, other, leads⟩
    exact ⟨other, direct, (reflects.leadsTo_iff other).mpr leads⟩
  · rintro ⟨other, direct, leads⟩
    exact ⟨direct, other, (reflects.leadsTo_iff other).mp leads⟩

/-- Whether the same artifacts are direct dependencies and bring in the same others by two lists of
facts. -/
structure SameLinks (facts facts' : List Fact) : Prop where
  direct : ∀ identity, .artifact identity .direct ∈ facts ↔ .artifact identity .direct ∈ facts'
  brings : ∀ parent child, parent ≠ child →
    (.brings parent child ∈ facts ↔ .brings parent child ∈ facts')

theorem Reflects.via_perm {graph' : DependencyGraph} {facts' : List Fact}
    (reflects : graph.Reflects facts) (reflects' : graph'.Reflects facts')
    (same : SameLinks facts facts') : (graph.via target).Perm (graph'.via target) := by
  have brings : graph.Brings = graph'.Brings := by
    funext parent child
    refine propext ((reflects.edges parent child).trans ?_)
    exact (and_congr_right (same.brings parent child)).trans (reflects'.edges parent child).symm
  rw [List.perm_ext_iff_of_nodup reflects.via_nodup reflects'.via_nodup]
  intro x
  rw [reflects.mem_via, reflects'.mem_via, same.direct, brings]

/-- A graph has a node for each artifact and an edge for each two artifacts of which one is noted to
bring in the other. What is listed for a target are the direct dependencies other than the target
that lead to it, each once and in canonical order; which ones they are depends on what has been noted
only. -/
theorem via_lists_leading (facts : List Fact) (target : Identity) :
    ((ofFacts facts).nodes.Nodup ∧ ∀ identity,
      identity ∈ (ofFacts facts).nodes ↔ ∃ fact ∈ facts, fact.Mentions identity) ∧
    ((ofFacts facts).edges.Nodup ∧ ∀ parent child,
      (parent, child) ∈ (ofFacts facts).edges ↔ parent ≠ child ∧ .brings parent child ∈ facts) ∧
    (((ofFacts facts).via target).Nodup ∧
      ((ofFacts facts).via target).Pairwise (fun a b => a.canonical ≤ b.canonical) ∧
      ∀ identity, identity ∈ (ofFacts facts).via target ↔
        identity ≠ target ∧ .artifact identity .direct ∈ facts ∧ LeadsTo facts identity target) ∧
    ((¬ ∃ fact ∈ facts, fact.Mentions target) → (ofFacts facts).via target = []) ∧
    ∀ others, SameLinks others facts →
      ((ofFacts others).via target).Perm ((ofFacts facts).via target) := by
  have reflects := ofFacts_reflects facts
  refine ⟨⟨reflects.nodes_nodup, reflects.nodes⟩, ⟨reflects.edges_nodup, reflects.edges⟩,
    ⟨reflects.via_nodup, via_inOrder _ target, fun identity => reflects.mem_via_iff⟩, ?_, ?_⟩
  · intro unknown
    rw [← reflects.nodes] at unknown
    exact if_neg unknown
  · intro others same
    exact (ofFacts_reflects others).via_perm reflects same

/-- A cycle through the target, which is direct itself, and an edge noted twice. -/
example : (ofFacts [.brings (.project ":b") (.project ":t"), .artifact (.project ":t") .direct,
    .artifact (.project ":b") .direct, .brings (.project ":t") (.project ":a"),
    .brings (.project ":a") (.project ":b"), .artifact (.project ":a") .direct,
    .brings (.project ":b") (.project ":t")]).via (.project ":t") =
      [.project ":a", .project ":b"] := by cbv

end DependencyGraph

end Linkage
