import Linkage.Proofs.Ancestors
import Linkage.Proofs.Ordering
import Mathlib.Data.List.Chain

/-!
# Shortest chains

All chains of one length that the search keeps are lengthened together. `Level` says what the search
knows at a length: its chains lead to the target by as few edges as possible, what has not been seen
is further away, and no direct dependency is nearer. `Level.lengthen` is the step, and the first
level that reaches a direct dependency answers: `pathTo?_shortest`.
-/

namespace Linkage

namespace DependencyGraph

variable {graph : DependencyGraph} {facts : List Fact} {x c target : Identity} {length : Nat}
  {unseen chain next : List Identity} {chains : List (List Identity)}

/-! ## Chains one longer -/

def Begins (chains : List (List Identity)) (x : Identity) : Prop :=
  ∃ chain ∈ chains, chain.head? = some x

theorem begins_cons :
    Begins (chain :: chains) x ↔ chain.head? = some x ∨ Begins chains x := by
  simp [Begins]

theorem begins_append {others : List (List Identity)} :
    Begins (chains ++ others) x ↔ Begins chains x ∨ Begins others x := by
  simp [Begins, or_and_right, exists_or]

theorem mem_parents_of_chain :
    x ∈ (chain.head?.map graph.parentsOf).getD [] ↔
      ∃ c, chain.head? = some c ∧ graph.Brings x c := by
  cases chain.head? <;> simp [mem_parentsOf]

def discoveries (graph : DependencyGraph) (chain unseen : List Identity) :
    List Identity × List Identity :=
  discover ((chain.head?.map graph.parentsOf).getD []) unseen

theorem discoveries_nodup (distinct : unseen.Nodup) : (graph.discoveries chain unseen).2.Nodup :=
  left_nodup distinct

theorem lengthen_cons_fst : (graph.lengthen (chain :: chains) unseen).1 =
    (graph.discoveries chain unseen).1.map (· :: chain) ++
      (graph.lengthen chains (graph.discoveries chain unseen).2).1 := rfl

theorem lengthen_cons_snd : (graph.lengthen (chain :: chains) unseen).2 =
    (graph.lengthen chains (graph.discoveries chain unseen).2).2 := rfl

theorem mem_discoveries (distinct : unseen.Nodup) :
    x ∈ (graph.discoveries chain unseen).1 ↔
      (∃ c, chain.head? = some c ∧ graph.Brings x c) ∧ x ∈ unseen := by
  rw [discoveries, mem_discover distinct, mem_parents_of_chain]

theorem mem_left_discoveries (distinct : unseen.Nodup) :
    x ∈ (graph.discoveries chain unseen).2 ↔
      x ∈ unseen ∧ ¬ ∃ c, chain.head? = some c ∧ graph.Brings x c := by
  rw [discoveries, mem_left distinct, mem_parents_of_chain]

theorem lengthen_nodup (distinct : unseen.Nodup) : (graph.lengthen chains unseen).2.Nodup := by
  induction chains generalizing unseen with
  | nil => exact distinct
  | cons chain chains ih => exact ih (discoveries_nodup distinct)

theorem mem_lengthen (distinct : unseen.Nodup) (longer : next ∈ (graph.lengthen chains unseen).1) :
    ∃ chain ∈ chains, ∃ x c, next = x :: chain ∧ chain.head? = some c ∧ graph.Brings x c ∧
      x ∈ unseen := by
  induction chains generalizing unseen with
  | nil => cases longer
  | cons chain chains ih =>
    rw [lengthen_cons_fst, List.mem_append] at longer
    rcases longer with here | later
    · obtain ⟨x, listed, rfl⟩ := List.mem_map.mp here
      obtain ⟨⟨c, first, edge⟩, new⟩ := (mem_discoveries distinct).mp listed
      exact ⟨chain, .head _, x, c, rfl, first, edge, new⟩
    · obtain ⟨chain', member, x, c, rfl, first, edge, left⟩ := ih (discoveries_nodup distinct) later
      exact ⟨chain', .tail _ member, x, c, rfl, first, edge,
        ((mem_left_discoveries distinct).mp left).1⟩

theorem begins_lengthen (distinct : unseen.Nodup) (new : x ∈ unseen) (edge : graph.Brings x c)
    (begins : Begins chains c) : Begins (graph.lengthen chains unseen).1 x := by
  induction chains generalizing unseen with
  | nil => obtain ⟨_, member, -⟩ := begins; cases member
  | cons chain chains ih =>
    rw [lengthen_cons_fst, begins_append]
    by_cases later : x ∈ (graph.discoveries chain unseen).2
    · rcases begins_cons.mp begins with first | others
      · exact absurd ⟨c, first, edge⟩ ((mem_left_discoveries distinct).mp later).2
      · exact .inr (ih (discoveries_nodup distinct) later others)
    · left
      have parent : ∃ c, chain.head? = some c ∧ graph.Brings x c :=
        not_not.mp fun other => later ((mem_left_discoveries distinct).mpr ⟨new, other⟩)
      exact ⟨x :: chain, List.mem_map_of_mem ((mem_discoveries distinct).mpr ⟨parent, new⟩), rfl⟩

theorem mem_left_lengthen (distinct : unseen.Nodup) :
    x ∈ (graph.lengthen chains unseen).2 ↔
      x ∈ unseen ∧ ¬ ∃ c, Begins chains c ∧ graph.Brings x c := by
  induction chains generalizing unseen with
  | nil => simp [lengthen, Begins]
  | cons chain chains ih =>
    rw [lengthen_cons_snd, ih (discoveries_nodup distinct), mem_left_discoveries distinct]
    simp only [begins_cons, or_and_right, exists_or, not_or, and_assoc]

/-- Whether a list goes along the edges to the target, perhaps staying where it is. -/
def Walk (graph : DependencyGraph) (target : Identity) (walk : List Identity) : Prop :=
  walk.IsChain (fun parent child => parent = child ∨ graph.Brings parent child) ∧
    walk.getLast? = some target

theorem walk_singleton : graph.Walk target [x] ↔ x = target := by
  simp [Walk]

theorem walk_cons_cons {rest : List Identity} :
    graph.Walk target (x :: c :: rest) ↔
      (x = c ∨ graph.Brings x c) ∧ graph.Walk target (c :: rest) := by
  rw [Walk, List.isChain_cons_cons, List.getLast?_cons_cons, and_assoc]
  rfl

theorem Walk.leads {walk : List Identity} (leads : graph.Walk target walk)
    (first : walk.head? = some x) : Relation.ReflTransGen graph.Brings x target := by
  induction walk generalizing x with
  | nil => cases first
  | cons y walk ih =>
    cases first
    cases walk with
    | nil => exact walk_singleton.mp leads ▸ .refl
    | cons c rest =>
      obtain ⟨rfl | edge, leads⟩ := walk_cons_cons.mp leads
      · exact ih leads rfl
      · exact .head edge (ih leads rfl)

/-- What is known when the search has come to all chains of one length. -/
structure Level (graph : DependencyGraph) (target : Identity) (length : Nat)
    (chains : List (List Identity)) (unseen : List Identity) : Prop where
  distinct : unseen.Nodup
  arrived : target ∉ unseen
  long : ∀ chain ∈ chains, chain.length = length
  linked : ∀ chain ∈ chains, chain.IsChain graph.Brings ∧ chain.getLast? = some target
  apart : ∀ chain ∈ chains, chain.Nodup ∧ ∀ x ∈ chain, x ∉ unseen
  closed : ∀ parent child, graph.Brings parent child → child ∉ unseen →
    Begins chains child ∨ parent ∉ unseen
  /-- What begins a chain is no nearer to the target. -/
  near : ∀ walk x, graph.Walk target walk → walk.head? = some x → Begins chains x →
    length ≤ walk.length
  far : ∀ walk x, graph.Walk target walk → walk.head? = some x → x ∈ unseen → length < walk.length
  /-- The direct dependencies that have been seen are at this length. -/
  passed : ∀ x, graph.isDirect x = true → x ≠ target → x ∉ unseen → Begins chains x

theorem Level.far_lengthen (level : graph.Level target length chains unseen)
    {walk : List Identity} (leads : graph.Walk target walk) (first : walk.head? = some x)
    (new : x ∈ (graph.lengthen chains unseen).2) : length + 1 < walk.length := by
  obtain ⟨before, alone⟩ := (mem_left_lengthen level.distinct).mp new
  induction walk generalizing x with
  | nil => cases first
  | cons y walk ih =>
    cases first
    cases walk with
    | nil => exact absurd (walk_singleton.mp leads ▸ before) level.arrived
    | cons c rest =>
      obtain ⟨rfl | edge, leads⟩ := walk_cons_cons.mp leads
      · exact Nat.lt_succ_of_lt (ih leads rfl new before alone)
      · -- The next artifact is further away, unless the last step has found it.
        have within : c ∈ unseen := by
          by_contra seen
          rcases level.closed y c edge seen with begins | already
          · exact alone ⟨c, begins, edge⟩
          · exact already before
        exact Nat.succ_lt_succ (level.far _ c leads rfl within)

theorem Level.lengthen (level : graph.Level target length chains unseen)
    (none : ∀ x, Begins chains x → graph.isDirect x = true → x = target) :
    graph.Level target (length + 1) (graph.lengthen chains unseen).1
      (graph.lengthen chains unseen).2 := by
  have left {x : Identity} : x ∈ (graph.lengthen chains unseen).2 ↔ _ :=
    mem_left_lengthen level.distinct
  have found {x : Identity} (before : x ∈ unseen)
      (after : x ∉ (graph.lengthen chains unseen).2) : Begins (graph.lengthen chains unseen).1 x := by
    have brings : ∃ c, Begins chains c ∧ graph.Brings x c :=
      not_not.mp fun other => after (left.mpr ⟨before, other⟩)
    obtain ⟨c, begins, edge⟩ := brings
    exact begins_lengthen level.distinct before edge begins
  constructor
  · exact lengthen_nodup level.distinct
  · exact fun member => level.arrived (left.mp member).1
  · intro next longer
    obtain ⟨chain, member, x, c, rfl, -⟩ := mem_lengthen level.distinct longer
    rw [List.length_cons, level.long chain member]
  · intro next longer
    obtain ⟨chain, member, x, c, rfl, first, edge, -⟩ := mem_lengthen level.distinct longer
    obtain ⟨linked, ends⟩ := level.linked chain member
    obtain ⟨rest, rfl⟩ := List.head?_eq_some_iff.mp first
    exact ⟨List.isChain_cons_cons.mpr ⟨edge, linked⟩, by rw [List.getLast?_cons_cons, ends]⟩
  · intro next longer
    obtain ⟨chain, member, x, c, rfl, first, edge, new⟩ := mem_lengthen level.distinct longer
    obtain ⟨once, seen⟩ := level.apart chain member
    refine ⟨List.nodup_cons.mpr ⟨fun within => seen x within new, once⟩, ?_⟩
    intro y within
    rw [left]
    rcases List.mem_cons.mp within with rfl | old
    · exact fun remains => remains.2 ⟨c, ⟨chain, member, first⟩, edge⟩
    · exact fun remains => seen y old remains.1
  · intro parent child edge after
    by_cases before : child ∈ unseen
    · exact .inl (found before after)
    · right
      rw [left]
      rcases level.closed parent child edge before with begins | already
      · exact fun remains => remains.2 ⟨child, begins, edge⟩
      · exact fun remains => already remains.1
  · intro walk x leads first begins
    obtain ⟨next, longer, begins⟩ := begins
    obtain ⟨chain, member, y, c, rfl, -, -, new⟩ := mem_lengthen level.distinct longer
    cases begins
    exact level.far walk x leads first new
  · exact fun walk x leads first new => level.far_lengthen leads first new
  · intro x direct other after
    by_cases before : x ∈ unseen
    · exact found before after
    · exact absurd (none x (level.passed x direct other before) direct) other

/-! ## The first level with a direct dependency -/

def headText (chain : List Identity) : String := (chain.head?.map Identity.canonical).getD ""

theorem firstChain?_eq (nonempty : ∀ chain ∈ chains, chain ≠ []) :
    firstChain? chains =
      (chains.mergeSort fun a b => !decide (headText b < headText a)).head? := by
  refine congrArg List.head? (mergeSort_congr fun a member b member' => ?_)
  obtain ⟨x, a, rfl⟩ := List.exists_cons_of_ne_nil (nonempty a member)
  obtain ⟨y, b, rfl⟩ := List.exists_cons_of_ne_nil (nonempty b member')
  rfl

theorem firstChain?_first (nonempty : ∀ chain ∈ chains, chain ≠ [])
    (first : firstChain? chains = some chain) :
    chain ∈ chains ∧ ∀ other ∈ chains, headText chain ≤ headText other := by
  rw [firstChain?_eq nonempty] at first
  obtain ⟨rest, sorted⟩ := List.head?_eq_some_iff.mp first
  have ordered := mergeSort_by_text headText chains
  rw [sorted, List.pairwise_cons] at ordered
  have listed (other : List Identity) : other ∈ chains ↔ other ∈ chain :: rest := by
    rw [← sorted, List.mem_mergeSort]
  refine ⟨(listed chain).mpr (.head _), fun other member => ?_⟩
  rcases List.mem_cons.mp ((listed other).mp member) with rfl | later
  · exact String.le_refl _
  · exact ordered.1 other later

theorem firstChain?_eq_none (nonempty : ∀ chain ∈ chains, chain ≠ []) :
    firstChain? chains = none ↔ chains = [] := by
  rw [firstChain?_eq nonempty, List.head?_eq_none_iff, ← List.length_eq_zero_iff,
    List.length_mergeSort, List.length_eq_zero_iff]

/-- Whether a direct dependency other than the target begins a walk. -/
def Departs (graph : DependencyGraph) (target : Identity) (walk : List Identity) : Prop :=
  ∃ x, walk.head? = some x ∧ x ≠ target ∧ graph.isDirect x = true

theorem mem_arrived :
    chain ∈ (chains.filter fun chain =>
      chain.head?.any fun identity => identity ≠ target && graph.isDirect identity) ↔
      chain ∈ chains ∧ graph.Departs target chain := by
  rw [List.mem_filter, Option.any_eq_true]
  simp only [Bool.and_eq_true, decide_eq_true_eq]
  rfl

/-- A chain that could not be shorter, nor begin with something that comes earlier. -/
structure Best (graph : DependencyGraph) (target : Identity) (chain : List Identity) : Prop where
  departs : graph.Departs target chain
  linked : chain.IsChain graph.Brings
  ends : chain.getLast? = some target
  once : chain.Nodup
  shortest : ∀ walk, graph.Departs target walk → graph.Walk target walk → chain.length ≤ walk.length
  first : ∀ walk, graph.Departs target walk → graph.Walk target walk → walk.length = chain.length →
    headText chain ≤ headText walk

section Answer

variable (level : graph.Level target length chains unseen)
include level

theorem Level.nonempty (member : chain ∈ chains) : chain ≠ [] := by
  rintro rfl
  exact absurd (level.linked [] member).2 nofun

theorem Level.best
    (first : firstChain? (chains.filter fun chain =>
      chain.head?.any fun identity => identity ≠ target && graph.isDirect identity) = some chain) :
    graph.Best target chain := by
  obtain ⟨listed, least⟩ := firstChain?_first
    (fun chain listed => level.nonempty (List.mem_of_mem_filter listed)) first
  obtain ⟨member, departs⟩ := mem_arrived.mp listed
  have begins {walk : List Identity} {x : Identity} (leads : graph.Walk target walk)
      (begins : walk.head? = some x) (other : x ≠ target) (direct : graph.isDirect x = true)
      (near : walk.length ≤ length) : Begins chains x :=
    level.passed x direct other fun new =>
      absurd (level.far walk x leads begins new) (Nat.not_lt.mpr near)
  refine ⟨departs, (level.linked chain member).1, (level.linked chain member).2,
    (level.apart chain member).1, ?_, ?_⟩
  · rintro walk ⟨x, head, other, direct⟩ leads
    rw [level.long chain member]
    by_contra shorter
    have found := begins leads head other direct (Nat.le_of_not_le shorter)
    exact shorter (level.near walk x leads head found)
  · rintro walk ⟨x, head, other, direct⟩ leads alike
    rw [level.long chain member] at alike
    obtain ⟨rival, member', head'⟩ := begins leads head other direct alike.le
    have order := least rival (mem_arrived.mpr ⟨member', x, head', other, direct⟩)
    rwa [headText, headText, head', ← head] at order

end Answer

theorem Level.stuck (level : graph.Level target length [] unseen) {walk : List Identity}
    (departs : graph.Departs target walk) : ¬ graph.Walk target walk := by
  intro leads
  obtain ⟨x, head, other, direct⟩ := departs
  have empty (x : Identity) : ¬ Begins [] x := by simp [Begins]
  have closed : graph.Closed [] unseen := fun parent child edge seen =>
    .inr ((level.closed parent child edge seen).resolve_left (empty child))
  have seen : x ∉ unseen := closed.leads_seen level.arrived (leads.leads head)
  exact empty x (level.passed x direct other seen)

theorem Level.answer (level : graph.Level target length chains unseen) :
    match graph.shortest? target chains unseen with
    | some chain => graph.Best target chain
    | none => ∀ walk, graph.Departs target walk → ¬ graph.Walk target walk := by
  fun_induction shortest? graph target chains unseen generalizing length with
  | case1 => exact fun walk => level.stuck
  | case2 =>
    rename_i first
    exact level.best first
  | case3 =>
    rename_i arrived noFirst _ longer ih
    have nobody : arrived = [] := (firstChain?_eq_none fun chain listed =>
      level.nonempty (List.mem_of_mem_filter listed)).mp noFirst
    apply ih (level.lengthen _)
    rintro x ⟨other, member, head⟩ direct
    by_contra different
    have listed : other ∈ arrived := mem_arrived.mpr ⟨member, x, head, different, direct⟩
    rw [nobody] at listed
    cases listed

/-! ## The search from the target -/

theorem Reflects.level (reflects : graph.Reflects facts) (target : Identity) :
    graph.Level target 1 [[target]] (graph.nodes.erase target) := by
  have arrived : target ∉ graph.nodes.erase target := fun member =>
    (reflects.mem_unseen.mp member).1 rfl
  have begins (x : Identity) : Begins [[target]] x ↔ x = target := by simp [Begins, eq_comm]
  constructor
  · exact reflects.nodes_nodup.erase target
  · exact arrived
  · simp
  · simp
  · simpa using arrived
  · intro parent child edge seen
    rw [begins]
    exact (reflects.closed target parent child edge seen).imp_left List.mem_singleton.mp
  · intro walk x _ head _
    exact List.length_pos_of_mem (List.mem_of_mem_head? head)
  · intro walk x leads head new
    obtain ⟨rest, rfl⟩ := List.head?_eq_some_iff.mp head
    cases rest with
    | nil => exact absurd (walk_singleton.mp leads ▸ new) arrived
    | cons => simp
  · intro x direct other seen
    have noted := reflects.isDirect_iff.mp direct
    have known : x ∈ graph.nodes := (reflects.nodes x).mpr ⟨_, noted, rfl⟩
    exact absurd (reflects.mem_unseen.mpr ⟨other, known⟩) seen

theorem Reflects.answer (reflects : graph.Reflects facts) (target : Identity) :
    match graph.pathTo? target with
    | some chain => graph.Best target chain
    | none => ∀ walk, graph.Departs target walk → ¬ graph.Walk target walk := by
  unfold DependencyGraph.pathTo?
  by_cases known : target ∈ graph.nodes
  · rw [if_pos known]
    exact (reflects.level target).answer
  · rw [if_neg known]
    rintro walk ⟨x, head, other, -⟩ leads
    rcases (leads.leads head).cases_tail with rfl | ⟨last, -, edge⟩
    · exact other rfl
    · exact known (reflects.mem_nodes_of_brings edge).2

/-! ## Chains of noted facts -/

/-- Whether a list goes from a direct dependency to another artifact, each bringing in the next. -/
structure ChainTo (facts : List Fact) (target : Identity) (chain : List Identity) : Prop where
  departs : ∃ first, chain.head? = some first ∧ first ≠ target ∧ .artifact first .direct ∈ facts
  linked : chain.IsChain fun parent child => .brings parent child ∈ facts
  ends : chain.getLast? = some target

theorem Reflects.departs_iff (reflects : graph.Reflects facts) :
    graph.Departs target chain ↔
      ∃ first, chain.head? = some first ∧ first ≠ target ∧ .artifact first .direct ∈ facts := by
  simp only [Departs, reflects.isDirect_iff]

theorem Reflects.walk_of_chainTo (reflects : graph.Reflects facts)
    (chainTo : ChainTo facts target chain) : graph.Walk target chain := by
  refine ⟨chainTo.linked.imp fun parent child noted => ?_, chainTo.ends⟩
  by_cases same : parent = child
  · exact .inl same
  · exact .inr ((reflects.edges parent child).mpr ⟨same, noted⟩)

theorem Reflects.chainTo_of_linked (reflects : graph.Reflects facts)
    (departs : graph.Departs target chain) (linked : chain.IsChain graph.Brings)
    (ends : chain.getLast? = some target) : ChainTo facts target chain :=
  ⟨reflects.departs_iff.mp departs,
    linked.imp fun parent child edge => ((reflects.edges parent child).mp edge).2, ends⟩

theorem Reflects.pathTo?_eq_none (reflects : graph.Reflects facts) :
    graph.pathTo? target = none ↔ ¬ ∃ chain, ChainTo facts target chain := by
  have answer := reflects.answer target
  cases found : graph.pathTo? target with
  | none =>
    rw [found] at answer
    refine iff_of_true rfl ?_
    rintro ⟨chain, chainTo⟩
    exact answer chain (reflects.departs_iff.mpr chainTo.departs) (reflects.walk_of_chainTo chainTo)
  | some chain =>
    rw [found] at answer
    refine iff_of_false nofun (not_not.mpr ⟨chain, ?_⟩)
    exact reflects.chainTo_of_linked answer.departs answer.linked answer.ends

theorem Reflects.via_eq_nil (reflects : graph.Reflects facts) :
    graph.via target = [] ↔ ¬ ∃ chain, ChainTo facts target chain := by
  rw [List.eq_nil_iff_forall_not_mem, ← not_exists, not_iff_not]
  constructor
  · rintro ⟨x, listed⟩
    obtain ⟨direct, other, leads⟩ := reflects.mem_via.mp listed
    obtain ⟨rest, linked, ends⟩ := List.exists_isChain_cons_of_relationReflTransGen leads
    have departs := reflects.departs_iff.mpr ⟨x, List.head?_cons (l := rest), other, direct⟩
    exact ⟨x :: rest, reflects.chainTo_of_linked departs linked
      (by rw [List.getLast?_eq_some_getLast (List.cons_ne_nil x rest), ends])⟩
  · rintro ⟨chain, chainTo⟩
    obtain ⟨x, head, other, direct⟩ := chainTo.departs
    exact ⟨x, reflects.mem_via.mpr ⟨direct, other, (reflects.walk_of_chainTo chainTo).leads head⟩⟩

/-- A chain is found if there is one, which is if and only if something is on the way. It goes along
noted edges, has nothing twice, is as short as any chain from a direct dependency, and begins with
the first in canonical order that a chain so short can begin with. -/
theorem pathTo?_shortest (facts : List Fact) (target : Identity) :
    ((ofFacts facts).pathTo? target = none ↔ (ofFacts facts).via target = []) ∧
    ((ofFacts facts).pathTo? target = none ↔ ¬ ∃ chain, ChainTo facts target chain) ∧
    ∀ chain, (ofFacts facts).pathTo? target = some chain →
      ChainTo facts target chain ∧ chain.Nodup ∧
      ∀ other, ChainTo facts target other →
        chain.length ≤ other.length ∧
        (other.length = chain.length → ∀ first first', chain.head? = some first →
          other.head? = some first' → first.canonical ≤ first'.canonical) := by
  have reflects := ofFacts_reflects facts
  refine ⟨?_, reflects.pathTo?_eq_none, fun chain found => ?_⟩
  · rw [reflects.pathTo?_eq_none, reflects.via_eq_nil]
  · have best := reflects.answer target
    rw [found] at best
    refine ⟨reflects.chainTo_of_linked best.departs best.linked best.ends, best.once, ?_⟩
    intro other chainTo
    have departs := reflects.departs_iff.mpr chainTo.departs
    have walk := reflects.walk_of_chainTo chainTo
    refine ⟨best.shortest other departs walk, fun alike first first' head head' => ?_⟩
    simpa [headText, head, head'] using best.first other departs walk alike

example : (ofFacts [.artifact (.project ":b") .direct, .artifact (.project ":a") .direct,
    .brings (.project ":b") (.project ":m"), .brings (.project ":m") (.project ":t"),
    .brings (.project ":a") (.project ":m"), .brings (.project ":t") (.project ":a")]).pathTo?
      (.project ":t") = some [.project ":a", .project ":m", .project ":t"] := by cbv

end DependencyGraph

end Linkage
