import Linkage.SymbolSet
import Mathlib.Data.List.Basic
import Mathlib.Data.Prod.Lex
import Mathlib.Data.String.Basic

/-!
# Lists in order

Reports are sorted by a key: a symbol, a text or several texts. Where no two elements have the same
key, the order in which they are given does not show: `mergeSort_keyed_of_perm`. What has the same
key keeps its order: `filter_mergeSort`.
-/

namespace Linkage

variable {α : Type}

/-! ## By a key -/

section Keys

variable {β : Type} [LinearOrder β] (key : α → β) {inOrder : α → α → Bool}

theorem mergeSort_by_key (reads : ∀ a b, inOrder a b = true ↔ key a ≤ key b) (list : List α) :
    (list.mergeSort inOrder).Pairwise fun a b => key a ≤ key b := by
  have sorted : (list.mergeSort inOrder).Pairwise fun a b => inOrder a b = true := by
    apply List.pairwise_mergeSort
    · intro a b c
      rw [reads, reads, reads]
      exact le_trans
    · intro a b
      rw [Bool.or_eq_true, reads, reads]
      exact le_total _ _
  exact sorted.imp fun {a b} => (reads a b).mp

theorem mergeSort_keyed_of_perm (reads : ∀ a b, inOrder a b = true ↔ key a ≤ key b)
    {list list' : List α} (perm : list.Perm list')
    (alike : ∀ a ∈ list, ∀ b ∈ list, key a = key b → a = b) :
    list.mergeSort inOrder = list'.mergeSort inOrder := by
  refine List.Perm.eq_of_pairwise ?_ (mergeSort_by_key key reads list)
    (mergeSort_by_key key reads list') ?_
  · intro a b listed listed' below above
    rw [List.mem_mergeSort] at listed listed'
    exact alike a listed b (perm.mem_iff.mpr listed') (le_antisymm below above)
  · exact ((List.mergeSort_perm list _).trans perm).trans (List.mergeSort_perm list' _).symm

theorem not_above_iff [DecidableLT β] (a b : α) :
    (!decide (key b < key a)) = true ↔ key a ≤ key b := by
  rw [Bool.not_eq_true', decide_eq_false_iff_not, not_lt]

theorem mergeSort_strict [DecidableLT β] {list : List α}
    (distinct : (list.map key).Nodup) :
    (list.mergeSort fun a b => !decide (key b < key a)).Pairwise fun a b => key a < key b := by
  have sorted := mergeSort_by_key key (not_above_iff key) list
  have once : ((list.mergeSort fun a b => !decide (key b < key a)).map key).Nodup :=
    ((List.mergeSort_perm _ _).map key).nodup_iff.mpr distinct
  exact (sorted.and (List.pairwise_map.mp once)).imp fun both => lt_of_le_of_ne both.1 both.2

end Keys

/-! ## By a symbol or a text -/

theorem mergeSort_by_symbol (key : α → Symbol) (list : List α) :
    (list.mergeSort fun a b => !decide (key b < key a)).Pairwise fun a b => ¬ key b < key a := by
  have keyed : (list.mergeSort fun a b => !decide (key b < key a)).map key =
      (list.map key).mergeSort SymbolSet.inOrder :=
    List.map_mergeSort fun _ _ _ _ => rfl
  have sorted := SymbolSet.mergeSort_inOrder (list.map key)
  rw [← keyed, List.pairwise_map] at sorted
  exact sorted

theorem mergeSort_by_text (key : α → String) (list : List α) :
    (list.mergeSort fun a b => !decide (key b < key a)).Pairwise fun a b => key a ≤ key b :=
  mergeSort_by_key key (not_above_iff key) list

theorem mergeSort_ascending (key : α → String) {list : List α} (distinct : (list.map key).Nodup) :
    ((list.mergeSort fun a b => !decide (key b < key a)).map key).Pairwise (· < ·) :=
  List.pairwise_map.mpr (mergeSort_strict key distinct)

/-! ## By a pair of texts -/

def inPairOrder (a b : String × String) : Bool :=
  a.1 < b.1 || (a.1 = b.1 && !decide (b.2 < a.2))

section Pairs

variable {a b c : String × String}

theorem inPairOrder_iff : inPairOrder a b = true ↔ a.1 < b.1 ∨ a.1 = b.1 ∧ a.2 ≤ b.2 := by
  simp only [inPairOrder, Bool.or_eq_true, Bool.and_eq_true, decide_eq_true_eq, Bool.not_eq_true',
    decide_eq_false_iff_not]
  rfl

theorem inPairOrder_iff_toLex : inPairOrder a b = true ↔ toLex a ≤ toLex b :=
  inPairOrder_iff.trans (Prod.Lex.toLex_le_toLex).symm

theorem inPairOrder_trans (first : inPairOrder a b = true) (second : inPairOrder b c = true) :
    inPairOrder a c = true := by
  rw [inPairOrder_iff_toLex] at *
  exact le_trans first second

theorem inPairOrder_total : (inPairOrder a b || inPairOrder b a) = true := by
  rw [Bool.or_eq_true, inPairOrder_iff_toLex, inPairOrder_iff_toLex]
  exact le_total _ _

theorem mergeSort_by_pair (key : α → String × String) (list : List α) :
    (list.mergeSort fun a b => inPairOrder (key a) (key b)).Pairwise fun a b =>
      inPairOrder (key a) (key b) = true :=
  (mergeSort_by_key (fun a => toLex (key a)) (fun _ _ => inPairOrder_iff_toLex) list).imp
    inPairOrder_iff_toLex.mpr

theorem mergeSort_of_perm (key : α → String × String) {list list' : List α}
    (perm : list.Perm list') (alike : ∀ a ∈ list, ∀ b ∈ list, key a = key b → a = b) :
    (list.mergeSort fun a b => inPairOrder (key a) (key b)) =
      list'.mergeSort fun a b => inPairOrder (key a) (key b) :=
  mergeSort_keyed_of_perm (fun a => toLex (key a)) (fun _ _ => inPairOrder_iff_toLex) perm
    fun a listed b listed' same => alike a listed b listed' (toLex_inj.mp same)

end Pairs

theorem mergeSort_congr {inOrder inOrder' : α → α → Bool} {list : List α}
    (same : ∀ a ∈ list, ∀ b ∈ list, inOrder a b = inOrder' a b) :
    list.mergeSort inOrder = list.mergeSort inOrder' := by
  have mapped : (list.mergeSort inOrder).map id = (list.map id).mergeSort inOrder' :=
    List.map_mergeSort same
  rwa [List.map_id, List.map_id] at mapped

theorem filter_mergeSort {inOrder : α → α → Bool}
    (trans : ∀ a b c, inOrder a b = true → inOrder b c = true → inOrder a c = true)
    (total : ∀ a b, (inOrder a b || inOrder b a) = true) {test : α → Bool} (list : List α)
    (alike : ∀ a b, test a = true → test b = true → inOrder a b = true) :
    (list.mergeSort inOrder).filter test = list.filter test := by
  have sorted : (list.filter test).Pairwise fun a b => inOrder a b = true :=
    List.pairwise_of_forall_mem_list fun a inA b inB =>
      alike a b (List.of_mem_filter inA) (List.of_mem_filter inB)
  have kept : (list.filter test).Sublist ((list.mergeSort inOrder).filter test) := by
    have := (List.sublist_mergeSort trans total sorted List.filter_sublist).filter test
    simpa only [List.filter_filter, Bool.and_self] using this
  have same : ((list.mergeSort inOrder).filter test).Perm (list.filter test) :=
    (List.mergeSort_perm list inOrder).filter test
  exact (kept.eq_of_length same.length_eq.symm).symm

end Linkage
