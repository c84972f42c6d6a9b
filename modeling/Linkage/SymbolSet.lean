import Linkage.Symbol
import Std.Data.HashSet

/-!
Finite sets of symbols, kept as strictly ascending lists.

Two sets with the same members are equal, and the order in which a report lists symbols is the order
of the list. `mem_ofList`, `mem_union`, `mem_inter` and `mem_diff` say what each operation contains.
-/

namespace Linkage

structure SymbolSet where
  toList : List Symbol
  ascending : toList.Pairwise (· < ·)
  deriving DecidableEq, Repr

namespace SymbolSet

instance : Membership Symbol SymbolSet := ⟨fun set symbol => symbol ∈ set.toList⟩

theorem mem_def {set : SymbolSet} {symbol : Symbol} : symbol ∈ set ↔ symbol ∈ set.toList := Iff.rfl

def empty : SymbolSet := ⟨[], .nil⟩

instance : EmptyCollection SymbolSet := ⟨empty⟩
instance : Inhabited SymbolSet := ⟨empty⟩

def size (set : SymbolSet) : Nat := set.toList.length

def isEmpty (set : SymbolSet) : Bool := set.toList.isEmpty

def contains (set : SymbolSet) (symbol : Symbol) : Bool := set.toList.contains symbol

@[simp] theorem contains_eq_true_iff {set : SymbolSet} {symbol : Symbol} :
    set.contains symbol = true ↔ symbol ∈ set := by
  simp [contains, mem_def]

instance (symbol : Symbol) (set : SymbolSet) : Decidable (symbol ∈ set) :=
  decidable_of_iff (set.contains symbol = true) contains_eq_true_iff

theorem nodup (set : SymbolSet) : set.toList.Nodup := by
  apply set.ascending.imp
  intro a b below same
  exact Symbol.lt_irrefl b (same ▸ below)

theorem ext {a b : SymbolSet} (same : ∀ symbol, symbol ∈ a ↔ symbol ∈ b) : a = b := by
  have lists : a.toList = b.toList := by
    apply ((List.perm_ext_iff_of_nodup a.nodup b.nodup).mpr same).eq_of_pairwise _
      a.ascending b.ascending
    intro x y _ _ below above
    exact absurd (Symbol.lt_trans below above) (Symbol.lt_irrefl x)
  cases a
  cases b
  cases lists
  rfl

/-! ## From lists -/

def compress (sorted : List Symbol) : List Symbol :=
  sorted.foldr (fun symbol kept => if kept.head? = some symbol then kept else symbol :: kept) []

theorem mem_compress {sorted : List Symbol} {symbol : Symbol} :
    symbol ∈ compress sorted ↔ symbol ∈ sorted := by
  induction sorted with
  | nil => simp [compress]
  | cons first rest ih =>
    simp only [compress, List.foldr_cons] at ih ⊢
    split
    case isTrue repeated =>
      rw [ih, List.mem_cons]
      constructor
      · exact Or.inr
      · rintro (rfl | later)
        · exact ih.mp (List.mem_of_mem_head? repeated)
        · exact later
    case isFalse => rw [List.mem_cons, ih, List.mem_cons]

theorem compress_ascending {sorted : List Symbol} (order : sorted.Pairwise fun a b => ¬ b < a) :
    (compress sorted).Pairwise (· < ·) := by
  induction sorted with
  | nil => exact .nil
  | cons first rest ih =>
    obtain ⟨least, order⟩ := List.pairwise_cons.mp order
    have kept := ih order
    have later : ∀ symbol ∈ compress rest, ¬ symbol < first :=
      fun symbol member => least symbol (mem_compress.mp member)
    simp only [compress, List.foldr_cons] at kept later ⊢
    split
    case isTrue => exact kept
    case isFalse new =>
      refine List.pairwise_cons.mpr ⟨fun symbol member => ?_, kept⟩
      generalize rest.foldr _ [] = list at kept later new member
      cases list with
      | nil => cases member
      | cons next others =>
        have distinct : first ≠ next := fun same => new (by simp [same])
        have below : first < next := by
          by_cases lower : first < next
          · exact lower
          · exact absurd (Symbol.eq_of_not_lt lower (later next (by simp))) distinct
        rcases List.mem_cons.mp member with rfl | member
        · exact below
        · exact Symbol.lt_trans below ((List.pairwise_cons.mp kept).1 symbol member)

def inOrder (a b : Symbol) : Bool := !decide (b < a)

theorem mergeSort_inOrder (symbols : List Symbol) :
    (symbols.mergeSort inOrder).Pairwise fun a b => ¬ b < a := by
  have sorted := @List.pairwise_mergeSort _ inOrder
    (fun a b c => by
      simp only [inOrder, Bool.not_eq_true', decide_eq_false_iff_not]
      intro ab bc ca
      by_cases low : a < b
      · exact bc (Symbol.lt_trans ca low)
      · exact bc (Symbol.eq_of_not_lt low ab ▸ ca))
    (fun a b => by
      simp only [inOrder, Bool.or_eq_true, Bool.not_eq_true', decide_eq_false_iff_not]
      by_cases low : b < a
      · exact Or.inr fun high => Symbol.lt_irrefl a (Symbol.lt_trans high low)
      · exact Or.inl low) symbols
  simpa [inOrder] using sorted

def ofList (symbols : List Symbol) : SymbolSet :=
  ⟨compress (symbols.mergeSort inOrder), compress_ascending (mergeSort_inOrder symbols)⟩

@[simp] theorem mem_ofList {symbols : List Symbol} {symbol : Symbol} :
    symbol ∈ ofList symbols ↔ symbol ∈ symbols := by
  simp [mem_def, ofList, mem_compress, List.mem_mergeSort]

def union (a b : SymbolSet) : SymbolSet := ofList (a.toList ++ b.toList)

def filter (test : Symbol → Bool) (set : SymbolSet) : SymbolSet :=
  ⟨set.toList.filter test, set.ascending.filter test⟩

def within (a b : SymbolSet) : SymbolSet :=
  let others := Std.HashSet.ofList b.toList
  a.filter others.contains

/-- What two sets share, found by going through the smaller one. -/
def inter (a b : SymbolSet) : SymbolSet := if a.size ≤ b.size then a.within b else b.within a

def diff (a b : SymbolSet) : SymbolSet :=
  let others := Std.HashSet.ofList b.toList
  a.filter fun symbol => !others.contains symbol

instance : Union SymbolSet := ⟨union⟩
instance : Inter SymbolSet := ⟨inter⟩
instance : SDiff SymbolSet := ⟨diff⟩

@[simp] theorem mem_union {a b : SymbolSet} {symbol : Symbol} :
    symbol ∈ a ∪ b ↔ symbol ∈ a ∨ symbol ∈ b := by
  change symbol ∈ ofList _ ↔ _
  simp [@mem_def a, @mem_def b]

@[simp] theorem mem_filter {test : Symbol → Bool} {set : SymbolSet} {symbol : Symbol} :
    symbol ∈ set.filter test ↔ symbol ∈ set ∧ test symbol = true := by
  simp [mem_def, filter]

@[simp] theorem mem_within {a b : SymbolSet} {symbol : Symbol} :
    symbol ∈ a.within b ↔ symbol ∈ a ∧ symbol ∈ b := by
  change symbol ∈ a.filter _ ↔ _
  simp [@mem_def b]

@[simp] theorem mem_inter {a b : SymbolSet} {symbol : Symbol} :
    symbol ∈ a ∩ b ↔ symbol ∈ a ∧ symbol ∈ b := by
  change symbol ∈ a.inter b ↔ _
  unfold inter
  split
  · rw [mem_within]
  · rw [mem_within, and_comm]

@[simp] theorem mem_diff {a b : SymbolSet} {symbol : Symbol} :
    symbol ∈ a \ b ↔ symbol ∈ a ∧ symbol ∉ b := by
  change symbol ∈ a.filter _ ↔ _
  simp [@mem_def b]

end SymbolSet

end Linkage
