import Linkage.Text.Parts

/-!
Symbols: the fully qualified names of types, in which usage is counted.

A symbol is written with dots, a nested type behind a dollar sign: `com.example.Outer$Inner`.
Symbols are ordered by their names, and names by code point.
-/

namespace Linkage

structure Symbol where
  name : String
  deriving DecidableEq, Hashable, Repr

namespace Symbol

instance : LT Symbol := ⟨fun a b => a.name < b.name⟩

instance : DecidableLT Symbol := fun a b => inferInstanceAs (Decidable (a.name < b.name))

theorem lt_iff {a b : Symbol} : a < b ↔ a.name < b.name := Iff.rfl

theorem lt_irrefl (a : Symbol) : ¬ a < a := String.lt_irrefl a.name

theorem lt_trans {a b c : Symbol} : a < b → b < c → a < c := String.lt_trans

theorem eq_of_not_lt {a b : Symbol} (left : ¬ a < b) (right : ¬ b < a) : a = b := by
  have same : a.name = b.name := String.le_antisymm right left
  cases a; cases b; simp_all

/-- The symbol of a type whose name has slashes between its packages. -/
def ofInternal (name : String) : Symbol :=
  ⟨name.map fun c => if c = '/' then '.' else c⟩

theorem ofInternal_of_notMem {name : String} (plain : '/' ∉ name.toList) :
    ofInternal name = ⟨name⟩ := by
  have kept : ∀ c ∈ name.toList, (if c = '/' then '.' else c) = id c := by
    intro c member
    have other : c ≠ '/' := fun slash => plain (slash ▸ member)
    exact if_neg other
  rw [ofInternal, Symbol.mk.injEq, ← String.toList_inj, String.toList_map,
    List.map_congr_left kept, List.map_id]

def syntheticMarks : List String := ["$$Lambda", "-$$Lambda$", "$$ExternalSynthetic"]

def isSynthetic (symbol : Symbol) : Bool :=
  syntheticMarks.any fun mark => Text.occursIn mark.toList symbol.name.toList

/-- The package of the type, empty for the default package. -/
def package (symbol : Symbol) : String :=
  match Text.cutAtLast? '.' symbol.name.toList with
  | some (package, _) => String.ofList package
  | none => ""

def simpleName (symbol : Symbol) : String :=
  match Text.cutAtLast? '.' symbol.name.toList with
  | some (_, simple) => String.ofList simple
  | none => symbol.name

/-- The outermost type around this one. A dollar sign that opens the simple name nests nothing. -/
def topLevel (symbol : Symbol) : Symbol :=
  match Text.cutAtFirst? '$' symbol.simpleName.toList with
  | some (outer@(_ :: _), _) =>
      let stem := symbol.name.toList.take (symbol.name.length - symbol.simpleName.length)
      ⟨String.ofList (stem ++ outer)⟩
  | _ => symbol

end Symbol

end Linkage
