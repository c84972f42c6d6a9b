import Linkage.Abi.Candidate
import Linkage.Config
import Std.Data.HashMap

/-!
The surface of a set of class files.

A type is visible if it is public, not made by the compiler and not in an excluded package, and, if
it is nested, if its entry in the nesting table and the type around it are visible too.
-/

namespace Linkage

structure Candidates where
  byName : Std.HashMap String Candidate

def Candidate.isOpen (candidate : Candidate) (config : AbiConfig) : Bool :=
  candidate.isPublic && !candidate.isSynthetic && !config.excludes candidate.type.symbol.name

/-- What has been found out about the types with some internal names: whether they are visible. -/
abbrev Verdicts := Std.HashMap String Bool

def keepVerdict (name : String) : Bool × Verdicts → Bool × Verdicts
  | (verdict, known) => (verdict, known.insert name verdict)

def Candidate.judgeWith (candidate : Candidate) (config : AbiConfig)
    (judgeOuter : String → Verdicts → Bool × Verdicts) (known : Verdicts) : Bool × Verdicts :=
  if candidate.isOpen config then
    match candidate.nesting with
    | none => (true, known)
    | some ⟨true, some outer⟩ => judgeOuter outer known
    | some _ => (false, known)
  else (false, known)

namespace Candidates

def empty : Candidates := ⟨∅⟩

/-- Takes in a class file. One that defines no type is passed over, and one that defines a type
again replaces the earlier one. -/
def add (candidates : Candidates) (unit : ClassFile) : Except Fault Candidates := do
  if unit.definesType then
    let candidate ← Candidate.ofClass unit
    return ⟨candidates.byName.insert unit.thisClass candidate⟩
  else
    return candidates

/-- How many types nest in each other at most. A type nested deeper is not visible. -/
def maxNesting : Nat := 64

/-- Whether the type with an internal name is visible, and what is known of types after that. At most
`levels` types that are not known yet are gone through. -/
def judge (candidates : Candidates) (config : AbiConfig) (levels : Nat) (name : String)
    (known : Verdicts) : Bool × Verdicts :=
  match known[name]?, candidates.byName[name]? with
  | some verdict, _ => (verdict, known)
  | none, none => (false, known)
  | none, some candidate =>
    match levels with
    | 0 => keepVerdict name (false, known)
    | levels + 1 =>
        keepVerdict name (candidate.judgeWith config (candidates.judge config levels) known)

def visibleNames (candidates : Candidates) (config : AbiConfig) :
    List String → Verdicts → List String
  | [], _ => []
  | name :: names, known =>
    let (verdict, known) := candidates.judge config maxNesting name known
    let others := candidates.visibleNames config names known
    if verdict then name :: others else others

def surfaceInOrder (candidates : Candidates) (config : AbiConfig) (order : List String) : Surface :=
  let visible := (candidates.visibleNames config order ∅).filterMap fun name =>
    candidates.byName[name]?.map Candidate.type
  ⟨visible.mergeSort fun a b => !decide (b.symbol < a.symbol)⟩

def size (candidates : Candidates) : Nat := candidates.byName.size

def surface (candidates : Candidates) (config : AbiConfig) : Surface :=
  candidates.surfaceInOrder config candidates.byName.keys

end Candidates

def Candidates.ofClasses (units : List ClassFile) : Except Fault Candidates :=
  units.foldlM Candidates.add .empty

end Linkage
