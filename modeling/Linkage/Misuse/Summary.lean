import Linkage.Misuse.Basic
import Linkage.Text.Lines

/-!
A summary of misuse for people: a heading, and a section for each list that is not empty.
-/

namespace Linkage.Misuse

def section? (heading : String) (lines : List String) : List String :=
  if lines.isEmpty then [] else "" :: heading :: lines

def item (identity : String) : String := "  " ++ identity

/-- The lines on a transitive dependency: what leads to it, the chain if it has more than two
artifacts, and the used symbols. -/
def useLines (use : TransitiveUse) : List String :=
  let via := if use.via.isEmpty then "" else " (via " ++ ", ".intercalate use.via ++ ")"
  let path := if use.path.length > 2 then ["    path " ++ " -> ".intercalate use.path] else []
  (item use.identity ++ via) :: (path ++ use.symbols.map fun symbol => s!"    uses {symbol.name}")

def summaryLines (title : String) (misuse : Misuse) : List String :=
  [s!"Dependency usage for {title}"]
    ++ (if misuse.isClean then ["", "No dependency misuse found."] else [])
    ++ section? "Unused direct dependencies (consider removing):" (misuse.unusedDirect.map item)
    ++ section? "Used transitive dependencies (consider declaring):"
        (misuse.usedTransitive.flatMap useLines)
    ++ section? "Direct dependencies owning no classes (usage cannot be observed):"
        (misuse.unobservable.map item)
    ++ section? "Unused but allowed:" (misuse.allowedUnused.map item)

def summary (title : String) (misuse : Misuse) : String :=
  Text.ofLines (summaryLines title misuse)

end Linkage.Misuse
