import Linkage.Abi.Basic
import Linkage.Digest.Sha256
import Linkage.Text.Lines
import Linkage.Text.WordChar

/-!
Surfaces as text.

The dump of a surface has a header line for each type, after comment lines that tell where it comes
from, and an indented line for each member. The reduced form leaves the comments out. Two surfaces
are compatible if their reduced forms are the same text, and the fingerprint stands for that text.
-/

namespace Linkage

def commentMark : String := "//"

def VisibleType.header (type : VisibleType) : String :=
  let superclass := match type.superclass with
    | some symbol => ["extends", symbol.name]
    | none => []
  let interfaces :=
    if type.interfaces.isEmpty then []
    else
      let word := match type.kind with
        | .interfaceType | .annotationType => "extends"
        | .classType | .enumType => "implements"
      [word, ", ".intercalate (type.interfaces.map Symbol.name)]
  " ".intercalate (type.modifiers.map Modifier.name ++ [type.kind.keyword, type.symbol.name]
    ++ superclass ++ interfaces)

def VisibleType.dumpLines (type : VisibleType) : List String :=
  type.sourceFile.toList.map (fun name => s!"{commentMark} source: {name}")
    ++ [s!"{commentMark} class version: {type.major}.{type.minor}", type.header]
    ++ type.members.map (fun member => "  " ++ member.display)
    ++ [""]

def Surface.dump (surface : Surface) : String :=
  Text.ofLines (surface.types.flatMap VisibleType.dumpLines)

/-- Whether a line is a comment, possibly behind blanks. -/
def isComment (line : List Char) : Bool :=
  commentMark.toList.isPrefixOf (line.dropWhile Text.isBlank)

def reduceDump (dump : String) : String :=
  Text.ofLines (((Text.lines dump.toList).filter fun line => !isComment line).map String.ofList)

end Linkage
