import Linkage.Bytes.Utf8
import Linkage.FileSystem.Basic
import Linkage.Limits
import Linkage.Run
import Linkage.Scan.ImportDeclaration
import Linkage.Scan.QualifiedName
import Linkage.SymbolSet

/-!
Scanning text files for the names of types.

What stands in a text is only evidence, so a scan rather finds a name too many than one too few.
Roots that do not exist have no text.
-/

namespace Linkage.Scan

inductive Scanner
  /-- For qualified names. -/
  | pattern
  /-- For qualified names and for import declarations. -/
  | stub
  deriving DecidableEq, Repr

namespace Scanner

def name : Scanner → String
  | pattern => "pattern"
  | stub => "java-stub"

def symbols : Scanner → String → List Symbol
  | pattern, text => qualifiedNames text
  | stub, text => importedNames text ++ qualifiedNames text

end Scanner

def scanFile (limits : Limits) (scanner : Scanner) (found : FileSystem.Found) :
    Except Failure (List Symbol) :=
  if limits.entryBytes < found.content.size then
    .error (.malformed found.path none
      (.limitExceeded s!"text file is {found.content.size} bytes (max {limits.entryBytes})"))
  else .ok (scanner.symbols (Utf8.decodeLossy found.content.data.toList))

def textFiles (disk : FileSystem) (extensions : List String) :
    List Path → Run (List FileSystem.Found)
  | [] => return []
  | root :: roots => do
    if disk.contains root then
      let found ← disk.withExtensions root extensions
      return found ++ (← textFiles disk extensions roots)
    else
      note (.textRootMissing root)
      textFiles disk extensions roots

def scanRoots (disk : FileSystem) (limits : Limits) (scanner : Scanner) (extensions : List String)
    (roots : List Path) : Run SymbolSet := do
  let files ← textFiles disk extensions roots
  note (.scanningTexts scanner.name files.length)
  let found : List (List Symbol) ← liftM (files.mapM (scanFile limits scanner))
  return SymbolSet.ofList found.flatten

end Linkage.Scan
