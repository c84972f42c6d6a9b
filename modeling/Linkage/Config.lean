import Linkage.Data.Shape
import Linkage.Limits
import Linkage.Text.Parts
import Linkage.Toml.Document

/-!
The settings of an analysis. Every setting has a value that holds when nothing is configured.

Settings are written as TOML, in a section for each part of the analysis. What is not known among
them is ignored.
-/

namespace Linkage

structure ScanConfig where
  resourceExtensions : List String := ["xml"]
  stubExtensions : List String := ["java"]
  deriving DecidableEq, Repr

structure MisuseConfig where
  allowUnused : List String := []
  deriving DecidableEq, Repr

structure AbiConfig where
  excludePackages : List String := []
  deriving DecidableEq, Repr

structure Config where
  scan : ScanConfig := {}
  limits : Limits := {}
  misuse : MisuseConfig := {}
  abi : AbiConfig := {}
  deriving DecidableEq, Repr

namespace MisuseConfig

/-- Whether a pattern covers a canonical identity. A star at its end stands for any text. -/
def covers (pattern canonical : String) : Bool :=
  match pattern.toList.reverse with
  | '*' :: stem => stem.reverse.isPrefixOf canonical.toList
  | _ => canonical = pattern

def allowsUnused (config : MisuseConfig) (canonical : String) : Bool :=
  config.allowUnused.any fun pattern => covers pattern canonical

end MisuseConfig

namespace AbiConfig

def isWithin (package outer : List Char) : Bool :=
  outer.isPrefixOf package
    && match package.drop outer.length with
      | [] => true
      | c :: _ => c = '.'

def excludes (config : AbiConfig) (typeName : String) : Bool :=
  let package := match Text.cutAtLast? '.' typeName.toList with
    | some (package, _) => package
    | none => []
  config.excludePackages.any fun outer => isWithin package outer.toList

end AbiConfig

def ScanConfig.ofData? (data : Data) : Option ScanConfig := do
  let [resources, stubs] ← data.record? ["resource_extensions", "stub_extensions"] | none
  let usual : ScanConfig := {}
  let texts := Data.list? Data.text?
  return {
    resourceExtensions := ← Data.orElse? usual.resourceExtensions texts resources
    stubExtensions := ← Data.orElse? usual.stubExtensions texts stubs }

def Limits.ofData? (data : Data) : Option Limits := do
  let [archiveBytes, archiveEntries, entryBytes] ←
    data.record? ["max_archive_bytes", "max_archive_entries", "max_entry_bytes"] | none
  let usual : Limits := {}
  return {
    archiveBytes := ← Data.orElse? usual.archiveBytes Data.natural? archiveBytes
    archiveEntries := ← Data.orElse? usual.archiveEntries Data.natural? archiveEntries
    entryBytes := ← Data.orElse? usual.entryBytes Data.natural? entryBytes }

def MisuseConfig.ofData? (data : Data) : Option MisuseConfig := do
  let [allowUnused] ← data.record? ["allow_unused"] | none
  return ⟨← Data.orElse? [] (Data.list? Data.text?) allowUnused⟩

def AbiConfig.ofData? (data : Data) : Option AbiConfig := do
  let [excludePackages] ← data.record? ["exclude_packages"] | none
  return ⟨← Data.orElse? [] (Data.list? Data.text?) excludePackages⟩

namespace Config

def ofData? (data : Data) : Option Config := do
  let [scan, limits, misuse, abi] ← data.record? ["scan", "limits", "misuse", "abi"] | none
  return {
    scan := ← Data.orElse? {} ScanConfig.ofData? scan
    limits := ← Data.orElse? {} Limits.ofData? limits
    misuse := ← Data.orElse? {} MisuseConfig.ofData? misuse
    abi := ← Data.orElse? {} AbiConfig.ofData? abi }

def ofToml? (text : String) : Option Config := (Toml.read? text).bind ofData?

end Config

end Linkage
