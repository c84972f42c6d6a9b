import Linkage.Path

/-!
What a run reports about itself while it goes on: events, and the line that each is logged as.
-/

namespace Linkage

inductive Severity
  | debug
  | info
  | warning
  deriving DecidableEq, Repr

inductive Event
  | readingUnits (path : Path) (source : String)
  | textRootMissing (root : Path)
  | scanningTexts (scanner : String) (files : Nat)
  | candidatesCollected (bytecode text : Nat)
  | usedExtracted (defined used : Nat)
  | artifactIndexed (canonical : String) (symbols : Nat)
  | ambiguousOwner (ambiguity : String)
  | indexBuilt (artifacts symbols warnings : Nat)
  | graphBuilt (nodes edges : Nat)
  | misuseComputed (unusedDirect usedTransitive unobservable : Nat)
  | surfaceExtracted (classes types : Nat)
  | abiComputed (types members : Nat) (fingerprint : String)
  | moduleSkipped (modulePath variant reason : String)
  | moduleAnalyzed (modulePath variant : String) (used unusedDirect usedTransitive : Nat)
  | reportsAggregated (modules : Nat)
  | reportsWritten (directory : Path)
  | configMissing (path : Path)
  | configInvalid (path : Path) (reason : String)
  | configUnreadable (path : Path) (reason : String)
  deriving DecidableEq, Repr

namespace Event

def severity : Event → Severity
  | usedExtracted .. | indexBuilt .. | abiComputed .. | moduleAnalyzed .. | reportsWritten .. =>
      .info
  | ambiguousOwner .. | moduleSkipped .. | configInvalid .. | configUnreadable .. => .warning
  | _ => .debug

def message : Event → String
  | readingUnits .. => "reading compiled units"
  | textRootMissing .. => "text root missing, skipping"
  | scanningTexts .. => "scanning text files"
  | candidatesCollected .. => "collected candidate symbols"
  | usedExtracted .. => "extracted used symbols"
  | artifactIndexed .. => "indexed artifact"
  | ambiguousOwner .. => "ambiguous symbol ownership"
  | indexBuilt .. => "built artifact symbol index"
  | graphBuilt .. => "built dependency graph"
  | misuseComputed .. => "computed misuse"
  | surfaceExtracted .. => "extracted abi surface"
  | abiComputed .. => "computed abi"
  | moduleSkipped .. => "skipping module"
  | moduleAnalyzed .. => "analyzed module"
  | reportsAggregated .. => "aggregated reports"
  | reportsWritten .. => "wrote module reports"
  | configMissing .. => "no config file, using defaults"
  | configInvalid .. => "invalid config, using defaults"
  | configUnreadable .. => "unreadable config, using defaults"

def details : Event → List String
  | readingUnits path source => [s!"path={path.text}", s!"source=\"{source}\""]
  | textRootMissing root => [s!"root={root.text}"]
  | scanningTexts scanner files => [s!"scanner=\"{scanner}\"", s!"file_count={files}"]
  | candidatesCollected bytecode text => [s!"bytecode={bytecode}", s!"text={text}"]
  | usedExtracted defined used => [s!"defined={defined}", s!"used={used}"]
  | artifactIndexed canonical symbols => [s!"artifact={canonical}", s!"symbol_count={symbols}"]
  | ambiguousOwner ambiguity => [s!"warning={ambiguity}"]
  | indexBuilt artifacts symbols warnings =>
      [s!"artifact_count={artifacts}", s!"symbol_count={symbols}", s!"warning_count={warnings}"]
  | graphBuilt nodes edges => [s!"node_count={nodes}", s!"edge_count={edges}"]
  | misuseComputed unusedDirect usedTransitive unobservable =>
      [s!"unused_direct={unusedDirect}", s!"used_transitive={usedTransitive}",
       s!"unobservable={unobservable}"]
  | surfaceExtracted classes types => [s!"class_count={classes}", s!"type_count={types}"]
  | abiComputed types members fingerprint =>
      [s!"type_count={types}", s!"member_count={members}", s!"fingerprint={fingerprint}"]
  | moduleSkipped modulePath variant reason =>
      [s!"module={modulePath}", s!"variant={variant}", s!"reason={reason}"]
  | moduleAnalyzed modulePath variant used unusedDirect usedTransitive =>
      [s!"module={modulePath}", s!"variant={variant}", s!"used={used}",
       s!"unused_direct={unusedDirect}", s!"used_transitive={usedTransitive}"]
  | reportsAggregated modules => [s!"module_count={modules}"]
  | reportsWritten directory => [s!"dir={directory.text}"]
  | configMissing path => [s!"path={path.text}"]
  | configInvalid path reason | configUnreadable path reason =>
      [s!"path={path.text}", s!"error={reason}"]

end Event

def Severity.name : Severity → String
  | debug => "DEBUG"
  | info => "INFO"
  | warning => "WARN"

def Event.line (event : Event) : String :=
  " ".intercalate (event.severity.name :: event.message :: event.details)

end Linkage
