import Linkage.Event

/-!
Choosing which events are logged.
-/

namespace Linkage

/-- How much is logged. The constructors are in ascending order. -/
inductive LogLevel
  | off
  | error
  | warn
  | info
  | debug
  | trace
  deriving DecidableEq, Repr

namespace LogLevel

/-- The level that a text names, by a word in any case or by a number. -/
def ofText? (text : String) : Option LogLevel :=
  match text.toLower with
  | "off" | "0" => some off
  | "error" | "1" => some error
  | "warn" | "2" => some warn
  | "info" | "3" => some info
  | "debug" | "4" => some debug
  | "trace" | "5" => some trace
  | _ => none

def isPartName (text : String) : Bool :=
  text.toList.all fun c => c.isAlphanum || c = '_' || c = ':' || c = '-'

/-- The level that is asked for. The name of a part asks for the events of that part alone, and no
event is of a part with a name. What cannot be understood asks for nothing in particular. -/
def ofRequest : Option String → LogLevel
  | none => info
  | some text =>
    match ofText? text with
    | some level => level
    | none => if isPartName text then off else info

def admits : LogLevel → Severity → Bool
  | off, _ | error, _ => false
  | warn, severity => severity = .warning
  | info, severity => severity ≠ .debug
  | debug, _ | trace, _ => true

def lines (level : LogLevel) (events : List Event) : List String :=
  (events.filter fun event => level.admits event.severity).map Event.line

end LogLevel

end Linkage
