import Linkage.Command.Basic

/-!
Reading a command line.

A command line is the program's own options, the name of a command, and the command's options and
operands in any order. A long option takes its value behind an equals sign or as the next argument,
a letter also without anything between. Two dashes end the options. Options are not abbreviated and
not repeated, and no value is empty.

An option and its value are settled when the next option comes, or the command ends, or the whole
line. So a request for help is answered if nothing before it was settled wrongly.
-/

namespace Linkage

inductive Setting
  | root
  | config
  | out
  | strict
  | dump
  | reduced
  | help
  | version
  deriving DecidableEq, Repr

namespace Setting

def name : Setting → String
  | root => "root"
  | config => "config"
  | out => "out"
  | strict => "strict"
  | dump => "dump"
  | reduced => "reduced"
  | help => "help"
  | version => "version"

def letter? : Setting → Option Char
  | root => some 'r'
  | config => some 'c'
  | out => some 'o'
  | help => some 'h'
  | version => some 'V'
  | _ => none

/-- Whether an option has a value. The letters of the others all stand for requests. -/
def takesValue : Setting → Bool
  | root | config | out => true
  | _ => false

end Setting

inductive Verb
  | analyze
  | used
  | abi
  | aggregate
  deriving DecidableEq, Repr

def Verb.ofName? : String → Option Verb
  | "analyze" => some analyze
  | "used" => some used
  | "abi" => some abi
  | "aggregate" => some aggregate
  | _ => none

structure Grammar where
  settings : List Setting
  operandLimit : Option Nat
  deriving DecidableEq, Repr

def programGrammar : Grammar := ⟨[.root, .config, .help, .version], some 0⟩

def Verb.grammar : Verb → Grammar
  | analyze => ⟨[.out, .strict, .help], some 1⟩
  | used => ⟨[.help], some 1⟩
  | abi => ⟨[.dump, .reduced, .help], none⟩
  | aggregate => ⟨[.out, .help], none⟩

inductive LineFault
  | unknownOption (text : String)
  | unexpectedValue (setting : Setting)
  | missingValue (setting : Setting)
  | emptyValue
  | repeatedOption (setting : Setting)
  | unexpectedOperand (text : String)
  | missingOperand
  | missingCommand
  | unknownCommand (name : String)
  | conflictingOptions (first second : Setting)
  deriving DecidableEq, Repr

def LineFault.message : LineFault → String
  | unknownOption text => s!"unknown option {text}"
  | unexpectedValue setting => s!"option --{setting.name} takes no value"
  | missingValue setting => s!"option --{setting.name} needs a value"
  | emptyValue => "a value is empty"
  | repeatedOption setting => s!"option --{setting.name} is repeated"
  | unexpectedOperand text => s!"unexpected argument {text}"
  | missingOperand => "an argument is missing"
  | missingCommand => "a command is missing"
  | unknownCommand name => s!"unknown command {name}"
  | conflictingOptions first second => s!"options --{first.name} and --{second.name} conflict"

inductive Refusal
  | helpRequested
  | versionRequested
  | misused (fault : LineFault)
  deriving DecidableEq, Repr

inductive Pending
  | nothing
  | option (setting : Setting) (value : Option String)
  | operands (texts : List String)
  deriving DecidableEq, Repr

structure Reading where
  given : List (Setting × String) := []
  operands : List String := []
  pending : Pending := .nothing
  /-- Whether two dashes ended the options. -/
  ended : Bool := false
  deriving DecidableEq, Repr

namespace Reading

def awaitsValue (reading : Reading) : Bool :=
  match reading.pending with
  | .option _ none => true
  | _ => false

def has (reading : Reading) (setting : Setting) : Bool := (reading.given.lookup setting).isSome

def path? (reading : Reading) (setting : Setting) : Option Path :=
  (reading.given.lookup setting).map Path.mk

def give (reading : Reading) (setting : Setting) (value : String) : Except Refusal Reading :=
  if reading.has setting then .error (.misused (.repeatedOption setting))
  else .ok { reading with given := reading.given ++ [(setting, value)] }

def settle (reading : Reading) : Except Refusal Reading :=
  match reading.pending with
  | .nothing => .ok reading
  | .option setting none => .error (.misused (.missingValue setting))
  | .option setting (some value) =>
    if value.isEmpty then .error (.misused .emptyValue)
    else { reading with pending := .nothing }.give setting value
  | .operands texts =>
    if texts.any String.isEmpty then .error (.misused .emptyValue)
    else .ok { reading with operands := reading.operands ++ texts, pending := .nothing }

def option (reading : Reading) (setting : Setting) (value : Option String) :
    Except Refusal Reading := do
  let reading ← reading.settle
  match setting, value with
  | .help, _ => throw .helpRequested
  | .version, _ => throw .versionRequested
  | setting, some value =>
    let waiting : Reading := { reading with pending := .option setting (some value) }
    waiting.settle
  | setting, none =>
    if setting.takesValue then return { reading with pending := .option setting none }
    else reading.give setting ""

def long (grammar : Grammar) (reading : Reading) (text : List Char) : Except Refusal Reading :=
  let name := text.takeWhile (· ≠ '=')
  let value := match text.dropWhile (· ≠ '=') with
    | [] => none
    | _ :: value => some (String.ofList value)
  match grammar.settings.find? fun setting => setting.name.toList = name with
  | none => .error (.misused (.unknownOption ("--" ++ String.ofList name)))
  | some setting =>
    if value.isSome && !setting.takesValue then .error (.misused (.unexpectedValue setting))
    else reading.option setting value

def short (grammar : Grammar) (reading : Reading) (letter : Char) (rest : List Char) :
    Except Refusal Reading :=
  let value := match rest with
    | [] => none
    | '=' :: value => some (String.ofList value)
    | value => some (String.ofList value)
  match grammar.settings.find? fun setting => setting.letter? = some letter with
  | none => .error (.misused (.unknownOption (String.ofList ['-', letter])))
  | some setting => reading.option setting (if setting.takesValue then value else none)

def operand (grammar : Grammar) (reading : Reading) (text : String) : Except Refusal Reading := do
  let (reading, waiting) ← match reading.pending with
    | .operands texts => pure (reading, texts)
    | _ => do pure (← reading.settle, [])
  if grammar.operandLimit.any (· ≤ reading.operands.length + waiting.length) then
    throw (.misused (.unexpectedOperand text))
  else return { reading with pending := .operands (waiting ++ [text]) }

def argument (grammar : Grammar) (reading : Reading) (text : String) : Except Refusal Reading :=
  if reading.ended then reading.operand grammar text
  else
    match text.toList with
    | ['-', '-'] => .ok { reading with ended := true }
    | '-' :: '-' :: rest => reading.long grammar rest
    | '-' :: letter :: rest => reading.short grammar letter rest
    | _ =>
      match reading.pending with
      | .option setting none => .ok { reading with pending := .option setting (some text) }
      | _ => reading.operand grammar text

end Reading

def AbiForm.ofReading (reading : Reading) : Except Refusal AbiForm :=
  match reading.has .dump, reading.has .reduced with
  | true, true => .error (.misused (.conflictingOptions .dump .reduced))
  | true, false => .ok dump
  | false, true => .ok reduced
  | false, false => .ok fingerprint

def Verb.command (verb : Verb) (arguments : List String) : Except Refusal Command := do
  let reading ← arguments.foldlM (Reading.argument verb.grammar) {}
  let reading ← reading.settle
  match verb, reading.operands with
  | _, [] => throw (.misused .missingOperand)
  | analyze, manifest :: _ =>
      return .analyze ⟨manifest⟩ ((reading.path? .out).getD usualOut) (reading.has .strict)
  | used, manifest :: _ => return .used ⟨manifest⟩
  | abi, outputs => return .abi (outputs.map Path.mk) (← AbiForm.ofReading reading)
  | aggregate, outcomes =>
      return .aggregate (outcomes.map Path.mk) ((reading.path? .out).getD usualOut)

def helpOn : List String → Refusal
  | [] => .helpRequested
  | name :: more =>
    if (Verb.ofName? name).isNone && name ≠ "help" then .misused (.unknownCommand name)
    else
      match more with
      | [] => .helpRequested
      | other :: _ => .misused (.unknownCommand other)

def Invocation.read (reading : Reading) : List String → Except Refusal Invocation
  | [] => do
    let _ ← reading.settle
    throw (.misused .missingCommand)
  | text :: rest => do
    if reading.ended || reading.awaitsValue then
      read (← reading.argument programGrammar text) rest
    else if text = "help" then throw (helpOn rest)
    else
      match Verb.ofName? text with
      | none => read (← reading.argument programGrammar text) rest
      | some verb =>
        let command ← verb.command rest
        let reading ← reading.settle
        return {
          root := (reading.path? .root).getD ⟨"."⟩, config := reading.path? .config, command }

def Invocation.ofArguments (arguments : List String) : Except Refusal Invocation :=
  Invocation.read {} arguments

end Linkage
