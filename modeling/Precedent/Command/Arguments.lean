import Precedent.Number.Reader
import Precedent.Settings
import Precedent.Text.Basic

/-!
# Precedent.Command.Arguments

**The arguments of the command.** They are read from left to right. An option that takes a value has
it joined by an equals sign, or in the next argument; in that case it must not start with a hyphen,
though it may be one. Switches stand alone and have short forms, which can be written behind one
hyphen. No option and no switch may be given twice, nothing else may stand among them, and the input
has to be named. The request for help is granted as soon as it is reached, so it hides all faults
that come later and none that come before.
-/

namespace Precedent.Command

/-- The options that take a value. -/
inductive ValueOption where
  | input
  | outputDirectory
  | maxDegree
  | mode
  | edgeOpacity
  | cacheCapacity
  | threads
deriving DecidableEq, Repr

def ValueOption.all : List ValueOption :=
  [input, outputDirectory, maxDegree, mode, edgeOpacity, cacheCapacity, threads]

/-- The name of an option, as it is written behind two hyphens. -/
def ValueOption.name : ValueOption → String
  | input => "input"
  | outputDirectory => "output-dir"
  | maxDegree => "max-degree"
  | mode => "mode"
  | edgeOpacity => "edge-opacity"
  | cacheCapacity => "cache-capacity"
  | threads => "threads"

/-- The options that stand alone. -/
inductive Switch where
  | verbose
  | help
deriving DecidableEq, Repr

def Switch.all : List Switch := [verbose, help]

/-- The name of a switch, as it is written behind two hyphens. -/
def Switch.name : Switch → String
  | verbose => "verbose"
  | help => "help"

/-- The letter of a switch, as it is written behind one hyphen. -/
def Switch.letter : Switch → Char
  | verbose => 'v'
  | help => 'h'

/-- Why arguments are rejected. -/
inductive ArgumentFault where
  /-- Nothing has this name or letter, or an argument belongs to nothing. -/
  | unexpected (argument : String)
  | repeated (name : String)
  | missingValue (option : ValueOption)
  | invalidValue (option : ValueOption) (value : String)
  | needlessValue (switch : Switch)
  /-- The input is not named. -/
  | missingInput
deriving DecidableEq, Repr

def ArgumentFault.message : ArgumentFault → String
  | .unexpected argument => "unexpected argument '" ++ argument ++ "'"
  | .repeated name => "--" ++ name ++ " is given more than once"
  | .missingValue option => "--" ++ option.name ++ " needs a value"
  | .invalidValue option value => "'" ++ value ++ "' is no value for --" ++ option.name
  | .needlessValue switch => "--" ++ switch.name ++ " takes no value"
  | .missingInput => "--input is required"

/-- What a run of the command is asked to do. -/
structure Arguments where
  /-- The path of the document. -/
  input : String
  outputDirectory : String
  settings : Settings
  /-- How many workers may be used. No result depends on it. -/
  threads : Nat
  verbose : Bool
deriving DecidableEq, Repr

/-- What the arguments ask for. -/
inductive Request where
  | help
  | draw (arguments : Arguments)
deriving DecidableEq, Repr

/-! ### Reading values -/

/-- What has been read so far. The input is still empty when it has not been given. -/
structure Draft where
  arguments : Arguments
  given : List ValueOption
deriving DecidableEq, Repr

/-- Nothing has been read, so all has its default. -/
def Draft.start : Draft := ⟨⟨"", "citation_map", .default, 0, false⟩, []⟩

/-- An unsigned integer of 64 bits. -/
def count? (value : String) : Option Nat := (Text.word? value.toList).map UInt64.toNat

/-- Arguments with the value of an option put in, if it is one that the option can have. -/
def Arguments.with? (a : Arguments) (value : String) : ValueOption → Option Arguments
  | .input => some { a with input := value }
  | .outputDirectory => some { a with outputDirectory := value }
  | .maxDegree =>
    (count? value).map fun maxDegree => { a with settings := { a.settings with maxDegree } }
  | .mode =>
    (Mode.choose? false value).map fun mode => { a with settings := { a.settings with mode } }
  | .edgeOpacity =>
    (Number.binary32.ofText? value).map fun edgeOpacity =>
      { a with settings := { a.settings with edgeOpacity } }
  | .cacheCapacity =>
    (count? value).map fun cacheCapacity =>
      { a with settings := { a.settings with cacheCapacity } }
  | .threads => (count? value).map fun threads => { a with threads }

def Draft.takeValue (d : Draft) (option : ValueOption) (value : String) :
    Except ArgumentFault Draft :=
  if d.given.contains option then .error (.repeated option.name)
  else
    match d.arguments.with? value option with
    | some arguments => .ok ⟨arguments, option :: d.given⟩
    | none => .error (.invalidValue option value)

/-! ### Reading arguments -/

/-- What a single argument is. -/
inductive Argument where
  /-- An option, with its value if one is joined to it. -/
  | option (option : ValueOption) (value : Option String)
  /-- A switch by its name, with a value if one is joined to it. -/
  | switch (switch : Switch) (value : Option String)
  /-- Letters behind one hyphen. -/
  | letters (cs : List Char)
  /-- The mark behind which there are no options. -/
  | mark
  /-- Anything else. -/
  | other

/-- What an argument behind two hyphens is. -/
def Argument.ofName (cs : List Char) : Argument :=
  let name := String.ofList (cs.takeWhile (· != '='))
  let value := match cs.dropWhile (· != '=') with
    | _ :: v => some (String.ofList v)
    | [] => none
  match ValueOption.all.find? fun o => o.name == name with
  | some o => .option o value
  | none =>
    match Switch.all.find? fun s => s.name == name with
    | some s => .switch s value
    | none => .other

def Argument.of (text : String) : Argument :=
  match text.toList with
  | ['-', '-'] => .mark
  | '-' :: '-' :: cs => .ofName cs
  | '-' :: c :: cs => .letters (c :: cs)
  | _ => .other

/-- Whether an argument can be the value of the option before it. -/
def isValue (text : String) : Bool := !text.startsWith "-" || text == "-"

/-- Take up a switch. Help is granted at once. -/
def Draft.takeSwitch (d : Draft) : Switch → Except ArgumentFault (Draft ⊕ Request)
  | .help => .ok (.inr .help)
  | .verbose =>
    if d.arguments.verbose then .error (.repeated Switch.verbose.name)
    else .ok (.inl { d with arguments := { d.arguments with verbose := true } })

/-- Take up switches by their letters. -/
def Draft.takeLetters (d : Draft) : List Char → Except ArgumentFault (Draft ⊕ Request)
  | [] => .ok (.inl d)
  | c :: cs =>
    match Switch.all.find? fun s => s.letter == c with
    | none => .error (.unexpected (String.ofList ['-', c]))
    | some s => do
      match ← d.takeSwitch s with
      | .inl d => d.takeLetters cs
      | .inr request => pure (.inr request)

/-- What is asked for when all arguments have been read. -/
def Draft.finish (d : Draft) : Except ArgumentFault Request :=
  if d.given.contains .input then .ok (.draw d.arguments) else .error .missingInput

def Draft.read (d : Draft) : List String → Except ArgumentFault Request
  | [] => d.finish
  | argument :: rest =>
    match Argument.of argument with
    | .option option (some value) => do (← d.takeValue option value).read rest
    | .option option none =>
      match rest with
      | [] => .error (.missingValue option)
      | value :: rest =>
        if isValue value then do (← d.takeValue option value).read rest
        else .error (.missingValue option)
    | .switch switch (some _) => .error (.needlessValue switch)
    | .switch switch none => do
      match ← d.takeSwitch switch with
      | .inl d => d.read rest
      | .inr request => pure request
    | .letters cs => do
      match ← d.takeLetters cs with
      | .inl d => d.read rest
      | .inr request => pure request
    | .mark =>
      match rest with
      | [] => d.finish
      | stray :: _ => .error (.unexpected stray)
    | .other => .error (.unexpected argument)

/-- What a list of arguments asks for. -/
def Request.ofArguments (args : List String) : Except ArgumentFault Request := Draft.start.read args

/-! ### What the command says about itself -/

def ValueOption.meaning : ValueOption → String
  | input => "the document: saved opinion clusters or search results"
  | outputDirectory => "the directory for the report (citation_map)"
  | maxDegree => "keep what is below this many degrees of separation (3)"
  | mode => "dos, spaeth or genealogy (dos)"
  | edgeOpacity => "the opacity of citations that ask for none (0.5)"
  | cacheCapacity => "how many authority summaries are kept (256)"
  | threads => "how many workers may be used (0 for all there are)"

def Switch.meaning : Switch → String
  | verbose => "say more while drawing"
  | help => "show this text"

/-- The text for those who ask for help. -/
def usage : String :=
  let options := ValueOption.all.map fun o => "  --" ++ o.name ++ " VALUE: " ++ o.meaning
  let switches := Switch.all.map fun s =>
    "  -" ++ s.letter.toString ++ ", --" ++ s.name ++ ": " ++ s.meaning
  "\n".intercalate
    ("Draw the citations among opinions by degrees of separation." :: options ++ switches)

end Precedent.Command
