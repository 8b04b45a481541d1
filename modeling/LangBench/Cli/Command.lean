import LangBench.Cli.Options

/-!
The commands of the program.
-/

namespace LangBench.Cli

/-- What can be listed. -/
inductive Listing where
  | backends
  | langs
  | nets
  deriving DecidableEq

/-- What samples to print. -/
structure SampleOptions where
  lang : String
  count : Nat
  maxLength : Option Nat
  assignments : List String
  dot : Bool

/-- A command. -/
inductive Command where
  | list (what : Listing)
  | sample (options : SampleOptions)
  | run (path : String) (json : Bool)

/-- What the arguments ask for. -/
inductive Request where
  | command (c : Command)
  | help
  | version
  | rejected

/-- A natural number of 64 bits, with a plus sign in front if wanted. -/
def number? (text : String) : Option Nat :=
  let cs := text.toList
  let digits := if cs.head? = some '+' then cs.tail else cs
  let n := Nat.ofDigitChars 10 digits 0
  if !digits.isEmpty && digits.all Char.isDigit && n < UInt64.size then some n else none

def flag (long : String) (short : Option Char) : OptionSpec := ⟨long, short, none, false⟩

def commonOptions : List OptionSpec := [flag "verbose" (some 'v'), flag "quiet" (some 'q')]

def topLevel : Level where
  options := commonOptions
  positionals := []
  commands := ["show", "sample", "run", "help"]
  version := true

def showLevel : Level where
  options := commonOptions
  positionals := []
  commands := ["backends", "langs", "nets", "help"]
  version := false

def bareLevel : Level where
  options := commonOptions
  positionals := []
  commands := []
  version := false

def sampleLevel : Level where
  options := commonOptions ++ [
    ⟨"count", some 'n', some fun s ↦ (number? s).isSome, false⟩,
    ⟨"max-length", none, some fun s ↦ (number? s).isSome, false⟩,
    ⟨"set", none, some fun _ ↦ true, true⟩,
    flag "dot" none]
  positionals := [fun _ ↦ true]
  commands := []
  version := false

def runLevel : Level where
  options := commonOptions ++ [flag "json" none]
  positionals := [fun s ↦ s ≠ ""]
  commands := []
  version := false

namespace Matched

def empty : Matched := ⟨[], []⟩

def has (m : Matched) (long : String) : Bool := m.options.any (·.1 = long)

def values (m : Matched) (long : String) : List String :=
  (m.options.filter (·.1 = long)).map (·.2)

def number? (m : Matched) (long : String) : Option Nat :=
  (m.values long).head?.bind Cli.number?

end Matched

def Reading.request (make : Matched → Option Command) : Reading → Request
  | .complete m => (make m).elim .rejected .command
  | .command _ _ => .rejected
  | .help => .help
  | .version => .version
  | .rejected => .rejected

def sampleCommand (m : Matched) : Option Command :=
  m.positionals.head?.map fun lang ↦ .sample {
    lang
    count := (m.number? "count").getD 10
    maxLength := m.number? "max-length"
    assignments := m.values "set"
    dot := m.has "dot" }

def runCommand (m : Matched) : Option Command :=
  m.positionals.head?.map fun path ↦ .run path (m.has "json")

/-- Help on a command is given if there is such a command. -/
def helpRequest : List String → Request
  | [] => .help
  | ["show"] | ["sample"] | ["run"] | ["help"] => .help
  | ["show", "backends"] | ["show", "langs"] | ["show", "nets"] | ["show", "help"] => .help
  | _ => .rejected

def readShow (args : List String) : Request :=
  let listing (what : Listing) (rest : List String) : Request :=
    (bareLevel.read .empty rest).request fun _ ↦ some (.list what)
  match showLevel.read .empty args with
  | .command "backends" rest => listing .backends rest
  | .command "langs" rest => listing .langs rest
  | .command "nets" rest => listing .nets rest
  | .command _ rest => helpRequest ("show" :: rest)
  | .help => .help
  | _ => .rejected

def readRequest (args : List String) : Request :=
  match topLevel.read .empty args with
  | .command "show" rest => readShow rest
  | .command "sample" rest => (sampleLevel.read .empty rest).request sampleCommand
  | .command "run" rest => (runLevel.read .empty rest).request runCommand
  | .command _ rest => helpRequest rest
  | .help => .help
  | .version => .version
  | _ => .rejected

end LangBench.Cli
