/-!
Reading command-line arguments.

A level of the command line has options, which may come in any order, and either positional
arguments or names of commands. `--name=value`, `--name value`, `-nvalue`, `-n=value` and `-n value`
give an option a value, several short options may share one hyphen, and after `--` every argument
is positional.
-/

namespace LangBench.Cli

/-- An option. -/
structure OptionSpec where
  long : String
  short : Option Char
  /-- Which values the option accepts; `none` if it takes no value. -/
  value : Option (String → Bool)
  repeatable : Bool

/-- What may stand on a level of the command line. -/
structure Level where
  options : List OptionSpec
  positionals : List (String → Bool)
  /-- The names of commands, each of which starts a level of its own. -/
  commands : List String
  version : Bool

/-- The arguments of a level. -/
structure Matched where
  /-- Options by their long names, each with its value, in order. -/
  options : List (String × String)
  positionals : List String

/-- How the arguments of a level end. -/
inductive Reading where
  | complete (m : Matched)
  | command (name : String) (rest : List String)
  | help
  | version
  | rejected

/-- How a single argument is to be taken. -/
inductive Argument where
  | escape
  /-- An option with two hyphens, and the value after an equals sign. -/
  | long (name : String) (value : Option String)
  | short (letters : List Char)
  | plain (text : String)

namespace Argument

/-- Take an argument by its first characters. A single hyphen is plain. -/
def ofText (text : String) : Argument :=
  match text.toList with
  | ['-', '-'] => escape
  | '-' :: '-' :: cs =>
    let name := String.ofList (cs.takeWhile (· != '='))
    match cs.dropWhile (· != '=') with
    | [] => long name none
    | _ :: value => long name (some (.ofList value))
  | '-' :: c :: cs => short (c :: cs)
  | _ => plain text

/-- Whether an argument can be the value of the option before it. -/
def isPlain : Argument → Bool
  | plain _ => true
  | _ => false

end Argument

namespace Level

/-- Note an option with its value, unless it must not be repeated or does not accept the value. -/
def note (o : OptionSpec) (value : String) (m : Matched) : Option Matched :=
  if !o.repeatable && m.options.any (·.1 = o.long) then none
  else if o.value.all (· value) then some { m with options := m.options ++ [(o.long, value)] }
  else none

/-- What comes of the short options behind one hyphen. -/
inductive Cluster where
  | done (m : Matched)
  | needsValue (o : OptionSpec) (m : Matched)
  | help
  | version
  | rejected

/-- Read the short options behind one hyphen. What follows an option with a value is its value. -/
def readCluster (l : Level) (m : Matched) : List Char → Cluster
  | [] => .done m
  | c :: cs =>
    match l.options.find? (·.short = some c) with
    | some o =>
      if o.value.isNone then
        match note o "" m with
        | some m => l.readCluster m cs
        | none => .rejected
      else
        match cs with
        | [] => .needsValue o m
        | _ =>
          let value := if cs.head? = some '=' then cs.tail else cs
          match note o (.ofList value) m with
          | some m => .done m
          | none => .rejected
    | none =>
      if c = 'h' then .help
      else if c = 'V' && l.version then .version
      else .rejected

/-- Note a positional argument, if another one may stand there. -/
def notePositional (l : Level) (text : String) (m : Matched) : Option Matched :=
  match l.positionals[m.positionals.length]? with
  | some accepts =>
    if accepts text then some { m with positionals := m.positionals ++ [text] } else none
  | none => none

def readPositionals (l : Level) (m : Matched) (args : List String) : Reading :=
  match args.foldlM (fun m text ↦ l.notePositional text m) m with
  | some m => .complete m
  | none => .rejected

def read (l : Level) (m : Matched) : List String → Reading
  | [] => .complete m
  | arg :: rest =>
    match Argument.ofText arg with
    | .escape => l.readPositionals m rest
    | .plain text =>
      if l.commands.contains text then .command text rest
      else
        match l.notePositional text m with
        | some m => l.read m rest
        | none => .rejected
    | .short letters =>
      match l.readCluster m letters with
      | .done m => l.read m rest
      | .help => .help
      | .version => .version
      | .rejected => .rejected
      | .needsValue o m =>
        match rest with
        | value :: rest =>
          if (Argument.ofText value).isPlain then
            match note o value m with
            | some m => l.read m rest
            | none => .rejected
          else .rejected
        | [] => .rejected
    | .long name attached =>
      match l.options.find? (·.long = name) with
      | some o =>
        match o.value, attached, rest with
        | none, none, rest =>
          match note o "" m with
          | some m => l.read m rest
          | none => .rejected
        | none, some _, _ => .rejected
        | some _, some value, rest =>
          match note o value m with
          | some m => l.read m rest
          | none => .rejected
        | some _, none, value :: rest =>
          if (Argument.ofText value).isPlain then
            match note o value m with
            | some m => l.read m rest
            | none => .rejected
          else .rejected
        | some _, none, [] => .rejected
      | none =>
        if attached.isSome then .rejected
        else if name = "help" then .help
        else if name = "version" && l.version then .version
        else .rejected

end Level

end LangBench.Cli
