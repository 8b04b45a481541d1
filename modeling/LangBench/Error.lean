import LangBench.Backend

/-!
What can go wrong when a benchmark is configured or run.
-/

namespace LangBench

/-- The two kinds of things that a configuration names. -/
inductive Kind where
  | lang
  | net
  deriving DecidableEq

/-- The key of the preset name in an entry of a configuration. -/
def Kind.key : Kind → String
  | .lang => "lang"
  | .net => "net"

def Kind.sectionKey : Kind → String
  | .lang => "langs"
  | .net => "nets"

/-- Why a document is no configuration. -/
inductive ConfigFault where
  | notAnObject
  | missingSection (kind : Kind)
  | sectionNotAnObject (kind : Kind)
  | entryNotAnObject (kind : Kind) (name : String)
  | presetNotAString (kind : Kind) (name : String)
  | missingPreset (kind : Kind) (name : String)
  deriving DecidableEq

/-- What is wrong with a parameter. -/
inductive ParamFault where
  | missing
  | notNatural (found : Json)
  | notPositive
  /-- A context longer than the samples. -/
  | orderTooLarge (order maxLength : Nat)
  | noAssignment
  /-- An assignment to nothing but blanks. -/
  | emptyName

/-- Why a net stops for good while it is used. -/
inductive NetFault where
  /-- A symbol is to be drawn of an empty alphabet. -/
  | emptyAlphabet
  | narrowCounts
  deriving DecidableEq

/-- Why something cannot be configured or run. -/
inductive RunError where
  | config (fault : ConfigFault)
  | unknownPreset (kind : Kind) (name : String)
  /-- The net cannot do without a parameter that may otherwise be left open. -/
  | unsupportedParameter (net param : String)
  | invalidParameter (name : String) (fault : ParamFault)
  /-- The backend uses more symbols than the language declares. -/
  | alphabetMismatch (language : String) (declared used : Nat)
  | unknownInstance (kind : Kind) (name : String)
  | backend (e : BackendError)
  | shape (e : ShapeError)
  | unreadable (path reason : String)
  | notJson
  | netStopped (f : NetFault)
  /-- An enumeration took more steps than it may. -/
  | stalled

def ConfigFault.message : ConfigFault → String
  | .notAnObject => "configuration must be a JSON object"
  | .missingSection kind => "missing '" ++ kind.sectionKey ++ "' section"
  | .sectionNotAnObject kind => "'" ++ kind.sectionKey ++ "' must be an object"
  | .entryNotAnObject kind name => kind.sectionKey ++ "." ++ name ++ " must be an object"
  | .presetNotAString kind name =>
    kind.sectionKey ++ "." ++ name ++ "." ++ kind.key ++ " must be a string"
  | .missingPreset kind name =>
    kind.sectionKey ++ "." ++ name ++ " is missing the '" ++ kind.key ++ "' key"

def ParamFault.message : ParamFault → String
  | .missing => "missing value"
  | .notNatural found => "expected a non-negative integer, found " ++ found.render
  | .notPositive => "must be positive"
  | .orderTooLarge order maxLength =>
    toString order ++ " exceeds max_length " ++ toString maxLength
  | .noAssignment => "expected an assignment of the form key=value"
  | .emptyName => "empty parameter name"

def NetFault.message : NetFault → String
  | .emptyAlphabet => "no symbol to draw"
  | .narrowCounts => "symbol outside the counted alphabet"

def RunError.message : RunError → String
  | .config fault => "invalid configuration: " ++ fault.message
  | .unknownPreset kind name => "unknown " ++ kind.key ++ " preset '" ++ name ++ "'"
  | .unsupportedParameter net param =>
    "net '" ++ net ++ "' does not support runs without '" ++ param ++ "'"
  | .invalidParameter name fault => "invalid parameter '" ++ name ++ "': " ++ fault.message
  | .alphabetMismatch language declared used =>
    "language '" ++ language ++ "' declares " ++ toString declared
      ++ " symbols but its backend uses " ++ toString used
  | .unknownInstance kind name =>
    "no configured " ++ kind.key ++ " instance named '" ++ name ++ "'"
  | .backend e => "backend error: " ++ e.message
  | .shape e => "shape error: " ++ e.message
  | .unreadable path reason => "failed to read " ++ path ++ ": " ++ reason
  | .notJson => "JSON error"
  | .netStopped f => "net failed: " ++ f.message
  | .stalled => "enumeration stalled"

end LangBench
