import LangBench.Automaton.Graph
import LangBench.Automaton.Recognition
import LangBench.Enumeration.Basic
import LangBench.Shape

/-!
Backends: what a language is made of.

A backend lists the samples of its language and decides which samples belong to it. Automata and
grammars are the two kinds of backends; only an automaton can be drawn.
-/

namespace LangBench

/-- A language that can be listed and recognised. -/
structure Backend where
  name : String
  description : String
  shape : Shape
  alphabetSize : Nat
  /-- List the samples, with a bound on their length if there is one. -/
  generate : Option Nat → Enumeration
  accepts : Sample → Bool
  dot : Option String

/-- What is known of a kind of backend. -/
structure BackendInfo where
  name : String
  description : String
  shape : Shape

/-- Why a backend cannot be built. -/
inductive BackendError where
  | automaton (e : AutomatonError)
  | grammar (e : GrammarError)

def BackendError.message : BackendError → String
  | .automaton e => e.message
  | .grammar e => e.message

namespace BackendInfo

def fsm : BackendInfo where
  name := "fsm"
  description := "Non-deterministic finite state machine enumerated breadth-first"
  shape := .sequence

def cfg : BackendInfo where
  name := "cfg"
  description :=
    "Context-free grammar enumerated by bounded-depth derivation, recognised with Earley"
  shape := .sequence

end BackendInfo

def Automaton.backend (a : Automaton) : Backend where
  name := BackendInfo.fsm.name
  description := BackendInfo.fsm.description
  shape := BackendInfo.fsm.shape
  alphabetSize := a.alphabetSize
  generate maxLength := .walk (a.walk maxLength)
  accepts := a.accepts
  dot := some a.toDot

def Cfg.backend (c : Cfg) : Backend where
  name := BackendInfo.cfg.name
  description := BackendInfo.cfg.description
  shape := BackendInfo.cfg.shape
  alphabetSize := c.grammar.terminalCount
  generate maxLength := .derivations (c.derivations maxLength)
  accepts := c.accepts
  dot := none

end LangBench
