import LangBench.Grammar.Chart
import LangBench.Grammar.Derivation

/-!
A grammar with a bound on the depth of the derivations that are listed. The bound plays no part in
recognition.
-/

namespace LangBench

/-- A grammar whose derivations are listed to a depth, or to any depth. -/
structure Cfg where
  grammar : Grammar
  maxDepth : Option Nat

namespace Cfg

/-- The symbols of a row of terminals, if all of them are in the table. -/
def encode? (c : Cfg) (terminals : List String) : Option Sample :=
  terminals.mapM c.grammar.symbol?

/-- The terminals of a sample, if all its symbols are in the table. -/
def decode? (c : Cfg) (s : Sample) : Option (List String) := s.mapM c.grammar.terminal?

/-- List the samples that are derived within the depth. -/
def derivations (c : Cfg) (maxLength : Option Nat) : Derivations :=
  .ofGrammar c.grammar c.maxDepth maxLength

def accepts (c : Cfg) (s : Sample) : Bool :=
  s.withinAlphabet c.grammar.terminalCount && c.grammar.recognizes s

end Cfg

end LangBench
