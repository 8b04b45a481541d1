import LangBench.Grammar.Basic

/-!
Writing a grammar: one production on a line, terminals in single quotes.
-/

namespace LangBench.Grammar

/-- A terminal in single quotes, with a backslash before every quote and backslash. -/
def quoteTerminal (text : String) : List Char :=
  '\'' :: text.toList.flatMap (fun c ↦ if c = '\\' || c = '\'' then ['\\', c] else [c]) ++ ['\'']

def itemChars (g : Grammar) : Item → List Char
  | .terminal x => quoteTerminal ((g.terminal? x).getD "")
  | .nonterminal n => (g.nonterminals.getD n "").toList

def productionChars (g : Grammar) (p : Production) : List Char :=
  (g.nonterminals.getD p.lhs "").toList ++ " ->".toList
    ++ p.rhs.flatMap (fun x ↦ ' ' :: g.itemChars x) ++ ['\n']

def render (g : Grammar) : String := .ofList (g.productions.toList.flatMap g.productionChars)

end LangBench.Grammar
