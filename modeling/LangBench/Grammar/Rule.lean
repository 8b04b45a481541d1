import LangBench.Grammar.Token
import LangBench.Text.Lines

/-!
Reading the rules of a grammar text.

A line `Name -> items | items` gives one rule for each alternative, and an alternative may be empty.
A line that starts with a bar adds alternatives to the name of the rule before it.
-/

namespace LangBench.Grammar

/-- An item on the right of a rule, as it is written. -/
inductive RuleItem where
  | terminal (text : String)
  | nonterminal (name : String)
  deriving DecidableEq

/-- One alternative of a name. -/
structure Rule where
  name : String
  items : List RuleItem
  deriving DecidableEq

/-- Put an item in front of the first of several alternatives. -/
def consItem (x : RuleItem) : List (List RuleItem) → List (List RuleItem)
  | [] => [[x]]
  | items :: rest => (x :: items) :: rest

def alternatives : List Token → Except LineFault (List (List RuleItem))
  | [] => .ok [[]]
  | .bar :: ts => (alternatives ts).map ([] :: ·)
  | .name s :: ts => (alternatives ts).map (consItem (.nonterminal s))
  | .quoted s :: ts => (alternatives ts).map (consItem (.terminal s))
  | .arrow :: _ => .error .unexpectedArrow

/-- The name that a line gives rules for, and its alternatives; a line without tokens gives none.
`current` is the name of the rule before the line. -/
def readTokens (current : Option String) :
    List Token → Except LineFault (Option (String × List (List RuleItem)))
  | [] => .ok none
  | .name s :: .arrow :: ts => (alternatives ts).map fun alts ↦ some (s, alts)
  | .bar :: ts =>
    match current with
    | none => .error .continuationWithoutRule
    | some s => (alternatives ts).map fun alts ↦ some (s, alts)
  | _ => .error .noRule

def readLine (current : Option String) (line : List Char) :
    Except LineFault (Option (String × List (List RuleItem))) :=
  (tokenize line).bind (readTokens current)

def readLines (n : Nat) (current : Option String) :
    List (List Char) → Except GrammarError (List Rule)
  | [] => .ok []
  | line :: rest =>
    match readLine current line with
    | .error fault => .error (.badLine n fault)
    | .ok none => readLines (n + 1) current rest
    | .ok (some (name, alts)) =>
      (readLines (n + 1) (some name) rest).map ((alts.map (Rule.mk name)) ++ ·)

/-- The rules of a text in the order in which they are written. -/
def readRules (text : String) : Except GrammarError (List Rule) :=
  readLines 1 none (Text.lines text.toList)

end LangBench.Grammar
