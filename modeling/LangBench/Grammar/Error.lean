import LangBench.Text.Visible

/-!
What can be wrong with a grammar text.
-/

namespace LangBench

/-- What is wrong with a line of a grammar text. -/
inductive LineFault where
  | brokenArrow
  | unterminatedEscape
  | unterminatedTerminal
  | emptyTerminal
  | unexpectedCharacter (c : Char)
  /-- A line that starts with a bar before any rule. -/
  | continuationWithoutRule
  /-- A line that starts neither with a name and an arrow nor with a bar. -/
  | noRule
  | unexpectedArrow
  deriving DecidableEq

/-- Why a text gives no grammar. -/
inductive GrammarError where
  | badLine (line : Nat) (fault : LineFault)
  | noProductions
  /-- Terminals that are used but not declared. -/
  | uncovered (missing : List String)
  deriving DecidableEq

def LineFault.message : LineFault → String
  | .brokenArrow => "expected '->'"
  | .unterminatedEscape => "unterminated escape"
  | .unterminatedTerminal => "unterminated terminal"
  | .emptyTerminal => "empty terminal; use an empty alternative"
  | .unexpectedCharacter c => "unexpected character " ++ Text.showChar c
  | .continuationWithoutRule => "continuation line without a rule"
  | .noRule => "expected 'Name -> ...'"
  | .unexpectedArrow => "unexpected '->'"

def GrammarError.message : GrammarError → String
  | .badLine line fault =>
    "grammar syntax error on line " ++ toString line ++ ": " ++ fault.message
  | .noProductions => "grammar has no productions"
  | .uncovered missing => "grammar does not cover terminals: " ++ ", ".intercalate missing

end LangBench
