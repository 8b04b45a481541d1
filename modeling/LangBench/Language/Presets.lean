import LangBench.Language.Basic

/-!
The languages that come with the library.
-/

namespace LangBench.Language

/-- Three states in a circle: each has a loop and an edge to the next on its own symbol. -/
def toyFsm : Language :=
  ofAutomaton "toy_fsm"
    ("Circular three-state automaton with a self-loop and a forward edge per state, "
      ++ "all states terminal")
    3
    (Automaton.ofParts 3 [true, true, true] [(0, 0, [0, 1]), (1, 1, [1, 2]), (2, 2, [2, 0])] none)

/-- Two states that tell whether the number of ones is even. -/
def parityFsm : Language :=
  ofAutomaton "parity_fsm" "Binary strings containing an even number of 1s" 2
    (Automaton.ofParts 2 [true, false] [(0, 0, [0]), (0, 1, [1]), (1, 0, [1]), (1, 1, [0])] (some 0))

def toyCfg : Language :=
  ofGrammar "toy_cfg" "Any number of 0s followed by the same number of 1s, e.g. 01, 0011, 000111"
    "S -> '0' S '1' | " ["0", "1"] 20

def dyckCfg : Language :=
  ofGrammar "dyck_cfg" "Balanced strings of round and square brackets, symbols ( ) [ ] as 0 1 2 3"
    "S -> '(' S ')' S\n   | '[' S ']' S\n   |\n" ["(", ")", "[", "]"] 5

end LangBench.Language
