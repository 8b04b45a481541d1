import LangBench.Dict
import LangBench.Grammar.Rule
import LangBench.Grammar.Yield

/-!
Context-free grammars.

Nonterminals are numbered in the order in which they are first written, the left side of a rule
before its right side; the first is the start. Terminals are numbered in the order in which they
are first used, or in the order of an alphabet that has to declare all of them. Their table is kept
both ways, as a list of texts and as a map from texts to symbols.
-/

namespace LangBench

/-- The places of the productions of a nonterminal, in order. -/
def Grammar.placesOf (productions : Array Grammar.Production) (n : Nat) : List Nat :=
  (List.range productions.size).filter fun p ↦ productions[p]?.any (·.lhs = n)

/-- The places of the productions of each of `count` nonterminals. -/
def Grammar.places (count : Nat) (productions : Array Grammar.Production) : Array (List Nat) :=
  Array.ofFn fun n : Fin count ↦ placesOf productions n

def Grammar.symbolAt (i : Nat) : Symbol := .ofNat i

/-- The map from the texts of terminals to their symbols, made by binding one after the other. -/
def Grammar.symbolTable (terminals : List String) : Dict Symbol :=
  .ofList (terminals.zipIdx.map fun (t, i) ↦ (t, symbolAt i))

open Grammar in
/-- A context-free grammar with its table of terminals. -/
structure Grammar where
  nonterminals : List String
  /-- The texts of the terminals; a terminal is the symbol of its place. -/
  terminals : List String
  symbols : Dict Symbol
  symbols_eq : symbols = symbolTable terminals := by rfl
  productions : Array Production
  index : Array (List Nat)
  index_eq : index = places nonterminals.length productions := by rfl
  minYields : Array Nat
  minYields_eq : minYields = leastYields nonterminals.length productions.toList := by rfl

namespace Grammar

/-- The nonterminals of a rule in the order in which they are written. -/
def Rule.names (r : Rule) : List String :=
  r.name :: r.items.filterMap fun
    | .nonterminal s => some s
    | .terminal _ => none

/-- The terminals of a rule in the order in which they are written. -/
def Rule.terminals (r : Rule) : List String :=
  r.items.filterMap fun
    | .terminal t => some t
    | .nonterminal _ => none

def RuleItem.number (names terminals : List String) : RuleItem → Item
  | .terminal t => .terminal (symbolAt (terminals.idxOf t))
  | .nonterminal s => .nonterminal (names.idxOf s)

def Rule.number (names terminals : List String) (r : Rule) : Production :=
  ⟨names.idxOf r.name, r.items.map (RuleItem.number names terminals)⟩

/-- Make a grammar of rules whose terminals are all in the table. -/
def ofRules (rules : List Rule) (terminals : List String) : Except GrammarError Grammar :=
  if rules.isEmpty then .error .noProductions
  else
    let names := (rules.flatMap Rule.names).eraseDups
    let productions := (rules.map (Rule.number names terminals)).toArray
    .ok {
      nonterminals := names
      terminals := terminals
      symbols := symbolTable terminals
      productions := productions
      index := places names.length productions
      minYields := leastYields names.length productions.toList }

/-- Read a grammar, with terminals in the order of their first use. -/
def parse (text : String) : Except GrammarError Grammar := do
  let rules ← readRules text
  ofRules rules (rules.flatMap Rule.terminals).eraseDups

/-- Read a grammar all of whose terminals an alphabet declares. -/
def parseWithAlphabet (text : String) (alphabet : List String) : Except GrammarError Grammar := do
  let rules ← readRules text
  let missing := (rules.flatMap Rule.terminals).filter fun t ↦ !alphabet.contains t
  if missing.isEmpty then ofRules rules alphabet.eraseDups
  else throw (.uncovered missing.eraseDups)

def parse? (text : String) : Option (List String) → Except GrammarError Grammar
  | some alphabet => parseWithAlphabet text alphabet
  | none => parse text

def start (_ : Grammar) : Nat := 0

/-- The places of the productions of a nonterminal, in order. -/
def productionsOf (g : Grammar) (n : Nat) : List Nat :=
  g.index[n]?.getD (placesOf g.productions n)

theorem productionsOf_eq (g : Grammar) (n : Nat) :
    g.productionsOf n = placesOf g.productions n := by
  rw [productionsOf, g.index_eq, places, Array.getElem?_ofFn]
  split <;> rfl

/-- The right sides of the productions of a nonterminal, in order. -/
def alternativesOf (g : Grammar) (n : Nat) : List (List Item) :=
  (g.productionsOf n).filterMap fun p ↦ g.productions[p]?.map (·.rhs)

def terminalCount (g : Grammar) : Nat := g.terminals.length

def terminal? (g : Grammar) (x : Symbol) : Option String := g.terminals[x.toNat]?

def symbol? (g : Grammar) (text : String) : Option Symbol := g.symbols.get? text

def minYield (g : Grammar) (x : Item) : Nat := x.yieldIn g.minYields

def rowYield (g : Grammar) (items : List Item) : Nat := yieldIn g.minYields items

def isNullable (g : Grammar) (n : Nat) : Bool := g.minYield (.nonterminal n) = 0

def isProductive (g : Grammar) (n : Nat) : Bool := g.minYield (.nonterminal n) ≠ unproductive

end Grammar

end LangBench
