import LangBench.Main
import LangBench.Grammar.Printer
import LangBench.Proofs.Benchmark.Recall
import LangBench.Proofs.Grammar.Agreement
import LangBench.Text.Visible
import LangBench.Proofs.Grammar.Deepening
import LangBench.Proofs.Grammar.Bounded
import LangBench.Proofs.Grammar.LevelOrder
import LangBench.Proofs.Grammar.Exhaustion
import LangBench.Proofs.Grammar.FiniteLanguage
import LangBench.Proofs.Grammar.Notation
import LangBench.Proofs.Grammar.Layout
import LangBench.Proofs.Grammar.Printing
import LangBench.Proofs.Grammar.Renaming
import LangBench.Proofs.Grammar.Renumbering
import LangBench.Automaton.Builder
import LangBench.Proofs.Automaton.Calls
import LangBench.Proofs.Automaton.InRange
import LangBench.Proofs.Benchmark.Books
import LangBench.Proofs.Net.Candidates
import LangBench.Proofs.Benchmark.Figures
import LangBench.Proofs.Automaton.Dot
import LangBench.Proofs.Benchmark.Pairs
import LangBench.Proofs.Automaton.Soundness
import LangBench.Proofs.Benchmark.Alphabet
import LangBench.Proofs.Grammar.Words
import LangBench.Proofs.Language.Brackets
import LangBench.Proofs.Language.Dyck
import LangBench.Proofs.Grammar.LeftmostOrder
import LangBench.Proofs.Automaton.Recursion
import LangBench.Proofs.Automaton.PathOrder
import LangBench.Proofs.Automaton.Cycles
import LangBench.Proofs.Grammar.ShortestWord
import LangBench.Proofs.Net.Occurrences
import LangBench.Proofs.Net.Exchange
import LangBench.Proofs.Net.Bounds
import LangBench.Proofs.Language.ZerosOnes
import LangBench.Proofs.Language.Automata
import LangBench.Proofs.Grammar.BadLine
import LangBench.Proofs.Grammar.Coverage
import LangBench.Proofs.Benchmark.Supply
import LangBench.Proofs.Automaton.Extension
import LangBench.Proofs.Automaton.TransitionOrder
import LangBench.Proofs.Benchmark.Precedence
import LangBench.Proofs.Config.Document
import LangBench.Proofs.Params.Assignment
import LangBench.Proofs.Shape.Compatibility
import LangBench.Proofs.Shape.RoundTrip
import LangBench.Proofs.Grammar.Columns
import LangBench.Proofs.Grammar.Growth
