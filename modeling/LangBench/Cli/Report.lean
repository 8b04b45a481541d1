import LangBench.Benchmark.Basic
import LangBench.Cli.Command
import LangBench.Params.Assignment

/-!
What the program prints.
-/

namespace LangBench.Cli

/-- What can go wrong in a command. -/
inductive CommandError where
  | run (e : RunError)
  | noDrawing (backend lang : String)

def CommandError.message : CommandError → String
  | .run e => e.message
  | .noDrawing backend lang =>
    "backend '" ++ backend ++ "' of language '" ++ lang ++ "' has no graph export"

def unlines (ls : List String) : String := String.join (ls.map (· ++ "\n"))

def column (s : String) : String := s ++ String.ofList (List.replicate (12 - s.length) ' ')

def heading (title : String) : List String := [title, String.ofList (List.replicate 40 '-')]

def paramLines (specs : List ParamSpec) : List String :=
  specs.map fun p ↦ "    --set " ++ p.name ++ "=<value>  " ++ p.description
    ++ " (default: " ++ p.default.render ++ ")"

def backendLines (r : Registry) : List String :=
  heading "Backends" ++ r.backends.flatMap fun b ↦
    [column b.name ++ " " ++ b.shape.render, "    " ++ b.description]

def langLines (r : Registry) : List String :=
  heading "Languages" ++ r.langs.values.flatMap fun l ↦
    [column l.name ++ " alphabet=" ++ toString l.alphabetSize ++ " shape=" ++ l.shape.render,
      "    " ++ l.description] ++ paramLines l.params

def netLines (r : Registry) : List String :=
  heading "Nets" ++ r.nets.values.flatMap fun n ↦
    [n.name, "    " ++ n.description] ++ paramLines n.params

def listing (r : Registry) : Listing → String
  | .backends => unlines (backendLines r)
  | .langs => unlines (langLines r)
  | .nets => unlines (netLines r)

/-- The parameters that assignments and a bound on the length give; the bound counts most. -/
def overrides (options : SampleOptions) : Except RunError Params := do
  let assigned ← options.assignments.foldlM (fun (ps : Params) text ↦
    (Params.parseAssignment text).map fun (name, v) ↦ ps.insert name v) .empty
  match options.maxLength with
  | some n => return assigned.insert Params.maxLength (.ofNat n)
  | none => return assigned

/-- The samples of a language, one on a line, or its drawing. -/
def sampleText (r : Registry) (options : SampleOptions) : Except CommandError String := do
  let p ← ((overrides options).bind (r.prepare options.lang)).mapError .run
  if options.dot then
    match p.backend.dot with
    | some text => return text
    | none => throw (.noDrawing p.backend.name options.lang)
  else
    let maxLength ← (p.params.optionalNat Params.maxLength).mapError CommandError.run
    let taken := (p.backend.generate maxLength).first stepLimit options.count
    if taken.stalled then throw (.run .stalled)
    return unlines (taken.samples.map Sample.render)

/-- The figures of a pair, one on a line, with the time that training took. -/
def statsLines (s : Stats) (seconds : Binary64) : List String :=
  let lengths :=
    match s.intake.minLength, s.intake.maxLength with
    | some low, some high => "length " ++ toString low ++ "..=" ++ toString high
    | _, _ => "no samples"
  let percent := (s.accuracy.mul (.ofNat 100)).toPlaces 1
  ["  training:  " ++ toString s.intake.generated ++ " generated, " ++ toString s.intake.skipped
      ++ " skipped, " ++ toString s.intake.used ++ " used (" ++ lengths ++ ")",
    "  correct:   " ++ toString s.correct ++ "/" ++ toString s.testSamples ++ " (" ++ percent
      ++ "%)"]
    ++ s.averageLength.toList.map (fun a ↦ "  avg len:   " ++ a.toPlaces 2)
    ++ ["  time:      " ++ seconds.toPlaces 3 ++ "s"]

/-- The outcome of a pair, with the time that training took. -/
def reportLines (report : PairReport) (seconds : Binary64) : List String :=
  [report.lang ++ " x " ++ report.net]
    ++ (match report.outcome with
      | .ok s => statsLines s seconds
      | .error e => ["  failed: " ++ e.message])
    ++ [""]

/-- The outcome of a pair as a JSON object, with the time that training took. -/
def reportJson (report : PairReport) (seconds : Binary64) : Json :=
  match report.outcome with
  | .ok s => .obj [("lang", .str report.lang), ("net", .str report.net),
      ("stats", s.toJson seconds)]
  | .error e => .obj [("error", .str e.message), ("lang", .str report.lang),
      ("net", .str report.net)]

/-- The outcomes of all pairs, each with the time that training took. -/
def runText (reports : List (PairReport × Binary64)) (json : Bool) : String :=
  if json then
    (Json.arr (reports.map fun (r, seconds) ↦ reportJson r seconds)).renderPretty ++ "\n"
  else
    let failed := reports.countP fun (r, _) ↦ !r.outcome.isOk
    unlines (reports.flatMap (fun (r, seconds) ↦ reportLines r seconds)
      ++ [toString reports.length ++ " runs, " ++ toString failed ++ " failed"])

/-- The benchmark that the content of a file configures; without content there is a reason. -/
def benchmark (r : Registry) (path : String) (content : Except String String) :
    Except CommandError Benchmark :=
  match content with
  | .error reason => .error (.run (.unreadable path reason))
  | .ok text =>
    match Config.ofText text with
    | .error e => .error (.run e)
    | .ok c =>
      match Benchmark.ofConfig r c with
      | .error e => .error (.run e)
      | .ok b => .ok b

def versionText : String := "deepchall 0.1.0\n"

def helpText : String := unlines [
  "Benchmark sequence models on formal languages",
  "",
  "Usage: deepchall [-v | -q] show (backends | langs | nets)",
  "       deepchall [-v | -q] sample <LANG> [-n N] [--max-length N] [--set KEY=VALUE]... [--dot]",
  "       deepchall [-v | -q] run <CONFIG> [--json]"]

end LangBench.Cli
