import LangBench.Cli.Report

/-!
The program: it reads its arguments and the configuration file, and prints.
-/

open LangBench

/-- The wording of a failure of the system, with its number, which may come with its sign changed. -/
def systemFailure (text : String) (code : UInt32) : String :=
  text ++ " (os error " ++ toString (min code (0 - code)) ++ ")"

def readFailure : IO.Error → String
  | .noFileOrDirectory _ code _ => systemFailure "No such file or directory" code
  | .permissionDenied _ code _ => systemFailure "Permission denied" code
  | .inappropriateType none code _ => systemFailure "Is a directory" code
  | .inappropriateType (some _) code _ => systemFailure "Not a directory" code
  | .userError _ => "stream did not contain valid UTF-8"
  | e => toString e

def readContent (path : String) : IO (Except String String) := do
  match ← (IO.FS.readFile path).toBaseIO with
  | .ok text => return .ok text
  | .error e => return .error (readFailure e)

/-- Run all pairs of a benchmark and take the time of each. -/
def timedReports (b : Benchmark) : IO (List (PairReport × Binary64)) :=
  b.pairs.mapM fun (lang, net) ↦ do
    let before ← IO.monoMsNow
    let report := b.report lang net
    let after ← IO.monoMsNow
    return (report, .ofRatio (after - before) 1000)

/-- Print a text or an error, and answer with the exit code. -/
def finish : Except Cli.CommandError String → IO UInt32
  | .ok text => do
    IO.print text
    return 0
  | .error e => do
    IO.eprintln ("Error: " ++ e.message)
    return 1

def perform : Cli.Command → IO UInt32
  | .list what => finish (.ok (Cli.listing .builtin what))
  | .sample options => finish (Cli.sampleText .builtin options)
  | .run path json => do
    match Cli.benchmark .builtin path (← readContent path) with
    | .error e => finish (.error e)
    | .ok b => finish (.ok (Cli.runText (← timedReports b) json))

def main (args : List String) : IO UInt32 := do
  match Cli.readRequest args with
  | .command c => perform c
  | .help => finish (.ok Cli.helpText)
  | .version => finish (.ok Cli.versionText)
  | .rejected => do
    IO.eprint Cli.helpText
    return 2
