import Interleave.CommandLine.Request
import Interleave.Demo
import Interleave.Report
import Interleave.Search.Footprint

/-!
# Answers

What is printed in answer to a command line, and how the program ends: a search that finds a
violation ends with another status than one that finds nothing, and an error with yet another.
-/

namespace Interleave.CommandLine

/-- What a program prints and how it ends. -/
structure Answer where
  output : List String := []
  /-- The lines that say what went wrong. -/
  errors : List String := []
  status : UInt8 := 0
deriving DecidableEq, Repr, Inhabited

/-- The answer to something that cannot be done. -/
def Answer.failure (lines : List String) : Answer := { errors := lines, status := 2 }

/-- How the program is used. -/
def usage : List String :=
  ["Explicit-state model checker for bytecode programs",
   "",
   "Usage: interleave list",
   "       interleave run [OPTIONS] <DEMO>",
   "",
   "Options of run:",
   "  -s, --strategy <NAME>              dfs, random, bfs or switch [default: dfs]",
   "  -d, --depth <N>                    Maximum number of choices per path (0 = unlimited)",
   "  -p, --paths <N>                    Paths sampled after the first one (random search)",
   "      --seed <N>                     Seed for random choice selection",
   "      --keep-going                   Keep searching after a property is violated",
   "      --no-state-matching            Expand every choice point, even in states seen before",
   "      --max-transition-length <N>    Break transitions after this many steps (0 = never)",
   "      --atomic <METHOD>              Methods (class.name) to execute without scheduling points",
   "      --footprint <N>                Sample the heap size every N transitions",
   "      --trail                        Print the choice trail of each violation",
   "  -v, --verbose                      Print every backtrack and every constraint hit"]

/-! ## The log -/

/-- A line of the log. -/
def logLine (level message : String) (details : List (String × String)) : String :=
  " ".intercalate
    ((level ++ " " ++ message) :: details.map fun (name, value) => name ++ "=" ++ value)

/-- A text in quotes. -/
def quoted (text : String) : String := "\"" ++ text ++ "\""

/-- The line about something that a search told its listeners. Its moves are of interest only to
those who want to know everything. -/
def noticeLine? (verbose : Bool) : SearchNotice → Option String
  | .violated _ v => some (logLine " WARN" "property violated" [("violation", v.text)])
  | .backtracked depth _ =>
    if verbose then some (logLine "DEBUG" "backtrack" [("depth", toString depth)]) else none
  | .constraintHit depth constraint =>
    if verbose then
      some (logLine "DEBUG" "search constraint hit"
        [("constraint", quoted constraint), ("depth", toString depth)])
    else none
  | _ => none

/-- The quotient to the nearest tenth, a tie going to an even number of tenths. -/
def tenthsText (numerator denominator : Nat) : String :=
  let twice := 2 * (10 * numerator % denominator)
  let floor := 10 * numerator / denominator
  let tenths :=
    if denominator < twice ∨ (twice = denominator ∧ floor % 2 = 1) then floor + 1 else floor
  toString (tenths / 10) ++ "." ++ toString (tenths % 10)

/-- The line about the heap. -/
def footprintLine (samples : List Nat) : String :=
  match samples.max? with
  | none => logLine " INFO" "heap footprint: no samples" []
  | some largest =>
    logLine " INFO" "heap footprint"
      [("samples", toString samples.length),
       ("average", tenthsText (sumOf samples) samples.length), ("max", toString largest)]

/-- The log of a search that is over. -/
def logLines (r : RunRequest) (s : Search) : List String :=
  let notices := s.notices.toList
  let strategy := ("strategy", quoted r.strategy.name)
  let heap := r.footprint.map fun interval =>
    footprintLine (Search.Footprint.samples interval notices)
  logLine " INFO" "search started" [strategy] :: notices.filterMap (noticeLine? r.verbose)
    ++ heap.toList
    ++ [logLine " INFO" "search finished"
      [strategy, ("transitions", toString s.stats.transitions), ("paths", toString s.stats.paths),
       ("violations", toString s.violations.size)]]

/-! ## The commands -/

/-- The line of a demonstration in a list. -/
def demoLine (d : Demo) : String := Report.padded 14 d.name ++ " " ++ d.about

/-- The machine that a search starts from. -/
def started (config : Config) (p : Program) : Except Fault Machine :=
  match Machine.start Demo.mainClass (Machine.new p config false) with
  | .ok _ m => .ok m
  | .error e _ => .error e

/-- Searches from a machine, with the random numbers beginning at `entropy` unless the request says
otherwise. -/
def search (entropy : UInt64) (r : RunRequest) (machine : Machine) : Answer :=
  let config := { r.search with seed := r.seed.getD entropy }
  match Search.run r.strategy r.machine.stepBudget { machine, config, listening := true } with
  | .error e s => { output := logLines r s, errors := ["error: " ++ e.message], status := 2 }
  | .ok report s =>
    { output := logLines r s ++ Report.lines report r.trails
      status := if report.isOk then 0 else 1 }

/-- Searches a demonstration. -/
def run (entropy : UInt64) (r : RunRequest) : Answer :=
  let name := r.demo.getD ""
  match Demo.find? name with
  | none => .failure ["error: unknown demo `" ++ name ++ "`"]
  | some demo =>
    match demo.program with
    | .error e => .failure ["error: building demo `" ++ name ++ "`: " ++ e.message]
    | .ok p =>
      match started r.machine p with
      | .error e => .failure ["error: " ++ e.message]
      | .ok machine => search entropy r machine

/-- Answers a command line. -/
def answer (entropy : UInt64) (arguments : List String) : Answer :=
  match read arguments with
  | .error e => .failure (("error: " ++ e.message) :: "" :: usage)
  | .ok .help => { output := usage }
  | .ok .list => { output := Demo.all.map demoLine }
  | .ok (.run r) => run entropy r

end Interleave.CommandLine
