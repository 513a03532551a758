import Interleave.Search.Strategies

/-!
# Requests

What a command line asks for: a list of the demonstrations, or a search of one of them. The options
of a search are a table; each says what it changes in the request, and whether it takes a value. A
value follows as an argument of its own or is attached to the option, as in `--depth=5` and `-d5`.
-/

namespace Interleave.CommandLine

/-- A search of a demonstration. -/
structure RunRequest where
  demo : Option String := none
  strategy : Search.Strategy := Search.depthFirst
  /-- What the search is to do. -/
  search : SearchConfig := {}
  /-- Where the random numbers begin, if that is given. -/
  seed : Option UInt64 := none
  /-- How the machine is to run. -/
  machine : Config := {}
  /-- The number of transitions between two looks at the heap, if any. -/
  footprint : Option Nat := none
  trails : Bool := false
  /-- Is every move of the search printed? -/
  verbose : Bool := false

/-- What a command line asks for. -/
inductive Request where
  | help
  | list
  | run (r : RunRequest)

/-- What is wrong with a command line. -/
inductive UsageError where
  | noCommand
  | unknownCommand (name : String)
  | noDemo
  | unknownOption (argument : String)
  | extraArgument (argument : String)
  | noValue (option : String)
  | needlessValue (option value : String)
  | badValue (option value : String)
deriving DecidableEq, Repr

/-- The wording of an error. -/
def UsageError.message : UsageError → String
  | noCommand => "a command is required"
  | unknownCommand c => "unrecognized subcommand '" ++ c ++ "'"
  | noDemo => "the name of a demo is required"
  | unknownOption a | extraArgument a => "unexpected argument '" ++ a ++ "' found"
  | noValue o => "a value is required for '" ++ o ++ "' but none was supplied"
  | needlessValue o v => "unexpected value '" ++ v ++ "' for '" ++ o ++ "' found"
  | badValue o v => "invalid value '" ++ v ++ "' for '" ++ o ++ "'"

/-- What an option does to a request. -/
inductive Effect where
  /-- The option stands alone. -/
  | switch (set : RunRequest → RunRequest)
  /-- The option has a value, which may be refused. -/
  | value (set : String → RunRequest → Option RunRequest)

/-- An option. -/
structure Flag where
  /-- Its name, which follows two dashes. -/
  long : String
  /-- Its letter, which follows one dash. -/
  short : Option Char := none
  /-- What it does. -/
  effect : Effect

/-- A natural number below a bound, in decimal digits. -/
def natural? (bound : Nat) (text : String) : Option Nat :=
  if text.toList.all Char.isDigit then text.toNat?.filter (· < bound) else none

/-- The effect of an option whose value is a word of the machine. -/
def Effect.word (set : Nat → RunRequest → RunRequest) : Effect :=
  .value fun text r => (natural? UInt64.size text).map fun n => set n r

/-- The options of a search. -/
def flags : List Flag :=
  [{ long := "strategy", short := some 's',
     effect := .value fun name r =>
       (Search.Strategy.ofName? name).map fun strategy => { r with strategy } },
   { long := "depth", short := some 'd',
     effect := .word fun n r => { r with search := { r.search with depthLimit := n } } },
   { long := "paths", short := some 'p',
     effect := .word fun n r => { r with search := { r.search with pathLimit := n } } },
   { long := "seed", effect := .word fun n r => { r with seed := some (.ofNat n) } },
   { long := "keep-going",
     effect := .switch fun r => { r with search := { r.search with stopOnFirstError := false } } },
   { long := "no-state-matching",
     effect := .switch fun r => { r with search := { r.search with stateMatching := false } } },
   { long := "max-transition-length",
     effect := .word fun n r => { r with machine := { r.machine with maxTransitionLength := n } } },
   { long := "atomic",
     effect := .value fun name r => some { r with
       machine := { r.machine with atomicMethods := r.machine.atomicMethods ++ [name] } } },
   { long := "footprint", effect := .word fun n r => { r with footprint := some n } },
   { long := "trail", effect := .switch fun r => { r with trails := true } },
   { long := "verbose", short := some 'v', effect := .switch fun r => { r with verbose := true } }]

/-- An argument, taken apart. -/
inductive Argument where
  | word (text : String)
  | long (name : String) (attached : Option String)
  | short (letter : Char) (attached : Option String)
deriving DecidableEq, Repr

/-- Takes an argument apart. -/
def Argument.of (text : String) : Argument :=
  match text.toList with
  | '-' :: '-' :: name =>
    .long (.ofList (name.takeWhile (· ≠ '=')))
      (match name.dropWhile (· ≠ '=') with
        | [] => none
        | _ :: value => some (.ofList value))
  | '-' :: letter :: [] => .short letter none
  | '-' :: letter :: '=' :: value | '-' :: letter :: value => .short letter (some (.ofList value))
  | _ => .word text

/-- The option that an argument names, and the value attached to it; or the argument itself. -/
def Argument.flag? : Argument → Option (Option Flag × Option String)
  | word _ => none
  | long name attached => some (flags.find? (·.long == name), attached)
  | short letter attached => some (flags.find? (·.short == some letter), attached)

/-- Reads the arguments of a search. -/
def readRun (r : RunRequest) : List String → Except UsageError RunRequest
  | [] => if r.demo.isSome then .ok r else .error .noDemo
  | text :: rest =>
    match (Argument.of text).flag? with
    | none =>
      if r.demo.isSome then .error (.extraArgument text)
      else readRun { r with demo := some text } rest
    | some (none, _) => .error (.unknownOption text)
    | some (some ⟨_, _, .switch set⟩, none) => readRun (set r) rest
    | some (some flag@⟨_, _, .switch _⟩, some value) =>
      .error (.needlessValue ("--" ++ flag.long) value)
    | some (some flag@⟨_, _, .value set⟩, some value) =>
      match set value r with
      | none => .error (.badValue ("--" ++ flag.long) value)
      | some r => readRun r rest
    | some (some flag@⟨_, _, .value set⟩, none) =>
      match rest with
      | [] => .error (.noValue ("--" ++ flag.long))
      | value :: rest =>
        match set value r with
        | none => .error (.badValue ("--" ++ flag.long) value)
        | some r => readRun r rest

/-- Reads a command line. -/
def read : List String → Except UsageError Request
  | [] => .error .noCommand
  | "list" :: [] => .ok .list
  | "list" :: extra :: _ => .error (.extraArgument extra)
  | "run" :: rest =>
    if rest.any fun a => a == "--help" || a == "-h" then .ok .help else (readRun {} rest).map .run
  | command :: _ =>
    if ["help", "--help", "-h"].contains command then .ok .help
    else .error (.unknownCommand command)

end Interleave.CommandLine
