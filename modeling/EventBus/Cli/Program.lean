import EventBus.Cli.Flags
import EventBus.Config.Load

/-!
What a command line comes to: something to print, a failure, or a configuration to serve.
-/

namespace EventBus.Cli

def programName : String := "siftd"

def programVersion : String := "0.1.0"

inductive Outcome where
  | misused (refusal : Refusal)
  | help
  | print (text : String)
  | failed (message : String)
  /-- A configuration to serve, and whether to publish what comes on standard input. -/
  | serve (config : Config) (ingest : Bool)
  deriving Repr

/-- The status with which the program ends; serving ends well. -/
def Outcome.status : Outcome → Nat
  | .misused _ => 2
  | .failed _ => 1
  | _ => 0

def pathParts (path : String) : List (List Char) :=
  (path.toList.splitOn '/').filter fun part => part != [] && part != ['.']

def isFilePath (path : String) : Bool :=
  match (pathParts path).getLast? with
  | none => false
  | some part => part != ['.', '.']

def proceed (flags : Flags) (config : Config) : Outcome :=
  if flags.printConfig then
    match config.render with
    | .ok text => .print text
    | .error error => .failed error.message
  else
    match config.logFile? with
    | some path =>
        if isFilePath path then .serve config (!flags.noStdin)
        else .failed ("not a log file path: " ++ path)
    | none => .serve config (!flags.noStdin)

def run (processors : Nat) (files : Files) (args : List String) : Outcome :=
  match read args with
  | .error .help => .help
  | .error .version => .print (programName ++ " " ++ programVersion ++ "\n")
  | .error refusal => .misused refusal
  | .ok flags =>
      match Config.load processors files flags.config? flags.layer with
      | .ok config => proceed flags config
      | .error error => .failed error.message

def failureLine (message : String) : String := programName ++ ": " ++ message

end EventBus.Cli
