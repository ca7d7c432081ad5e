import EventBus.Cli.Program

/-!
What the command line says about itself: the usage, and a line for a command line that was
refused.
-/

namespace EventBus.Cli

def Setting.valueName : Setting → String
  | .config => "PATH"
  | .listen => "ADDR"
  | .topic => "TOPIC"
  | .sessionLimit => "N"
  | .maxReplay => "N"
  | .workers => "N"
  | .ringCapacity => "N"
  | .consumerTimeout => "DURATION"
  | .workersTimeout => "DURATION"
  | .logFile => "PATH"

def Setting.purpose : Setting → String
  | .config => "TOML configuration file"
  | .listen => "HTTP listen address"
  | .topic => "Event type given to lines read from stdin"
  | .sessionLimit => "Events delivered per SSE connection before it is closed"
  | .maxReplay => "Ceiling on events replayed to one subscriber"
  | .workers => "Background fan-out/replay tasks allowed at once"
  | .ringCapacity => "Events kept for replay"
  | .consumerTimeout => "Per-delivery timeout (e.g. \"20s\", \"500ms\")"
  | .workersTimeout => "Wait for a free worker before dropping a fan-out (e.g. \"10s\")"
  | .logFile => "Write logs to this file instead of stderr"

def Switch.purpose : Switch → String
  | .noStdin => "Do not ingest events from stdin"
  | .printConfig => "Print the effective configuration as TOML and exit"
  | .help => "Print help"
  | .version => "Print version"

def Setting.form (setting : Setting) : String :=
  "    --" ++ setting.name ++ " <" ++ setting.valueName ++ ">"

/-- How a flag without a value is written, with its letter if it has one. -/
def Switch.form : Switch → String
  | .help => "-h, --help"
  | .version => "-V, --version"
  | switch => "    --" ++ switch.name

def formWidth : Nat := 37

def usageLine (form purpose : String) : String :=
  "  " ++ form ++ String.ofList (List.replicate (formWidth - 2 - form.length) ' ') ++ purpose ++ "\n"

def about : String := "Filtered publish/subscribe event bus over server-sent events"

def synopsis : String := "Usage: " ++ programName ++ " [OPTIONS]\n"

def helpText : String :=
  about ++ "\n\n" ++ synopsis ++ "\nOptions:\n"
    ++ String.join (Setting.all.map fun setting => usageLine setting.form setting.purpose)
    ++ String.join (Switch.all.map fun switch => usageLine switch.form switch.purpose)

def Refusal.reason : Refusal → String
  | .unknownArgument => "unexpected argument found"
  | .invalidValue => "a value is required but none was supplied"
  | .valueValidation => "invalid value for an argument"
  | .tooManyValues => "unexpected value for an argument that takes none"
  | .argumentConflict => "an argument cannot be used multiple times"
  | .help => "help was asked for"
  | .version => "the version was asked for"

def Refusal.report (refusal : Refusal) : String :=
  "error: " ++ refusal.reason ++ "\n\n" ++ synopsis ++ "\nFor more information, try '--help'.\n"

end EventBus.Cli
