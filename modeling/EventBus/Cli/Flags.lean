import EventBus.Config.Basic

/-!
The flags of the command line. A flag with a value takes it after an equals sign or from
the next argument, unless that one starts with a hyphen. A value is looked at only when the
next flag or the end has been reached, so an unknown argument right after a wrong value is
what gets reported.
-/

namespace EventBus.Cli

inductive Setting where
  | config
  | listen
  | topic
  | sessionLimit
  | maxReplay
  | workers
  | ringCapacity
  | consumerTimeout
  | workersTimeout
  | logFile
  deriving DecidableEq, Repr

inductive Switch where
  | noStdin
  | printConfig
  | help
  | version
  deriving DecidableEq, Repr

inductive Refusal where
  | unknownArgument
  /-- A value is missing, or is an empty path. -/
  | invalidValue
  | valueValidation
  | tooManyValues
  | argumentConflict
  | help
  | version
  deriving DecidableEq, Repr

structure Flags where
  config? : Option String
  layer : ConfigLayer
  noStdin : Bool
  printConfig : Bool
  deriving DecidableEq, Repr

def Flags.none : Flags := ⟨.none, .empty, false, false⟩

def Setting.name : Setting → String
  | .config => "config"
  | .listen => "listen"
  | .topic => "topic"
  | .sessionLimit => "session-limit"
  | .maxReplay => "max-replay"
  | .workers => "workers"
  | .ringCapacity => "ring-capacity"
  | .consumerTimeout => "consumer-timeout"
  | .workersTimeout => "workers-timeout"
  | .logFile => "log-file"

def Setting.all : List Setting :=
  [config, listen, topic, sessionLimit, maxReplay, workers, ringCapacity, consumerTimeout,
    workersTimeout, logFile]

def Setting.ofName? (name : String) : Option Setting := all.find? (·.name == name)

def Switch.name : Switch → String
  | .noStdin => "no-stdin"
  | .printConfig => "print-config"
  | .help => "help"
  | .version => "version"

def Switch.all : List Switch := [noStdin, printConfig, help, version]

def Switch.ofName? (name : String) : Option Switch := all.find? (·.name == name)

def Switch.ofLetter? (c : Char) : Option Switch :=
  if c = 'h' then some .help else if c = 'V' then some .version else none

namespace Flags

def has (flags : Flags) : Setting → Bool
  | .config => flags.config?.isSome
  | .listen => flags.layer.listen?.isSome
  | .topic => flags.layer.topic?.isSome
  | .sessionLimit => flags.layer.sessionLimit?.isSome
  | .maxReplay => flags.layer.maxReplay?.isSome
  | .workers => flags.layer.workers?.isSome
  | .ringCapacity => flags.layer.ringCapacity?.isSome
  | .consumerTimeout => flags.layer.consumerTimeout?.isSome
  | .workersTimeout => flags.layer.workersTimeout?.isSome
  | .logFile => flags.layer.logFile?.isSome

def checked {α : Type} : Option α → Except Refusal α
  | some a => .ok a
  | .none => .error .valueValidation

def path (s : String) : Except Refusal String :=
  if s.isEmpty then .error .invalidValue else .ok s

def word (s : String) : Except Refusal Nat := checked (Word.read? s.toList)

def span (s : String) : Except Refusal Span := checked (Span.read? s)

def take (flags : Flags) (value : String) : Setting → Except Refusal Flags
  | .config => (path value).map fun x => { flags with config? := some x }
  | .listen => (checked (Address.read? value)).map fun x =>
      { flags with layer := { flags.layer with listen? := some x } }
  | .topic => .ok { flags with layer := { flags.layer with topic? := some value } }
  | .sessionLimit => (word value).map fun x =>
      { flags with layer := { flags.layer with sessionLimit? := some x } }
  | .maxReplay => (word value).map fun x =>
      { flags with layer := { flags.layer with maxReplay? := some x } }
  | .workers => (word value).map fun x =>
      { flags with layer := { flags.layer with workers? := some x } }
  | .ringCapacity => (word value).map fun x =>
      { flags with layer := { flags.layer with ringCapacity? := some x } }
  | .consumerTimeout => (span value).map fun x =>
      { flags with layer := { flags.layer with consumerTimeout? := some x } }
  | .workersTimeout => (span value).map fun x =>
      { flags with layer := { flags.layer with workersTimeout? := some x } }
  | .logFile => (path value).map fun x =>
      { flags with layer := { flags.layer with logFile? := some x } }

/-- Set a flag to a value; a flag may be given once only. -/
def set (flags : Flags) (setting : Setting) (value : String) : Except Refusal Flags :=
  if flags.has setting then .error .argumentConflict else flags.take value setting

def switch (flags : Flags) : Switch → Except Refusal Flags
  | .noStdin =>
      if flags.noStdin then .error .argumentConflict else .ok { flags with noStdin := true }
  | .printConfig =>
      if flags.printConfig then .error .argumentConflict
      else .ok { flags with printConfig := true }
  | .help => .error .help
  | .version => .error .version

end Flags

/-- A flag whose value has not been looked at yet, and the value once it has come. -/
abbrev Pending := Option (Setting × Option String)

def resolve (flags : Flags) : Pending → Except Refusal Flags
  | none => .ok flags
  | some (_, none) => .error .invalidValue
  | some (setting, some value) => flags.set setting value

inductive Argument where
  /-- Two hyphens alone: no flag follows. -/
  | separator
  | long (name : String) (value? : Option String)
  | short (letters : List Char)
  | plain (value : String)
  deriving DecidableEq, Repr

def Argument.of (s : String) : Argument :=
  match s.toList with
  | ['-', '-'] => .separator
  | '-' :: '-' :: cs =>
      let value? := match cs.dropWhile (· != '=') with
        | [] => none
        | _ :: value => some (String.ofList value)
      .long (String.ofList (cs.takeWhile (· != '='))) value?
  | '-' :: c :: cs => .short (c :: cs)
  | _ => .plain s

def takeLong (flags : Flags) (pending : Pending) (name : String) (value? : Option String) :
    Except Refusal (Flags × Pending) :=
  match Setting.ofName? name, Switch.ofName? name, value? with
  | some setting, _, some value => do
      let flags ← resolve flags pending
      return (← flags.set setting value, none)
  | some setting, _, none => do return (← resolve flags pending, some (setting, none))
  | none, some _, some _ => .error .tooManyValues
  | none, some switch, none => do
      let flags ← resolve flags pending
      return (← flags.switch switch, none)
  | none, none, _ => .error .unknownArgument

def takeShort (flags : Flags) (pending : Pending) :
    List Char → Except Refusal (Flags × Pending)
  | [] => .ok (flags, pending)
  | c :: cs =>
      match Switch.ofLetter? c with
      | none => .error .unknownArgument
      | some switch => do
          let flags ← resolve flags pending
          takeShort (← flags.switch switch) none cs

def readFrom (flags : Flags) (pending : Pending) : List String → Except Refusal Flags
  | [] => resolve flags pending
  | arg :: args =>
      match Argument.of arg, pending with
      | .separator, _ => if args.isEmpty then resolve flags pending else .error .unknownArgument
      | .long name value?, _ => do
          let (flags, pending) ← takeLong flags pending name value?
          readFrom flags pending args
      | .short letters, _ => do
          let (flags, pending) ← takeShort flags pending letters
          readFrom flags pending args
      | .plain value, some (setting, none) => readFrom flags (some (setting, some value)) args
      | .plain _, _ => .error .unknownArgument

def read (args : List String) : Except Refusal Flags := readFrom .none none args

end EventBus.Cli
