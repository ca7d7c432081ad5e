import EventBus.Config.Basic
import EventBus.Toml.Reader
import EventBus.Toml.Writer

/-!
Configurations as TOML. A document names what it wants to change and may hold other things,
which are ignored. The settings of the bus are a table, or an array with their values in
order.
-/

namespace EventBus

namespace ConfigLayer

def readString? : Toml.Value → Option String
  | .string s => some s
  | _ => none

def readNat? : Toml.Value → Option Nat
  | .integer (.ofNat n) => some n
  | _ => none

def readSpan? (value : Toml.Value) : Option Span := (readString? value).bind Span.read?

def readAddress? (value : Toml.Value) : Option Address :=
  (readString? value).bind Address.read?

/-- A setting that may be absent. The outer option is none when it is there and wrong. -/
def setting? {α : Type} (read : Toml.Value → Option α) : Option Toml.Value → Option (Option α)
  | none => some none
  | some value => (read value).map some

def ofBusValues? (layer : ConfigLayer) (workers maxReplay consumerTimeout workersTimeout
    ringCapacity : Option Toml.Value) : Option ConfigLayer := do
  return { layer with
    workers? := ← setting? readNat? workers
    maxReplay? := ← setting? readNat? maxReplay
    consumerTimeout? := ← setting? readSpan? consumerTimeout
    workersTimeout? := ← setting? readSpan? workersTimeout
    ringCapacity? := ← setting? readNat? ringCapacity }

def ofBus? (layer : ConfigLayer) : Option Toml.Value → Option ConfigLayer
  | none => some layer
  | some (.table entries) =>
      layer.ofBusValues? (Toml.lookup "workers" entries) (Toml.lookup "max_replay" entries)
        (Toml.lookup "consumer_timeout" entries) (Toml.lookup "workers_timeout" entries)
        (Toml.lookup "ring_capacity" entries)
  | some (.array items) => layer.ofBusValues? items[0]? items[1]? items[2]? items[3]? items[4]?
  | some _ => none

def ofEntries? (entries : List (String × Toml.Value)) : Option ConfigLayer := do
  let layer := { empty with
    listen? := ← setting? readAddress? (Toml.lookup "listen" entries)
    topic? := ← setting? readString? (Toml.lookup "topic" entries)
    sessionLimit? := ← setting? readNat? (Toml.lookup "session_limit" entries)
    logFile? := ← setting? readString? (Toml.lookup "log_file" entries) }
  layer.ofBus? (Toml.lookup "bus" entries)

def ofText? (s : String) : Option ConfigLayer := (Toml.read? s).bind ofEntries?

end ConfigLayer

namespace Config

def logFileLine : Option String → String
  | some path => Toml.entryLine "log_file" (Toml.stringText path)
  | none => ""

/-- A configuration as text; a number past the greatest integer cannot be written. -/
def text? (config : Config) : Option String := do
  let sessionLimit ← Toml.natText? config.sessionLimit
  let workers ← Toml.natText? config.workers
  let maxReplay ← Toml.natText? config.maxReplay
  let ringCapacity ← Toml.natText? config.ringCapacity
  return Toml.entryLine "listen" (Toml.stringText config.listen.text)
    ++ Toml.entryLine "topic" (Toml.stringText config.topic)
    ++ Toml.entryLine "session_limit" sessionLimit
    ++ logFileLine config.logFile?
    ++ Toml.headerLine "bus"
    ++ Toml.entryLine "workers" workers
    ++ Toml.entryLine "max_replay" maxReplay
    ++ Toml.entryLine "consumer_timeout" (Toml.stringText config.consumerTimeout.text)
    ++ Toml.entryLine "workers_timeout" (Toml.stringText config.workersTimeout.text)
    ++ Toml.entryLine "ring_capacity" ringCapacity

end Config

end EventBus
