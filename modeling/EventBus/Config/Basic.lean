import EventBus.Net.Address
import EventBus.Time.SpanText

/-!
What can be configured. A configuration is laid over from the bottom up: defaults, then a
file, then flags; each layer changes only what it names.
-/

namespace EventBus

structure Config where
  listen : Address
  topic : String
  sessionLimit : Nat
  logFile? : Option String
  workers : Nat
  maxReplay : Nat
  consumerTimeout : Span
  workersTimeout : Span
  ringCapacity : Nat
  deriving DecidableEq, Repr

structure ConfigLayer where
  listen? : Option Address
  topic? : Option String
  sessionLimit? : Option Nat
  logFile? : Option String
  workers? : Option Nat
  maxReplay? : Option Nat
  consumerTimeout? : Option Span
  workersTimeout? : Option Span
  ringCapacity? : Option Nat
  deriving DecidableEq, Repr

def ConfigLayer.empty : ConfigLayer := ⟨none, none, none, none, none, none, none, none, none⟩

namespace Config

def workersPerProcessor : Nat := 50

def initial (processors : Nat) : Config where
  listen := .v4 127 0 0 1 8000
  topic := "stdin"
  sessionLimit := 1000
  logFile? := none
  workers := processors * workersPerProcessor
  maxReplay := 100
  consumerTimeout := ⟨20, 0⟩
  workersTimeout := ⟨10, 0⟩
  ringCapacity := 100

def overlay (config : Config) (layer : ConfigLayer) : Config where
  listen := layer.listen?.getD config.listen
  topic := layer.topic?.getD config.topic
  sessionLimit := layer.sessionLimit?.getD config.sessionLimit
  logFile? := layer.logFile?.or config.logFile?
  workers := layer.workers?.getD config.workers
  maxReplay := layer.maxReplay?.getD config.maxReplay
  consumerTimeout := layer.consumerTimeout?.getD config.consumerTimeout
  workersTimeout := layer.workersTimeout?.getD config.workersTimeout
  ringCapacity := layer.ringCapacity?.getD config.ringCapacity

def maxWorkers : Nat := Nat.pow 2 20

/-- The greatest capacity of the ring, which is allocated up front. -/
def maxRingCapacity : Nat := Nat.pow 2 20

end Config

end EventBus
