import EventBus.Bus.Schedule
import EventBus.Ingest.Line

/-!
Publishing an input line by line, each event as a batch of its own. When the queue of the
bus is full, the bus is let go on before the next event is sent.
-/

namespace EventBus.Ingest

variable {σ : Type}

inductive Outcome where
  | finished (published : Nat)
  | failed (error : BusError)
  /-- The queue is full and the bus does not go on. -/
  | stuck
  deriving Repr

def ingestedLine (event : Event) : String :=
  "DEBUG ingested id=" ++ (match event.id? with
    | some id => "Some(\"" ++ id ++ "\")"
    | none => "None")

def readFailedLine (fault : Utf8.Fault) : String :=
  "WARN ingest read failed error=" ++ fault.message

def endLine (topic : String) (published : Nat) : String :=
  "INFO ingest reached end of input topic=" ++ topic ++ " events=" ++ toString published

/-- Publish one event, letting the bus go on if there is no place for it. -/
def publishOne [Store σ] (bus : Bus σ) (event : Event) : Bus.Sent × Bus σ :=
  match bus.publish false [event] with
  | (.full, bus) => bus.settle.publish false [event]
  | done => done

def publishAll [Store σ] (published : Nat) : List Event → Bus σ → Outcome × Bus σ
  | [], bus => (.finished published, bus)
  | event :: events, bus =>
      match publishOne (bus.note (.remark (ingestedLine event))) event with
      | (.ok, bus) => publishAll (published + 1) events bus
      | (.full, bus) => (.stuck, bus)
      | (.failed error, bus) => (.failed error, bus)

def report (topic : String) (fault? : Option Utf8.Fault) (published : Nat) (bus : Bus σ) : Bus σ :=
  let bus := match fault? with
    | some fault => bus.note (.remark (readFailedLine fault))
    | none => bus
  bus.note (.remark (endLine topic published))

/-- Publish an input on behalf of a caller who may have been cancelled. -/
def run [Store σ] (canceled : Bool) (topic : String) (clock : Clock) (input : List UInt8)
    (bus : Bus σ) : Outcome × Bus σ :=
  if canceled then (.failed .canceled, bus)
  else
    match publishAll 0 (events topic clock input) bus with
    | (.finished published, bus) =>
        (.finished published,
          report topic (readable (Lines.split input)).2 published bus)
    | failed => failed

end EventBus.Ingest
