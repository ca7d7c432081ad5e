import EventBus.Daemon.Lifecycle
import EventBus.Ingest.Run
import EventBus.Server.Service
import EventBus.Store.Ring
import EventBus.Store.Traced
import Std.Sync.Mutex
import Std.Time.DateTime.Timestamp

/-!
A server on a real machine. Its state stands behind a lock. Whoever takes the lock first
lets the bus catch up with the time that has passed, then makes a call, then lets the bus
settle, and at last writes to the log what has been reported. What is decided is decided by
the calls; here they are only carried out.
-/

namespace EventBus

structure Host where
  server : Std.Mutex (Server (Traced Ring))
  /-- What the steady clock showed when the bus began. -/
  origin : Nat
  log : IO.FS.Stream

namespace Host

/-- The time of day. -/
def wallClock : IO Clock := do
  let stamp ← Std.Time.Timestamp.now
  return ⟨⟨stamp.val.second.val, stamp.val.nano.val.toNat⟩⟩

def isShown (line : String) : Bool := !(line.startsWith "DEBUG " || line.startsWith "SPAN ")

def writeLines (log : IO.FS.Stream) (lines : List String) : IO Unit := do
  let clock ← wallClock
  for line in lines.filter isShown do
    log.putStr (clock.now.text ++ " " ++ line ++ "\n")
  log.flush

def remark (host : Host) (line : String) : IO Unit := writeLines host.log [line]

def update {α : Type} (host : Host) (call : Server (Traced Ring) → α × Server (Traced Ring)) :
    IO α := do
  let now ← IO.monoMsNow
  let (answer, history) ← host.server.atomically do
    let server ← get
    let late := now - host.origin - server.bus.now
    let (answer, server) := call { server with bus := server.bus.pass late }
    let bus := server.bus.settle
    set { server with bus := { bus with history := [] } }
    return (answer, bus.history)
  let lines := history.filterMap Bus.Notice.line?
  unless lines.isEmpty do writeLines host.log lines
  return answer

def updateBus {α : Type} (host : Host) (call : Bus (Traced Ring) → α × Bus (Traced Ring)) : IO α :=
  host.update fun server =>
    let (answer, bus) := call server.bus
    (answer, { server with bus })

def tick (host : Host) : IO Unit := host.updateBus fun bus => ((), bus)

def outcome? (host : Host) : IO (Option (Except BusError Unit)) :=
  host.updateBus fun bus => ((Daemon.mk bus).outcome?, bus)

def shutdown (host : Host) : IO (Except BusError Unit) :=
  host.updateBus fun bus =>
    let (result, daemon) := (Daemon.mk bus).shutdown
    (result, daemon.bus)

def create (daemon : Daemon (Traced Ring)) (sessionLimit : Nat) (log : IO.FS.Stream) : IO Host := do
  let server : Server (Traced Ring) := ⟨daemon.bus, sessionLimit, []⟩
  return ⟨← Std.Mutex.new server, ← IO.monoMsNow, log⟩

/-- The next line of a stream with its line feed. It is empty at the end of the stream. -/
def readLine (input : IO.FS.Stream) : IO (List UInt8) := do
  let mut line : ByteArray := .empty
  repeat
    let byte ← input.read 1
    line := line ++ byte
    if byte.isEmpty || byte[0]? == some 0x0A then break
  return line.toList

/-- Publish one event, waiting for a place in the queue. -/
def publish (host : Host) (event : Event) : IO (Except BusError Unit) := do
  repeat
    match ← host.updateBus fun bus => bus.publish bus.canceled [event] with
    | .ok => return .ok ()
    | .failed error => return .error error
    | .full => IO.sleep 5
  return .error .closed

/-- Publish the events of one line; the answer says how many, unless the line is no text. -/
def ingestLine (host : Host) (topic : String) (line : List UInt8) :
    IO (Except BusError Nat × Option Utf8.Fault) := do
  let events := Ingest.events topic (← wallClock) line
  for event in events do
    if let .error error ← host.publish event then return (.error error, none)
  return (.ok events.length, (Ingest.readable (Lines.split line)).2)

def ingest (host : Host) (topic : String) (input : IO.FS.Stream) : IO Unit := do
  let mut published := 0
  repeat
    let line ← readLine input
    match ← host.ingestLine topic line with
    | (.error _, _) => return
    | (.ok count, fault?) =>
        published := published + count
        if line.isEmpty || fault?.isSome then
          let total := published
          host.updateBus fun bus => ((), Ingest.report topic fault? total bus)
          return

end Host

end EventBus
