import EventBus.Cli.Usage
import EventBus.Daemon.Listener
import EventBus.Daemon.Settings

/-!
The program. What a command line comes to is printed, or served until the bus stops or the
process is told to. A daemon that is told to stop while it waits for a line of its standard
input ends with that line or at the next signal.
-/

namespace EventBus

def readBytes (path : String) : IO (Except FileError (List UInt8)) := do
  try return .ok (← IO.FS.readBinFile path).toList
  catch
    | .noFileOrDirectory .. => return .error .missing
    | .inappropriateType .. => return .error .directory
    | error => return .error (.other (toString error))

def namedFile (args : List String) : IO Files := do
  match (Cli.read args).toOption.bind Cli.Flags.config? with
  | some path =>
      let found ← readBytes path
      return fun _ => found
  | none => return fun _ => .error .missing

def directory? (path : String) : Option String :=
  match (path.splitOn "/").dropLast with
  | [] => none
  | [""] => none
  | parts => some (String.intercalate "/" parts)

/-- The log: a file to add to, or standard error. -/
def openLog : Option String → IO IO.FS.Stream
  | none => IO.getStderr
  | some path => do
      if let some directory := directory? path then IO.FS.createDirAll directory
      return .ofHandle (← IO.FS.Handle.mk path .append)

def fail (message : String) : IO UInt32 := do
  IO.eprintln (Cli.failureLine message)
  return 1

def stoppedMessage (error : BusError) : String := "bus stopped: " ++ error.message

/-- Put down a reason to stop when a signal comes. The answer can be used to stop waiting. -/
def listenFor (stop : IO.Ref (Option String)) (signal : Std.Async.Signal) (reason : String) :
    Std.Async.Async Std.Async.Signal.Waiter := do
  let waiter ← Std.Async.Signal.Waiter.mk signal false
  let arrival ← waiter.wait
  Std.Async.background do
    let _ ← Std.Async.Async.ofAsyncTask arrival
    stop.set (some reason)
  return waiter

def watch (host : Host) (stop : IO.Ref (Option String)) :
    Std.Async.Async (Except BusError Unit) := do
  repeat
    if let some reason ← stop.get then
      host.remark ("INFO received " ++ reason ++ ", shutting down")
      return .ok ()
    match ← host.outcome? with
    | some (.error error) =>
        host.remark ("ERROR bus failed: " ++ stoppedMessage error)
        return .error error
    | some (.ok ()) => return .ok ()
    | none => Host.pause
  return .ok ()

def attend (host : Host) (listener : Std.Http.Server) (config : Config) (ingest : Bool) :
    Std.Async.Async UInt32 := do
  let address := (listener.localAddr.map Address.ofSocket).getD config.listen
  let stop ← IO.mkRef none
  let waiters ← [(.sigterm, "SIGTERM"), (.sigint, "SIGINT")].mapM fun (signal, reason) =>
    listenFor stop signal reason
  if ingest then
    let _ ← IO.asTask (do host.ingest config.topic (← IO.getStdin)) .dedicated
  host.remark ("INFO daemon ready addr=" ++ address.text)
  IO.println ("READY " ++ address.text)
  (← IO.getStdout).flush
  let outcome ← watch host stop
  let closed ← host.shutdown
  host.awaitStreams
  listener.shutdownAndWait
  for waiter in waiters do waiter.stop
  host.remark "INFO daemon stopped"
  match outcome, closed with
  | .error error, _ => fail (stoppedMessage error)
  | _, .error error => fail (stoppedMessage error)
  | _, _ => return 0

/-- How connections are kept. An event stream may be silent for long. -/
def listening : Std.Http.Config := { serverName := none, lingeringTimeout := 3600000 }

def listen (host : Host) (address : Address) :
    Std.Async.Async (Except IO.Error Std.Http.Server) := do
  try return .ok (← Std.Http.Server.serve address.toSocket host listening)
  catch error => return .error error

def serve (config : Config) (ingest : Bool) : Std.Async.Async UInt32 := do
  let log ← openLog config.logFile?
  Host.writeLines log
    ["INFO starting " ++ Cli.programName ++ " version=\"" ++ Cli.programVersion ++ "\""]
  match Daemon.startup config.busSettings (Traced.mk (Ring.ofCapacity config.ringCapacity)) true with
  | .error _ => fail "store error"
  | .ok daemon =>
      let host ← Host.create daemon.start config.sessionLimit log
      match ← listen host config.listen with
      | .ok listener => attend host listener config ingest
      | .error error =>
          let _ ← host.shutdown
          fail ("failed to bind " ++ config.listen.text ++ ": " ++ toString error)

def perform : Cli.Outcome → IO UInt32
  | .misused refusal => do
      IO.eprint refusal.report
      return 2
  | .help => do
      IO.print Cli.helpText
      return 0
  | .print text => do
      IO.print text
      return 0
  | .failed message => fail message
  | .serve config ingest => do
      try (serve config ingest).block
      catch error => fail (toString error)

end EventBus

def main (args : List String) : IO UInt32 := do
  let processors ← try pure (← Std.Async.System.getCPUInfo).size catch _ => pure 1
  EventBus.perform (EventBus.Cli.run processors (← EventBus.namedFile args) args)
