import EventBus.Daemon.Host
import EventBus.Net.Address
import Std.Http

/-!
Answering over HTTP. A request is handed to the server of a host and its response is sent;
an event stream is sent on until it ends or the client is gone, and is closed then.
-/

namespace EventBus

def Address.toSocket : Address → Std.Net.SocketAddress
  | .v4 a b c d port => .v4 ⟨.ofParts a.toUInt8 b.toUInt8 c.toUInt8 d.toUInt8, port.toUInt16⟩
  | .v6 groups _ port =>
      .v6 ⟨⟨Vector.ofFn fun i => (groups.getD i.val 0).toUInt16⟩, port.toUInt16⟩

def Address.ofSocket : Std.Net.SocketAddress → Address
  | .v4 ⟨⟨octets⟩, port⟩ =>
      .v4 octets[0].toNat octets[1].toNat octets[2].toNat octets[3].toNat port.toNat
  | .v6 ⟨⟨segments⟩, port⟩ => .v6 (segments.toList.map UInt16.toNat) 0 port.toNat

namespace Host

/-- Milliseconds between two looks at something that may change. -/
def pollInterval : Nat := 20

def pause : Std.Async.Async Unit := Std.Async.sleep (.ofNat pollInterval)

def recordsAtOnce : Nat := 64

def sendRecords (host : Host) (number : Nat) (body : Std.Http.Body.Stream) :
    Std.Async.Async Unit := do
  repeat
    let (text, ended) ← host.update fun server =>
      let (text, ended, server) := server.read number recordsAtOnce
      ((text, ended), server)
    unless text.isEmpty do body.send (.ofByteArray text.toUTF8)
    if ended then return
    if text.isEmpty then
      if ← body.isClosed then return
      pause

/-- Send the records of a stream and close it, also when the client is gone. -/
def serveStream (host : Host) (number : Nat) (body : Std.Http.Body.Stream) :
    Std.Async.Async Unit := do
  try host.sendRecords number body
  finally
    host.update fun server => ((), server.close number)
    body.close

/-- How often an open stream is waited for at the end. -/
def patience : Nat := 50

/-- Wait for the streams to end, but not for ever. -/
def awaitStreams (host : Host) : Std.Async.Async Unit := do
  for _ in [0:patience] do
    if ← host.update fun server => (server.streams.all Option.isNone, server) then return
    pause

def head (response : Response) : Std.Http.Response.Builder :=
  let status := (Std.Http.Status.ofCode none response.status.toUInt16).getD .internalServerError
  response.headers.foldl (fun builder (name, value) => (builder.header? name value).getD builder)
    (Std.Http.Response.withStatus status)

def send (host : Host) (response : Response) :
    Std.Async.Async (Std.Http.Response Std.Http.Body.Any) := do
  match response.content with
  | .text body =>
      let full ← Std.Http.Body.Full.ofByteArray body.toUTF8
      return (head response).body (Std.Http.Body.Any.ofBody full)
  | .stream number =>
      let sent ← (head response).stream (host.serveStream number)
      return (head response).body (Std.Http.Body.Any.ofBody sent.body)

/-- Answer a request, waiting for a place in the queue of the bus. -/
def respond (host : Host) (method target : String) (body : List UInt8) :
    Std.Async.Async (Std.Http.Response Std.Http.Body.Any) := do
  match Target.ofText? target with
  | none => host.send ⟨400, [], .text ""⟩
  | some target =>
      repeat
        match ← host.update fun server => server.request method target body with
        | some response => return ← host.send response
        | none => pause
      host.send ⟨503, [], .text ""⟩

end Host

instance : Std.Http.Server.Handler Host where
  onRequest host request := do
    let body : ByteArray ← request.body.readAll
    host.respond (toString request.line.method) (toString request.line.uri) body.toList

end EventBus
