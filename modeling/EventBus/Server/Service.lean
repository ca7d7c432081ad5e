import EventBus.Bus.Schedule
import EventBus.Server.Batch
import EventBus.Server.Form
import EventBus.Server.Record
import EventBus.Server.Response
import EventBus.Server.Route

/-!
A server over a bus. Publishing hands a batch to the bus; asking for a stream subscribes to
it, and the subscription lives as long as the stream. A stream ends after so many events or
when its subscription does. While it stays open and silent, a comment is due from time to
time.
-/

namespace EventBus

structure EventStream where
  consumer : Bus.ConsumerId
  /-- How many events may still be sent. -/
  left : Nat
  /-- Events received and not yet sent. -/
  rest : List Event
  /-- When a comment is due if nothing is sent before. -/
  silentUntil : Nat

/-- A bus, how many events a stream sends at most, and the streams by number. -/
structure Server (σ : Type) where
  bus : Bus σ
  sessionLimit : Nat
  /-- A closed stream keeps its number. -/
  streams : List (Option EventStream)

namespace Server

variable {σ : Type}

def feedPlaces : Nat := 16

def keepAliveAfter : Nat := 15000

def create (bus : Bus σ) (sessionLimit : Nat) : Server σ := ⟨bus.addHandle, sessionLimit, []⟩

def remark (server : Server σ) (line : String) : Server σ :=
  { server with bus := server.bus.note (.remark line) }

/--
Publish the events of a body. There is no response when the request has to wait for a place
in the queue.
-/
def publishEvents (server : Server σ) (body : List UInt8) : Option Response × Server σ :=
  match Batch.read body with
  | .error error => (some (.ofError error), server)
  | .ok batch =>
      match server.bus.publish server.bus.canceled batch with
      | (.ok, bus) =>
          (some (.json 202 (.object [("accepted", .number (.int batch.length))])),
            { server with bus })
      | (.full, bus) => (none, { server with bus })
      | (.failed error, bus) => (some (.ofError (.ofBusError error)), { server with bus })

def requestedLine (query : Query) : String :=
  "DEBUG stream requested replay=" ++ toString query.replay ++ " limit=" ++ toString query.limit
    ++ " filter=" ++ query.filter.text

def openedLine (consumer : Bus.ConsumerId) : String :=
  "INFO stream opened consumer=" ++ toString consumer

def addStream (server : Server σ) (consumer : Bus.ConsumerId) : Server σ :=
  { server with
    streams := server.streams ++
      [some ⟨consumer, server.sessionLimit, [], server.bus.now + keepAliveAfter⟩] }

/-- Subscribe for a stream. One that wants the head only drops it at once. -/
def openStream (server : Server σ) (headOnly : Bool) (query : Query) : Option Response × Server σ :=
  let server := server.remark (requestedLine query)
  match server.bus.subscribe server.bus.canceled query feedPlaces with
  | (.ok, consumer, bus) =>
      let server := { server with bus }.remark (openedLine consumer)
      let response := Response.stream server.streams.length
      if headOnly then
        (some response.headOnly, { server with bus := server.bus.dropSubscription consumer })
      else (some response, server.addStream consumer)
  | (.full, _, bus) => (none, { server with bus })
  | (.failed error, _, bus) => (some (.ofError (.ofBusError error)), { server with bus })

def maxBody : Nat := 2097152

/-- A body that is to be read is refused when it is too large. -/
def withBody (server : Server σ) (body : List UInt8)
    (answer : List UInt8 → Option Response × Server σ) : Option Response × Server σ :=
  if maxBody < body.length then (some .tooLarge, server) else answer body

def requestStream (server : Server σ) (headOnly : Bool) (query? : Option (List Char))
    (body : List UInt8) : Option Response × Server σ :=
  match StreamParams.ofPairs ⟨none, none⟩ (Form.pairs (query?.getD [])) with
  | .error text => (some (.plain 400 text), server)
  | .ok params => server.withBody body fun body =>
      match StreamRequest.read params body with
      | .error error => (some (.ofError error), server)
      | .ok query => server.openStream headOnly query

def dispatch (server : Server σ) (route : Route) (headOnly : Bool) (target : Target)
    (body : List UInt8) : Option Response × Server σ :=
  match route with
  | .health => (some (.plain 200 "ok"), server)
  | .events => server.withBody body server.publishEvents
  | .stream => server.requestStream headOnly target.query? body

/-- A response to a request for the head only holds nothing. -/
def trimHead (headOnly : Bool) (response : Response) : Response :=
  if headOnly then response.headOnly else response

def request (server : Server σ) (method : String) (target : Target) (body : List UInt8) :
    Option Response × Server σ :=
  match Route.ofPath? target.path with
  | none => (some .notFound, server)
  | some route =>
      let headOnly := method == "HEAD"
      if route.methods.contains method then
        let (response?, server) := server.dispatch route headOnly target body
        (response?.map (trimHead headOnly), server)
      else (some (.notAllowed (String.intercalate "," route.methods)), server)

def stream? (server : Server σ) (number : Nat) : Option EventStream :=
  server.streams[number]?.join

def setStream (server : Server σ) (number : Nat) (stream? : Option EventStream) : Server σ :=
  { server with streams := server.streams.set number stream? }

inductive Frame where
  | record (text : String)
  | pending
  /-- Nothing is there and nothing will come. -/
  | ended
  deriving DecidableEq, Repr

def send (server : Server σ) (number : Nat) (stream : EventStream) (event : Event)
    (rest : List Event) : Frame × Server σ :=
  (.record (Record.text event), server.setStream number (some { stream with
    left := stream.left - 1
    rest := rest
    silentUntil := server.bus.now + keepAliveAfter }))

/-- Nothing can be sent: a comment if one is due. -/
def idle (server : Server σ) (number : Nat) (stream : EventStream) : Frame × Server σ :=
  if stream.silentUntil ≤ server.bus.now then
    (.record Record.keepAlive, server.setStream number (some { stream with
      silentUntil := server.bus.now + keepAliveAfter }))
  else (.pending, server)

def nextFrame (server : Server σ) (number : Nat) (stream : EventStream) : Frame × Server σ :=
  if stream.left = 0 then (.ended, server)
  else match stream.rest with
    | event :: rest => server.send number stream event rest
    | [] =>
        match server.bus.receive stream.consumer with
        | (.batch (event :: rest), bus) => { server with bus }.send number stream event rest
        | (.batch [], bus) => { server with bus }.idle number stream
        | (.pending, bus) => { server with bus }.idle number stream
        | (.ended, bus) =>
            (.ended, { server with bus := bus.dropSubscription stream.consumer }.setStream number
              (some { stream with left := 0 }))

/--
Take what a stream has, letting the bus settle after each record, but no more records than
given. The answer says whether the stream has ended.
-/
def read [Store σ] (number : Nat) : Nat → Server σ → String × Bool × Server σ
  | 0, server => ("", false, server)
  | most + 1, server =>
      match server.stream? number with
      | none => ("", true, server)
      | some stream =>
          match server.nextFrame number stream with
          | (.record text, server) =>
              let (more, ended, server) := read number most { server with bus := server.bus.settle }
              (text ++ more, ended, server)
          | (.pending, server) => ("", false, server)
          | (.ended, server) => ("", true, server)

def close (server : Server σ) (number : Nat) : Server σ :=
  match server.stream? number with
  | none => server
  | some stream =>
      { server with bus := server.bus.dropSubscription stream.consumer }.setStream number none

end Server

end EventBus
