import EventBus.Event.Reader
import EventBus.Server.StreamRequest

/-!
Bodies that publish events: a list of events, or else one event. A list each of whose
elements describes an event is such a list; any other value has to describe an event
itself. The shape of the leading value is judged before what follows it.
-/

namespace EventBus.Batch

/-- Stands in an answer for a value that describes neither a list of events nor an event. -/
def mismatch : String := "data did not match any variant of untagged enum Incoming"

def refused (text : String) : ApiError := .badRequest ("bad events: " ++ text)

def ofJson? (value : Json) : Option (List Event) :=
  match value with
  | .array items =>
      match Event.listOfJson? items with
      | some events => some events
      | none => (Event.ofJson? value).map ([·])
  | _ => (Event.ofJson? value).map ([·])

/-- The characters before the first fault, and whether that is all. -/
def readable (bytes : List UInt8) : List Char × Bool :=
  match Utf8.decode bytes with
  | .ok cs => (cs, true)
  | .error fault =>
      match Utf8.decode (bytes.take fault.index) with
      | .ok cs => (cs, false)
      | .error _ => ([], false)

def read (body : List UInt8) : Except ApiError (List Event) :=
  let (cs, whole) := readable body
  match Json.leading? Json.maxDepth cs with
  | none => .error (refused Json.complaint)
  | some (value, rest) =>
      match ofJson? value with
      | none => .error (refused mismatch)
      | some events =>
          if Json.atEnd rest && whole then .ok events else .error (refused Json.complaint)

end EventBus.Batch
