import EventBus.Json.Writer

/-!
Events: a payload with an optional type and an optional id. Filters look at the payload
only. The text of an event has its type first and its id last, and leaves out what is
absent.
-/

namespace EventBus

structure Event where
  kind? : Option String
  payload : Json
  id? : Option String
  deriving Repr, Inhabited

namespace Event

/-- The entries of an event in the order they are written. -/
def entries (event : Event) : List (String × Json) :=
  (match event.kind? with
    | some kind => [("type", .string kind)]
    | none => [])
  ++ [("payload", event.payload)]
  ++ (match event.id? with
    | some id => [("id", .string id)]
    | none => [])

def toJson (event : Event) : Json := .object event.entries

def text (event : Event) : String := event.toJson.text

end Event

end EventBus
