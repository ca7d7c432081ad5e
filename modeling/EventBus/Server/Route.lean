import EventBus.Server.StreamRequest
import EventBus.Server.Target

/-!
Where a request goes, by its path and method.
-/

namespace EventBus

inductive Route where
  | stream
  | events
  | health
  deriving DecidableEq, Repr

namespace Route

def ofPath? (path : List Char) : Option Route :=
  let path := String.ofList path
  if path = "/" ∨ path = "/events/stream" then some .stream
  else if path = "/events" then some .events
  else if path = "/health" then some .health
  else none

def methods : Route → List String
  | .stream => ["GET", "HEAD", "POST"]
  | .events => ["POST"]
  | .health => ["GET", "HEAD"]

end Route

/-- Why the parameters of a query were refused: one of them was given twice. -/
def StreamParams.repeated (name : String) : String :=
  "Failed to deserialize query string: duplicate field \x60" ++ name ++ "\x60"

/-- The parameters among the pairs of a query; other pairs are ignored. -/
def StreamParams.ofPairs (params : StreamParams) :
    List (String × String) → Except String StreamParams
  | [] => .ok params
  | (name, value) :: pairs =>
      if name = "limit" then
        if params.limit?.isSome then .error (repeated name)
        else ofPairs { params with limit? := some value } pairs
      else if name = "replay" then
        if params.replay?.isSome then .error (repeated name)
        else ofPairs { params with replay? := some value } pairs
      else ofPairs params pairs

end EventBus
