import EventBus.Bus.Error

/-!
How a failed request is answered: a status and a text, which the body holds as JSON.
-/

namespace EventBus

inductive ApiError where
  | badRequest (text : String)
  | unavailable (text : String)
  | internal (text : String)
  deriving DecidableEq, Repr

namespace ApiError

def status : ApiError → Nat
  | .badRequest _ => 400
  | .unavailable _ => 503
  | .internal _ => 500

def message : ApiError → String
  | .badRequest text => text
  | .unavailable text => text
  | .internal text => text

def body (error : ApiError) : String := (Json.object [("error", .string error.message)]).text

/-- What a failure of the bus means for a request: the caller's fault, a bus that is gone, or
anything else. -/
def ofBusError (error : BusError) : ApiError :=
  match error with
  | .pattern _ => .badRequest error.message
  | .canceled => .unavailable error.message
  | .closed => .unavailable error.message
  | .timedOut => .internal error.message
  | .store _ => .internal error.message

end ApiError

end EventBus
