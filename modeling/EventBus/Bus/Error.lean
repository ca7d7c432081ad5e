import EventBus.Pattern.Document
import EventBus.Store.Basic

/-!
What can go wrong on the bus.
-/

namespace EventBus

inductive BusError where
  | canceled
  | timedOut
  | closed
  | pattern (error : PatternError)
  | store (error : StoreError)
  deriving Repr

/-- The error that ends the bus when a write has failed. -/
def BusError.ofStore : StoreError → BusError
  | .canceled => .canceled
  | error => .store error

def BusError.message : BusError → String
  | .canceled => "operation canceled"
  | .timedOut => "timed out"
  | .closed => "bus closed"
  | .pattern error => "parse error: " ++ error.message
  | .store error => "store error: " ++ error.message

end EventBus
