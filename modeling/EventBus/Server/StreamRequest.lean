import EventBus.Event.Query
import EventBus.Json.Reader
import EventBus.Server.Error
import EventBus.Text.Blank
import EventBus.Text.Word

/-!
Requests for a stream of events: a limit and a replay switch, both optional texts, and a
body that is blank or a pattern document. The parts are looked at in this order and the
first that is wrong decides the answer.
-/

namespace EventBus

/-- Stands for the report on a text that is no JSON; what and where it is does not matter. -/
def Json.complaint : String := "<json>"

structure StreamParams where
  limit? : Option String
  replay? : Option String
  deriving DecidableEq, Repr

namespace StreamRequest

/-- The limit of a stream's replay; an empty one counts as none. -/
def limit (default : Nat) : Option String → Except ApiError Nat
  | none => .ok default
  | some text =>
      if text.isEmpty then .ok default
      else match Word.read text.toList with
        | .ok n => .ok n
        | .error fault => .error (.badRequest ("bad limit " ++ text ++ ": " ++ fault.message))

/-- Whether to replay: true or false in letters of any case, or nothing. -/
def replay (default : Bool) : Option String → Except ApiError Bool
  | none => .ok default
  | some text =>
      let word := String.ofList (text.toList.map Char.toLower)
      if word = "true" then .ok true
      else if word = "false" then .ok false
      else if word = "" then .ok default
      else .error (.badRequest ("bad replay " ++ text))

/-- The filter of a stream; a blank body is none. -/
def filter (default : Predicate) (body : List UInt8) : Except ApiError Predicate :=
  if body.all isBlankByte then .ok default
  else match Json.ofBytes? body with
    | none => .error (.badRequest ("bad filter: " ++ Json.complaint))
    | some document =>
        (Pattern.compile document).mapError fun error =>
          .badRequest ("bad filter: " ++ error.message)

def read (params : StreamParams) (body : List UInt8) : Except ApiError Query := do
  let limit ← limit Query.initial.limit params.limit?
  let replay ← replay Query.initial.replay params.replay?
  let filter ← filter Query.initial.filter body
  return { replay, limit, filter }

end StreamRequest

end EventBus
