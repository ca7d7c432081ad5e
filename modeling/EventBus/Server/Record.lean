import EventBus.Event.Basic

/-!
Events as records of an event stream: lines of a field name and a value, ended by an empty
line. A type or id that would break its line is left out; the text of the event never
holds a line break, so one line takes it.
-/

namespace EventBus.Record

/-- The text fits on a line of its own. -/
def isLine (s : String) : Bool :=
  s.toList.all fun c => c != '\n' && c != '\r' && c != Char.ofNat 0

def field (name value : String) : String := name ++ ": " ++ value ++ "\n"

def fieldIfLine (name : String) : Option String → String
  | some value => if isLine value then field name value else ""
  | none => ""

def text (event : Event) : String :=
  fieldIfLine "event" event.kind? ++ fieldIfLine "id" event.id? ++ field "data" event.text ++ "\n"

/-- The record sent when nothing has been for a while: a comment. -/
def keepAlive : String := ":\n\n"

end EventBus.Record
