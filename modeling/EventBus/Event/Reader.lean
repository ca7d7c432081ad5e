import EventBus.Event.Basic
import EventBus.Json.Reader

/-!
Reading events. An event is an object whose known fields appear at most once, or an array
of up to three parts in the order type, payload, id. An absent payload is null, and a null
type or id is absent. Read straight from text, the value of an unknown field is only
checked against the grammar; read from a value, the whole document has been read before.
-/

namespace EventBus.Event

structure Fields where
  kind? : Option (Option String)
  payload? : Option Json
  id? : Option (Option String)

def Fields.unseen : Fields := ⟨none, none, none⟩

def Fields.event (fields : Fields) : Event :=
  ⟨fields.kind?.getD none, fields.payload?.getD .null, fields.id?.getD none⟩

/-- An optional string: a string, or null. -/
def optionalString? : Json → Option (Option String)
  | .null => some none
  | .string s => some (some s)
  | _ => none

def isKnown (key : String) : Bool := key == "type" || key == "payload" || key == "id"

/-- Take in the value of a field; a known one that has been seen is refused. -/
def Fields.add? (fields : Fields) (key : String) (value : Json) : Option Fields :=
  if key = "type" then
    if fields.kind?.isSome then none
    else (optionalString? value).map fun kind => { fields with kind? := some kind }
  else if key = "payload" then
    if fields.payload?.isSome then none
    else some { fields with payload? := some value.canonical }
  else if key = "id" then
    if fields.id?.isSome then none
    else (optionalString? value).map fun id => { fields with id? := some id }
  else some fields

def Fields.addAll? (fields : Fields) : List (String × Json) → Option Fields
  | [] => some fields
  | (key, value) :: entries => do (← fields.add? key value).addAll? entries

def ofParts? : List Json → Option Event
  | [] => some Fields.unseen.event
  | [kind] => do return ⟨← optionalString? kind, .null, none⟩
  | [kind, payload] => do return ⟨← optionalString? kind, payload.canonical, none⟩
  | [kind, payload, id] => do
      return ⟨← optionalString? kind, payload.canonical, ← optionalString? id⟩
  | _ => none

def ofJson? : Json → Option Event
  | .array parts => ofParts? parts
  | .object entries => (Fields.unseen.addAll? entries).map Fields.event
  | _ => none

def listOfJson? : List Json → Option (List Event)
  | [] => some []
  | item :: items => do return (← ofJson? item) :: (← listOfJson? items)

/-- Read the value of a field, or skip that of an unknown one. -/
def readField? (fields : Fields) (key : String) (cs : List Char) : Option (Fields × List Char) :=
  if isKnown key then do
    let (value, rest) ← Json.value? (Json.maxDepth - 1) cs
    return (← fields.add? key value, rest)
  else (Json.skip? cs).map fun rest => (fields, rest)

/-- Entries of an event in text, up to the closing brace. -/
def readEntries? (fields : Fields) : Nat → List Char → Option (Fields × List Char)
  | 0, _ => none
  | fuel + 1, cs => do
      let (key, rest) ← Json.key? cs
      let (fields, rest) ← readField? fields key rest
      match Json.skipSpace rest with
      | '\x7d' :: rest => return (fields, rest)
      | ',' :: rest => readEntries? fields fuel rest
      | _ => none

def leading? (cs : List Char) : Option (Event × List Char) :=
  match Json.skipSpace cs with
  | '\x7b' :: rest =>
      match Json.skipSpace rest with
      | '\x7d' :: rest => some (Fields.unseen.event, rest)
      | rest => (readEntries? Fields.unseen (rest.length + 1) rest).map fun (fields, rest) =>
          (fields.event, rest)
  | rest => do
      let (value, rest) ← Json.value? Json.maxDepth rest
      return (← ofJson? value, rest)

def ofText? (s : String) : Option Event := do
  let (event, rest) ← leading? s.toList
  if Json.atEnd rest then return event else none

end EventBus.Event
