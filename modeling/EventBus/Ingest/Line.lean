import EventBus.Event.Basic
import EventBus.Json.Reader
import EventBus.Text.Blank
import EventBus.Text.Lines
import EventBus.Time.Clock

/-!
Lines of input as events. Each line that is not blank becomes one event, trimmed, under the
topic of the input and with the time as its id. A line that is no JSON is kept as it is,
under a key of its own. Input ends at the first line that is no text.
-/

namespace EventBus.Ingest

def payload (line : List Char) : Json :=
  match Json.ofChars? line with
  | some value => value
  | none => .object [("raw", .string (String.ofList line))]

def normalize (topic : String) (clock : Clock) (line : List Char) : Event :=
  ⟨some topic, payload line, some clock.now.text⟩

/-- The lines before the first that is no text, and why it is none. -/
def readable : List (List UInt8) → List (List Char) × Option Utf8.Fault
  | [] => ([], none)
  | line :: lines =>
      match Utf8.decode line with
      | .error fault => ([], some fault)
      | .ok cs =>
          let (rest, fault?) := readable lines
          (cs :: rest, fault?)

/-- The lines that count, trimmed. -/
def significant (lines : List (List Char)) : List (List Char) :=
  (lines.map trimBlank).filter (!·.isEmpty)

def events (topic : String) (clock : Clock) (input : List UInt8) : List Event :=
  (significant (readable (Lines.split input)).1).map (normalize topic clock)

end EventBus.Ingest
