import EventBus.Event.Basic
import EventBus.Pattern.Document

/-!
What a consumer wants: a filter over payloads, whether history is replayed first, and how
much of it at most.
-/

namespace EventBus

structure Query where
  replay : Bool
  limit : Nat
  filter : Predicate
  deriving Repr, Inhabited

namespace Query

/-- Replay of up to ten events, and no filter. -/
def initial : Query := ⟨true, 10, .pass⟩

def ofFilter (filter : Predicate) : Query := { initial with filter := filter }

def ofDocument (document : Json) : Except PatternError Query :=
  (Pattern.compile document).map ofFilter

def clampLimit (query : Query) (most : Nat) : Query :=
  { query with limit := min query.limit most }

def accepts (query : Query) (event : Event) : Bool := query.filter.accepts event.payload

def select (query : Query) (events : List Event) : List Event := events.filter query.accepts

end Query

end EventBus
