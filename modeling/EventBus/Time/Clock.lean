import EventBus.Time.Instant

/-!
A clock that stands still until it is moved. A step too long for a signed count of
milliseconds moves it not at all, and a step past the end of the calendar fails and leaves
it where it was.
-/

namespace EventBus

structure Clock where
  now : Instant
  deriving Repr

namespace Clock

/-- The clock at 2023-11-14T22:13:20Z. -/
def initial : Clock := ⟨⟨1700000000, 0⟩⟩

def stepOf (span : Span) : Span :=
  let longest := Instant.longestStep
  if longest.seconds < span.seconds
      ∨ (span.seconds = longest.seconds ∧ longest.nanos < span.nanos) then ⟨0, 0⟩
  else span

/-- The clock after a span, or none when the calendar ends before. -/
def advance? (clock : Clock) (span : Span) : Option Clock :=
  (clock.now.add? (stepOf span)).map Clock.mk

end Clock

end EventBus
