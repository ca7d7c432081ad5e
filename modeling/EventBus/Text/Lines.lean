/-!
Splitting bytes into lines. A line ends at a line feed, and a carriage return just before
it belongs to the end; what follows the last line feed is a line too unless it is empty.
-/

namespace EventBus.Lines

/-- A line without the carriage return before its line feed; the line is held backwards. -/
def finished : List UInt8 → List UInt8
  | 0x0D :: rest => rest.reverse
  | line => line.reverse

/-- The lines of the bytes after a started line, held backwards. -/
def splitFrom (started : List UInt8) : List UInt8 → List (List UInt8)
  | [] => if started.isEmpty then [] else [started.reverse]
  | 0x0A :: rest => finished started :: splitFrom [] rest
  | b :: rest => splitFrom (b :: started) rest

def split (bytes : List UInt8) : List (List UInt8) := splitFrom [] bytes

end EventBus.Lines
