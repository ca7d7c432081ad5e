import EventBus.Text.Blank
import EventBus.Text.Lines
import Mathlib.Data.List.TakeWhile
import Mathlib.Tactic.Common

/-!
What the lines of bytes are, and what trimming leaves of a line, said without saying how they are
found. Both are settled by the input alone: there is one way to split bytes, and one text that a
line is trimmed to.
-/

namespace EventBus.Lines

/-- Bytes are split into lines. A line ends with a line feed or with a carriage return and a line
feed; the last one may end with the bytes, unless nothing is left for it. -/
inductive SplitInto : List UInt8 → List (List UInt8) → Prop where
  | nothing : SplitInto [] []
  | last {line : List UInt8} (hsome : line ≠ []) (hplain : 0x0A ∉ line) : SplitInto line [line]
  | feed {line rest : List UInt8} {lines : List (List UInt8)} (hplain : 0x0A ∉ line)
      (hreturn : line.getLast? ≠ some 0x0D) (hrest : SplitInto rest lines) :
      SplitInto (line ++ 0x0A :: rest) (line :: lines)
  | returnFeed {line rest : List UInt8} {lines : List (List UInt8)} (hplain : 0x0A ∉ line)
      (hrest : SplitInto rest lines) : SplitInto (line ++ 0x0D :: 0x0A :: rest) (line :: lines)

end EventBus.Lines

namespace EventBus

/-- What is left of a line without the white space around it. -/
structure Trims (line text : List Char) : Prop where
  around : ∃ before after, line = before ++ text ++ after ∧ ∀ c ∈ before ++ after, isBlank c = true
  first : ∀ c ∈ text.head?, isBlank c = false
  last : ∀ c ∈ text.getLast?, isBlank c = false

end EventBus
