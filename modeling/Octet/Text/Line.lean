/-!
# Lines

A line ends at a line feed, or at a carriage return directly followed by a line feed. The end of
the last line may be missing; a carriage return anywhere else is part of its line. The same rule
serves characters and bytes, so it is stated for any alphabet with these two marks.

* `splitLines_feed`: a line feed ends a line.
* `splitLines_return_feed`: a carriage return before a line feed is part of the line's end.
-/

namespace Octet.Text

variable {α : Type} [DecidableEq α]

/-- The lines of `cs`, without their ends. -/
def splitLines (feed ret : α) : List α → List (List α)
  | [] => []
  | c :: cs =>
    if c = feed then [] :: splitLines feed ret cs
    else if c = ret ∧ cs.head? = some feed then splitLines feed ret cs
    else
      match splitLines feed ret cs with
      | [] => [[c]]
      | line :: lines => (c :: line) :: lines

theorem splitLines_feed (feed ret : α) (cs : List α) :
    splitLines feed ret (feed :: cs) = [] :: splitLines feed ret cs := by
  simp [splitLines]

theorem splitLines_return_feed {feed ret : α} (h : ret ≠ feed) (cs : List α) :
    splitLines feed ret (ret :: feed :: cs) = [] :: splitLines feed ret cs := by
  simp [splitLines, h]

/-- The lines of a text. -/
def lines (text : String) : List String :=
  (splitLines '\n' '\r' text.toList).map String.ofList

/-- The lines of a byte stream. -/
def byteLines (bytes : List UInt8) : List (List UInt8) :=
  splitLines 10 13 bytes

end Octet.Text
