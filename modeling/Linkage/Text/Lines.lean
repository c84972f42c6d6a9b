/-!
The lines of a text.

A line ends with a line feed or with the text. A carriage return right before the line feed is part
of the line's end, and the end of the text opens no further line.
-/

namespace Linkage.Text

def lineOfReversed : List Char → List Char
  | '\r' :: before => before.reverse
  | before => before.reverse

/-- The lines of a text, given the characters of the current line from the last to the first. -/
def linesAfter (before : List Char) : List Char → List (List Char)
  | [] => if before.isEmpty then [] else [before.reverse]
  | '\n' :: rest => lineOfReversed before :: linesAfter [] rest
  | c :: rest => linesAfter (c :: before) rest

def lines (text : List Char) : List (List Char) := linesAfter [] text

def ofLines (lines : List String) : String := String.join (lines.map (· ++ "\n"))

end Linkage.Text
