import IconPainter.Text.Alphanumeric

/-! # Lines

A line ends in a line feed, with or without a carriage return before it.
-/

namespace IconPainter.Text

def dropReturn (line : List Char) : List Char :=
  if line.getLast? = some '\r' then line.dropLast else line

/-- The lines of a text in which every line ends. -/
def lines (text : String) : List (List Char) :=
  (text.toList.splitOn '\n').dropLast.map dropReturn

def unindent (line : List Char) : List Char := line.dropWhile isBlank

end IconPainter.Text
