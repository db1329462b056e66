import BoardSchema.Text.Blank
/-!
Cutting a text into lines. A line ends at a line feed, which may have one carriage return before
it; what follows the last line feed is a line of its own unless it is empty.
-/
namespace BoardSchema.Text

/-- A line without the carriage return that belongs to its ending. -/
def withoutReturn (line : List Char) : List Char :=
  if line.getLast? = some '\r' then line.dropLast else line

/-- The last piece of a text has no line ending, so its carriage return is text. -/
def lastLine (pieces : List (List Char)) : List (List Char) :=
  pieces.getLast?.toList.filter (!·.isEmpty)

def lines (text : List Char) : List (List Char) :=
  let pieces := text.splitOn '\n'
  pieces.dropLast.map withoutReturn ++ lastLine pieces

end BoardSchema.Text
