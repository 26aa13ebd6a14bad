/-
# Lines

A text is cut into lines at each line feed.  One carriage return just before the line feed belongs
to the line's end, not to the line, and a line feed at the very end of the text opens no further
line.  A carriage return anywhere else is an ordinary character.

* `lines` cuts a text;
* `dropMark` takes one byte order mark off the front of a text.
-/

namespace Ownership.Text

/-- The line without the one carriage return that ends it, if one does. -/
def dropReturn (cs : List Char) : List Char :=
  if cs.getLast? = some '\r' then cs.dropLast else cs

/-- The lines of a text: all but the last piece were closed by a line feed, and the last one
counts only if it holds a character. -/
def lines (cs : List Char) : List (List Char) :=
  let pieces := cs.splitOn '\n'
  let closed := pieces.dropLast.map dropReturn
  match pieces.getLast? with
  | none | some [] => closed
  | some last => closed ++ [last]

/-- The text without the byte order mark in front of it; a second mark stays. -/
def dropMark : List Char → List Char
  | '\uFEFF' :: cs => cs
  | cs => cs

/-- Everything before the first `c` and everything behind it, if `c` occurs. -/
def cutAt (c : Char) (cs : List Char) : Option (List Char × List Char) :=
  match cs.dropWhile (· != c) with
  | [] => none
  | _ :: rest => some (cs.takeWhile (· != c), rest)

end Ownership.Text
