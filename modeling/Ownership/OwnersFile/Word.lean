/-
# Words of a line

A rule's line is a list of words with white space between them.  A backslash before a space or a
tab keeps that one character inside the word; before any other character a backslash is an ordinary
character, also before another backslash.

* `words` cuts a line into words;
* `escape` writes a word so that its blanks stay inside it.
-/
import Ownership.Text.WhiteSpace

namespace Ownership

open Text

/-- The word read so far, kept backwards, if it has a character. -/
def wordOf (back : List Char) : List (List Char) :=
  if back.isEmpty then [] else [back.reverse]

/-- The words of a line in which `back` has been read of the current word, backwards. -/
def wordsFrom (back : List Char) : List Char → List (List Char)
  | [] => wordOf back
  | '\\' :: c :: cs =>
    if isBlank c then wordsFrom (c :: back) cs
    else wordsFrom ('\\' :: back) (c :: cs)
  | c :: cs =>
    if isWhiteSpace c then wordOf back ++ wordsFrom [] cs
    else wordsFrom (c :: back) cs

/-- The words of a line. -/
def words (line : List Char) : List (List Char) := wordsFrom [] line

/-- The word with a backslash before each space and tab. -/
def escape (word : List Char) : List Char :=
  word.flatMap fun c => if isBlank c then ['\\', c] else [c]

end Ownership
