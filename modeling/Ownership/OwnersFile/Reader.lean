/-
# Reading an owners file

Every text is an owners file: each of its lines becomes a blank line, a comment or a rule.  Patterns
and owners of no known form are kept as they are written, since it is the checks that point at them.

* `OwnersFile.ofText` reads a text;
* `Line.ofText` reads one line, given its number.
-/
import Ownership.OwnersFile
import Ownership.OwnersFile.Word

namespace Ownership

open Text

/-- The sign that opens a comment, at the start of a line or of a word behind the pattern. -/
def commentSign : Char := '#'

/-- Holds of a word that opens a comment. -/
def opensComment (word : List Char) : Bool := word.head? == some commentSign

/-- The rule on line `n` with these words: the first is the pattern, and the owners end where a
comment opens. -/
def Rule.ofWords (n : Nat) (ws : List (List Char)) : Rule where
  line := n
  pattern := String.ofList (ws.headD [])
  owners := (ws.tail.takeWhile fun w => !opensComment w).map fun w => Owner.ofText (String.ofList w)

/-- Line number `n`, read from its text. -/
def Line.ofText (n : Nat) (text : List Char) : Line :=
  match trim text with
  | [] => .blank
  | c :: cs =>
    if c = commentSign then .comment (String.ofList cs)
    else .rule (Rule.ofWords n (words (c :: cs)))

/-- The owners file that a text is; its size counts a byte order mark, its lines do not. -/
def OwnersFile.ofText (text : String) : OwnersFile where
  lines := (Text.lines (dropMark text.toList)).zipIdx.map fun (l, i) => Line.ofText (i + 1) l
  sourceBytes := text.utf8ByteSize

end Ownership
