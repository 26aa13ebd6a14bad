/-
# The text of a YAML document

A YAML text is read character by character with the place of each.  Before that, the five ways to
end a line are brought to one character each, so that every step of a reader takes one character.

The text comes in portions of bytes, and a portion that holds a character that YAML does not allow
cannot be read at all; so what stands in the portions before it is read before that shows.  One
character that no such portion holds stands for all that cannot be read, and a reader gives up
before it looks at that one.

* `Cursor` is the text that is left, with the place where it starts;
* `readable` is the text as far as it can be read.
-/
import Ownership.Text.WhiteSpace
import Ownership.Yaml.Style

namespace Ownership.Yaml

/-! ## 1. Places -/

/-- A place in a text: its line, and how many characters and how many bytes stand before it on that
line, all counted from zero. -/
structure Mark where
  line : Nat
  column : Nat
  bytes : Nat
  deriving DecidableEq, Repr

/-- The start of a text. -/
def Mark.start : Mark := ⟨0, 0, 0⟩

/-- The place `n` characters further on the line, each of which takes one byte. -/
def Mark.right (m : Mark) (n : Nat) : Mark :=
  { m with column := m.column + n, bytes := m.bytes + n }

/-- The place behind a character that ends no line. -/
def Mark.past (m : Mark) (c : Char) : Mark :=
  { m with column := m.column + 1, bytes := m.bytes + c.utf8Size }

/-- The start of the next line. -/
def Mark.nextLine (m : Mark) : Mark := ⟨m.line + 1, 0, 0⟩

/-! ## 2. Characters -/

/-- The characters that a YAML text may hold. -/
def isAllowed (c : Char) : Bool :=
  let n := c.toNat
  n == 0x9 || n == 0xA || n == 0xD || (0x20 ≤ n && n ≤ 0x7E) || n == 0x85 ||
    (0xA0 ≤ n && n ≤ 0xFFFD) || 0x10000 ≤ n

/-- How many bytes a portion of a text has at most; it holds whole characters. -/
def portionBytes : Nat := 16384

/-- Stands for what cannot be read. -/
def unreadable : Char := '\x00'

/-- Reads on in a portion that has room for `room` more bytes: `portion` is what it holds so far and
`done` what is in front of it, both backwards. -/
def readableFrom (done portion : List Char) (room : Nat) : List Char → List Char
  | [] => (portion ++ done).reverse
  | c :: cs =>
    if c.utf8Size ≤ room then
      if isAllowed c then readableFrom done (c :: portion) (room - c.utf8Size) cs
      else (unreadable :: done).reverse
    else if isAllowed c then
      readableFrom (portion ++ done) [c] (portionBytes - c.utf8Size) cs
    else (unreadable :: (portion ++ done)).reverse

/-- The portions of a text before the first that holds a character that is not allowed. -/
def readable (text : List Char) : List Char := readableFrom [] [] portionBytes text

/-- The byte order mark. -/
def byteOrderMark : Char := '\uFEFF'

/-- Stands for a CR LF. -/
def crlf : Char := '\r'

/-- Reads on with one character for each line end; `out` is what is in front, backwards. -/
def unifyFrom (out : List Char) : List Char → List Char
  | [] => out.reverse
  | '\r' :: '\n' :: cs => unifyFrom (crlf :: out) cs
  | c :: cs => unifyFrom ((if c = '\r' ∨ c = '\x85' then '\n' else c) :: out) cs

/-- The text with one character for each line end: `crlf` for CR LF, and a line feed for any other
CR and for NEL; LS and PS stay, since they are kept when lines are joined. -/
def unifyBreaks (cs : List Char) : List Char := unifyFrom [] cs

/-- What a line end counts as in a scalar. -/
def lineFeed (c : Char) : Char := if c = crlf then '\n' else c

/-- Holds if the next `n` characters, or those up to the end, can be looked at; a CR LF is two. -/
def inSight : Nat → List Char → Bool
  | 0, _ => true
  | _, [] => true
  | n + 1, c :: cs => c != unreadable && inSight (if c = crlf then n - 1 else n) cs

/-- The letters, digits and signs that names are made of. -/
def isNameChar (c : Char) : Bool := c.isAlphanum || c == '_' || c == '-'

/-! ## 3. Cursors -/

/-- The text that is left, and the place where it starts. -/
structure Cursor where
  rest : List Char
  mark : Mark
  deriving Repr

namespace Cursor

/-- Behind the next `n` characters, none of which ends a line. -/
def skip (c : Cursor) (n : Nat) : Cursor :=
  ⟨c.rest.drop n, (c.rest.take n).foldl Mark.past c.mark⟩

/-- Behind the characters in a class that no line end is in. -/
def skipWhile (p : Char → Bool) (c : Cursor) : Cursor := c.skip (c.rest.takeWhile p).length

/-- Behind the line end that comes next, if one does. -/
def skipBreak (c : Cursor) : Cursor :=
  match c.rest with
  | [] => c
  | d :: ds => if isBreak d then ⟨ds, c.mark.nextLine⟩ else c

/-- The next character. -/
def peek (c : Cursor) : Option Char := c.rest.head?

/-- Holds if a word ends here. -/
def atWordEnd (c : Cursor) : Bool := endsWord c.peek

/-- Holds if a line or the text ends here. -/
def atLineEnd (c : Cursor) : Bool := c.peek.all isBreak

/-- Behind the blanks and the comment that may end a line; in a comment every character counts. -/
def skipTrailer (c : Cursor) : Cursor :=
  let d := c.skipWhile Text.isBlank
  if d.peek = some '#' then d.skipWhile fun x => !isBreak x && x != unreadable else d

/-- The start of a text. -/
def ofText (text : List Char) : Cursor := ⟨unifyBreaks (readable text), .start⟩

end Cursor

/-- Holds if the text, at the start of a line, is a document marker: three hyphens or points that
are a word of their own. -/
def isMarker : List Char → Bool
  | a :: b :: c :: rest =>
    ([a, b, c] == ['-', '-', '-'] || [a, b, c] == ['.', '.', '.']) && endsWord rest.head?
  | _ => false

end Ownership.Yaml
