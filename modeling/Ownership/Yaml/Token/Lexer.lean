/-
# Cutting a YAML text into tokens

Most tokens show themselves.  Two kinds do not: a block is opened and closed by the indentation of
its lines, and a key that no question mark announces is known as one only at the colon behind it.
So where a key could start is remembered, and its tokens are put in before it when the colon comes.

A text that is not well formed has the tokens that come before the fault.  A token that could still
turn out to be a key does not count among them.

* `Lexer.step?` reads the next token;
* `tokensOf` are the tokens of a text, and whether they are all.
-/
import Ownership.Yaml.Token.Scalar

namespace Ownership.Yaml

open Text

/-! ## 1. State -/

/-- A place where a key may have started: whether the text is at fault if none did, the number of
the token there, and the place. -/
structure KeyStart where
  required : Bool
  number : Nat
  mark : Mark
  deriving Repr

/-- What is left of a text, and what has been read: how many tokens are
settled, and those behind them; how many brackets are open; the column of the innermost block, -1
outside all, and those around it; whether a key may start here; and where one may have started, for
each open bracket and the outside, the innermost first. -/
structure Lexer where
  cursor : Cursor
  settled : Nat := 0
  tokens : Array Placed := #[]
  depth : Nat := 0
  indent : Int := -1
  indents : List Int := []
  keyAllowed : Bool := true
  keys : List (Option KeyStart) := [none]
  finished : Bool := false
  deriving Repr

namespace Lexer

/-- The lexer with a token behind the others. -/
def push (s : Lexer) (t : Token) (m : Mark) : Lexer := { s with tokens := s.tokens.push ⟨t, m⟩ }

/-- The number of the token that comes next. -/
def nextNumber (s : Lexer) : Nat := s.settled + s.tokens.size

/-- The lexer with a token in front of token `number`. -/
def insertAt (s : Lexer) (number : Nat) (t : Token) (m : Mark) : Lexer :=
  let i := number - s.settled
  { s with tokens := (s.tokens.take i).push ⟨t, m⟩ ++ s.tokens.drop i }

/-- The lexer with a token of `n` characters read. -/
def take (s : Lexer) (t : Token) (n : Nat) : Lexer :=
  { s.push t s.cursor.mark with cursor := s.cursor.skip n }

/-- Holds inside brackets. -/
def inFlow (s : Lexer) : Bool := s.depth > 0

/-- The next character and the one behind it. -/
def peek2 (s : Lexer) : Option Char × Option Char :=
  (s.cursor.rest.head?, s.cursor.rest.tail.head?)

/-! ## 2. Keys -/

/-- How many bytes a key may have before its colon. -/
def maxKeyBytes : Nat := 1024

/-- Holds of a place that can no longer hold a key: it is on an earlier line, or too far back. -/
def isStale (here : Mark) (k : KeyStart) : Bool :=
  k.mark.line < here.line || k.mark.bytes + maxKeyBytes < here.bytes

/-- Forgets the places that can no longer hold a key. -/
def dropStale? (s : Lexer) : Option Lexer := do
  let keys ← s.keys.mapM fun k =>
    match k with
    | none => some none
    | some k =>
      if isStale s.cursor.mark k then if k.required then none else some none else some (some k)
  some { s with keys := keys }

/-- Forgets where a key may have started inside the innermost bracket. -/
def dropKey? (s : Lexer) : Option Lexer :=
  match s.keys with
  | some k :: ks => if k.required then none else some { s with keys := none :: ks }
  | _ => some s

/-- Remembers that a key may start here, if one may. -/
def saveKey? (s : Lexer) : Option Lexer :=
  if !s.keyAllowed then some s
  else do
    let required := !s.inFlow && s.indent == (s.cursor.mark.column : Int)
    let t ← s.dropKey?
    some { t with keys := some ⟨required, t.nextNumber, t.cursor.mark⟩ :: t.keys.tail }

/-- Sets whether a key may start behind the token that follows. -/
def allowKey (s : Lexer) (b : Bool) : Lexer := { s with keyAllowed := b }

/-! ## 3. Blocks -/

/-- Opens a block at a column that is further in, its token in front of token `number`. -/
def openBlock (s : Lexer) (column number : Nat) (t : Token) (m : Mark) : Lexer :=
  if !s.inFlow && s.indent < (column : Int) then
    { s.insertAt number t m with indent := column, indents := s.indent :: s.indents }
  else s

/-- Closes the blocks with these columns around them, down to a column. -/
def closeFrom (column : Int) (s : Lexer) : List Int → Lexer
  | [] => s
  | i :: is =>
    if s.indent > column then
      closeFrom column { s.push .blockEnd s.cursor.mark with indent := i, indents := is } is
    else s

/-- Closes the blocks that are further in than a column. -/
def closeBlocks (s : Lexer) (column : Int) : Lexer :=
  if s.inFlow then s else closeFrom column s s.indents

/-! ## 4. Blanks -/

/-- Skips blanks, comments and line ends, and a byte order mark at the start of a line.  Where a key
may start, a tab is no blank; behind a line end a key may start again. -/
def skipBlanks (flow keyAllowed comment : Bool) : List Char → Mark → Bool × Cursor
  | [], m => (keyAllowed, ⟨[], m⟩)
  | c :: cs, m =>
    if c == unreadable then (keyAllowed, ⟨c :: cs, m⟩)
    else if isBreak c then skipBlanks flow (keyAllowed || !flow) false cs m.nextLine
    else if comment || c == ' ' || ((flow || !keyAllowed) && c == '\t') then
      skipBlanks flow keyAllowed comment cs (m.past c)
    else if c == byteOrderMark && m.column == 0 then
      skipBlanks flow keyAllowed false cs (m.past c)
    else if c == '#' then skipBlanks flow keyAllowed true cs (m.right 1)
    else (keyAllowed, ⟨c :: cs, m⟩)

/-- The lexer at its next token. -/
def toToken (s : Lexer) : Lexer :=
  let (allowed, c) := skipBlanks s.inFlow s.keyAllowed false s.cursor.rest s.cursor.mark
  { s with keyAllowed := allowed, cursor := c }

/-! ## 5. Directives, names and tags -/

/-- Reads a version number of at most nine digits. -/
def versionNumber? (c : Cursor) : Option (Nat × Cursor) := do
  let ds := c.rest.takeWhile Char.isDigit
  if ds.length > 9 then none
  some (← digits? 10 ds, c.skip ds.length)

/-- Reads a tag handle: an exclamation mark, a name and, behind a name in a directive always,
another exclamation mark. -/
def tagHandle? (directive : Bool) (c : Cursor) : Option (List Char × Cursor) :=
  if c.peek != some '!' then none
  else
    let name := '!' :: (c.rest.tail.takeWhile isNameChar)
    let d := c.skip name.length
    if d.peek = some '!' then some (name ++ ['!'], d.skip 1)
    else if directive && name != ['!'] then none
    else some (name, d)

/-- The signs that a tag may hold besides letters and digits. -/
def isTagSign (verbatim : Bool) (c : Char) : Bool :=
  ";/?:@&=+$.!~*'()".toList.contains c || (verbatim && ",[]".toList.contains c)

/-- How many bytes a character takes in UTF-8, by its first byte. -/
def utf8Width? (b : Nat) : Option Nat :=
  if b < 0x80 then some 1
  else if b / 0x20 == 0x6 then some 2
  else if b / 0x10 == 0xE then some 3
  else if b / 0x8 == 0x1E then some 4
  else none

/-- The value of two hexadecimal digits. -/
def hexByte? (c d : Char) : Option Nat := do
  return (← digit? 16 c) * 16 + (← digit? 16 d)

/-- Reads the part of a tag behind its handle, backwards in `back`.  While `left` is not zero, that
many escaped bytes of a character are to come. -/
def tagTail (verbatim : Bool) (back : List UInt8) (left : Nat) :
    List Char → Mark → Option (List UInt8 × Cursor)
  | '%' :: c :: d :: cs, m =>
    match hexByte? c d with
    | none => none
    | some b =>
      match left with
      | 0 =>
        match utf8Width? b with
        | none => none
        | some w => tagTail verbatim (b.toUInt8 :: back) (w - 1) cs (m.right 3)
      | n + 1 =>
        if b / 0x40 != 2 then none else tagTail verbatim (b.toUInt8 :: back) n cs (m.right 3)
  | c :: cs, m =>
    if left > 0 || c == '%' then none
    else if isNameChar c || isTagSign verbatim c then
      tagTail verbatim (c.toNat.toUInt8 :: back) 0 cs (m.right 1)
    else some (back, ⟨c :: cs, m⟩)
  | [], m => if left > 0 then none else some (back, ⟨[], m⟩)

/-- Reads the part of a tag behind `start`; something must be there unless `start` is.  The first
zero byte ends what counts of it. -/
def tagUri? (verbatim : Bool) (start : List Char) (c : Cursor) :
    Option (List UInt8 × Cursor) := do
  let (back, d) ← tagTail verbatim (asciiBytes start.tail).reverse 0 c.rest c.mark
  if start.isEmpty && back.isEmpty then none
  some (back.reverse.takeWhile (· != 0), d)

/-- Reads a tag: its handle, its suffix and what follows. -/
def tag? (c : Cursor) : Option (Token × Cursor) :=
  if c.rest.tail.head? = some '<' then do
    let (suffix, d) ← tagUri? true [] (c.skip 2)
    if d.peek != some '>' then none
    some (.tag [] suffix, d.skip 1)
  else do
    let (handle, d) ← tagHandle? false c
    if handle.length > 1 && handle.getLast? == some '!' then
      let (suffix, e) ← tagUri? false [] d
      some (.tag handle suffix, e)
    else
      let (suffix, e) ← tagUri? false handle d
      some (if suffix.isEmpty then .tag [] loneTag else .tag ['!'] suffix, e)

/-- Reads a directive, the cursor behind its percent sign. -/
def directive? (c : Cursor) : Option (Token × Cursor) := do
  let name := c.rest.takeWhile isNameChar
  let d := c.skip name.length
  if !d.atWordEnd then none
  if name = "YAML".toList then
    let (major, e) ← versionNumber? (d.skipWhile isBlank)
    if e.peek != some '.' then none
    let (minor, f) ← versionNumber? (e.skip 1)
    some (.versionDirective major minor, f)
  else if name = "TAG".toList then
    let (handle, e) ← tagHandle? true (d.skipWhile isBlank)
    if !e.peek.any isBlank then none
    let (expansion, f) ← tagUri? true [] (e.skipWhile isBlank)
    if !f.atWordEnd then none
    some (.tagDirective handle expansion, f)
  else none

/-- Reads the name of an anchor or an alias, the cursor on its sign. -/
def anchorName? (c : Cursor) : Option (List Char × Cursor) :=
  let name := c.rest.tail.takeWhile isNameChar
  let d := c.skip (name.length + 1)
  if name.isEmpty then none
  else if d.atWordEnd || d.peek.any (fun x => "?:,]\x7d%@\x60".toList.contains x) then
    some (name, d)
  else none

/-! ## 6. Tokens -/

/-- Reads the end of the text. -/
def readEnd? (s : Lexer) : Option Lexer := do
  let m := s.cursor.mark
  let s := if m.column = 0 then s else { s with cursor := { s.cursor with mark := m.nextLine } }
  let s ← (s.closeBlocks (-1)).dropKey?
  some { (s.allowKey false).push .streamEnd s.cursor.mark with finished := true }

/-- Reads a directive. -/
def readDirective? (s : Lexer) : Option Lexer := do
  let s ← (s.closeBlocks (-1)).dropKey?
  let (t, c) ← directive? (s.cursor.skip 1)
  let d := c.skipTrailer
  if !d.atLineEnd || !inSight 2 d.rest then none
  some { (s.allowKey false).push t s.cursor.mark with cursor := d.skipBreak }

/-- Reads a document marker. -/
def readMarker? (s : Lexer) (t : Token) : Option Lexer := do
  let s ← (s.closeBlocks (-1)).dropKey?
  some ((s.allowKey false).take t 3)

/-- Reads an opening bracket. -/
def readOpen? (s : Lexer) (t : Token) : Option Lexer := do
  let s ← s.saveKey?
  some (({ s with keys := none :: s.keys, depth := s.depth + 1 }.allowKey true).take t 1)

/-- Reads a closing bracket. -/
def readClose? (s : Lexer) (t : Token) : Option Lexer := do
  let s ← s.dropKey?
  let s := if s.inFlow then { s with keys := s.keys.tail, depth := s.depth - 1 } else s
  some ((s.allowKey false).take t 1)

/-- Reads a comma between brackets. -/
def readFlowEntry? (s : Lexer) : Option Lexer := do
  let s ← s.dropKey?
  some ((s.allowKey true).take .flowEntry 1)

/-- Opens a block here if its indicator may stand here. -/
def openHere? (s : Lexer) (t : Token) : Option Lexer :=
  if s.inFlow then some s
  else if !s.keyAllowed then none
  else some (s.openBlock s.cursor.mark.column s.nextNumber t s.cursor.mark)

/-- Reads the dash before an item of a block. -/
def readBlockEntry? (s : Lexer) : Option Lexer := do
  let s ← (← s.openHere? .blockSequenceStart).dropKey?
  some ((s.allowKey true).take .blockEntry 1)

/-- Reads the question mark before a key. -/
def readKey? (s : Lexer) : Option Lexer := do
  let s ← (← s.openHere? .blockMappingStart).dropKey?
  some ((s.allowKey (!s.inFlow)).take .key 1)

/-- Reads the colon before a value.  If a key may have started, it did. -/
def readValue? (s : Lexer) : Option Lexer :=
  match s.keys with
  | some k :: ks =>
    let t := ({ s with keys := none :: ks }.insertAt k.number .key k.mark).openBlock k.mark.column
      k.number .blockMappingStart k.mark
    some ((t.allowKey false).take .value 1)
  | _ => do
    let t ← s.openHere? .blockMappingStart
    some ((t.allowKey (!t.inFlow)).take .value 1)

/-- Reads an anchor or an alias. -/
def readAnchor? (s : Lexer) (f : List Char → Token) : Option Lexer := do
  let s ← s.saveKey?
  let (name, c) ← anchorName? s.cursor
  some { (s.allowKey false).push (f name) s.cursor.mark with cursor := c }

/-- Reads a tag. -/
def readTag? (s : Lexer) : Option Lexer := do
  let s ← s.saveKey?
  let (t, c) ← tag? s.cursor
  if !(c.atWordEnd || (s.inFlow && c.peek == some ',')) then none
  some { (s.allowKey false).push t s.cursor.mark with cursor := c }

/-- Reads a block of lines. -/
def readBlock? (s : Lexer) (folded : Bool) : Option Lexer := do
  let s ← s.dropKey?
  let (text, c) ← blockScalar? folded s.indent s.cursor
  let form := if folded then Form.folded else Form.literal
  some { (s.allowKey true).push (.scalar text form) s.cursor.mark with cursor := c }

/-- Reads a quoted scalar. -/
def readQuoted? (s : Lexer) (double : Bool) : Option Lexer := do
  let s ← s.saveKey?
  let (text, c) ← quotedScalar? double s.cursor
  let form := if double then Form.double else Form.single
  some { (s.allowKey false).push (.scalar text form) s.cursor.mark with cursor := c }

/-- Reads a plain scalar; if a line ends behind it, a key may start there. -/
def readPlain? (s : Lexer) : Option Lexer := do
  let s ← s.saveKey?
  let (text, broken, c) ← plainScalar? s.inFlow (s.indent + 1).toNat s.cursor
  some { (s.allowKey broken).push (.scalar text .plain) s.cursor.mark with cursor := c }

/-- Holds if a plain scalar may start with `c`. -/
def startsPlain (flow : Bool) (c : Char) (following : Option Char) : Bool :=
  !(isBlank c || isIndicator c || c == '-' || c == '?' || c == ':') ||
    (c == '-' && !following.any isBlank) ||
    (!flow && (c == '?' || c == ':') && !endsWord following)

/-- Reads the token that starts with `c`. -/
def readToken? (s : Lexer) (c : Char) (following : Option Char) : Option Lexer :=
  let first := s.cursor.mark.column = 0
  if first ∧ c = '%' then s.readDirective?
  else if first ∧ isMarker s.cursor.rest then
    s.readMarker? (if c = '-' then .documentStart else .documentEnd)
  else if c = '[' then s.readOpen? .flowSequenceStart
  else if c = '{' then s.readOpen? .flowMappingStart
  else if c = ']' then s.readClose? .flowSequenceEnd
  else if c = '}' then s.readClose? .flowMappingEnd
  else if c = ',' then s.readFlowEntry?
  else if c = '-' ∧ endsWord following then s.readBlockEntry?
  else if c = '?' ∧ (s.inFlow ∨ endsWord following) then s.readKey?
  else if c = ':' ∧ (s.inFlow ∨ endsWord following) then s.readValue?
  else if c = '*' then s.readAnchor? .alias
  else if c = '&' then s.readAnchor? .anchor
  else if c = '!' then s.readTag?
  else if c = '|' ∧ !s.inFlow then s.readBlock? false
  else if c = '>' ∧ !s.inFlow then s.readBlock? true
  else if c = '\'' then s.readQuoted? false
  else if c = '"' then s.readQuoted? true
  else if startsPlain s.inFlow c following then s.readPlain?
  else none

/-- How many characters are looked at to tell a token by its start. -/
def lookahead : Nat := 4

/-- Reads the next token, with the ends of blocks before it. -/
def step? (s : Lexer) : Option Lexer := do
  let s ← s.toToken.dropStale?
  if !inSight lookahead s.cursor.rest then none
  let s := s.closeBlocks (s.cursor.mark.column : Int)
  match s.peek2 with
  | (none, _) => s.readEnd?
  | (some c, following) => s.readToken? c following

/-! ## 7. All tokens -/

/-- How many of the tokens stand before every place where a key may have started. -/
def ready (s : Lexer) : Nat :=
  s.keys.foldl (fun n k => match k with
    | some k => min n (k.number - s.settled)
    | none => n) s.tokens.size

/-- The lexer without the next `n` tokens, which are settled. -/
def settle (s : Lexer) (n : Nat) : Lexer :=
  { s with settled := s.settled + n, tokens := s.tokens.drop n }

/-- Reads up to `fuel` tokens; `out` are those settled before. -/
def run (out : Array Placed) (s : Lexer) : Nat → Array Placed × Bool
  | 0 => (out, false)
  | fuel + 1 =>
    match s.step?.bind dropStale? with
    | none => (out, false)
    | some t =>
      if t.finished then (out ++ t.tokens, true)
      else run (out ++ t.tokens.take t.ready) (t.settle t.ready) fuel

end Lexer

/-- The tokens of a text, and whether they are all.  Every step reads a character or ends the
text, so that as many steps as characters, and one more, are enough. -/
def tokensOf (text : List Char) : List Placed × Bool :=
  let c := Cursor.ofText text
  let (ts, all) := Lexer.run #[] { cursor := c } (c.rest.length + 1)
  (ts.toList, all)

end Ownership.Yaml
