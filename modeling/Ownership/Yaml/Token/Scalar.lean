/-
# Reading scalars

A scalar may run over several lines.  Outside blocks of lines a single line end between words counts
as a space, and further ones stay as they are.

* `plainScalar?` reads a scalar without quotes;
* `quotedScalar?` reads one in single or double quotes;
* `blockScalar?` reads a block of lines.

Each gives nothing if the text is not well formed.
-/
import Ownership.Yaml.Token

namespace Ownership.Yaml

open Text

/-! ## 1. The gap between words -/

/-- What stands between two words of a scalar, each list backwards: blanks on the line of the first
word, and line ends once there is one. -/
structure Gap where
  blanks : List Char := []
  broken : Bool := false
  first : List Char := []
  more : List Char := []
  deriving Repr

namespace Gap

/-- No gap. -/
def none : Gap := {}

/-- A gap that a backslash at the end of a line opens: that line end does not count. -/
def escaped : Gap := { broken := true }

/-- The gap with a blank behind it; blanks at the start of a line do not count. -/
def addBlank (g : Gap) (c : Char) : Gap :=
  if g.broken then g else { g with blanks := c :: g.blanks }

/-- The gap with a line end behind it. -/
def addBreak (g : Gap) (c : Char) : Gap :=
  if g.broken then { g with more := lineFeed c :: g.more }
  else { broken := true, first := [lineFeed c] }

/-- The gap as it counts in the scalar, backwards. -/
def text (g : Gap) : List Char :=
  if !g.broken then g.blanks
  else if g.first = ['\n'] then if g.more.isEmpty then [' '] else g.more
  else g.more ++ g.first

end Gap

/-! ## 2. Plain scalars -/

/-- A plain scalar, backwards, whether its last gap ends a line, and what is left. -/
structure PlainEnd where
  back : List Char
  broken : Bool
  cursor : Cursor

/-- Holds of the characters that end a scalar inside brackets. -/
def isFlowIndicator (c : Char) : Bool := ",[]\x7b\x7d".toList.contains c

/-- Holds if a colon stands before a character that makes it an error inside brackets. -/
def isBadColon (c : Char) (following : Option Char) : Bool :=
  c == ':' && following.any fun d => ",?[]\x7b\x7d".toList.contains d

/-- Holds if a plain scalar ends before `c`. -/
def endsPlain (flow : Bool) (c : Char) (following : Option Char) : Bool :=
  (c == ':' && endsWord following) || (flow && isFlowIndicator c)

/-- Reads on in a plain scalar whose further lines must be indented by `indent`. -/
def plainFrom (flow : Bool) (indent : Nat) (back : List Char) (gap : Gap) (started : Bool) :
    List Char → Mark → Option PlainEnd
  | [], m => some ⟨back, gap.broken, ⟨[], m⟩⟩
  | c :: cs, m =>
    let stop := some ⟨back, gap.broken, ⟨c :: cs, m⟩⟩
    if !inSight (if started then 2 else 1) (c :: cs) then none
    else if isBreak c then plainFrom flow indent back (gap.addBreak c) false cs m.nextLine
    else if isBlank c then
      if gap.broken && m.column < indent && c == '\t' then none
      else plainFrom flow indent back (gap.addBlank c) false cs (m.past c)
    else if !started && (gap.broken && !flow && m.column < indent) then stop
    else if !started && !inSight 4 (c :: cs) then none
    else if !started && ((m.column == 0 && isMarker (c :: cs)) || c == '#') then stop
    else if flow && isBadColon c cs.head? then none
    else if endsPlain flow c cs.head? then stop
    else plainFrom flow indent (c :: gap.text ++ back) .none true cs (m.past c)

/-- Reads a plain scalar. -/
def plainScalar? (flow : Bool) (indent : Nat) (c : Cursor) : Option (List Char × Bool × Cursor) :=
  (plainFrom flow indent [] .none false c.rest c.mark).map fun e =>
    (e.back.reverse, e.broken, e.cursor)

/-! ## 3. Quoted scalars -/

/-- What a character behind a backslash stands for. -/
inductive EscapeCode where
  | char (c : Char)
  | hex (width : Nat)

/-- The escapes of double quotes. -/
def escapeCode? (c : Char) : Option EscapeCode :=
  match c with
  | '0' => some (.char '\x00')
  | 'a' => some (.char '\x07')
  | 'b' => some (.char '\x08')
  | 't' | '\t' => some (.char '\t')
  | 'n' => some (.char '\n')
  | 'v' => some (.char '\x0b')
  | 'f' => some (.char '\x0c')
  | 'r' => some (.char '\r')
  | 'e' => some (.char '\x1b')
  | ' ' => some (.char ' ')
  | '"' => some (.char '"')
  | '/' => some (.char '/')
  | '\\' => some (.char '\\')
  | 'N' => some (.char '\x85')
  | '_' => some (.char '\xa0')
  | 'L' => some (.char '\u2028')
  | 'P' => some (.char '\u2029')
  | 'x' => some (.hex 2)
  | 'u' => some (.hex 4)
  | 'U' => some (.hex 8)
  | _ => none

/-- The character with a number, if there is one. -/
def charOf? (n : Nat) : Option Char := if n.isValidChar then some (Char.ofNat n) else none

/-- Reads on in a quoted scalar, inside a word if `started` holds.  While `left` is not zero, that
many hexadecimal digits of an escape are to come, behind those with the value `value`. -/
def quotedFrom (double : Bool) (back : List Char) (gap : Gap) (started : Bool) (left value : Nat) :
    List Char → Mark → Option (List Char × Cursor)
  | [], _ => none
  | c :: cs, m =>
    match left with
    | n + 1 => do
      let v := value * 16 + (← digit? 16 c)
      if n = 0 then quotedFrom double ((← charOf? v) :: back) .none true 0 0 cs (m.right 1)
      else quotedFrom double back .none true n v cs (m.right 1)
    | 0 =>
      if !inSight (if started then 2 else 1) (c :: cs) then none
      else if isBreak c then quotedFrom double back (gap.addBreak c) false 0 0 cs m.nextLine
      else if isBlank c then quotedFrom double back (gap.addBlank c) false 0 0 cs (m.right 1)
      else if !started && !inSight 4 (c :: cs) then none
      else if m.column = 0 && isMarker (c :: cs) then none
      else
        let back := gap.text ++ back
        if !double && c == '\'' then
          match cs with
          | '\'' :: ds => quotedFrom double ('\'' :: back) .none true 0 0 ds (m.right 2)
          | _ => some (back, ⟨cs, m.right 1⟩)
        else if double && c == '"' then some (back, ⟨cs, m.right 1⟩)
        else if double && c == '\\' then
          match cs with
          | [] => none
          | e :: ds =>
            if isBreak e then quotedFrom double back .escaped false 0 0 ds m.nextLine
            else match escapeCode? e with
              | none => none
              | some (.char d) => quotedFrom double (d :: back) .none true 0 0 ds (m.right 2)
              | some (.hex width) => quotedFrom double back .none true width 0 ds (m.right 2)
        else quotedFrom double (c :: back) .none true 0 0 cs (m.past c)

/-- Reads a quoted scalar, the cursor on its first quote. -/
def quotedScalar? (double : Bool) (c : Cursor) : Option (List Char × Cursor) :=
  let d := c.skip 1
  (quotedFrom double [] .none false 0 0 d.rest d.mark).map fun (back, e) => (back.reverse, e)

/-! ## 4. Blocks of lines -/

/-- How the line ends behind the last line of a block count. -/
inductive Chomp where
  | strip
  | clip
  | keep
  deriving DecidableEq, Repr

/-- The header of a block: how it ends, and the indentation if it is given. -/
structure BlockHeader where
  chomp : Chomp := .clip
  increment : Nat := 0
  deriving Repr

/-- Reads the sign of a header. -/
def chompSign? : Option Char → Option Chomp
  | some '+' => some .keep
  | some '-' => some .strip
  | _ => none

/-- Reads the digit of a header: the outer result is nothing if it is a zero. -/
def incrementDigit? : Option Char → Option (Option Nat)
  | some c =>
    if c = '0' then none
    else if c.isDigit then some (some (c.toNat - '0'.toNat))
    else some none
  | none => some none

/-- Reads the sign and the digit of a header, in either order. -/
def blockHeader? (c : Cursor) : Option (BlockHeader × Cursor) := do
  match chompSign? c.peek with
  | some chomp =>
    let d := c.skip 1
    match ← incrementDigit? d.peek with
    | some n => some (⟨chomp, n⟩, d.skip 1)
    | none => some (⟨chomp, 0⟩, d)
  | none =>
    match ← incrementDigit? c.peek with
    | some n =>
      let d := c.skip 1
      match chompSign? d.peek with
      | some chomp => some (⟨chomp, n⟩, d.skip 1)
      | none => some (⟨.clip, n⟩, d)
    | none => some ({}, c)

/-- What has been read of a block, texts backwards: the line end behind the last line, the empty
lines behind that one, whether the last line starts with a blank, the indentation (zero if it is not
known yet) and the widest indentation so far. -/
structure BlockState where
  back : List Char := []
  lead : List Char := []
  empty : List Char := []
  blankStart : Bool := false
  indent : Nat := 0
  widest : Nat := 0
  deriving Repr

namespace BlockState

/-- The state at the first character of a line that belongs to the block. -/
def startLine (folded : Bool) (s : BlockState) (c : Char) : BlockState :=
  let joins := folded && s.lead == ['\n'] && !s.blankStart && !isBlank c
  let lead := if joins then if s.empty.isEmpty then [' '] else [] else s.lead
  { s with back := s.empty ++ lead ++ s.back, lead := [], empty := [], blankStart := isBlank c }

/-- The text of a block that ends here. -/
def close (chomp : Chomp) (s : BlockState) : List Char :=
  let tail := match chomp with
    | .strip => []
    | .clip => s.lead
    | .keep => s.empty ++ s.lead
  (tail ++ s.back).reverse

end BlockState

/-- Reads on in a block, inside a line or before one.  The block ends before the first line that is
indented less. -/
def blockFrom (folded : Bool) (least : Nat) (inLine : Bool) (s : BlockState) :
    List Char → Mark → Option (BlockState × Cursor)
  | [], m => some (s, ⟨[], m⟩)
  | c :: cs, m =>
    if !inSight 1 (c :: cs) then none
    else if inLine then
      if isBreak c then blockFrom folded least false { s with lead := [lineFeed c] } cs m.nextLine
      else blockFrom folded least true { s with back := c :: s.back } cs (m.past c)
    else
      let s := { s with widest := max s.widest m.column }
      let before := s.indent == 0 || m.column < s.indent
      if before && c == ' ' then blockFrom folded least false s cs (m.right 1)
      else if before && c == '\t' then none
      else if isBreak c then
        blockFrom folded least false { s with empty := lineFeed c :: s.empty } cs m.nextLine
      else
        let s := if s.indent == 0 then { s with indent := max s.widest least } else s
        if m.column = s.indent then
          let t := s.startLine folded c
          blockFrom folded least true { t with back := c :: t.back } cs (m.past c)
        else some (s, ⟨c :: cs, m⟩)

/-- Reads a block of lines, the cursor on its indicator; `parent` is the indentation around it. -/
def blockScalar? (folded : Bool) (parent : Int) (c : Cursor) : Option (List Char × Cursor) := do
  let (header, d) ← blockHeader? (c.skip 1)
  let e := d.skipTrailer
  if !e.atLineEnd then none
  let e := e.skipBreak
  let indent := if header.increment = 0 then 0 else (max parent 0).toNat + header.increment
  let least := (max (parent + 1) 1).toNat
  let (s, rest) ← blockFrom folded least false { indent := indent } e.rest e.mark
  some (s.close header.chomp, rest)

end Ownership.Yaml
