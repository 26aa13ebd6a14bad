/-
# How a text is written in YAML

A text is written without quotes if it then reads back as the same text, and otherwise in the
lightest style that keeps it: single quotes, a block of lines, or double quotes with escapes.

* `Traits.ofText` collects what a text holds that some style cannot;
* `Style.ofText` is the style of a text.
-/
import Ownership.Yaml.Plain

namespace Ownership.Yaml

/-! ## 1. Classes of characters -/

/-- The characters that end a line: LF, CR, NEL, LS and PS. -/
def isBreak (c : Char) : Bool :=
  c == '\n' || c == '\r' || c == '\x85' || c == '\u2028' || c == '\u2029'

/-- A space or a tab. -/
def isSpaceOrTab (c : Char) : Bool := c == ' ' || c == '\t'

/-- Blanks, line ends and the end of the text. -/
def endsWord : Option Char → Bool
  | none => true
  | some c => isSpaceOrTab c || isBreak c

/-- The characters that can be written as they are. -/
def isPrintable (c : Char) : Bool :=
  let n := c.toNat
  n == 0xA || (0x20 ≤ n && n ≤ 0x7E) || (0xA0 ≤ n && n ≤ 0xFFFD && n != 0xFEFF) || 0x10000 ≤ n

/-- The characters that mean something at the start of a scalar. -/
def isIndicator (c : Char) : Bool := "#,[]\x7b\x7d&*!|>'\"%@\x60".toList.contains c

/-! ## 2. Traits -/

/-- What a text holds that some style cannot. -/
structure Traits where
  /-- A part that would mean something else outside quotes. -/
  indicators : Bool
  /-- A character that must be escaped, or a space just before a line end. -/
  special : Bool
  /-- A line end. -/
  lineBreaks : Bool
  /-- A space just behind a line end. -/
  breakSpace : Bool
  /-- A space or a line end at either end. -/
  openEnds : Bool
  /-- A space at the end. -/
  trailingSpace : Bool
  deriving DecidableEq, Repr

/-- Holds of the texts that start like a document marker. -/
def opensMarker (cs : List Char) : Bool :=
  ['-', '-', '-'].isPrefixOf cs || ['.', '.', '.'].isPrefixOf cs

/-- Holds if the first character would mean something: an indicator, or a sign of a collection that
stands alone. -/
def firstIndicates : List Char → Bool
  | [] => false
  | c :: cs => isIndicator c || ((c == '?' || c == ':' || c == '-') && endsWord cs.head?)

/-- Holds if a character behind `before` would mean something: a colon that ends a word, or a
comment sign that starts one. -/
def laterIndicates (before : Char) : List Char → Bool
  | [] => false
  | c :: cs =>
    (c == ':' && endsWord cs.head?) || (c == '#' && endsWord (some before)) ||
      laterIndicates c cs

/-- Holds if two characters that stand side by side are in these classes. -/
def hasPair (p q : Char → Bool) : List Char → Bool
  | c :: d :: cs => (p c && q d) || hasPair p q (d :: cs)
  | _ => false

/-- The traits of a text. -/
def Traits.ofText (cs : List Char) : Traits :=
  let atEnd := fun c : Option Char => c.any fun d => d == ' ' || isBreak d
  { indicators := opensMarker cs || firstIndicates cs ||
      (match cs with
        | [] => false
        | c :: rest => laterIndicates c rest)
    special := cs.any (fun c => !isPrintable c) || hasPair (· == ' ') isBreak cs
    lineBreaks := cs.any isBreak
    breakSpace := hasPair isBreak (· == ' ') cs
    openEnds := atEnd cs.head? || atEnd cs.getLast?
    trailingSpace := cs.getLast? == some ' ' }

namespace Traits

/-- Holds if the text can stand without quotes. -/
def allowsPlain (t : Traits) : Bool :=
  !t.indicators && !t.special && !t.lineBreaks && !t.breakSpace && !t.openEnds

/-- Holds if the text can stand in single quotes. -/
def allowsSingle (t : Traits) : Bool := !t.special && !t.breakSpace

/-- Holds if the text can stand as a block of lines. -/
def allowsBlock (t : Traits) : Bool := !t.special && !t.trailingSpace

end Traits

/-! ## 3. Styles -/

/-- The styles of a scalar. -/
inductive Style where
  | plain
  | single
  | double
  | literal
  deriving DecidableEq, Repr

/-- Holds of the texts that would read back as something else without quotes, or look as if. -/
def readsAsOther (cs : List Char) : Bool := Plain.ofText cs != .text || looksNumeric cs

/-- The style that a text is written in. -/
def Style.ofText (cs : List Char) : Style :=
  let t := Traits.ofText cs
  if cs.contains '\n' then if t.allowsBlock then .literal else .double
  else if !readsAsOther cs && t.allowsPlain then .plain
  else if t.allowsSingle then .single
  else .double

end Ownership.Yaml
