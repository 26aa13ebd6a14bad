/-
# Tokens of a YAML text

The words of YAML: indicators, scalars, tags and anchors, and the starts and ends of blocks that
only the indentation shows.

Tags are strings of bytes, since their escapes can spell bytes that are no text.

* `Token` lists them;
* `Placed` is a token with the place where it starts.
-/
import Ownership.Yaml.Source

namespace Ownership.Yaml

/-- The ways in which a scalar can be written. -/
inductive Form where
  | plain
  | single
  | double
  | literal
  | folded
  deriving DecidableEq, Repr

/-- The bytes of some characters that take one byte each. -/
def asciiBytes (cs : List Char) : List UInt8 := cs.map fun c => c.toNat.toUInt8

/-- The tag that a lone exclamation mark is. -/
def loneTag : List UInt8 := asciiBytes ['!']

/-- A word of YAML. -/
inductive Token where
  | streamEnd
  | versionDirective (major minor : Nat)
  | tagDirective (handle : List Char) (expansion : List UInt8)
  | documentStart
  | documentEnd
  | blockSequenceStart
  | blockMappingStart
  | blockEnd
  | flowSequenceStart
  | flowSequenceEnd
  | flowMappingStart
  | flowMappingEnd
  | blockEntry
  | flowEntry
  | key
  | value
  | alias (name : List Char)
  | anchor (name : List Char)
  | tag (handle : List Char) (suffix : List UInt8)
  | scalar (text : List Char) (form : Form)
  deriving DecidableEq, Repr

/-- A token and where it starts. -/
structure Placed where
  token : Token
  mark : Mark
  deriving DecidableEq, Repr

/-- Where a token of one character ends. -/
def Placed.after (p : Placed) : Mark := p.mark.right 1

end Ownership.Yaml
