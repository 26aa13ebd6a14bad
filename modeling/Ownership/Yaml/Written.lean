/-
# Writing a scalar

* `written` is a text as it stands behind a key, at a given indentation of its further lines.
-/
import Ownership.Yaml.Style

namespace Ownership.Yaml

/-! ## 1. Double quotes -/

/-- A hexadecimal digit, of the capital letters. -/
def hexDigit (n : Nat) : Char := (Nat.digitChar n).toUpper

/-- The `width` lowest hexadecimal digits of a number. -/
def hexDigits : Nat → Nat → List Char
  | 0, _ => []
  | width + 1, n => hexDigits width (n / 16) ++ [hexDigit (n % 16)]

/-- Holds of the characters that double quotes escape. -/
def needsEscape (c : Char) : Bool := !isPrintable c || isBreak c || c == '"' || c == '\\'

/-- What follows the backslash of an escaped character. -/
def escapeCode (c : Char) : List Char :=
  match c.toNat with
  | 0x00 => ['0']
  | 0x07 => ['a']
  | 0x08 => ['b']
  | 0x09 => ['t']
  | 0x0A => ['n']
  | 0x0B => ['v']
  | 0x0C => ['f']
  | 0x0D => ['r']
  | 0x1B => ['e']
  | 0x22 => ['"']
  | 0x5C => ['\\']
  | 0x85 => ['N']
  | 0xA0 => ['_']
  | 0x2028 => ['L']
  | 0x2029 => ['P']
  | n =>
    if n ≤ 0xFF then 'x' :: hexDigits 2 n
    else if n ≤ 0xFFFF then 'u' :: hexDigits 4 n
    else 'U' :: hexDigits 8 n

/-- A text in double quotes. -/
def doubleQuoted (cs : List Char) : List Char :=
  '"' :: cs.flatMap (fun c => if needsEscape c then '\\' :: escapeCode c else [c]) ++ ['"']

/-! ## 2. Single quotes -/

/-- The inside of single quotes behind a line end or not: quotes are doubled, and the text behind a
line end is indented. -/
def singleBody (indent : Nat) (afterBreak : Bool) : List Char → List Char
  | [] => if afterBreak then List.replicate indent ' ' else []
  | c :: cs =>
    if isBreak c then c :: singleBody indent true cs
    else (if afterBreak then List.replicate indent ' ' else []) ++
      (if c = '\'' then ['\'', '\''] else [c]) ++ singleBody indent false cs

/-- A text in single quotes. -/
def singleQuoted (indent : Nat) (cs : List Char) : List Char :=
  '\'' :: singleBody indent false cs ++ ['\'']

/-! ## 3. Blocks of lines -/

/-- The lines of a block: each that holds a character is indented. -/
def blockBody (indent : Nat) (afterBreak : Bool) : List Char → List Char
  | [] => []
  | c :: cs =>
    if isBreak c then c :: blockBody indent true cs
    else (if afterBreak then List.replicate indent ' ' else []) ++ c :: blockBody indent false cs

/-- The width by which blocks are indented, as the header of a block gives it. -/
def indentWidth : Nat := 2

/-- The digit in a block's header, needed if the first line does not show the indentation. -/
def indentHint (cs : List Char) : List Char :=
  if cs.head?.any (fun c => c == ' ' || isBreak c) then Nat.toDigits 10 indentWidth else []

/-- The sign in a block's header that says how many line ends close the text. -/
def chompHint (cs : List Char) : List Char :=
  match cs.reverse with
  | [] => ['-']
  | c :: rest =>
    if !isBreak c then ['-']
    else match rest with
      | [] => ['+']
      | d :: _ => if isBreak d then ['+'] else []

/-- A text as a block of lines. -/
def literal (indent : Nat) (cs : List Char) : List Char :=
  '|' :: indentHint cs ++ chompHint cs ++ '\n' :: blockBody indent true cs

/-! ## 4. Scalars -/

/-- A text as it stands behind a key; its further lines are indented by `indent`, and the last one
is closed. -/
def written (indent : Nat) (cs : List Char) : List Char :=
  match Style.ofText cs with
  | .plain => cs ++ ['\n']
  | .single => singleQuoted indent cs ++ ['\n']
  | .double => doubleQuoted cs ++ ['\n']
  | .literal =>
    let block := literal indent cs
    if block.getLast?.any isBreak then block else block ++ ['\n']

end Ownership.Yaml
