/-
# Why a document does not fit

A document is read into values of given types.  What does not fit is reported with the route to it
and, unless it stands at the very start of the text, with its place.

* `Misfit` is one thing that does not fit, `Misfit.message` says it in words;
* `Problem` is a misfit, or a text that is no YAML.
-/
import Ownership.Decimal.Shortest
import Ownership.Text.Unseen
import Ownership.Yaml.Document

namespace Ownership.Yaml

/-! ## 1. Routes -/

/-- A step into a value. -/
inductive Step where
  | field (key : List Char)
  | item (index : Nat)
  /-- Into the value of a key that is no text of its own. -/
  | unnamed
  deriving DecidableEq, Repr

/-- The steps to a value, from the whole document on. -/
abbrev Route := List Step

/-- A route with a step at its end, in words. -/
def Step.extend (route : String) : Step → String
  | .field key => (if route.isEmpty then "" else route ++ ".") ++ String.ofList key
  | .item index => s!"{route}[{index}]"
  | .unnamed => (if route.isEmpty then "" else route ++ ".") ++ "?"

/-- A route in words. -/
def Route.text (r : Route) : String := r.foldl Step.extend ""

/-! ## 2. Causes -/

/-- What a value looks like to a reader that wanted something else. -/
inductive Shape where
  | unit
  | bool (b : Bool)
  | int (n : Int)
  | float (x : Floating)
  | text (s : List Char)
  | sequence
  | mapping
  deriving DecidableEq, Repr

/-- A floating-point number in words. -/
def Floating.text : Floating → String
  | .finite negative x => (if negative then "-" else "") ++ x.toText
  | .infinite negative => if negative then "-inf" else "inf"
  | .notANumber => "NaN"

/-- A text in grave accents. -/
def ticked (s : String) : String := "\x60" ++ s ++ "\x60"

/-- An integer in words; one of more than 64 bits is told as such. -/
def intText (n : Int) : String :=
  let base := "integer " ++ ticked (toString n)
  if n ≥ Nat.pow 2 64 then base ++ " as u128"
  else if n < -Nat.pow 2 63 then base ++ " as i128"
  else base

/-- A shape in words. -/
def Shape.phrase : Shape → String
  | .unit => "unit value"
  | .bool b => "boolean " ++ ticked (if b then "true" else "false")
  | .int n => intText n
  | .float x => "floating point " ++ ticked x.text
  | .text s => "string " ++ Text.quoteVisibly s
  | .sequence => "sequence"
  | .mapping => "map"

/-- What is wrong with a value. -/
inductive Cause where
  /-- It has another shape than expected. -/
  | wrongShape (found : Shape) (expected : String)
  /-- Its tag asks for another text. -/
  | wrongText (found : List Char) (expected : String)
  /-- It is none of the words that may stand there. -/
  | unknownWord (found : List Char) (options : List String)
  /-- A key stands there twice. -/
  | repeatedKey (key : List Char)
  deriving DecidableEq, Repr

/-- The words that may stand somewhere. -/
def optionsPhrase (options : List String) : String :=
  match options with
  | [a, b] => s!"expected {ticked a} or {ticked b}"
  | os => "expected one of " ++ ", ".intercalate (os.map ticked)

/-- A cause in words. -/
def Cause.message : Cause → String
  | .wrongShape found expected => s!"invalid type: {found.phrase}, expected {expected}"
  | .wrongText found expected =>
    s!"invalid value: string {Text.quoteVisibly found}, expected {expected}"
  | .unknownWord found options =>
    s!"unknown variant {ticked (String.ofList found)}, {optionsPhrase options}"
  | .repeatedKey key => "duplicate field " ++ ticked (String.ofList key)

/-! ## 3. Problems -/

/-- A thing that does not fit, and where it is if that is known. -/
structure Misfit where
  cause : Cause
  found : Option (Route × Mark)
  deriving DecidableEq, Repr

/-- A place in words, both counted from one; the start of the text goes without saying. -/
def Mark.phrase (m : Mark) : String :=
  if m.line = 0 ∧ m.column = 0 then "" else s!" at line {m.line + 1} column {m.column + 1}"

/-- A misfit in words. -/
def Misfit.message (x : Misfit) : String :=
  match x.found with
  | none => x.cause.message
  | some (route, mark) =>
    (if route.text.isEmpty then "" else route.text ++ ": ") ++ x.cause.message ++ mark.phrase

/-- Why a text is no document of the wanted type. -/
inductive Problem where
  /-- It is no YAML, or more than one document. -/
  | malformed
  | misfit (x : Misfit)
  deriving DecidableEq, Repr

/-- The problem in words. -/
def Problem.message : Problem → String
  | .malformed => "malformed document"
  | .misfit x => x.message

/-- The problem, placed unless it has a place already. -/
def Problem.locate (route : Route) (mark : Mark) : Problem → Problem
  | .misfit ⟨cause, none⟩ => .misfit ⟨cause, some (route, mark)⟩
  | p => p

end Ownership.Yaml
