/-
# Reading values from a document

A decoder takes the parts of one value from the front of a list of parts.  A decoder that runs out
of parts has come to the point where the text stops being YAML.

* `Decoder` is the type of decoders;
* `boolean`, `number`, `text`, `word`, `sequence` and `record` are the decoders there are.
-/
import Ownership.Yaml.Problem

namespace Ownership.Yaml

/-! ## 1. Decoders -/

/-- The parts of a document that are left, with their places. -/
abbrev Parts := List (Part × Mark)

/-- Takes a value from a document's parts, at the end of a route. -/
abbrev Decoder (α : Type) := Document → Route → Parts → Except Problem (α × Parts)

/-- A misfit whose place the caller knows. -/
def misfit {α : Type} (c : Cause) : Except Problem α := .error (.misfit ⟨c, none⟩)

/-- The result, its problem placed unless it has a place already. -/
def located {α : Type} (route : Route) (mark : Mark) (r : Except Problem α) : Except Problem α :=
  r.mapError (Problem.locate route mark)

/-- Reads the first part and those behind it by `body`, in place of an alias the part it repeats.
Problems are placed at the part that was read. -/
def atPart {α : Type} (body : Part → Parts → Except Problem (α × Parts)) : Decoder α :=
  fun d route parts =>
  match parts with
  | [] => .error .malformed
  | (.alias a, _) :: rest =>
    match d.targetOf? a with
    | some ((p, m) :: behind) => located route m ((body p behind).map fun (x, _) => (x, rest))
    | _ => .error .malformed
  | (p, m) :: rest => located route m (body p rest)

/-! ## 2. Shapes -/

/-- The tags of the core types. -/
def coreTag (name : String) : List UInt8 := asciiBytes ("tag:yaml.org,2002:" ++ name).toList

/-- The shape of a plain scalar. -/
def plainShape (cs : List Char) : Shape :=
  match Plain.ofText cs with
  | .null => .unit
  | .bool b => .bool b
  | .int n => .int n
  | .float x => .float x
  | .text => .text cs

/-- The shape that a tag gives a text, or the complaint that it cannot. -/
def taggedShape {α : Type} (cs : List Char) (f : α → Shape) (x : Option α) (wanted : String) :
    Except Cause Shape :=
  match x with
  | some a => .ok (f a)
  | none => .error (.wrongText cs wanted)

/-- The shape of a scalar. -/
def scalarShape (s : Scalar) : Except Cause Shape :=
  match s.tag with
  | none => .ok (if s.form = .plain then plainShape s.text else .text s.text)
  | some tag =>
    if tag = coreTag "bool" then taggedShape s.text .bool (bool? s.text) "a boolean"
    else if tag = coreTag "int" then taggedShape s.text .int (int? s.text) "an integer"
    else if tag = coreTag "float" then taggedShape s.text .float (float? s.text) "a float"
    else if tag = coreTag "null" then
      taggedShape s.text (fun _ => .unit) (if isNullWord s.text then some () else none) "null"
    else if loneTag.isPrefixOf tag ∧ s.form = .plain then .ok (plainShape s.text)
    else .ok (.text s.text)

/-- The complaint that a part is not what was expected. -/
def unexpected {α : Type} (p : Part) (expected : String) : Except Problem α :=
  match p with
  | .scalar s =>
    match scalarShape s with
    | .ok shape => misfit (.wrongShape shape expected)
    | .error c => misfit c
  | .sequenceStart _ => misfit (.wrongShape .sequence expected)
  | .mappingStart _ => misfit (.wrongShape .mapping expected)
  | _ => .error .malformed

/-- Holds of scalars that may stand for a value of a core type: plain ones, and blocks with its
tag. -/
def mayStandFor (name : String) (s : Scalar) : Bool :=
  s.form == .plain || (s.form == .literal && s.tag == some (coreTag name))

/-- Holds of the parts that stand for a value that was left out. -/
def isOmitted : Part → Bool
  | .void => true
  | .scalar s => s.text.isEmpty && s.form == .plain
  | _ => false

/-! ## 3. Scalars -/

/-- Reads a scalar of a core type. -/
def scalarOfType {α : Type} (name expected : String) (read : List Char → Option α) : Decoder α :=
  atPart fun p rest =>
    match p with
    | .scalar s =>
      match if mayStandFor name s then read s.text else none with
      | some a => .ok (a, rest)
      | none => unexpected p expected
    | _ => unexpected p expected

/-- Reads a boolean. -/
def boolean : Decoder Bool := scalarOfType "bool" "a boolean" bool?

/-- Reads a number of 64 bits. -/
def number : Decoder Nat := scalarOfType "int" "u64" (unsigned? (Nat.pow 2 64 - 1))

/-- Reads any scalar as its text. -/
def text : Decoder String :=
  atPart fun p rest =>
    match p with
    | .scalar s => .ok (String.ofList s.text, rest)
    | _ => unexpected p "a string"

/-! ## 4. Words -/

/-- The value of a word, if it is one of the options. -/
def option {α : Type} (options : List (String × α)) (cs : List Char) : Except Problem α :=
  match options.find? fun o => o.1.toList == cs with
  | some (_, a) => .ok a
  | none => misfit (.unknownWord cs (options.map Prod.fst))

/-- The word that a tag spells, if it is a tag of the document's own and a text: what stands behind
its exclamation mark, or the mark itself if nothing does. -/
def tagWord? (tag : Option (List UInt8)) : Option (List Char) := do
  let bytes ← tag
  if !loneTag.isPrefixOf bytes then none
  let word := if bytes = loneTag then bytes else bytes.drop loneTag.length
  (String.fromUTF8? ⟨word.toArray⟩).map String.toList

/-- Reads nothing, as it stands behind a tag that is a word. -/
def nothing : Decoder Unit :=
  atPart fun p rest =>
    match p with
    | .void => .ok ((), rest)
    | .scalar s =>
      if s.form == .plain && (s.text.isEmpty || isNullWord s.text) then .ok ((), rest)
      else misfit (.wrongText s.text "null")
    | _ => unexpected p "unit"

/-- Reads a word whose part is not an alias: as the text of a scalar, or as a tag with nothing
behind it.  A tag that is none of the options is not placed here. -/
def ownWord {α : Type} (options : List (String × α)) : Decoder α := fun d route parts =>
  match parts with
  | [] => .error .malformed
  | (p, m) :: rest =>
    let tagged := fun (w : List Char) => show Except Problem (α × Parts) from do
      let a ← option options w
      let (_, rest) ← nothing d route parts
      .ok (a, rest)
    let wanted := "a YAML tag starting with '!'"
    match p with
    | .scalar s =>
      match tagWord? s.tag with
      | some w => tagged w
      | none => located route m ((option options s.text).map fun a => (a, rest))
    | .mappingStart tag =>
      match tagWord? tag with
      | some w => tagged w
      | none => located route m (misfit (.wrongShape .mapping wanted))
    | .sequenceStart tag =>
      match tagWord? tag with
      | some w => tagged w
      | none => located route m (misfit (.wrongShape .sequence wanted))
    | _ => .error .malformed

/-- Reads one of some words. -/
def word {α : Type} (options : List (String × α)) : Decoder α := fun d route parts =>
  match parts with
  | (.alias a, m) :: rest =>
    match d.targetOf? a with
    | some behind =>
      located route m ((ownWord options d route behind).map fun (x, _) => (x, rest))
    | none => .error .malformed
  | _ => ownWord options d route parts

/-! ## 5. Sequences -/

/-- Reads the items of a sequence from number `index` on, those before backwards in `out`. -/
def items {α : Type} (item : Decoder α) (d : Document) (route : Route) (out : List α)
    (index : Nat) : Nat → Parts → Except Problem (List α × Parts)
  | _, [] => .error .malformed
  | _, (.sequenceEnd, _) :: rest => .ok (out.reverse, rest)
  | 0, _ => .error .malformed
  | fuel + 1, parts => do
    let (a, rest) ← item d (route ++ [.item index]) parts
    items item d route (a :: out) (index + 1) fuel rest

/-- Reads a sequence; one that is left out is empty. -/
def sequence {α : Type} (item : Decoder α) : Decoder (List α) := fun d route =>
  atPart
    (fun p rest =>
      match p with
      | .sequenceStart _ => items item d route [] 0 rest.length rest
      | _ => if isOmitted p then .ok ([], rest) else unexpected p "a sequence")
    d route

/-! ## 6. Records -/

/-- Leaves out one value, inside `depth` collections that were opened in it. -/
def skipValue (depth : Nat) : Parts → Except Problem Parts
  | [] => .error .malformed
  | (.sequenceStart _, _) :: rest | (.mappingStart _, _) :: rest => skipValue (depth + 1) rest
  | (.sequenceEnd, _) :: rest | (.mappingEnd, _) :: rest =>
    if depth ≤ 1 then .ok rest else skipValue (depth - 1) rest
  | _ :: rest => if depth = 0 then .ok rest else skipValue depth rest

/-- A record under construction: which fields there are, and how each is read into the record. -/
abbrev Fields (σ : Type) := String → Option (σ → Decoder σ)

/-- Reads a key: its text, and the step into its value. -/
def key (d : Document) (route : Route) (parts : Parts) :
    Except Problem (List Char × Step × Parts) := do
  let step := match parts with
    | (.scalar s, _) :: _ => Step.field s.text
    | _ => .unnamed
  let (cs, rest) ← atPart
    (fun p rest =>
      match p with
      | .scalar s => .ok (s.text, rest)
      | _ => unexpected p "field identifier")
    d route parts
  .ok (cs, step, rest)

/-- Reads the fields of a record; `seen` are the keys of those that have been read. -/
def entries {σ : Type} (fields : Fields σ) (d : Document) (route : Route) (seen : List (List Char))
    (record : σ) : Nat → Parts → Except Problem (σ × Parts)
  | _, [] => .error .malformed
  | _, (.mappingEnd, _) :: rest => .ok (record, rest)
  | 0, _ => .error .malformed
  | fuel + 1, parts => do
    let (cs, step, rest) ← key d route parts
    match fields (String.ofList cs) with
    | none =>
      let rest ← skipValue 0 rest
      entries fields d route seen record fuel rest
    | some read =>
      if seen.contains cs then misfit (.repeatedKey cs)
      else do
        let (record, rest) ← read record d (route ++ [step]) rest
        entries fields d route (cs :: seen) record fuel rest

/-- Reads a record: the fields that are there, in any order, over those of `start`.  Keys of no
field are left out. -/
def record {σ : Type} (name : String) (fields : Fields σ) (start : σ) : Decoder σ := fun d route =>
  atPart
    (fun p rest =>
      match p with
      | .mappingStart _ => entries fields d route [] start rest.length rest
      | _ => if isOmitted p then .ok (start, rest) else unexpected p ("struct " ++ name))
    d route

/-- Reads a field by a decoder of its own. -/
def field {σ α : Type} (read : Decoder α) (set : σ → α → σ) : σ → Decoder σ :=
  fun s d route parts => (read d route parts).map fun (a, rest) => (set s a, rest)

/-- Reads a whole text that is one document. -/
def Decoder.ofText {α : Type} (read : Decoder α) (text : List Char) : Except Problem α := do
  let d := Document.ofText text
  let (a, _) ← read d [] d.parts
  if d.broken || d.followed then .error .malformed else .ok a

end Ownership.Yaml
