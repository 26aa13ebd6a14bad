/-
# Events of a YAML text

The structure that tokens spell is read off as a list of events: scalars, aliases, and the starts
and ends of sequences, mappings and documents.  What is left out in the text, such as the value of a
key that has none, is an empty scalar.

A text that is not well formed has the events before the fault.

* `Reader.next?` reads the next event;
* `eventsOf` are the events of a text, and whether they are all.
-/
import Ownership.Yaml.Token.Lexer

namespace Ownership.Yaml

/-! ## 1. Types -/

/-- A scalar: its text, how it is written, and its tag. -/
structure Scalar where
  text : List Char
  form : Form
  tag : Option (List UInt8)
  deriving DecidableEq, Repr

/-- An event; nodes carry the anchor they define. -/
inductive Event where
  | alias (name : List Char)
  | scalar (anchor : Option (List Char)) (s : Scalar)
  | sequenceStart (anchor : Option (List Char)) (tag : Option (List UInt8))
  | sequenceEnd
  | mappingStart (anchor : Option (List Char)) (tag : Option (List UInt8))
  | mappingEnd
  | documentStart
  | documentEnd
  | streamEnd
  deriving DecidableEq, Repr

/-- What is to be read next. -/
inductive Goal where
  | firstDocument
  | nextDocument
  | content
  | documentEnd
  | blockNode
  | blockItem (first : Bool)
  | indentlessItem
  | blockKey (first : Bool)
  | blockValue
  | flowItem (first : Bool)
  | pairKey
  | pairValue
  | pairEnd
  | flowKey (first : Bool)
  | flowValue
  | flowNoValue
  | done
  deriving DecidableEq, Repr

/-- What is left of the tokens, what is to be read now and after that, and what tag handles stand
for. -/
structure Reader where
  tokens : List Placed
  goal : Goal := .firstDocument
  after : List Goal := []
  handles : List (List Char × List UInt8) := []
  deriving Repr

/-- An event and the place it is found at. -/
abbrev Found := Event × Mark

namespace Reader

/-! ## 2. Moves -/

/-- The reader behind the next token. -/
def drop (r : Reader) : Reader := { r with tokens := r.tokens.tail }

/-- The reader with a goal. -/
def aim (r : Reader) (g : Goal) : Reader := { r with goal := g }

/-- The reader with a goal to come back to. -/
def keep (r : Reader) (g : Goal) : Reader := { r with after := g :: r.after }

/-- The reader at the goal it comes back to. -/
def back (r : Reader) : Reader := { r with goal := r.after.headD .done, after := r.after.tail }

/-- The scalar that stands for what is left out. -/
def emptyScalar : Event := .scalar none ⟨[], .plain, none⟩

/-- What is left out, found at a place. -/
def missing (r : Reader) (m : Mark) : Option (Found × Reader) := some ((emptyScalar, m), r)

/-! ## 3. Nodes -/

/-- What tag handles stand for if no directive says otherwise. -/
def defaultHandles : List (List Char × List UInt8) :=
  [(['!'], loneTag), (['!', '!'], asciiBytes "tag:yaml.org,2002:".toList)]

/-- The tag that a handle and a suffix spell. -/
def resolveTag? (r : Reader) (handle : List Char) (suffix : List UInt8) : Option (List UInt8) :=
  if handle.isEmpty then some suffix
  else (r.handles ++ defaultHandles).lookup handle |>.map fun expansion => expansion ++ suffix

/-- The anchor and the tag in front of a node: the reader behind them, and where the first of them
stands. -/
structure Properties where
  reader : Reader
  anchor : Option (List Char) := none
  tag : Option (List UInt8) := none
  mark : Option Mark := none

/-- Reads an anchor and a tag, in either order. -/
def properties? (r : Reader) : Option Properties :=
  match r.tokens with
  | ⟨.anchor a, m⟩ :: ⟨.tag h s, _⟩ :: ts => do
    some ⟨{ r with tokens := ts }, some a, some (← r.resolveTag? h s), some m⟩
  | ⟨.anchor a, m⟩ :: ts => some ⟨{ r with tokens := ts }, some a, none, some m⟩
  | ⟨.tag h s, m⟩ :: ⟨.anchor a, _⟩ :: ts => do
    some ⟨{ r with tokens := ts }, some a, some (← r.resolveTag? h s), some m⟩
  | ⟨.tag h s, m⟩ :: ts => do
    some ⟨{ r with tokens := ts }, none, some (← r.resolveTag? h s), some m⟩
  | _ => some { reader := r }

/-- Reads the start of a node.  Only a node of a block can be a block, and only where `indentless`
holds can it be items that are not indented. -/
def node? (block indentless : Bool) (r : Reader) : Option (Found × Reader) :=
  match r.tokens with
  | ⟨.alias a, m⟩ :: _ => some ((.alias a, m), r.drop.back)
  | _ => do
    let p ← r.properties?
    let s := p.reader
    let t ← s.tokens.head?
    let m := p.mark.getD t.mark
    match t.token with
    | .scalar text form =>
      some ((.scalar p.anchor ⟨text, form, p.tag⟩, m), s.drop.back)
    | .flowSequenceStart => some ((.sequenceStart p.anchor p.tag, m), s.aim (.flowItem true))
    | .flowMappingStart => some ((.mappingStart p.anchor p.tag, m), s.aim (.flowKey true))
    | token =>
      if indentless && token == .blockEntry then
        some ((.sequenceStart p.anchor p.tag, m), s.aim .indentlessItem)
      else if block && token == .blockSequenceStart then
        some ((.sequenceStart p.anchor p.tag, m), s.aim (.blockItem true))
      else if block && token == .blockMappingStart then
        some ((.mappingStart p.anchor p.tag, m), s.aim (.blockKey true))
      else if p.mark.isSome then
        some ((.scalar p.anchor ⟨[], .plain, p.tag⟩, m), s.back)
      else none

/-! ## 4. Documents -/

/-- Reads the directives in front of a document: at most one version, which must be known, and no
handle twice. -/
def directives? (version : Bool) (handles : List (List Char × List UInt8)) :
    List Placed → Option (List (List Char × List UInt8) × List Placed)
  | ⟨.versionDirective major minor, _⟩ :: ts =>
    if version || major != 1 || (minor != 1 && minor != 2) then none
    else directives? true handles ts
  | ⟨.tagDirective handle expansion, _⟩ :: ts =>
    if (handles.lookup handle).isSome then none
    else directives? version ((handle, expansion) :: handles) ts
  | ts => some (handles, ts)

/-- Holds of the tokens that cannot start the content of a document. -/
def isDocumentToken : Token → Bool
  | .versionDirective .. | .tagDirective .. | .documentStart | .documentEnd | .streamEnd => true
  | _ => false

/-- Reads the start of a document; only the first needs no marker. -/
def document? (first : Bool) (r : Reader) : Option (Found × Reader) := do
  let r := if first then r
    else { r with tokens := r.tokens.dropWhile fun t => t.token == .documentEnd }
  let t ← r.tokens.head?
  if first && !(isDocumentToken t.token && t.token != .documentEnd) then
    some ((.documentStart, t.mark),
      { (r.keep .documentEnd).aim .blockNode with handles := [] })
  else if t.token == .streamEnd then some ((.streamEnd, t.mark), r.drop.aim .done)
  else
    let (handles, ts) ← directives? false [] r.tokens
    let u ← ts.head?
    if u.token != .documentStart then none
    some ((.documentStart, t.mark),
      { (r.keep .documentEnd).aim .content with handles := handles, tokens := ts.tail })

/-- Reads the content of a document behind its marker. -/
def content? (r : Reader) : Option (Found × Reader) := do
  let t ← r.tokens.head?
  if isDocumentToken t.token then r.back.missing t.mark else r.node? true false

/-- Reads the end of a document. -/
def documentEnd? (r : Reader) : Option (Found × Reader) := do
  let t ← r.tokens.head?
  let r := if t.token == .documentEnd then r.drop else r
  some ((.documentEnd, t.mark), { r with goal := .nextDocument, handles := [] })

/-! ## 5. Blocks -/

/-- Reads a node of a block, or nothing if one of `stops` comes instead. -/
def blockNodeOr? (stops : List Token) (indentless : Bool) (g : Goal) (m : Mark) (r : Reader) :
    Option (Found × Reader) := do
  let t ← r.tokens.head?
  if stops.contains t.token then (r.aim g).missing m else (r.keep g).node? true indentless

/-- Reads an item of a block sequence. -/
def blockItem? (r : Reader) : Option (Found × Reader) := do
  let t ← r.tokens.head?
  match t.token with
  | .blockEntry => r.drop.blockNodeOr? [.blockEntry, .blockEnd] false (.blockItem false) t.after
  | .blockEnd => some ((.sequenceEnd, t.mark), r.drop.back)
  | _ => none

/-- Reads an item of a sequence that is not indented. -/
def indentlessItem? (r : Reader) : Option (Found × Reader) := do
  let t ← r.tokens.head?
  match t.token with
  | .blockEntry =>
    r.drop.blockNodeOr? [.blockEntry, .key, .value, .blockEnd] false .indentlessItem t.after
  | _ => some ((.sequenceEnd, t.mark), r.back)

/-- Reads a key of a block mapping. -/
def blockKey? (r : Reader) : Option (Found × Reader) := do
  let t ← r.tokens.head?
  match t.token with
  | .key => r.drop.blockNodeOr? [.key, .value, .blockEnd] true .blockValue t.after
  | .blockEnd => some ((.mappingEnd, t.mark), r.drop.back)
  | _ => none

/-- Reads the value of a key in a block mapping. -/
def blockValue? (r : Reader) : Option (Found × Reader) := do
  let t ← r.tokens.head?
  match t.token with
  | .value => r.drop.blockNodeOr? [.key, .value, .blockEnd] true (.blockKey false) t.after
  | _ => (r.aim (.blockKey false)).missing t.mark

/-! ## 6. Brackets -/

/-- Reads a node between brackets, or nothing if one of `stops` comes instead. -/
def flowNodeOr? (stops : List Token) (g : Goal) (r : Reader) : Option (Found × Reader) := do
  let t ← r.tokens.head?
  if stops.contains t.token then (r.aim g).missing t.mark else (r.keep g).node? false false

/-- The reader behind the comma that must stand before all but the first item. -/
def comma? (first : Bool) (close : Token) (r : Reader) : Option Reader := do
  let t ← r.tokens.head?
  if first || t.token == close then some r
  else if t.token == .flowEntry then some r.drop
  else none

/-- Reads an item of a sequence between brackets; one with a key is a mapping of its own. -/
def flowItem? (first : Bool) (r : Reader) : Option (Found × Reader) := do
  let r ← r.comma? first .flowSequenceEnd
  let t ← r.tokens.head?
  match t.token with
  | .flowSequenceEnd => some ((.sequenceEnd, t.mark), r.drop.back)
  | .key => some ((.mappingStart none none, t.mark), r.drop.aim .pairKey)
  | _ => (r.keep (.flowItem false)).node? false false

/-- Reads the key of an item that is a mapping of its own. -/
def pairKey? (r : Reader) : Option (Found × Reader) := do
  let t ← r.tokens.head?
  if [.value, .flowEntry, .flowSequenceEnd].contains t.token then
    (r.drop.aim .pairValue).missing t.after
  else (r.keep .pairValue).node? false false

/-- Reads the value of an item that is a mapping of its own. -/
def pairValue? (r : Reader) : Option (Found × Reader) := do
  let t ← r.tokens.head?
  match t.token with
  | .value => r.drop.flowNodeOr? [.flowEntry, .flowSequenceEnd] .pairEnd
  | _ => (r.aim .pairEnd).missing t.mark

/-- Reads a key of a mapping between brackets. -/
def flowKey? (first : Bool) (r : Reader) : Option (Found × Reader) := do
  let r ← r.comma? first .flowMappingEnd
  let t ← r.tokens.head?
  match t.token with
  | .flowMappingEnd => some ((.mappingEnd, t.mark), r.drop.back)
  | .key => r.drop.flowNodeOr? [.value, .flowEntry, .flowMappingEnd] .flowValue
  | _ => (r.keep .flowNoValue).node? false false

/-- Reads the value of a key between brackets. -/
def flowValue? (r : Reader) : Option (Found × Reader) := do
  let t ← r.tokens.head?
  match t.token with
  | .value => r.drop.flowNodeOr? [.flowEntry, .flowMappingEnd] (.flowKey false)
  | _ => (r.aim (.flowKey false)).missing t.mark

/-! ## 7. All events -/

/-- Reads the next event. -/
def next? (r : Reader) : Option (Found × Reader) :=
  match r.goal with
  | .firstDocument => r.document? true
  | .nextDocument => r.document? false
  | .content => r.content?
  | .documentEnd => r.documentEnd?
  | .blockNode => r.node? true false
  | .blockItem true => r.drop.blockItem?
  | .blockItem false => r.blockItem?
  | .indentlessItem => r.indentlessItem?
  | .blockKey true => r.drop.blockKey?
  | .blockKey false => r.blockKey?
  | .blockValue => r.blockValue?
  | .flowItem true => r.drop.flowItem? true
  | .flowItem false => r.flowItem? false
  | .pairKey => r.pairKey?
  | .pairValue => r.pairValue?
  | .pairEnd => do
    let t ← r.tokens.head?
    some ((.mappingEnd, t.mark), r.aim (.flowItem false))
  | .flowKey true => r.drop.flowKey? true
  | .flowKey false => r.flowKey? false
  | .flowValue => r.flowValue?
  | .flowNoValue => do
    let t ← r.tokens.head?
    (r.aim (.flowKey false)).missing t.mark
  | .done => none

/-- Reads up to `fuel` events, those read before backwards in `found`. -/
def run (found : List Found) (r : Reader) : Nat → List Found × Bool
  | 0 => (found.reverse, false)
  | fuel + 1 =>
    match r.next? with
    | none => (found.reverse, false)
    | some ((.streamEnd, m), _) => (((.streamEnd, m) :: found).reverse, true)
    | some (e, s) => run (e :: found) s fuel

end Reader

/-- The events of a text, and whether they are all.  At most three events in a row take no token. -/
def eventsOf (text : List Char) : List Found × Bool :=
  let (tokens, _) := tokensOf text
  Reader.run [] { tokens := tokens } (4 * tokens.length + 4)

end Ownership.Yaml
