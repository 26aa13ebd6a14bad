/-
# Documents

The events of the first document of a text, with each alias resolved to the node that it repeats.

A text may go wrong behind the point up to which a reader of the document needs it; so the events
before the fault are kept, and that there is a fault is noted.

* `Document.ofText` is the first document of a text;
* `Document.targetOf?` is what an alias repeats.
-/
import Ownership.Yaml.Event

namespace Ownership.Yaml

/-- A part of a document; an alias is known by the number of its anchor. -/
inductive Part where
  /-- There is no document at all. -/
  | void
  | alias (anchor : Nat)
  | scalar (s : Scalar)
  | sequenceStart (tag : Option (List UInt8))
  | sequenceEnd
  | mappingStart (tag : Option (List UInt8))
  | mappingEnd
  deriving DecidableEq, Repr

/-- A document: its parts with their places, the position of the part behind each anchor, whether
the text goes wrong behind the last part, and whether another document may follow. -/
structure Document where
  parts : List (Part × Mark)
  targets : List (Nat × Nat)
  broken : Bool
  followed : Bool
  deriving Repr

namespace Document

/-- What has been read of a document: its parts backwards, the number of each anchor's name, and the
position of the part behind each number. -/
structure State where
  parts : List (Part × Mark) := []
  names : List (List Char × Nat) := []
  targets : List (Nat × Nat) := []

/-- The state with a part behind the others, at an anchor or none.  A name that is used again gets
the number that the next new name would get. -/
def State.add (s : State) (p : Part) (m : Mark) (anchor : Option (List Char)) : State :=
  match anchor with
  | none => { s with parts := (p, m) :: s.parts }
  | some name =>
    let id := s.names.length
    { parts := (p, m) :: s.parts
      names := (name, id) :: s.names.filter fun n => n.1 != name
      targets := (id, s.parts.length) :: s.targets }

/-- The document with these parts. -/
def State.close (s : State) (broken followed : Bool) : Document :=
  ⟨s.parts.reverse, s.targets, broken, followed⟩

/-- Holds if only the end of the text follows. -/
def endsText : List Found → Bool
  | (.streamEnd, _) :: _ => true
  | _ => false

/-- Reads the events of a document. -/
def collect (s : State) : List Found → Document
  | [] => s.close true false
  | (.streamEnd, m) :: _ => ({ s with parts := (.void, m) :: s.parts }).close false false
  | (.documentEnd, _) :: rest => s.close false (!endsText rest)
  | (.documentStart, _) :: rest => collect s rest
  | (.alias name, m) :: rest =>
    match s.names.lookup name with
    | none => s.close true false
    | some id => collect (s.add (.alias id) m none) rest
  | (.scalar anchor x, m) :: rest => collect (s.add (.scalar x) m anchor) rest
  | (.sequenceStart anchor tag, m) :: rest => collect (s.add (.sequenceStart tag) m anchor) rest
  | (.sequenceEnd, m) :: rest => collect (s.add .sequenceEnd m none) rest
  | (.mappingStart anchor tag, m) :: rest => collect (s.add (.mappingStart tag) m anchor) rest
  | (.mappingEnd, m) :: rest => collect (s.add .mappingEnd m none) rest

/-- The first document of a text. -/
def ofText (text : List Char) : Document := collect {} (eventsOf text).1

/-- The parts from the one on that an anchor stands before. -/
def targetOf? (d : Document) (anchor : Nat) : Option (List (Part × Mark)) :=
  (d.targets.lookup anchor).map fun i => d.parts.drop i

end Document

end Ownership.Yaml
