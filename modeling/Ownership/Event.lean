/-
# Events

What an operation leaves behind besides its answer: facts, and lines for a human reader, in the
order they came about.

* `Traced` is an answer with the events before it;
* `Event.record` is an event as one line of a log;
* `Sink.keep` is what becomes of the events in the end.
-/
import Ownership.Fact

namespace Ownership

/-! ## 1. Types -/

/-- How loud a line for a human reader is. -/
inductive Loudness where
  | error
  | warn
  | info
  | debug
  deriving DecidableEq, Repr

/-- The word for a loudness. -/
def Loudness.name : Loudness → String
  | .error => "ERROR"
  | .warn => "WARN"
  | .info => "INFO"
  | .debug => "DEBUG"

/-- A fact, or a line for a human reader. -/
inductive Event where
  | fact (f : Fact)
  | line (loudness : Loudness) (text : String)
  deriving Repr

/-- The fact that an event is, if it is one. -/
def Event.fact? : Event → Option Fact
  | .fact f => some f
  | .line .. => none

/-- An answer, with the events that came about on the way to it. -/
structure Traced (α : Type) where
  value : α
  events : List Event := []

/-- The answer changed, after the same events. -/
def Traced.map {α β : Type} (f : α → β) (t : Traced α) : Traced β := ⟨f t.value, t.events⟩

/-- The facts among the events. -/
def Traced.facts {α : Type} (t : Traced α) : List Fact := t.events.filterMap Event.fact?

/-! ## 2. Log records -/

/-- A line of a log, with the target that it is logged under. -/
structure LogRecord where
  target : String
  loudness : Loudness
  text : String
  deriving DecidableEq, Repr

/-- The target of lines for a human reader. -/
def lineTarget : String := "ownerlint"

/-- The target of facts. -/
def factTarget : String := "ownerlint::facts"

/-- An event as a line of a log; a fact is logged with all its fields on the line. -/
def Event.record : Event → LogRecord
  | .fact f =>
    ⟨factTarget, .debug,
      s!"{f.subsystem} {f.stage.name} {f.decision.name} {(Json.object f.fields).compact}"⟩
  | .line loudness text => ⟨lineTarget, loudness, text⟩

/-! ## 3. Sinks -/

/-- Where events go: they are collected, logged, or dropped. -/
inductive Sink where
  | capture
  | log
  | discard
  deriving DecidableEq, Repr

/-- An event as a sink keeps it. -/
inductive Kept where
  | event (e : Event)
  | record (r : LogRecord)
  deriving Repr

/-- What a sink keeps of an event, if anything. -/
def Sink.keep? : Sink → Event → Option Kept
  | .capture, e => some (.event e)
  | .log, e => some (.record e.record)
  | .discard, _ => none

/-- What a sink keeps of some events. -/
def Sink.keep (s : Sink) (es : List Event) : List Kept := es.filterMap s.keep?

end Ownership
