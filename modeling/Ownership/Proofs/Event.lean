/-
# Events that agree

Two operations, or one operation under two policies, are compared by what they leave behind: the
same lines for a human reader, and facts that agree but for some keys, in the same order.

* `Traced.lines`: the lines among the events, beside `Traced.facts`;
* `Event.AgreeOff`: events that agree, one by one;
* `Event.lines_eq_of_agreeOff`, `Event.facts_agreeOff`: then so do the lines and the facts;
* `Traced.AgreeOff`: equal answers after events that agree.
-/
import Mathlib.Data.List.Forall2
import Ownership.Event
import Ownership.Proofs.Fact

namespace Ownership

/-- The line for a human reader that an event is, if it is one. -/
def Event.line? : Event → Option (Loudness × String)
  | .fact _ => none
  | .line loudness text => some (loudness, text)

/-- The lines for a human reader among the events. -/
def Traced.lines {α : Type} (t : Traced α) : List (Loudness × String) :=
  t.events.filterMap Event.line?

namespace Event

/-- Two events that are the same line, or two facts that agree but for some keys. -/
inductive AgreeOff (keys : List String) : Event → Event → Prop where
  | fact {x y : Fact} (h : x.AgreeOff keys y) : AgreeOff keys (.fact x) (.fact y)
  | line (loudness : Loudness) (text : String) :
    AgreeOff keys (.line loudness text) (.line loudness text)

variable {keys : List String} {es es' : List Event}

theorem lines_eq_of_agreeOff (h : List.Forall₂ (AgreeOff keys) es es') :
    es.filterMap line? = es'.filterMap line? := by
  rw [← List.forall₂_eq_eq_eq]
  refine List.rel_filterMap (fun e e' he => ?_) h
  cases he with
  | fact _ => exact .none
  | line _ _ => exact .some rfl

theorem facts_agreeOff (h : List.Forall₂ (AgreeOff keys) es es') :
    List.Forall₂ (Fact.AgreeOff keys) (es.filterMap fact?) (es'.filterMap fact?) := by
  refine List.rel_filterMap (fun e e' he => ?_) h
  cases he with
  | fact hfact => exact .some hfact
  | line _ _ => exact .none

end Event

namespace Traced

variable {α β : Type} {keys : List String} {t t' : Traced α}

/-- Two operations that come to the same, after events that agree but for some keys. -/
structure AgreeOff (keys : List String) (t t' : Traced α) : Prop where
  value_eq : t.value = t'.value
  events : List.Forall₂ (Event.AgreeOff keys) t.events t'.events

namespace AgreeOff

theorem map (h : AgreeOff keys t t') (f : α → β) : AgreeOff keys (t.map f) (t'.map f) :=
  ⟨congrArg f h.value_eq, h.events⟩

theorem of_no_events {value : α} : AgreeOff keys ⟨value, []⟩ ⟨value, []⟩ := ⟨rfl, .nil⟩

theorem lines_eq (h : AgreeOff keys t t') : t.lines = t'.lines :=
  Event.lines_eq_of_agreeOff h.events

theorem facts (h : AgreeOff keys t t') : List.Forall₂ (Fact.AgreeOff keys) t.facts t'.facts :=
  Event.facts_agreeOff h.events

end AgreeOff

end Traced

end Ownership
