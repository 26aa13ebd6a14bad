/-
# What redaction reaches

The rules on what facts may show, and the time at which facts are made, are read when a fact is made
and nowhere else.  Two auditors that differ in these alone therefore do the same, step by step: they
find the same, answer the same, say the same to a human reader and make the same facts in the same
order from the same values.  Only what a fact says of these values can differ, and only under the
keys of a time and of what may name an address (`Fact.agreeOff_make`).

An auditor that is asked for its policy answers with the rules in it; nothing else tells two such
auditors apart.

* `Auditor.showing`: an auditor with other rules on what facts may show, at another time;
* `Auditor.agreeOff_loadFile`, `Auditor.agreeOff_lint`, and so on: the operations of both;
* `Operation.run_showing`: any operation.
-/
import Ownership.Proofs.Event
import Ownership.Session

namespace Ownership

namespace Auditor

/-! ## 1. Auditors that show other things -/

/-- The auditor with these rules on what facts may show, at another time. -/
def showing (a : Auditor) (rules : FactRules) (now : String) : Auditor :=
  { a with policy := { a.policy with facts := rules }, now := now }

variable {a : Auditor} {rules : FactRules} {now : String} {d : Disk}

-- What finds, reads and counts takes neither the rules on facts nor the time, so that it is one
-- term for both auditors.

theorem excess?_showing (size : Nat) :
    (a.showing rules now).policy.excess? size = a.policy.excess? size := rfl

theorem report_showing (f : OwnersFile) : (a.showing rules now).report f = a.report f := rfl

theorem compile_showing (f : OwnersFile) : (a.showing rules now).compile f = a.compile f := rfl

theorem countedFiles_showing (d : Disk) :
    (a.showing rules now).countedFiles d = a.countedFiles d := rfl

/-- **A fact is made of the same values**, whatever it may show of them. -/
theorem agreeOff_fact {f : OwnersFile} {s : Stage} {decision : Decision} {values : Members} :
    Event.AgreeOff Fact.volatileKeys
      (.fact (Fact.make ((a.showing rules now).context f) s decision values))
      (.fact (Fact.make (a.context f) s decision values)) :=
  .fact (Fact.agreeOff_make rfl)

/-! ## 2. Loading -/

theorem agreeOff_events_read (f : OwnersFile) (path : Option String) :
    List.Forall₂ (Event.AgreeOff Fact.volatileKeys) ((a.showing rules now).readEvents f path)
      (a.readEvents f path) := by
  unfold readEvents
  rw [excess?_showing]
  refine List.rel_append ?_ (.cons (.line _ _) .nil)
  cases a.policy.excess? f.sourceBytes with
  | none => exact .cons agreeOff_fact .nil
  | some e => exact .cons (.line _ _) (.cons agreeOff_fact .nil)

theorem agreeOff_loadText (text : String) :
    ((a.showing rules now).loadText text).AgreeOff Fact.volatileKeys (a.loadText text) :=
  ⟨rfl, agreeOff_events_read _ _⟩

theorem agreeOff_readFile (path : String) :
    ((a.showing rules now).readFile d path).AgreeOff Fact.volatileKeys (a.readFile d path) := by
  unfold readFile
  split
  · exact .of_no_events
  · exact ⟨rfl, agreeOff_events_read _ _⟩

/-- A file is refused under both policies or under none. -/
theorem agreeOff_loadFile (path : String) :
    ((a.showing rules now).loadFile d path).AgreeOff Fact.volatileKeys (a.loadFile d path) := by
  unfold loadFile
  split
  · exact .of_no_events
  · rw [excess?_showing]
    split
    · exact ⟨rfl, .cons agreeOff_fact (.cons (.line _ _) .nil)⟩
    · exact agreeOff_readFile path

theorem agreeOff_load (root : String) :
    ((a.showing rules now).load d root).AgreeOff Fact.volatileKeys (a.load d root) := by
  unfold load
  split
  · exact ⟨rfl, .cons (.line _ _) .nil⟩
  · exact agreeOff_loadFile _

/-! ## 3. Working on a file -/

variable {f : OwnersFile}

theorem agreeOff_lint : ((a.showing rules now).lint f).AgreeOff Fact.volatileKeys (a.lint f) := by
  refine ⟨report_showing f, ?_⟩
  unfold lint summaryEvents
  rw [report_showing]
  refine List.rel_append ?rows ?summary
  case rows =>
    rw [List.forall₂_map_left_iff, List.forall₂_map_right_iff]
    exact List.forall₂_same.mpr fun row _ => agreeOff_fact
  case summary => split <;> exact .cons agreeOff_fact (.cons (.line _ _) .nil)

theorem agreeOff_resolve (path : String) :
    ((a.showing rules now).resolve f path).AgreeOff Fact.volatileKeys (a.resolve f path) := by
  unfold resolve
  split
  · exact .of_no_events
  · exact ⟨rfl, .cons agreeOff_fact .nil⟩

theorem agreeOff_events_review (r : Review) :
    List.Forall₂ (Event.AgreeOff Fact.volatileKeys)
      (reviewEvents ((a.showing rules now).context f) r) (reviewEvents (a.context f) r) := by
  unfold reviewEvents
  split
  · exact .cons agreeOff_fact .nil
  · exact .cons agreeOff_fact (.cons (.line _ _) .nil)

theorem agreeOff_review (paths : List String) :
    ((a.showing rules now).review f paths).AgreeOff Fact.volatileKeys (a.review f paths) := by
  unfold review
  rw [compile_showing]
  split
  · exact .of_no_events
  · exact ⟨rfl, agreeOff_events_review _⟩

theorem agreeOff_events_coverage (c : Coverage) :
    List.Forall₂ (Event.AgreeOff Fact.volatileKeys)
      (coverageEvents ((a.showing rules now).context f) c) (coverageEvents (a.context f) c) := by
  unfold coverageEvents
  split
  · exact .cons agreeOff_fact .nil
  · exact .cons agreeOff_fact (.cons (.line _ _) .nil)

theorem agreeOff_coverage :
    ((a.showing rules now).coverage d f).AgreeOff Fact.volatileKeys (a.coverage d f) := by
  unfold coverage
  rw [countedFiles_showing]
  split
  · exact .of_no_events
  · exact ⟨rfl, agreeOff_events_coverage _⟩

end Auditor

/-! ## 4. Any operation -/

namespace Operation

variable {a : Auditor} {rules : FactRules} {now : String} {d : Disk} {f : OwnersFile}

/-- Two auditors that show other things do the same, unless they are asked for their policy. -/
theorem agreeOff_run {o : Operation} (ho : o ≠ policy) :
    (o.run (a.showing rules now) d f).AgreeOff Fact.volatileKeys (o.run a d f) := by
  cases o with
  | loadText text => exact (Auditor.agreeOff_loadText text).map (Except.ok ∘ Answer.loaded)
  | load root => exact (Auditor.agreeOff_load root).map _
  | loadFile path => exact (Auditor.agreeOff_loadFile path).map _
  | reload => exact (Auditor.agreeOff_loadText f.render).map (Except.ok ∘ Answer.loaded)
  | lint => exact Auditor.agreeOff_lint.map (Except.ok ∘ Answer.linted)
  | resolve path => exact (Auditor.agreeOff_resolve path).map _
  | review paths => exact (Auditor.agreeOff_review paths).map _
  | coverage => exact Auditor.agreeOff_coverage.map _
  | policy => exact absurd rfl ho
  | compile => exact ⟨congrArg (Except.ok ∘ Answer.compiled) (Auditor.compile_showing f), .nil⟩
  | locate root | render => exact .of_no_events

/-- **Redaction reaches the volatile values alone.**  Under two policies that differ in what facts
may show, an operation comes to the same, says the same to a human reader, and makes as many facts
of the same stages and decisions in the same order, which say the same under every key that is not
volatile.  Asked for its policy, an auditor answers with the one it has, and makes no fact. -/
theorem run_showing (o : Operation) (a : Auditor) (rules : FactRules) (now : String) (d : Disk)
    (f : OwnersFile) :
    let t := o.run a d f
    let t' := o.run (a.showing rules now) d f
    (o ≠ policy → t'.value = t.value) ∧ t'.lines = t.lines ∧
      List.Forall₂ (Fact.AgreeOff ["ts", "duration_ms", "owner", "owners", "message"])
        t'.facts t.facts := by
  intro t t'
  by_cases ho : o = policy
  · subst ho
    exact ⟨fun h => absurd rfl h, rfl, .nil⟩
  · have h : t'.AgreeOff Fact.volatileKeys t := agreeOff_run ho
    exact ⟨fun _ => h.value_eq, h.lines_eq, h.facts⟩

/-- A path with an address for its owner has one resolution, whether the address is shown or
masked. -/
theorem resolve_showing_address :
    let a : Auditor := ⟨.standard, none, none, ""⟩
    let f := OwnersFile.ofText "docs a@b.example"
    let rules : FactRules := { redact := false, maskEmails := false }
    resolve "docs" ≠ policy ∧
      ((resolve "docs").run (a.showing rules "1970-01-01T00:00:01Z") .fresh f).value =
        ((resolve "docs").run a .fresh f).value := by
  intro a f rules
  have ho : resolve "docs" ≠ policy := Operation.noConfusion
  exact ⟨ho, (run_showing (resolve "docs") a rules "1970-01-01T00:00:01Z" .fresh f).1 ho⟩

end Operation

end Ownership
