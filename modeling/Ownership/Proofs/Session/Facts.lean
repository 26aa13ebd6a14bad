/-
# The facts of a session

Whoever reads the facts of a session counts on them.  An operation leaves its facts behind only when
it has succeeded: it fails before the first of them, wherever in a list of paths or among some globs
the fault lies.  There is one exception.  A file that is refused unread because it is too large is
told of in a fact, as a failure, and only loading from the disk refuses one.

One operation neither takes away nor changes what another has left behind, so that the facts of some
calls are those of each by itself, one after another, and a session keeps those of the calls that it
makes.

* `Operation.Leaves`: the facts that an operation leaves behind, by what it comes to;
* `Operation.leaves_run`: one operation;
* `Call`, `Call.runAll`: calls, each on a disk and a file of its own;
* `Session.calls`, `Session.kept_run`: the calls that a session makes;
* `Call.facts_of_calls`: all of them together.
-/
import Ownership.Proofs.Auditor.Coverage
import Ownership.Proofs.Auditor.Load
import Ownership.Proofs.Auditor.Masking
import Ownership.Session

namespace Ownership

/-! ## 1. What is left behind -/

namespace Operation

/-- The stage of the one fact on an operation that succeeds.  Linting leaves more than one, and the
others leave none. -/
def stage? : Operation → Option Stage
  | loadText _ | load _ | loadFile _ | reload => some .parse
  | resolve _ => some .resolve
  | review _ => some .review
  | coverage => some .coverage
  | lint | compile | locate _ | render | policy => none

/-- Holds of the operations that load a file from the disk. -/
def readsDisk : Operation → Bool
  | load _ | loadFile _ => true
  | _ => false

/-- **The facts that an operation leaves behind**, by what it comes to. -/
inductive Leaves : Operation → Except Failure Answer → List Fact → Prop
  /-- An operation with a stage of its own succeeds, with one fact. -/
  | one {o : Operation} {answer : Answer} {fact : Fact} (h : o.stage? = some fact.stage) :
    Leaves o (.ok answer) [fact]
  /-- A file is linted: there is a fact for each row, and one for the whole report. -/
  | linted {report : Report} {facts : List Fact} {summary : Fact}
    (length_eq : facts.length = report.rows.length) (stage_eq : ∀ x ∈ facts, x.stage = .lint)
    (summary_eq : summary.stage = .lintSummary) :
    Leaves lint (.ok (.linted report)) (facts ++ [summary])
  /-- Any other operation succeeds, with none. -/
  | silent {o : Operation} {answer : Answer} (h : o.stage? = none) (hlint : o ≠ lint) :
    Leaves o (.ok answer) []
  /-- A file on the disk is too large, and is refused with one fact. -/
  | refused {o : Operation} {size limit : Nat} {fact : Fact} (h : o.readsDisk = true)
    (stage_eq : fact.stage = .parse) (decision_eq : fact.decision = .failure) :
    Leaves o (.error (.tooLarge size limit)) [fact]
  /-- Any other failure comes without a fact. -/
  | failed {o : Operation} {e : Failure} (h : e.code ≠ .tooLarge) : Leaves o (.error e) []

/-! ## 2. One operation -/

variable {a : Auditor} {d : Disk} {f : OwnersFile}

/-- **Loading a text** leaves one fact behind. -/
theorem leaves_loadText {o : Operation} (hstage : o.stage? = some .parse) (text : String) :
    o.Leaves (.ok (.loaded (a.loadText text).value)) (a.loadText text).facts := by
  rw [Traced.facts, Auditor.loadText, Auditor.facts_readEvents]
  exact .one hstage

/-- **Loading a file** leaves one fact behind if it is read or refused. -/
theorem leaves_loadFile {o : Operation} (hstage : o.stage? = some .parse)
    (hdisk : o.readsDisk = true) (path : String) :
    o.Leaves ((a.loadFile d path).value.map .loaded) (a.loadFile d path).facts := by
  rcases a.loadFile_cases d path with ⟨e, h⟩ | ⟨size, finding, h⟩ | ⟨text, h⟩
  · rw [h]
    exact .failed Code.noConfusion
  · rw [h]
    exact .refused hdisk rfl rfl
  · rw [h, Traced.facts, Auditor.facts_readEvents]
    exact .one hstage

/-- An operation that leaves one fact behind if it succeeds and none if it fails. -/
theorem leaves_map {α : Type} {o : Operation} {t : Traced (Except Failure α)} {stage : Stage}
    {answer : α → Answer} (hstage : o.stage? = some stage)
    (hok : ∀ x, t.value = .ok x → ∃ fact, t.facts = [fact] ∧ fact.stage = stage)
    (herror : ∀ e, t.value = .error e → t.facts = [] ∧ e.code ≠ .tooLarge) :
    o.Leaves (t.value.map answer) t.facts := by
  cases hvalue : t.value with
  | error e =>
    obtain ⟨hfacts, hcode⟩ := herror e hvalue
    rw [hfacts]
    exact .failed hcode
  | ok x =>
    obtain ⟨fact, hfacts, rfl⟩ := hok x hvalue
    rw [hfacts]
    exact .one hstage

/-- **What an operation leaves behind.** -/
theorem leaves_run (o : Operation) (a : Auditor) (d : Disk) (f : OwnersFile) :
    o.Leaves (o.run a d f).value (o.run a d f).facts := by
  -- A path that cannot be read is no file that is too large, so that nothing is refused.
  have hpath : ∀ e : Failure, (∃ detail, e = .invalidPath detail) → e.code ≠ .tooLarge := by
    rintro _ ⟨detail, rfl⟩
    exact Code.noConfusion
  cases o with
  | loadText text => exact leaves_loadText rfl text
  | reload => exact leaves_loadText rfl f.render
  | load root =>
    have hrun : (load root).run a d f = (a.load d root).map fun r => r.map .loaded := rfl
    rcases a.load_cases d root with h | ⟨path, h⟩
    · rw [hrun, h]
      exact .failed Code.noConfusion
    · rw [hrun, h]
      exact leaves_loadFile rfl rfl path
  | loadFile path => exact leaves_loadFile rfl rfl path
  | locate root =>
    have hrun : (locate root).run a d f = ⟨(Ownership.locate d root).map .located, []⟩ := rfl
    rw [hrun, Ownership.locate]
    split
    · exact .silent rfl Operation.noConfusion
    · exact .failed Code.noConfusion
  | lint =>
    have hfacts : (lint.run a d f).facts = _ ++ [_] := Auditor.facts_lint f
    rw [hfacts]
    exact .linted (List.length_map _) (List.forall_mem_map.mpr fun _ _ => rfl) rfl
  | resolve path =>
    exact leaves_map rfl (fun r h => ⟨_, Auditor.facts_resolve h, rfl⟩)
      fun e h => (Auditor.resolve_eq_error h).imp_right (hpath e)
  | review paths =>
    exact leaves_map rfl (fun r h => ⟨_, Auditor.facts_review h, rfl⟩)
      fun e h => (Auditor.review_eq_error h).imp_right (hpath e)
  | coverage =>
    exact leaves_map rfl (fun c h => ⟨_, Auditor.facts_coverage h, rfl⟩)
      fun e h => Auditor.coverage_eq_error h
  | render | policy | compile => exact .silent rfl Operation.noConfusion

end Operation

/-! ## 3. Calls -/

/-- A call: an operation of an auditor on a disk and a file. -/
structure Call where
  auditor : Auditor
  disk : Disk
  file : OwnersFile
  operation : Operation

namespace Call

/-- What a call comes to. -/
def run (c : Call) : Traced (Except Failure Answer) := c.operation.run c.auditor c.disk c.file

/-- What some calls come to, one after another, after the events of them all. -/
def runAll : List Call → Traced (List (Except Failure Answer))
  | [] => ⟨[], []⟩
  | c :: cs => ⟨c.run.value :: (runAll cs).value, c.run.events ++ (runAll cs).events⟩

/-- **Each call is what it is by itself**, and leaves behind what it does by itself. -/
theorem runAll_eq (cs : List Call) :
    (runAll cs).value = cs.map (fun c => c.run.value) ∧
      (runAll cs).facts = cs.flatMap fun c => c.run.facts := by
  induction cs with
  | nil => exact ⟨rfl, rfl⟩
  | cons c cs ih =>
    refine ⟨congrArg (c.run.value :: ·) ih.1, ?_⟩
    rw [List.flatMap_cons, ← ih.2]
    exact List.filterMap_append

end Call

/-! ## 4. Sessions -/

namespace Session

/-- The call that a step makes, if it makes one: an operation makes none if no auditor can be set
up for it. -/
def call? (s : Session) : Step → Option Call
  | .operate o => (s.setup.auditor s.now).toOption.map fun a => ⟨a, s.disk, s.file, o⟩
  | _ => none

/-- The calls that some steps make, each with the sink of its events. -/
def calls (s : Session) : List Step → List (Sink × Call)
  | [] => []
  | x :: xs => ((s.call? x).map fun c => (s.setup.sink, c)).toList ++ (s.step x).1.calls xs

variable {s : Session}

theorem setup_keep (r : Except Failure Answer) : (s.keep r).setup = s.setup := by
  unfold keep
  split <;> rfl

/-- Nothing is kept of a change to the disk. -/
theorem kept_alter (r : Except DiskError Disk) :
    (s.alter r).1.setup.sink.keep (s.alter r).2.events = [] := by
  cases r <;> rfl

/-- **What the sink keeps of a step** is what it keeps of the call that the step makes. -/
theorem kept_step (s : Session) (x : Step) :
    (s.step x).1.setup.sink.keep (s.step x).2.events =
      ((s.call? x).map fun c => (s.setup.sink, c)).toList.flatMap
        fun c => c.1.keep c.2.run.events := by
  cases x with
  | operate o =>
    simp only [step, operate, call?]
    cases s.setup.auditor s.now with
    | error p => rfl
    | ok a =>
      simp only [setup_keep]
      exact (List.append_nil _).symm
  | configure change | list root => rfl
  | write path content | makeDirectory path | makeLink path target | remove path =>
    exact kept_alter _

/-- **What a session keeps** is what the sinks keep of the calls that it makes, in their order. -/
theorem kept_run (s : Session) (steps : List Step) :
    (s.run steps).flatMap Prod.snd = (s.calls steps).flatMap fun c => c.1.keep c.2.run.events := by
  -- A step may change the setup, the disk and the file that the next call is made with.
  induction steps generalizing s with
  | nil => rfl
  | cons x xs ih =>
    rw [run, calls, List.flatMap_append, ← kept_step, ← ih]
    rfl

end Session

/-! ## 5. All facts -/

/-- **The facts of calls.**  Whatever policies, disks, files and paths some calls are about, their
facts are those of each call by itself, one after another; and a call leaves behind one fact of its
own stage, those of a lint, none, or one of a file that is refused, by what it comes to.  A session
keeps what its calls leave behind. -/
theorem Call.facts_of_calls :
    (∀ cs : List Call, (runAll cs).value = cs.map (fun c => c.run.value) ∧
      (runAll cs).facts = cs.flatMap fun c => c.run.facts) ∧
    (∀ c : Call, c.operation.Leaves c.run.value c.run.facts) ∧
    ∀ (s : Session) (steps : List Step),
      (s.run steps).flatMap Prod.snd = (s.calls steps).flatMap fun c => c.1.keep c.2.run.events :=
  ⟨runAll_eq, fun c => Operation.leaves_run c.operation c.auditor c.disk c.file,
    Session.kept_run⟩

end Ownership
