/-
# Sessions

In a session one owners file is worked on, step by step, while the disk, the policy and what the
checks may consult change under it.  A step that needs an auditor is refused, and does nothing, if
none can be set up.

* `Setup.auditor` sets up an auditor;
* `Operation.run` is one operation of it on the current file;
* `Session.step` is one step, `Session.run` a list of them.
-/
import Ownership.Auditor.Coverage
import Ownership.Auditor.Lint
import Ownership.Auditor.Load
import Ownership.Auditor.Review
import Ownership.Disk.Change
import Ownership.OwnersFile.Printer
import Ownership.Policy.Document

namespace Ownership

/-! ## 1. Setting up an auditor -/

/-- A repository as it is asked for: by the spelling of its paths, or by its root on disk. -/
inductive TreeRequest where
  | paths (texts : List String)
  | workingCopy (root : String)
  deriving DecidableEq, Repr

/-- What an auditor is set up from, and where its events go. -/
structure Setup where
  policy : Except Yaml.Problem Policy := .ok .standard
  directory : Option Directory := none
  tree : Option TreeRequest := none
  sink : Sink := .capture

/-- Why no auditor can be set up. -/
inductive SetupProblem where
  | policy (p : Yaml.Problem)
  | path (p : PathProblem)

/-- The repository that is asked for. -/
def TreeRequest.tree : TreeRequest → Except PathProblem Tree
  | .paths texts => (Listing.ofTexts texts).map .listed
  | .workingCopy root => .ok (.workingCopy root)

/-- The repository that a setup asks for, if it asks for one. -/
def Setup.tree? (s : Setup) : Except PathProblem (Option Tree) :=
  match s.tree with
  | none => .ok none
  | some request => request.tree.map some

/-- Sets up an auditor whose facts carry the time `now`; of two problems the policy's comes
first. -/
def Setup.auditor (s : Setup) (now : String) : Except SetupProblem Auditor := do
  let policy ← s.policy.mapError .policy
  let tree ← s.tree?.mapError .path
  return ⟨policy, s.directory, tree, now⟩

/-- Parts of a setup that are to change. -/
structure SetupChange where
  policy : Option (Except Yaml.Problem Policy) := none
  directory : Option (Option Directory) := none
  tree : Option (Option TreeRequest) := none
  sink : Option Sink := none

/-- The setup with the parts changed that are to change. -/
def Setup.change (s : Setup) (c : SetupChange) : Setup where
  policy := c.policy.getD s.policy
  directory := c.directory.getD s.directory
  tree := c.tree.getD s.tree
  sink := c.sink.getD s.sink

/-! ## 2. Operations -/

/-- What an auditor can be asked to do; all but the loads work on the current file. -/
inductive Operation where
  | loadText (text : String)
  | load (root : String)
  | loadFile (path : String)
  | reload
  | locate (root : String)
  | render
  | policy
  | compile
  | lint
  | resolve (path : String)
  | review (paths : List String)
  | coverage
  deriving DecidableEq, Repr

/-- What a step comes to when it succeeds. -/
inductive Answer where
  | done
  | loaded (f : OwnersFile)
  | located (path : String)
  | rendered (text : String)
  | policy (p : Policy)
  | compiled (s : RuleSet)
  | linted (r : Report)
  | resolved (r : Resolution)
  | reviewed (r : Review)
  | covered (c : Coverage)
  | listed (paths : List RepoPath)
  deriving DecidableEq, Repr

/-- What an operation comes to on the current file. -/
def Operation.run (a : Auditor) (d : Disk) (f : OwnersFile) :
    Operation → Traced (Except Failure Answer)
  | .loadText text => (a.loadText text).map fun f => .ok (.loaded f)
  | .load root => (a.load d root).map fun r => r.map .loaded
  | .loadFile path => (a.loadFile d path).map fun r => r.map .loaded
  | .reload => (a.loadText f.render).map fun f => .ok (.loaded f)
  | .locate root => ⟨(Ownership.locate d root).map .located, []⟩
  | .render => ⟨.ok (.rendered f.render), []⟩
  | .policy => ⟨.ok (.policy a.policy), []⟩
  | .compile => ⟨.ok (.compiled (a.compile f)), []⟩
  | .lint => (a.lint f).map fun r => .ok (.linted r)
  | .resolve path => (a.resolve f path).map fun r => r.map .resolved
  | .review paths => (a.review f paths).map fun r => r.map .reviewed
  | .coverage => (a.coverage d f).map fun r => r.map .covered

/-! ## 3. Steps -/

/-- A step of a session. -/
inductive Step where
  | configure (change : SetupChange)
  | operate (o : Operation)
  | write (path : Disk.Path) (content : ByteArray)
  | makeDirectory (path : Disk.Path)
  | makeLink (path target : Disk.Path)
  | remove (path : Disk.Path)
  | list (root : String)

/-- Why a step is refused. -/
inductive Refusal where
  | setup (p : SetupProblem)
  | failure (f : Failure)
  | fault (f : Fault)

/-- The state of a session. -/
structure Session where
  setup : Setup
  file : OwnersFile
  disk : Disk
  now : String

namespace Session

/-- A session at its start: no file is loaded, and nothing is on the disk. -/
def start (setup : Setup) (now : String) : Session := ⟨setup, OwnersFile.empty, .fresh, now⟩

/-- The session after an operation; only one that loads a file changes the current file. -/
def keep (s : Session) : Except Failure Answer → Session
  | .ok (.loaded f) => { s with file := f }
  | _ => s

/-- One operation of a session. -/
def operate (s : Session) (o : Operation) : Session × Traced (Except Refusal Answer) :=
  match s.setup.auditor s.now with
  | .error p => (s, ⟨.error (.setup p), []⟩)
  | .ok a =>
    let t := o.run a s.disk s.file
    (s.keep t.value, t.map fun r => r.mapError .failure)

/-- One change to the disk of a session. -/
def alter (s : Session) (r : Except DiskError Disk) : Session × Traced (Except Refusal Answer) :=
  match r with
  | .error e => (s, ⟨.error (.fault ⟨.io, e.message⟩), []⟩)
  | .ok d => ({ s with disk := d }, ⟨.ok .done, []⟩)

/-- One step of a session. -/
def step (s : Session) : Step → Session × Traced (Except Refusal Answer)
  | .configure c => ({ s with setup := s.setup.change c }, ⟨.ok .done, []⟩)
  | .operate o => s.operate o
  | .write path content => s.alter (s.disk.write path content)
  | .makeDirectory path => s.alter (s.disk.makeDirectory path)
  | .makeLink path target => s.alter (s.disk.makeLink path target)
  | .remove path => s.alter (s.disk.remove path)
  | .list root =>
    (s, ⟨((Listing.ofDisk s.disk root).map .listed).mapError .fault, []⟩)

/-- A list of steps: what each comes to, and what the sink has kept of its events. -/
def run (s : Session) : List Step → List (Except Refusal Answer × List Kept)
  | [] => []
  | x :: xs =>
    let (s', t) := s.step x
    (t.value, s'.setup.sink.keep t.events) :: run s' xs

end Session

end Ownership
