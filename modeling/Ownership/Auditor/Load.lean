/-
# Loading an owners file

A file is read from a text, from a path on disk or from one of the places in a repository.  A file
on disk that is too large is refused unread if the policy says so; a text is only reported.

* `Auditor.loadText`, `Auditor.loadFile` and `Auditor.load` load a file.
-/
import Ownership.Auditor
import Ownership.OwnersFile.Location

namespace Ownership.Auditor

/-! ## 1. Events -/

/-- What the fact on a file says of its size. -/
def sizeValues (f : OwnersFile) : Members :=
  [("rule_count", .nat f.ruleCount), ("line_count", .nat f.lines.length),
    ("file_bytes", .nat f.sourceBytes)]

/-- What the fact on a file that is too large says. -/
def excessValues (f : Finding) : Members := ("error", .text f.message) :: codeValues .tooLarge

/-- The events of reading a file, given the path it was read from, if any. -/
def readEvents (a : Auditor) (f : OwnersFile) (path : Option String) : List Event :=
  let values := sizeValues f ++ pathValues path
  let fact := Fact.make (a.context f) .parse
  let read :=
    match a.policy.excess? f.sourceBytes with
    | none => [.fact (fact .success values)]
    | some (finding, s) =>
      [.line .warn finding.message, .fact (fact s.decision (values ++ excessValues finding))]
  read ++ [.line .debug s!"load: parsed {f.ruleCount} rules"]

/-- The events of refusing a file unread, which are those of a file without lines. -/
def refusalEvents (a : Auditor) (finding : Finding) (path : String) : List Event :=
  [.fact (Fact.make (a.context OwnersFile.empty) .parse .failure
      (pathValues path ++ excessValues finding)),
    .line .error "load: CODEOWNERS file too large (E_TOO_LARGE)"]

/-! ## 2. Loading -/

/-- Loads the file that a text is. -/
def loadText (a : Auditor) (text : String) : Traced OwnersFile :=
  let f := OwnersFile.ofText text
  ⟨f, a.readEvents f none⟩

/-- The failure of an operation on a path on disk. -/
def diskFailure (path : String) (e : DiskError) : Failure :=
  .filesystem s!"{path}: {e.message}"

/-- Reads the file on a path and loads it. -/
def readFile (a : Auditor) (d : Disk) (path : String) : Traced (Except Failure OwnersFile) :=
  match d.readText (Disk.bytesOf path) with
  | .error e => ⟨.error (diskFailure path e), []⟩
  | .ok text =>
    let f := OwnersFile.ofText text
    ⟨.ok f, a.readEvents f path⟩

/-- Loads the file on a path, unless the policy stops at its size. -/
def loadFile (a : Auditor) (d : Disk) (path : String) : Traced (Except Failure OwnersFile) :=
  match d.size (Disk.bytesOf path) with
  | .error e => ⟨.error (diskFailure path e), []⟩
  | .ok size =>
    match a.policy.excess? size with
    | some (finding, .stop) =>
      ⟨.error (.tooLarge size a.policy.maxFileBytes), a.refusalEvents finding path⟩
    | _ => a.readFile d path

/-- Loads the owners file of a repository. -/
def load (a : Auditor) (d : Disk) (root : String) : Traced (Except Failure OwnersFile) :=
  match locate d root with
  | .error e => ⟨.error e, [.line .error "load: no CODEOWNERS file (E_NOT_FOUND)"]⟩
  | .ok path => a.loadFile d path

end Ownership.Auditor
