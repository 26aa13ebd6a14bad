import Ownership.OwnersFile.Printer
import Ownership.RuleSet
import Ownership.RuleId
import Ownership.Event
import Ownership.Finding
import Ownership.Listing
import Ownership.Report.Yaml
import Ownership.Failure
import Ownership.Policy.Document
import Ownership.Disk.Change
import Ownership.Listing.WorkingCopy
import Ownership.OwnersFile.Location
import Ownership.Auditor.Load
import Ownership.Auditor.Lint
import Ownership.Auditor.Review
import Ownership.Auditor.Coverage
import Ownership.Session
import Ownership.Proofs.OwnersFile.Word
import Ownership.Proofs.OwnersFile.Form
import Ownership.Proofs.OwnersFile.RoundTrip
import Ownership.Proofs.RuleId
import Ownership.Proofs.RuleId.Position
import Ownership.Proofs.OwnersFile.Insertion
import Ownership.Proofs.OwnersFile.Ending
import Ownership.Proofs.Glob.Language
import Ownership.Proofs.Glob.Segments
import Ownership.Proofs.Glob.Grammar
import Ownership.Proofs.RuleSet
import Ownership.Proofs.Owner
import Ownership.Proofs.Result
import Ownership.Proofs.Listing
import Ownership.Proofs.Glob.Beneath
import Ownership.Proofs.Disk
import Ownership.Proofs.Path.Component
import Ownership.Proofs.Path.Bytes
import Ownership.Proofs.RepoPath
import Ownership.Proofs.RepoPath.Rooted
import Ownership.Proofs.RepoPath.Spelling
import Ownership.Proofs.Disk.Distinct
import Ownership.Proofs.Session
import Ownership.Proofs.Listing.Walk
import Ownership.Proofs.Listing.WorkingCopy
import Ownership.Proofs.Listing.Canonical
import Ownership.Proofs.Sorting
import Ownership.Proofs.Json
import Ownership.Proofs.Fact.Redaction
import Ownership.Proofs.Fact.Reach
import Ownership.Proofs.Fact
import Ownership.Proofs.Auditor.Lint
import Ownership.Proofs.Auditor.Strict
import Ownership.Proofs.Auditor.Review
import Ownership.Proofs.Auditor.Coverage
import Ownership.Proofs.Auditor.Tally
import Ownership.Proofs.Auditor.Change
import Ownership.Proofs.Auditor.Refused
import Ownership.Proofs.Auditor.Loosening
import Ownership.Proofs.Auditor.Masking
import Ownership.Proofs.Owner.Name
import Ownership.Proofs.Event
import Ownership.Proofs.Auditor.Load
import Ownership.Proofs.Auditor.Summary
import Ownership.Proofs.Session.Facts
import Ownership.Proofs.Session.Redaction
import Ownership.Proofs.Session.Envelope
import Ownership.Proofs.Yaml.Written
import Ownership.Proofs.Report.Yaml
