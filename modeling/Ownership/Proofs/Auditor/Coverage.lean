/-
# Coverage and reviews

A review counts the paths of a change in the order in which they are named; coverage counts the
files of a repository in the order of their texts, and with other functions.  Over the same
spellings the two agree.  Both read the same paths and take each once (`Listing.perm_eraseDups`),
and what either counts does not depend on the order of the paths.

A review says of a path only the lines of the rules that match it.  That is enough to know which
rules match none: no two rules of a file stand on one line, so a rule matches a path exactly if its
line is among those (`RuleSet.line_mem_matchedLines_iff`).

* `Coverage.Accounts`: coverage of the paths of a review;
* `Coverage.accounts_ofFiles`: when the paths are the same;
* `Auditor.facts_coverage`, `Auditor.coverage_eq_error`: the fact on coverage, and its failures;
* `Auditor.coverage_listed`: coverage of files that are spelled out;
* `Auditor.coverage_accounts_review`: the two operations over the same spellings.
-/
import Mathlib.Data.List.Nodup
import Ownership.Auditor.Coverage
import Ownership.Proofs.Auditor.Review
import Ownership.Proofs.Listing
import Ownership.Proofs.RuleSet

namespace Ownership

/-! ## 1. Coverage of the paths of a review -/

/-- What coverage of the paths of a review says: how many there are, in ascending order those that
nobody owns, how many the others are, and the lines, in file order, of the rules whose pattern is a
glob and whose line is among the matching lines of no path. -/
structure Coverage.Accounts (f : OwnersFile) (review : Review) (c : Coverage) : Prop where
  totalFiles_eq : c.totalFiles = review.resolutions.length
  unowned_perm : c.unowned.Perm review.unowned
  unowned_ascending : Listing.Ascending c.unowned
  ownedFiles_eq : c.ownedFiles =
    (review.resolutions.filter fun res => res.path ∉ review.unowned).length
  unusedRuleLines_eq : c.unusedRuleLines =
    (f.rules.filter fun r => (Glob.ofText r.pattern).isOk ∧
      ∀ res ∈ review.resolutions, r.line ∉ res.matchedLines).map Rule.line

/-! ## 2. The lines of the rules that match -/

namespace RuleSet

/-- **A rule matches a path** if its line is among the matching lines. -/
theorem line_mem_matchedLines_iff {text : String} {p : Precedence} {path : RepoPath} {r : Rule}
    (hr : r ∈ (OwnersFile.ofText text).rules) :
    r.line ∈ ((compile (OwnersFile.ofText text) p).resolve path).matchedLines ↔
      r.covers path.text = true := by
  rw [matchedLines_resolve, List.mem_map]
  constructor
  · rintro ⟨r', hr', hline⟩
    obtain ⟨hmem, hcovers⟩ := List.mem_filter.mp hr'
    have hnodup : ((OwnersFile.ofText text).rules.map Rule.line).Nodup :=
      (pairwise_line_lt text).imp Nat.ne_of_lt
    rwa [← List.inj_on_of_nodup_map hnodup hmem hr hline]
  · exact fun hcovers => ⟨r, List.mem_filter.mpr ⟨hr, hcovers⟩, rfl⟩

end RuleSet

namespace Coverage

/-- The rules that match none of the files, among the rules of a file. -/
theorem map_rule_unused (f : OwnersFile) (p : Precedence) (files : List RepoPath) :
    (unused (RuleSet.compile f p) files).map ReadRule.rule =
      f.rules.filter fun r =>
        (Glob.ofText r.pattern).isOk && !files.any fun path => r.covers path.text := by
  refine RuleSet.map_rule_filter (fun r _ hread => ?_) fun r _ m hread => ?_
  · obtain ⟨e, he⟩ := RuleSet.ofText_of_read?_eq_none hread
    rw [he]
    rfl
  · obtain ⟨-, hglob⟩ := RuleSet.read?_eq_some_iff.mp hread
    simp only [Rule.covers, hglob]
    rfl

/-! ## 3. The same paths in another order -/

/-- The review of some paths that have been read. -/
theorem unowned_ofResolutions (s : RuleSet) (paths : List RepoPath) :
    (Review.ofResolutions (paths.map s.resolve)).unowned = paths.filter (isUnowned s) := by
  rw [Review.ofResolutions, List.filter_map, List.map_map]
  exact List.map_id _

/-- **Coverage of the paths of a review**, whatever their order there. -/
theorem accounts_ofFiles {text : String} {p : Precedence} {files paths : List RepoPath}
    (hperm : files.Perm paths) (hascending : Listing.Ascending files) (requireFull : Bool) :
    (ofFiles requireFull (RuleSet.compile (OwnersFile.ofText text) p) files).Accounts
      (OwnersFile.ofText text)
      (Review.ofResolutions
        (paths.map (RuleSet.compile (OwnersFile.ofText text) p).resolve)) := by
  set s := RuleSet.compile (OwnersFile.ofText text) p
  refine ⟨?total, ?unowned, hascending.filter _, ?owned, ?unused⟩
  case total => exact hperm.length_eq.trans (List.length_map _).symm
  case unowned =>
    rw [unowned_ofResolutions]
    exact hperm.filter _
  case owned =>
    have howned : (paths.map s.resolve).filter
        (fun res => res.path ∉ (Review.ofResolutions (paths.map s.resolve)).unowned) =
          (paths.filter fun path => !isUnowned s path).map s.resolve := by
      rw [unowned_ofResolutions, List.filter_map]
      refine congrArg _ (List.filter_congr fun path hpath => ?_)
      have hpath' : (s.resolve path).path = path := rfl
      simp [hpath', hpath]
    exact (hperm.filter _).length_eq.trans
      ((List.length_map _).symm.trans (congrArg List.length howned.symm))
  case unused =>
    have hlines : (ofFiles requireFull s files).unusedRuleLines =
        ((unused s files).map ReadRule.rule).map Rule.line := (List.map_map ..).symm
    rw [hlines, map_rule_unused]
    refine congrArg _ (List.filter_congr fun r hr => ?_)
    -- A rule that matches no file has its line in no resolution, and the other way round.
    have hline : (∃ path ∈ files, r.covers path.text = true) ↔
        ∃ res ∈ paths.map s.resolve, r.line ∈ res.matchedLines := by
      simp only [List.mem_map, exists_exists_and_eq_and, s, RuleSet.line_mem_matchedLines_iff hr,
        hperm.mem_iff]
    rw [Bool.eq_iff_iff, Bool.and_eq_true, decide_eq_true_iff, Bool.not_eq_true',
      ← Bool.not_eq_true, List.any_eq_true, hline, not_exists]
    exact and_congr_right' (forall_congr' fun _ => not_and)

end Coverage

/-! ## 4. The operations -/

namespace Auditor

variable {a : Auditor} {f : OwnersFile}

/-- Coverage that succeeds leaves one fact behind. -/
theorem facts_coverage {d : Disk} {c : Coverage} (h : (a.coverage d f).value = .ok c) :
    (a.coverage d f).facts =
      [Fact.make (a.context f) .coverage (coverageDecision c)
        (coverageValues c ++ if c.ok then [] else codeValues .coverage)] := by
  unfold Auditor.coverage at h ⊢
  split at h
  · cases h
  · cases h
    simp only [Traced.facts, coverageEvents]
    split
    · exact congrArg (fun values => [Fact.make _ _ _ values]) (List.append_nil _).symm
    · rfl

/-- The files of a repository are not counted if there is none, if a glob cannot be read, or if the
files cannot be listed; the failure is not that of a file that is too large. -/
theorem code_of_countedFiles {d : Disk} {e : Failure} (h : a.countedFiles d = .error e) :
    e.code ≠ .tooLarge := by
  unfold countedFiles at h
  split at h
  · rename_i tree _
    rcases bind_eq_error_iff.mp h with hignored | ⟨ignore, -, h⟩
    · obtain ⟨_, -, rfl⟩ := mapError_eq_error_iff.mp hignored
      exact Code.noConfusion
    · rcases bind_eq_error_iff.mp h with hfiles | ⟨_, -, h⟩
      · obtain ⟨fault, -, rfl⟩ := mapError_eq_error_iff.mp hfiles
        unfold Fault.failure
        cases fault.kind <;> exact Code.noConfusion
      · cases h
  · cases h
    exact Code.noConfusion

/-- **Coverage that cannot be measured** leaves nothing behind. -/
theorem coverage_eq_error {d : Disk} {e : Failure} (h : (a.coverage d f).value = .error e) :
    (a.coverage d f).facts = [] ∧ e.code ≠ .tooLarge := by
  unfold Auditor.coverage at h ⊢
  split at h
  · rename_i e' hfiles
    cases h
    exact ⟨rfl, code_of_countedFiles hfiles⟩
  · cases h

/-- The auditor, for a repository with these files. -/
def withFiles (a : Auditor) (files : List RepoPath) : Auditor :=
  { a with tree := some (.listed files) }

/-- **Coverage of files that are spelled out succeeds** if no globs are ignored. -/
theorem coverage_listed (hignore : a.policy.coverage.ignore = []) (files : List RepoPath)
    (d : Disk) :
    ((a.withFiles files).coverage d f).value =
      .ok (Coverage.ofFiles a.policy.coverage.requireFull (a.compile f) files) := by
  have hcounted : (a.withFiles files).countedFiles d = .ok files := by
    rw [countedFiles, ignored, withFiles, hignore]
    exact congrArg Except.ok (List.filter_eq_self.mpr fun _ _ => rfl)
  rw [Auditor.coverage, hcounted]
  rfl

/-- **Coverage of some spellings accounts for their review**: a listing of them can be made if and
only if they can be reviewed, and then coverage of that listing succeeds and agrees with the
review. -/
theorem coverage_accounts_review (hignore : a.policy.coverage.ignore = []) (text : String)
    (texts : List String) :
    ((∃ files, Listing.ofTexts texts = .ok files) ↔
      ∃ review, (a.review (OwnersFile.ofText text) texts).value = .ok review) ∧
    ∀ files review d, Listing.ofTexts texts = .ok files →
      (a.review (OwnersFile.ofText text) texts).value = .ok review →
      ∃ c, ((a.withFiles files).coverage d (OwnersFile.ofText text)).value = .ok c ∧
        c.Accounts (OwnersFile.ofText text) review := by
  simp only [Listing.ofTexts_eq_ok_iff, review_eq_ok_iff]
  refine ⟨⟨?_, ?_⟩, ?_⟩
  · rintro ⟨_, paths, hpaths, -⟩
    exact ⟨_, paths, hpaths, rfl⟩
  · rintro ⟨_, paths, hpaths, -⟩
    exact ⟨_, paths, hpaths, rfl⟩
  · rintro _ _ d ⟨paths, hpaths, rfl⟩ ⟨paths', hpaths', rfl⟩
    obtain rfl : paths = paths' := Except.ok.inj (hpaths.symm.trans hpaths')
    exact ⟨_, coverage_listed hignore _ d, Coverage.accounts_ofFiles
      (Listing.perm_eraseDups paths) (Listing.ascending_dropRepeats_sort paths) _⟩

/-- Two files, one of them spelled twice: one is owned, and one of the two rules matches none. -/
theorem coverage_accounts_respelled :
    Policy.standard.coverage.ignore = [] ∧
      ∃ files c, Listing.ofTexts ["src/x", "docs\\y", "./src//x"] = .ok files ∧
        (((Auditor.mk .standard none none "").withFiles files).coverage .fresh
          (OwnersFile.ofText "docs @a\nlib @b")).value = .ok c ∧
        c.totalFiles = 2 ∧ c.ownedFiles = 1 ∧ c.unowned = [⟨"src/x"⟩] ∧
        c.unusedRuleLines = [2] := by
  let a : Auditor := ⟨.standard, none, none, ""⟩
  let f := OwnersFile.ofText "docs @a\nlib @b"
  let review : Review :=
    { reviewers := ["a"]
      unowned := [⟨"src/x"⟩]
      resolutions := [⟨⟨"src/x"⟩, none, []⟩, ⟨⟨"docs/y"⟩, some ⟨1, "docs", [.ofText "@a"]⟩, [1]⟩] }
  have hreview : (a.review f ["src/x", "docs\\y", "./src//x"]).value = .ok review := by
    decide +kernel
  obtain ⟨hiff, hall⟩ := coverage_accounts_review (a := a) rfl "docs @a\nlib @b"
    ["src/x", "docs\\y", "./src//x"]
  obtain ⟨files, hfiles⟩ := hiff.mpr ⟨review, hreview⟩
  obtain ⟨c, hc, haccounts⟩ := hall files review .fresh hfiles hreview
  refine ⟨rfl, files, c, hfiles, hc, haccounts.totalFiles_eq, ?_, ?_, ?_⟩
  · rw [haccounts.ownedFiles_eq]
    decide
  · exact List.perm_singleton.mp haccounts.unowned_perm
  · rw [haccounts.unusedRuleLines_eq]
    decide +kernel

end Auditor

end Ownership
