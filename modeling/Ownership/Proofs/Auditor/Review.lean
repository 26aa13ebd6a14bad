/-
# Resolving and reviewing paths

When resolving a path or reviewing several succeeds, what the answer is, and which fact is left
behind.  When it fails, a path cannot be read, and nothing is left behind.

* `Auditor.resolve_eq_ok_iff`, `Auditor.review_eq_ok_iff`: the answers;
* `Auditor.facts_resolve`, `Auditor.facts_review`: the facts;
* `Auditor.resolve_eq_error`, `Auditor.review_eq_error`: the failures.
-/
import Ownership.Auditor.Review
import Ownership.Proofs.Result

namespace Ownership.Auditor

variable {a : Auditor} {f : OwnersFile}

/-! ## 1. Answers -/

theorem readPath_eq_ok_iff {text : String} {p : RepoPath} :
    readPath text = .ok p ↔ RepoPath.ofText text = .ok p := mapError_eq_ok_iff

/-- **Resolving succeeds** if the path can be read. -/
theorem resolve_eq_ok_iff {text : String} {r : Resolution} :
    (a.resolve f text).value = .ok r ↔
      ∃ p, RepoPath.ofText text = .ok p ∧ (a.compile f).resolve p = r := by
  simp only [← readPath_eq_ok_iff, Auditor.resolve]
  cases readPath text <;> simp

/-- **A review succeeds** if all paths can be read, and each of them is taken once. -/
theorem review_eq_ok_iff {texts : List String} {review : Review} :
    (a.review f texts).value = .ok review ↔
      ∃ paths, texts.mapM RepoPath.ofText = .ok paths ∧
        Review.ofResolutions (paths.eraseDups.map (a.compile f).resolve) = review := by
  simp only [← mapM_eq_ok_congr fun _ _ => readPath_eq_ok_iff, Auditor.review]
  cases texts.mapM readPath <;> simp

/-! ## 2. Facts -/

/-- A path that is resolved leaves one fact behind. -/
theorem facts_resolve {text : String} {r : Resolution} (h : (a.resolve f text).value = .ok r) :
    (a.resolve f text).facts =
      [Fact.make (a.context f) .resolve (if r.isUnowned then .warn else .success)
        (resolutionValues r)] := by
  unfold Auditor.resolve at h ⊢
  split at h
  · cases h
  · cases h
    rfl

/-- So does a review. -/
theorem facts_review {texts : List String} {review : Review}
    (h : (a.review f texts).value = .ok review) :
    (a.review f texts).facts =
      [Fact.make (a.context f) .review (if review.unowned.isEmpty then .success else .warn)
        (reviewValues review)] := by
  unfold Auditor.review at h ⊢
  split at h
  · cases h
  · cases h
    simp only [Traced.facts, reviewEvents]
    split <;> rfl

/-! ## 3. Failures -/

/-- A path that cannot be read is named in the failure, with the problem. -/
theorem readPath_eq_error_iff {text : String} {e : Failure} :
    readPath text = .error e ↔ ∃ problem, RepoPath.ofText text = .error problem ∧
      e = .invalidPath (text ++ ": " ++ problem.fault.detail) := by
  rw [readPath, mapError_eq_error_iff]
  refine exists_congr fun problem => and_congr_right' ?_
  exact eq_comm

theorem readPath_eq_error {text : String} {e : Failure} (h : readPath text = .error e) :
    ∃ detail, e = .invalidPath detail := by
  obtain ⟨problem, -, rfl⟩ := readPath_eq_error_iff.mp h
  exact ⟨_, rfl⟩

/-- **A path that cannot be resolved** leaves nothing behind. -/
theorem resolve_eq_error {text : String} {e : Failure} (h : (a.resolve f text).value = .error e) :
    (a.resolve f text).facts = [] ∧ ∃ detail, e = .invalidPath detail := by
  unfold Auditor.resolve at h ⊢
  split at h
  · rename_i e' hread
    cases h
    exact ⟨rfl, readPath_eq_error hread⟩
  · cases h

/-- **A review that is not made** leaves nothing behind, wherever the path stands that cannot be
read. -/
theorem review_eq_error {texts : List String} {e : Failure}
    (h : (a.review f texts).value = .error e) :
    (a.review f texts).facts = [] ∧ ∃ detail, e = .invalidPath detail := by
  unfold Auditor.review at h ⊢
  split at h
  · rename_i e' hread
    cases h
    obtain ⟨text, -, htext⟩ := exists_of_mapM_eq_error hread
    exact ⟨rfl, readPath_eq_error htext⟩
  · cases h

end Ownership.Auditor
