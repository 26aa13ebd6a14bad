/-
# Reviews of changes

A change is a list of paths, and it may be proposed in parts, in another order, with repetitions or
in other spellings.  A review takes each path once, where it is first named, and each reviewer once,
where an owner of that name is first met.  So there are two rounds of dropping repetitions, and the
second works on what the first leaves.

For a change in two parts both rounds come apart.  A path of the second part that the first names
already is dropped in the first round.  Its owners then are not met again, but they were met in the
first part, so that the second round would have dropped them anyway
(`filter_flatMap_filter`).  That is why the reviewers of the whole are told from those of the parts,
without going back to the paths.

Who has to review does not depend on the order of the paths at all: a name is among the reviewers if
it is that of an owner of one of the paths.

* `Review.followedBy`: a review behind another;
* `Review.ofResolutions_append`: the review of paths in two parts;
* `Auditor.exists_review_iff`, `Auditor.review_eq_error_iff`: when a review is made, and how it
  fails;
* `Auditor.ReviewLaws`, `Auditor.review_composes`: the laws of reviewing.
-/
import Ownership.Proofs.Auditor.Coverage
import Ownership.Proofs.RepoPath.Spelling

namespace Ownership

/-! ## 1. Two parts of a list -/

/-- Leaving out elements of `xs` does not matter where what belongs to them is left out as well. -/
theorem filter_flatMap_filter {α β : Type} [DecidableEq α] [DecidableEq β] (g : α → List β)
    (xs ys : List α) :
    ((ys.filter (· ∉ xs)).flatMap g).filter (· ∉ xs.flatMap g) =
      (ys.flatMap g).filter (· ∉ xs.flatMap g) := by
  induction ys with
  | nil => rfl
  | cons y ys ih =>
    rw [List.flatMap_cons, List.filter_append, ← ih]
    by_cases hy : y ∈ xs
    · have hnone : (g y).filter (· ∉ xs.flatMap g) = [] := by
        refine List.filter_eq_nil_iff.mpr fun z hz => ?_
        simpa using ⟨y, hy, hz⟩
      rw [List.filter_cons_of_neg (by simpa using hy), hnone, List.nil_append]
    · rw [List.filter_cons_of_pos (by simpa using hy), List.flatMap_cons, List.filter_append]

namespace Review

/-! ## 2. A review behind another -/

/-- A review and another behind it: what the other says of a path that the first resolves is left
out, and so are the reviewers that the first names. -/
def followedBy (r s : Review) : Review where
  reviewers := r.reviewers ++ s.reviewers.filter (· ∉ r.reviewers)
  unowned := r.unowned ++ s.unowned.filter (· ∉ r.resolutions.map Resolution.path)
  resolutions :=
    r.resolutions ++ s.resolutions.filter fun x => x.path ∉ r.resolutions.map Resolution.path

variable (s : RuleSet)

theorem map_path_resolve (paths : List RepoPath) :
    (paths.map s.resolve).map Resolution.path = paths := by
  rw [List.map_map]
  exact List.map_id paths

/-- The reviewers of some paths that have been read. -/
theorem reviewers_ofResolutions_map (paths : List RepoPath) :
    (ofResolutions (paths.map s.resolve)).reviewers =
      (paths.flatMap fun p => (s.resolve p).ownerNames).eraseDups := by
  rw [ofResolutions, List.flatMap_map]

/-- Each of two parts is taken without repetitions, and of the second what the first names is left
out. -/
theorem flatMap_eraseDups_append {β : Type} [DecidableEq β] (g : RepoPath → List β)
    (xs ys : List RepoPath) :
    (((xs ++ ys).eraseDups).flatMap g).eraseDups =
      (xs.eraseDups.flatMap g).eraseDups ++
        ((ys.eraseDups.flatMap g).eraseDups).filter (· ∉ (xs.eraseDups.flatMap g).eraseDups) := by
  have hnew : ys.eraseDups.filter (· ∉ xs) = ys.eraseDups.filter (· ∉ xs.eraseDups) := by
    simp only [List.mem_eraseDups]
  rw [eraseDups_append_eq, hnew, List.flatMap_append, eraseDups_append_eq, ← eraseDups_filter,
    filter_flatMap_filter, eraseDups_filter]
  simp only [List.mem_eraseDups]

/-- **The review of paths in two parts** is that of the first, followed by that of the second. -/
theorem ofResolutions_append (xs ys : List RepoPath) :
    ofResolutions ((xs ++ ys).eraseDups.map s.resolve) =
      (ofResolutions (xs.eraseDups.map s.resolve)).followedBy
        (ofResolutions (ys.eraseDups.map s.resolve)) := by
  have hpaths : (xs ++ ys).eraseDups = xs.eraseDups ++ ys.eraseDups.filter (· ∉ xs.eraseDups) := by
    rw [eraseDups_append_eq]
    simp only [List.mem_eraseDups]
  have hreviewers : (ofResolutions ((xs ++ ys).eraseDups.map s.resolve)).reviewers =
      ((ofResolutions (xs.eraseDups.map s.resolve)).followedBy
        (ofResolutions (ys.eraseDups.map s.resolve))).reviewers := by
    simp only [followedBy, reviewers_ofResolutions_map]
    exact flatMap_eraseDups_append _ xs ys
  have hunowned : (ofResolutions ((xs ++ ys).eraseDups.map s.resolve)).unowned =
      ((ofResolutions (xs.eraseDups.map s.resolve)).followedBy
        (ofResolutions (ys.eraseDups.map s.resolve))).unowned := by
    have hresolved : (ofResolutions (xs.eraseDups.map s.resolve)).resolutions.map
        Resolution.path = xs.eraseDups := map_path_resolve s _
    simp only [followedBy, hresolved, Coverage.unowned_ofResolutions]
    rw [hpaths, List.filter_append, List.filter_comm]
  have hresolutions : (ofResolutions ((xs ++ ys).eraseDups.map s.resolve)).resolutions =
      ((ofResolutions (xs.eraseDups.map s.resolve)).followedBy
        (ofResolutions (ys.eraseDups.map s.resolve))).resolutions := by
    simp only [followedBy, ofResolutions, map_path_resolve]
    rw [hpaths, List.map_append, List.filter_map]
    rfl
  cases hwhole : ofResolutions ((xs ++ ys).eraseDups.map s.resolve)
  simp only [hwhole] at hreviewers hunowned hresolutions
  rw [hreviewers, hunowned, hresolutions]

end Review

namespace Auditor

variable {a : Auditor} {f : OwnersFile}

/-! ## 3. When a review is made -/

/-- The failure that the first text comes to that spells no path. -/
def FirstUnread (texts : List String) (e : Failure) : Prop :=
  ∃ before text after problem, texts = before ++ text :: after ∧
    (∀ t ∈ before, ∃ p, RepoPath.ofText t = .ok p) ∧ RepoPath.ofText text = .error problem ∧
    e = .invalidPath (text ++ ": " ++ problem.fault.detail)

/-- **A review is made** if each text spells a path. -/
theorem exists_review_iff {texts : List String} :
    (∃ r, (a.review f texts).value = .ok r) ↔
      ∀ t ∈ texts, ∃ p, RepoPath.ofText t = .ok p := by
  rw [← exists_mapM_eq_ok_iff]
  simp only [review_eq_ok_iff]
  constructor
  · rintro ⟨_, paths, hpaths, -⟩
    exact ⟨paths, hpaths⟩
  · rintro ⟨paths, hpaths⟩
    exact ⟨_, paths, hpaths, rfl⟩

/-- **A review fails** with the failure of the first text that spells no path. -/
theorem review_eq_error_iff {texts : List String} {e : Failure} :
    (a.review f texts).value = .error e ↔ FirstUnread texts e := by
  have hmapM : (a.review f texts).value = .error e ↔ texts.mapM readPath = .error e := by
    rw [Auditor.review]
    cases texts.mapM readPath <;> simp
  rw [hmapM, mapM_eq_error_iff]
  simp only [FirstUnread, readPath_eq_ok_iff, readPath_eq_error_iff]
  constructor
  · rintro ⟨before, text, after, htexts, hbefore, problem, hproblem, he⟩
    exact ⟨before, text, after, problem, htexts, hbefore, hproblem, he⟩
  · rintro ⟨before, text, after, problem, htexts, hbefore, hproblem, he⟩
    exact ⟨before, text, after, htexts, hbefore, problem, hproblem, he⟩

/-! ## 4. What a review holds -/

variable {texts : List String} {r : Review}

theorem mem_resolutions_iff (h : (a.review f texts).value = .ok r) {x : Resolution} :
    x ∈ r.resolutions ↔
      ∃ t ∈ texts, ∃ p, RepoPath.ofText t = .ok p ∧ (a.compile f).resolve p = x := by
  obtain ⟨paths, hpaths, rfl⟩ := review_eq_ok_iff.mp h
  simp only [Review.ofResolutions, List.mem_map, List.mem_eraseDups,
    mem_iff_of_mapM_eq_ok hpaths]
  constructor
  · rintro ⟨p, ⟨t, ht, htp⟩, hx⟩
    exact ⟨t, ht, p, htp, hx⟩
  · rintro ⟨t, ht, p, htp, hx⟩
    exact ⟨p, ⟨t, ht, htp⟩, hx⟩

/-- The reviewers are the owners of the paths that are resolved, by name. -/
theorem mem_reviewers_iff (h : (a.review f texts).value = .ok r) {name : String} :
    name ∈ r.reviewers ↔ ∃ x ∈ r.resolutions, name ∈ x.ownerNames := by
  obtain ⟨paths, -, rfl⟩ := review_eq_ok_iff.mp h
  rw [Review.ofResolutions, List.mem_eraseDups, List.mem_flatMap]

/-- No reviewer is named twice. -/
theorem nodup_reviewers (h : (a.review f texts).value = .ok r) : r.reviewers.Nodup := by
  obtain ⟨paths, -, rfl⟩ := review_eq_ok_iff.mp h
  exact nodup_eraseDups _

/-! ## 5. The laws of reviewing -/

/-- **Two parts of a change** are reviewed one behind the other. -/
theorem review_append {ps qs : List String} {s : Review}
    (hr : (a.review f ps).value = .ok r) (hs : (a.review f qs).value = .ok s) :
    (a.review f (ps ++ qs)).value = .ok (r.followedBy s) := by
  obtain ⟨xs, hxs, rfl⟩ := review_eq_ok_iff.mp hr
  obtain ⟨ys, hys, rfl⟩ := review_eq_ok_iff.mp hs
  rw [review_eq_ok_iff]
  exact ⟨xs ++ ys, mapM_append_eq_ok_iff.mpr ⟨xs, ys, hxs, hys, rfl⟩,
    Review.ofResolutions_append _ xs ys⟩

/-- A change of one path is resolved as the path is. -/
theorem review_singleton (t : String) :
    (a.review f [t]).value.map Review.resolutions = (a.resolve f t).value.map fun x => [x] := by
  rw [Auditor.review, Auditor.resolve, List.mapM_cons, List.mapM_nil]
  cases readPath t <;> rfl

/-- **What a change is resolved to** does not depend on how its paths are spelled, in which order
and how often. -/
theorem exists_review_of_alike {ts us : List String} (hr : (a.review f ts).value = .ok r)
    (htu : ∀ t ∈ ts, ∃ u ∈ us, RepoPath.Alike t u)
    (hut : ∀ u ∈ us, ∃ t ∈ ts, RepoPath.Alike t u) :
    ∃ s, (a.review f us).value = .ok s ∧ ∀ x, x ∈ s.resolutions ↔ x ∈ r.resolutions := by
  have hread := exists_review_iff.mp ⟨r, hr⟩
  obtain ⟨s, hs⟩ : ∃ s, (a.review f us).value = .ok s := by
    refine exists_review_iff.mpr fun u hu => ?_
    obtain ⟨t, ht, hlike⟩ := hut u hu
    rw [← hlike.ofText_eq]
    exact hread t ht
  refine ⟨s, hs, fun x => ?_⟩
  rw [mem_resolutions_iff hs, mem_resolutions_iff hr]
  constructor
  · rintro ⟨u, hu, p, hp, hx⟩
    obtain ⟨t, ht, hlike⟩ := hut u hu
    exact ⟨t, ht, p, hlike.ofText_eq.trans hp, hx⟩
  · rintro ⟨t, ht, p, hp, hx⟩
    obtain ⟨u, hu, hlike⟩ := htu t ht
    exact ⟨u, hu, p, hlike.ofText_eq.symm.trans hp, hx⟩

/-- The laws of reviewing changes to the paths of a file. -/
structure ReviewLaws (a : Auditor) (f : OwnersFile) : Prop where
  /-- A change in two parts can be reviewed if both parts can. -/
  made_iff : ∀ ps qs, (∃ r, (a.review f (ps ++ qs)).value = .ok r) ↔
    (∃ r, (a.review f ps).value = .ok r) ∧ ∃ s, (a.review f qs).value = .ok s
  /-- Otherwise the first text of both that spells no path is to blame. -/
  fails_iff : ∀ ps qs e, (a.review f (ps ++ qs)).value = .error e ↔ FirstUnread (ps ++ qs) e
  /-- Of the second part is told what the first does not say. -/
  append_eq : ∀ ps qs r s, (a.review f ps).value = .ok r → (a.review f qs).value = .ok s →
    (a.review f (ps ++ qs)).value = .ok (r.followedBy s)
  /-- One path is resolved as it is by itself, or fails as it does by itself. -/
  singleton_eq : ∀ t,
    (a.review f [t]).value.map Review.resolutions = (a.resolve f t).value.map fun x => [x]
  reviewers_nodup : ∀ ts r, (a.review f ts).value = .ok r → r.reviewers.Nodup
  /-- Another order, repetitions and other spellings call for the same reviewers. -/
  alike : ∀ ts us r, (a.review f ts).value = .ok r →
    (∀ t ∈ ts, ∃ u ∈ us, RepoPath.Alike t u) → (∀ u ∈ us, ∃ t ∈ ts, RepoPath.Alike t u) →
    ∃ s, (a.review f us).value = .ok s ∧ (∀ x, x ∈ s.resolutions ↔ x ∈ r.resolutions) ∧
      ∀ name, name ∈ s.reviewers ↔ name ∈ r.reviewers

/-- **Reviews of changes compose**, and who reviews a change depends on its paths alone. -/
theorem review_composes (a : Auditor) (f : OwnersFile) : a.ReviewLaws f := by
  refine
    { made_iff := fun ps qs => ?made
      fails_iff := fun ps qs e => review_eq_error_iff
      append_eq := fun ps qs r s => review_append
      singleton_eq := review_singleton
      reviewers_nodup := fun ts r => nodup_reviewers
      alike := fun ts us r hr htu hut => ?alike }
  case made => simp only [exists_review_iff, List.forall_mem_append]
  case alike =>
    obtain ⟨s, hs, hsame⟩ := exists_review_of_alike hr htu hut
    refine ⟨s, hs, hsame, fun name => ?_⟩
    simp only [mem_reviewers_iff hs, mem_reviewers_iff hr, hsame]

/-- Two spellings of one path call for the reviewers of the path, and each is named once. -/
example : ((Auditor.mk .standard none none "").review (OwnersFile.ofText "/a @x\n/b @y @x")
    ["b", "./a", "b//"]).value.map Review.reviewers = .ok ["y", "x"] := by decide +kernel

end Auditor

end Ownership
