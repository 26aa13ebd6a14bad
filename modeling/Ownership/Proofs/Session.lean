/-
# The paths of a session

A session starts on a disk that holds nothing but its working directory, and changes it step by
step.  Each step keeps the names on the disk such as directories can hold.  So all paths that a step
answers with have been read, from a proposal, from the spelling of a listing, or from such a disk,
and are canonical for it; whatever a session reports on is a path of one form.

* `Answer.paths`: the paths in an answer;
* `Session.isNamed_step`, `Session.isRead_of_step`: one step;
* `Session.isRead_of_mem_run`, `Session.isCanonical_of_mem_run_start`: a whole session.
-/
import Ownership.Proofs.Auditor.Review
import Ownership.Proofs.RepoPath
import Ownership.Session

namespace Ownership

/-! ## 1. Operations -/

/-- The paths in an answer. -/
def Answer.paths : Answer → List RepoPath
  | .resolved r => [r.path]
  | .reviewed r => r.resolutions.map Resolution.path ++ r.unowned
  | .covered c => c.unowned
  | .listed ps => ps
  | .done | .loaded _ | .located _ | .rendered _ | .policy _ | .compiled _ | .linted _ => []

theorem Setup.tree?_of_auditor {s : Setup} {now : String} {a : Auditor}
    (h : s.auditor now = .ok a) : s.tree? = .ok a.tree := by
  obtain ⟨policy, -, h⟩ := bind_eq_ok_iff.mp h
  obtain ⟨tree, htree, h⟩ := bind_eq_ok_iff.mp h
  cases h
  exact mapError_eq_ok_iff.mp htree

/-- The files of a repository are spelled in the setup, or are walked to on the disk. -/
theorem Setup.isRead_of_mem_files {s : Setup} {tree : Tree} (htree : s.tree? = .ok (some tree))
    {d : Disk} (h : d.root.Named) {ps : List RepoPath} (hps : tree.files d = .ok ps) :
    ∀ p ∈ ps, p.IsRead := by
  unfold tree? at htree
  split at htree
  · cases htree
  · rename_i request _
    obtain ⟨t, ht, hsome⟩ := map_eq_ok_iff.mp htree
    cases hsome
    cases request with
    | paths texts =>
      obtain ⟨qs, hqs, hlisted⟩ := map_eq_ok_iff.mp ht
      cases hlisted
      cases hps
      exact fun p hp => .spelled texts _ hqs hp
    | workingCopy root =>
      cases ht
      exact fun p hp => .walked d root ps h hps hp

namespace Auditor

variable {a : Auditor} {f : OwnersFile} {d : Disk}

theorem ofText_path_of_resolve {text : String} {r : Resolution}
    (h : (a.resolve f text).value = .ok r) : RepoPath.ofText text = .ok r.path := by
  obtain ⟨path, hpath, rfl⟩ := resolve_eq_ok_iff.mp h
  exact hpath

/-- The paths of a review are those of the change. -/
theorem exists_of_review {texts : List String} {r : Review}
    (h : (a.review f texts).value = .ok r) {p : RepoPath}
    (hp : p ∈ r.resolutions.map Resolution.path ++ r.unowned) :
    ∃ text ∈ texts, RepoPath.ofText text = .ok p := by
  obtain ⟨paths, hpaths, rfl⟩ := review_eq_ok_iff.mp h
  -- Whoever owns it, a path in the review is that of a resolution.
  have hresolution : p ∈ (paths.eraseDups.map (a.compile f).resolve).map Resolution.path := by
    rcases List.mem_append.mp hp with hp | hp
    · exact hp
    · exact List.map_subset _ List.filter_sublist.subset hp
  obtain ⟨r, hr, rfl⟩ := List.mem_map.mp hresolution
  obtain ⟨q, hq, rfl⟩ := List.mem_map.mp hr
  exact exists_of_mem_of_mapM_eq_ok hpaths q (List.mem_eraseDups.mp hq)

/-- The paths that nobody owns are files of the repository. -/
theorem exists_of_coverage {c : Coverage} (h : (a.coverage d f).value = .ok c) :
    ∃ tree ps, a.tree = some tree ∧ tree.files d = .ok ps ∧ ∀ p ∈ c.unowned, p ∈ ps := by
  unfold coverage at h
  split at h
  · cases h
  · rename_i files hfiles
    cases h
    unfold countedFiles at hfiles
    split at hfiles
    · rename_i tree htree
      obtain ⟨ignore, -, hfiles⟩ := bind_eq_ok_iff.mp hfiles
      obtain ⟨ps, hps, hfiles⟩ := bind_eq_ok_iff.mp hfiles
      cases hfiles
      exact ⟨tree, ps, htree, mapError_eq_ok_iff.mp hps, fun p hp =>
        List.mem_of_mem_filter (List.mem_of_mem_filter hp)⟩
    · cases hfiles

end Auditor

/-- **The paths that an operation answers with have been read.** -/
theorem Operation.isRead_of_run {s : Setup} {now : String} {a : Auditor}
    (ha : s.auditor now = .ok a) {d : Disk} (h : d.root.Named) {f : OwnersFile} {o : Operation}
    {answer : Answer} (hrun : (o.run a d f).value = .ok answer) : ∀ p ∈ answer.paths, p.IsRead := by
  intro p hp
  cases o with
  | resolve text =>
    obtain ⟨r, hr, rfl⟩ := map_eq_ok_iff.mp hrun
    rw [List.mem_singleton.mp hp]
    exact .proposed text (Auditor.ofText_path_of_resolve hr)
  | review texts =>
    obtain ⟨r, hr, rfl⟩ := map_eq_ok_iff.mp hrun
    obtain ⟨text, -, hread⟩ := Auditor.exists_of_review hr hp
    exact .proposed text hread
  | coverage =>
    obtain ⟨c, hc, rfl⟩ := map_eq_ok_iff.mp hrun
    obtain ⟨tree, ps, htree, hps, hmem⟩ := Auditor.exists_of_coverage hc
    have hsetup := Setup.tree?_of_auditor ha
    rw [htree] at hsetup
    exact Setup.isRead_of_mem_files hsetup h hps p (hmem p hp)
  | load root | loadFile path | locate root =>
    obtain ⟨_, -, rfl⟩ := map_eq_ok_iff.mp hrun
    exact absurd hp List.not_mem_nil
  | loadText text | reload | render | policy | compile | lint =>
    cases hrun
    exact absurd hp List.not_mem_nil

namespace Session

variable {s : Session}

/-! ## 2. One step -/

theorem disk_keep (r : Except Failure Answer) : (s.keep r).disk = s.disk := by
  unfold keep
  split <;> rfl

/-- No operation changes the disk. -/
theorem disk_operate (o : Operation) : (s.operate o).1.disk = s.disk := by
  unfold operate
  split
  · rfl
  · exact disk_keep _

theorem isNamed_alter (h : s.disk.IsNamed) {r : Except DiskError Disk}
    (hr : ∀ d, r = .ok d → d.IsNamed) : (s.alter r).1.disk.IsNamed := by
  cases r with
  | error e => exact h
  | ok d => exact hr d rfl

/-- **A step keeps the names on the disk** such as directories can hold. -/
theorem isNamed_step (h : s.disk.IsNamed) (x : Step) : (s.step x).1.disk.IsNamed := by
  cases x with
  | configure change => exact h
  | operate o => rw [step, disk_operate]; exact h
  | write path content => exact isNamed_alter h fun _ => Disk.isNamed_write h
  | makeDirectory path => exact isNamed_alter h fun _ => Disk.isNamed_makeDirectory h
  | makeLink path target => exact isNamed_alter h fun _ => Disk.isNamed_makeLink h
  | remove path => exact isNamed_alter h fun _ => Disk.isNamed_remove h
  | list root => exact h

theorem paths_alter {r : Except DiskError Disk} {answer : Answer}
    (h : (s.alter r).2.value = .ok answer) : answer.paths = [] := by
  cases r with
  | error e => cases h
  | ok d => cases h; rfl

/-- **The paths that a step answers with have been read.** -/
theorem isRead_of_step (h : s.disk.IsNamed) {x : Step} {answer : Answer}
    (hstep : (s.step x).2.value = .ok answer) : ∀ p ∈ answer.paths, p.IsRead := by
  cases x with
  | operate o =>
    simp only [step, operate] at hstep
    split at hstep
    · cases hstep
    · rename_i a ha
      exact Operation.isRead_of_run ha h.root (mapError_eq_ok_iff.mp hstep)
  | list root =>
    obtain ⟨ps, hps, rfl⟩ := map_eq_ok_iff.mp (mapError_eq_ok_iff.mp hstep)
    exact fun p hp => .walked s.disk root ps h.root hps hp
  | configure change =>
    cases hstep
    exact fun p hp => absurd hp List.not_mem_nil
  | _ =>
    rw [paths_alter hstep]
    exact fun p hp => absurd hp List.not_mem_nil

/-! ## 3. A whole session -/

/-- **The paths that a session answers with have been read**, if nothing is wrong with the names on
the disk that it starts from. -/
theorem isRead_of_mem_run {steps : List Step} {answer : Answer} {kept : List Kept} :
    ∀ {s : Session}, s.disk.IsNamed → (.ok answer, kept) ∈ s.run steps →
      ∀ p ∈ answer.paths, p.IsRead := by
  induction steps with
  | nil => exact fun _ hmem => absurd hmem List.not_mem_nil
  | cons x xs ih =>
    intro s h hmem
    rcases List.mem_cons.mp hmem with heq | hmem
    · exact isRead_of_step h (congrArg Prod.fst heq).symm
    · exact ih (isNamed_step h x) hmem

/-- **Every path that a session answers with is canonical.** -/
theorem isCanonical_of_mem_run_start {setup : Setup} {now : String} {steps : List Step}
    {answer : Answer} {kept : List Kept} (h : (.ok answer, kept) ∈ (start setup now).run steps) :
    ∀ p ∈ answer.paths, p.IsCanonical :=
  fun p hp => (isRead_of_mem_run Disk.isNamed_fresh h p hp).isCanonical

end Session

end Ownership
