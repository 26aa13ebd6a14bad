/-
# The order of a listing

A listing that is spelled out is sorted by the texts of its paths, and a path that repeats the one
before it is dropped.  In a sorted list equal paths stand side by side, so what is left ascends
strictly: it holds the same paths, each once.

* `eraseDups_append_eq`: what stays of two lists, one behind the other;
* `Listing.Ascending`: paths in strictly ascending order of their texts;
* `Listing.ascending_dropRepeats`: what dropping repetitions makes of a sorted list;
* `Listing.Ascending.eq_of_mem_iff`: such a list is told by what it holds;
* `Listing.perm_eraseDups`: a listing holds the paths that were spelled, each once;
* `Listing.exists_ofTexts_iff`, `Listing.ofTexts_eq_error_iff`: which texts can be listed;
* `Listing.mem_ofTexts_iff`, `Listing.eq_iff_paths_eq`: what a listing holds, and what it tells.
-/
import Mathlib.Data.Set.Basic
import Mathlib.Data.String.Basic
import Ownership.Listing
import Ownership.Proofs.Result

namespace Ownership

theorem nodup_eraseDups {α : Type} [DecidableEq α] : ∀ xs : List α, xs.eraseDups.Nodup
  | [] => List.nodup_nil
  | x :: xs => by
    rw [List.eraseDups_cons, List.nodup_cons]
    exact ⟨by simp [List.mem_eraseDups], nodup_eraseDups _⟩
termination_by xs => xs.length
decreasing_by exact Nat.lt_succ_of_le (List.length_filter_le _ _)

/-- Choosing elements and dropping repetitions can be done in either order. -/
theorem eraseDups_filter {α : Type} [DecidableEq α] (p : α → Bool) :
    ∀ xs : List α, (xs.filter p).eraseDups = xs.eraseDups.filter p
  | [] => rfl
  | x :: xs => by
    have ih := eraseDups_filter p (xs.filter fun y => !y == x)
    rw [List.eraseDups_cons]
    by_cases hx : p x = true
    · rw [List.filter_cons_of_pos hx, List.filter_cons_of_pos hx, List.eraseDups_cons, ← ih,
        List.filter_comm]
    · rw [List.filter_cons_of_neg hx, List.filter_cons_of_neg hx, ← ih, List.filter_filter]
      -- What is chosen is not the head, so that taking the head out changes nothing.
      refine congrArg _ (List.filter_congr fun y _ => ?_)
      by_cases hy : y = x
      · simp [hy, hx]
      · simp [hy]
termination_by xs => xs.length
decreasing_by exact Nat.lt_succ_of_le (List.length_filter_le _ _)

/-- **Two lists without repetitions, one behind the other**: of the second stay the elements that
the first does not hold. -/
theorem eraseDups_append_eq {α : Type} [DecidableEq α] (xs ys : List α) :
    (xs ++ ys).eraseDups = xs.eraseDups ++ ys.eraseDups.filter (· ∉ xs) := by
  rw [List.eraseDups_append, List.removeAll, eraseDups_filter]
  refine congrArg _ (List.filter_congr fun y _ => ?_)
  simp

namespace Listing

/-! ## 1. Repetitions -/

section Repetitions

variable {α : Type} [DecidableEq α] {x y : α} {xs : List α}

theorem dropRepeats_cons (x : α) (xs : List α) :
    dropRepeats (x :: xs) =
      if (dropRepeats xs).head? = some x then dropRepeats xs else x :: dropRepeats xs := rfl

/-- Dropping repetitions loses no element. -/
theorem mem_dropRepeats : y ∈ dropRepeats xs ↔ y ∈ xs := by
  induction xs with
  | nil => rfl
  | cons x xs ih =>
    rw [dropRepeats_cons]
    split
    · rename_i hhead
      rw [ih, List.mem_cons, or_iff_right_of_imp]
      rintro rfl
      exact ih.mp (List.mem_of_head? hhead)
    · rw [List.mem_cons, List.mem_cons, ih]

end Repetitions

/-! ## 2. The order of the texts -/

/-- Each path comes before all paths behind it in the order of texts, so that none repeats. -/
def Ascending (ps : List RepoPath) : Prop := ps.Pairwise fun p q => p.text < q.text

theorem Ascending.nodup {ps : List RepoPath} (h : Ascending ps) : ps.Nodup := by
  refine h.imp fun {p q} hlt heq => ?_
  exact absurd (congrArg RepoPath.text heq) hlt.ne

/-- **Paths in ascending order are told by which they are.** -/
theorem Ascending.eq_of_mem_iff {ps qs : List RepoPath} (hps : Ascending ps) (hqs : Ascending qs)
    (h : ∀ p, p ∈ ps ↔ p ∈ qs) : ps = qs := by
  have hperm : ps.Perm qs := (List.perm_ext_iff_of_nodup hps.nodup hqs.nodup).mpr h
  exact hperm.eq_of_pairwise (fun p q _ _ hpq hqp => absurd hqp hpq.asymm) hps hqs

theorem pairwise_text_sort (ps : List RepoPath) :
    (sort ps).Pairwise fun p q => p.text ≤ q.text := by
  refine (List.pairwise_mergeSort ?_ ?_ ps).imp of_decide_eq_true
  · intro p q r hpq hqr
    exact decide_eq_true ((of_decide_eq_true hpq).trans (of_decide_eq_true hqr))
  · intro p q
    simpa using le_total p.text q.text

theorem mem_sort {ps : List RepoPath} {p : RepoPath} : p ∈ sort ps ↔ p ∈ ps :=
  (List.mergeSort_perm ps _).mem_iff

/-- **A sorted list without repetitions ascends strictly.** -/
theorem ascending_dropRepeats {ps : List RepoPath}
    (h : ps.Pairwise fun p q => p.text ≤ q.text) : Ascending (dropRepeats ps) := by
  induction ps with
  | nil => exact List.Pairwise.nil
  | cons p ps ih =>
    have ih := ih h.of_cons
    rw [dropRepeats_cons]
    split
    · exact ih
    · rename_i hhead
      -- What is kept next comes after `p`, and everything behind comes after that.
      cases hdrop : dropRepeats ps with
      | nil => exact List.pairwise_singleton _ p
      | cons q qs =>
        rw [hdrop] at hhead ih
        have hq : q ∈ ps := mem_dropRepeats.mp (hdrop ▸ List.mem_cons_self)
        have hne : p.text ≠ q.text := fun heq => hhead (congrArg (some ∘ RepoPath.mk) heq.symm)
        have hlt : p.text < q.text := (List.rel_of_pairwise_cons h hq).lt_of_ne hne
        refine List.Pairwise.cons (fun r hr => ?_) ih
        rcases List.mem_cons.mp hr with rfl | hr
        · exact hlt
        · exact hlt.trans (List.rel_of_pairwise_cons ih hr)

theorem ascending_dropRepeats_sort (ps : List RepoPath) : Ascending (dropRepeats (sort ps)) :=
  ascending_dropRepeats (pairwise_text_sort ps)

/-- **Sorting and dropping repetitions keeps each path once.** -/
theorem perm_eraseDups (ps : List RepoPath) : (dropRepeats (sort ps)).Perm ps.eraseDups := by
  refine (List.perm_ext_iff_of_nodup ?_ (nodup_eraseDups ps)).mpr fun p => ?_
  · exact (ascending_dropRepeats_sort ps).nodup
  · rw [mem_dropRepeats, mem_sort, List.mem_eraseDups]

/-! ## 3. Paths that are spelled out -/

theorem ofTexts_eq_ok_iff {texts : List String} {ps : List RepoPath} :
    ofTexts texts = .ok ps ↔
      ∃ qs, texts.mapM RepoPath.ofText = .ok qs ∧ dropRepeats (sort qs) = ps := by
  rw [ofTexts, bind_eq_ok_iff]
  exact exists_congr fun qs => and_congr_right' (iff_of_eq (Except.ok.injEq _ _))

/-- Each of the texts spells a path. -/
def Spelled (texts : List String) : Prop := ∀ t ∈ texts, ∃ p, RepoPath.ofText t = .ok p

/-- The first of the texts that spells no path has this problem. -/
def FirstProblem (texts : List String) (e : PathProblem) : Prop :=
  ∃ before t after, texts = before ++ t :: after ∧ Spelled before ∧ RepoPath.ofText t = .error e

/-- The paths that the texts spell. -/
def paths (texts : List String) : Set RepoPath := {p | ∃ t ∈ texts, RepoPath.ofText t = .ok p}

theorem exists_ofTexts_iff {texts : List String} :
    (∃ ps, ofTexts texts = .ok ps) ↔ Spelled texts := by
  rw [Spelled, ← exists_mapM_eq_ok_iff]
  simp only [ofTexts_eq_ok_iff]
  constructor
  · rintro ⟨_, qs, hqs, -⟩
    exact ⟨qs, hqs⟩
  · rintro ⟨qs, hqs⟩
    exact ⟨_, qs, hqs, rfl⟩

/-- **Texts that cannot be listed** have the problem of the first of them that spells no path. -/
theorem ofTexts_eq_error_iff {texts : List String} {e : PathProblem} :
    ofTexts texts = .error e ↔ FirstProblem texts e := by
  rw [ofTexts, bind_eq_error_iff, mapM_eq_error_iff]
  exact or_iff_left fun ⟨_, _, h⟩ => by cases h

variable {texts texts' : List String} {ps ps' : List RepoPath}

theorem ascending_ofTexts (h : ofTexts texts = .ok ps) : Ascending ps := by
  obtain ⟨qs, -, rfl⟩ := ofTexts_eq_ok_iff.mp h
  exact ascending_dropRepeats_sort qs

/-- **What a listing holds**: the paths that are spelled. -/
theorem mem_ofTexts_iff (h : ofTexts texts = .ok ps) {p : RepoPath} :
    p ∈ ps ↔ p ∈ paths texts := by
  obtain ⟨qs, hqs, rfl⟩ := ofTexts_eq_ok_iff.mp h
  rw [mem_dropRepeats, mem_sort]
  exact mem_iff_of_mapM_eq_ok hqs

/-- **What a listing tells**: which paths were spelled, and nothing else. -/
theorem eq_iff_paths_eq (h : ofTexts texts = .ok ps) (h' : ofTexts texts' = .ok ps') :
    ps = ps' ↔ paths texts = paths texts' := by
  rw [Set.ext_iff]
  simp only [← mem_ofTexts_iff h, ← mem_ofTexts_iff h']
  constructor
  · rintro rfl
    exact fun p => Iff.rfl
  · exact (ascending_ofTexts h).eq_of_mem_iff (ascending_ofTexts h')

end Listing

end Ownership
