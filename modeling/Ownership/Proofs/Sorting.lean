/-
# Sorting by a key

A list is sorted by a key of its elements, and elements with the same key stay in the order they
came in.  So a sorted list is known from its fibres, the elements with one key each: sorting changes
no fibre, and two lists in the order of keys that have the same fibres are equal.

What is gathered group by group in several rounds, all groups in each round, is sorted into the
groups one behind the other, if the keys of the groups ascend: in the fibre of a group the rounds
follow each other in both lists.

* `filter_key_mergeSort`: sorting changes no fibre;
* `mergeSort_eq_of_filter_key_eq`: what a list is sorted into;
* `mergeSort_two_rounds`: two rounds over the same groups.
-/
import Mathlib.Data.List.Basic

namespace Ownership

section Key

variable {α β : Type} {key : α → Nat}

/-! ## 1. Fibres -/

/-- Elements with the same key are in order, however they stand. -/
theorem pairwise_of_forall_key_eq {xs : List α} {k : Nat} (h : ∀ x ∈ xs, key x = k) :
    xs.Pairwise fun x y => key x ≤ key y := by
  refine List.Pairwise.imp_of_mem (fun hx hy _ => ?_) (List.pairwise_of_forall fun _ _ => trivial)
  exact Nat.le_of_eq ((h _ hx).trans (h _ hy).symm)

variable (key)

theorem key_le_trans (x y z : α) (hxy : decide (key x ≤ key y) = true)
    (hyz : decide (key y ≤ key z) = true) : decide (key x ≤ key z) = true :=
  decide_eq_true (Nat.le_trans (of_decide_eq_true hxy) (of_decide_eq_true hyz))

theorem key_le_total (x y : α) : (decide (key x ≤ key y) || decide (key y ≤ key x)) = true := by
  simpa using Nat.le_total (key x) (key y)

theorem pairwise_key_mergeSort (xs : List α) :
    (xs.mergeSort fun x y => decide (key x ≤ key y)).Pairwise fun x y => key x ≤ key y :=
  (List.pairwise_mergeSort (key_le_trans key) (key_le_total key) xs).imp of_decide_eq_true

/-- **Sorting changes no fibre.** -/
theorem filter_key_mergeSort (xs : List α) (k : Nat) :
    (xs.mergeSort fun x y => decide (key x ≤ key y)).filter (fun x => key x == k) =
      xs.filter fun x => key x == k := by
  set sorted := xs.mergeSort fun x y => decide (key x ≤ key y)
  have hperm : (sorted.filter fun x => key x == k).Perm (xs.filter fun x => key x == k) :=
    (List.mergeSort_perm xs _).filter _
  -- A fibre is in order by itself, so that sorting keeps it together.
  have hfibre : (xs.filter fun x => key x == k).Pairwise
      fun x y => decide (key x ≤ key y) = true :=
    (pairwise_of_forall_key_eq fun x hx => eq_of_beq (List.mem_filter.mp hx).2).imp decide_eq_true
  have hsub : (xs.filter fun x => key x == k).Sublist (sorted.filter fun x => key x == k) := by
    have h := (List.sublist_mergeSort (key_le_trans key) (key_le_total key) hfibre
      List.filter_sublist).filter fun x => key x == k
    rwa [List.filter_filter, funext fun x => Bool.and_self (key x == k)] at h
  exact (hsub.eq_of_length hperm.length_eq.symm).symm

variable {key}

/-- The first elements of two lists in order have one key, if the fibres are equal. -/
theorem key_le_of_filter_key_eq {x y : α} {xs ys : List α}
    (hy : (y :: ys).Pairwise fun x y => key x ≤ key y)
    (h : ∀ k, (x :: xs).filter (fun x => key x == k) = (y :: ys).filter fun x => key x == k) :
    key y ≤ key x := by
  have hmem : x ∈ (y :: ys).filter fun z => key z == key x := by
    rw [← h]
    exact List.mem_filter.mpr ⟨List.mem_cons_self, beq_self_eq_true _⟩
  rcases List.mem_cons.mp (List.mem_filter.mp hmem).1 with rfl | hmem
  · exact Nat.le_refl _
  · exact List.rel_of_pairwise_cons hy hmem

/-- **A list in order is known from its fibres.** -/
theorem eq_of_filter_key_eq {xs : List α} :
    ∀ {ys : List α}, xs.Pairwise (fun x y => key x ≤ key y) →
      ys.Pairwise (fun x y => key x ≤ key y) →
      (∀ k, xs.filter (fun x => key x == k) = ys.filter fun x => key x == k) → xs = ys := by
  induction xs with
  | nil =>
    intro ys _ _ h
    cases ys with
    | nil => rfl
    | cons y ys => exact absurd (h (key y)) (by simp)
  | cons x xs ih =>
    intro ys hx hy h
    cases ys with
    | nil => exact absurd (h (key x)) (by simp)
    | cons y ys =>
      have hkey : key x = key y := Nat.le_antisymm
        (key_le_of_filter_key_eq hx fun k => (h k).symm) (key_le_of_filter_key_eq hy h)
      obtain rfl : x = y := by
        have hfirst := h (key x)
        rw [List.filter_cons_of_pos (by simp), List.filter_cons_of_pos (by simp [hkey])] at hfirst
        exact (List.cons.inj hfirst).1
      have hrest : ∀ k, xs.filter (fun x => key x == k) = ys.filter fun x => key x == k := by
        intro k
        have hk := h k
        rw [List.filter_cons, List.filter_cons] at hk
        split at hk
        · exact (List.cons.inj hk).2
        · exact hk
      rw [ih hx.of_cons hy.of_cons hrest]

/-- **What a list is sorted into**: the list in order that has the same fibres. -/
theorem mergeSort_eq_of_filter_key_eq {xs ys : List α}
    (hy : ys.Pairwise fun x y => key x ≤ key y)
    (h : ∀ k, xs.filter (fun x => key x == k) = ys.filter fun x => key x == k) :
    (xs.mergeSort fun x y => decide (key x ≤ key y)) = ys :=
  eq_of_filter_key_eq (pairwise_key_mergeSort key xs) hy fun k =>
    (filter_key_mergeSort key xs k).trans (h k)

/-! ## 2. Groups -/

variable {group : β → Nat} {first second : β → List α} {bs : List β}

/-- A group has no part in the fibres of the groups that come later. -/
theorem filter_key_flatMap_eq_nil {k : Nat} {part : β → List α}
    (hpart : ∀ b, ∀ x ∈ part b, key x = group b) (h : ∀ b ∈ bs, group b ≠ k) :
    (bs.flatMap part).filter (fun x => key x == k) = [] := by
  refine List.filter_eq_nil_iff.mpr fun x hx hk => ?_
  obtain ⟨b, hb, hxb⟩ := List.mem_flatMap.mp hx
  exact h b hb ((hpart b x hxb).symm.trans (eq_of_beq hk))

/-- In the fibre of a group the second round follows the first, whether the rounds are gathered one
after the other or group by group. -/
theorem filter_key_two_rounds (hasc : bs.Pairwise fun b c => group b < group c)
    (hfirst : ∀ b, ∀ x ∈ first b, key x = group b)
    (hsecond : ∀ b, ∀ x ∈ second b, key x = group b) (k : Nat) :
    (bs.flatMap first ++ bs.flatMap second).filter (fun x => key x == k) =
      (bs.flatMap fun b => first b ++ second b).filter fun x => key x == k := by
  induction bs with
  | nil => rfl
  | cons b bs ih =>
    have ih := ih hasc.of_cons
    simp only [List.flatMap_cons, List.filter_append] at ih ⊢
    by_cases hk : group b = k
    · have hne : ∀ c ∈ bs, group c ≠ k := fun c hc =>
        hk ▸ Nat.ne_of_gt (List.rel_of_pairwise_cons hasc hc)
      rw [← ih, filter_key_flatMap_eq_nil hfirst hne, filter_key_flatMap_eq_nil hsecond hne]
      simp
    · have hnil : ∀ {part : β → List α}, (∀ b, ∀ x ∈ part b, key x = group b) →
          (part b).filter (fun x => key x == k) = [] := fun hpart =>
        List.filter_eq_nil_iff.mpr fun x hx hxk => hk ((hpart b x hx).symm.trans (eq_of_beq hxk))
      rw [← ih, hnil hfirst, hnil hsecond]
      simp

/-- **Two rounds over groups in order are sorted into the groups**, with what stands before all of
them in front. -/
theorem mergeSort_two_rounds {front : List α} (hasc : bs.Pairwise fun b c => group b < group c)
    (hfirst : ∀ b, ∀ x ∈ first b, key x = group b)
    (hsecond : ∀ b, ∀ x ∈ second b, key x = group b)
    (hfront : front.Pairwise fun x y => key x ≤ key y)
    (hbelow : ∀ x ∈ front, ∀ b ∈ bs, key x ≤ group b) :
    ((front ++ bs.flatMap first ++ bs.flatMap second).mergeSort
        fun x y => decide (key x ≤ key y)) =
      front ++ bs.flatMap fun b => first b ++ second b := by
  have hboth : ∀ b, ∀ x ∈ first b ++ second b, key x = group b := by
    intro b x hx
    rcases List.mem_append.mp hx with hx | hx
    · exact hfirst b x hx
    · exact hsecond b x hx
  refine mergeSort_eq_of_filter_key_eq ?_ fun k => ?_
  · refine List.pairwise_append.mpr ⟨hfront, List.pairwise_flatMap.mpr ⟨fun b _ => ?_, ?_⟩, ?_⟩
    · exact pairwise_of_forall_key_eq (hboth b)
    · refine hasc.imp fun {b c} hbc x hx y hy => ?_
      rw [hboth b x hx, hboth c y hy]
      exact Nat.le_of_lt hbc
    · intro x hx y hy
      obtain ⟨b, hb, hyb⟩ := List.mem_flatMap.mp hy
      rw [hboth b y hyb]
      exact hbelow x hx b hb
  · rw [List.append_assoc, List.filter_append, filter_key_two_rounds hasc hfirst hsecond,
      ← List.filter_append]

end Key

end Ownership
