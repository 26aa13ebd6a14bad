/-
# What a glob covers beneath a path

A glob that covers a directory is meant to cover all that lies beneath it, and a glob that ends in
a slash and a star only the direct children of a directory.  Which of the two holds is decided at
the end of the glob alone: the segments take what they take, and the end says what may be left
over.  So a path is made longer at its end by leaving more over (`Shape.Leaves.append`), unless the
end is closed (`Shape.IsClosed`), and then nothing is left over at all.

Both rules have an exception.  What is left over must hold no line feed, though a segment that is
taken may; so a glob does not cover a name with a line feed beneath a path that it covers, and
where the glob says how many segments it takes this is the only exception.  And the end is closed
only behind another segment, so that of all globs that end in a slash and a star the glob `/*`,
which has one segment, reaches into every directory.

* `suffix_slash_star_iff`: which shapes end in a slash and a star;
* `Takes.length_eq`: how many segments are taken, if `**` does not leave it open;
* `covers_beneath`: what is covered beneath a path;
* `forall_length_eq_iff`: which globs stay among the children.
-/
import Ownership.Proofs.Glob.Segments

namespace Ownership.Glob

/-! ## 1. The end of the text -/

theorem Shape.WellFormed.exists_segs_eq {s : Shape} (h : s.WellFormed) :
    ∃ ss last, s.segs = ss ++ [last] :=
  ⟨_, _, (List.dropLast_append_getLast h.segs_ne_nil).symm⟩

theorem closed_concat (ds : List (List Char)) (d : List Char) :
    closed (ds ++ [d]) = closed ds ++ d ++ ['/'] := by
  simp [closed]

/-- What stands in front of the last segment: a slash if the glob is rooted, and the other segments
with their slashes. -/
def Shape.front (s : Shape) : List Char :=
  (if s.rooted then ['/'] else []) ++ closed s.segs.dropLast

theorem Shape.text_eq_front_append {s : Shape} (h : s.WellFormed) :
    s.text = s.front ++ s.segs.getLastD [] ++ (if s.beneath then ['/'] else []) := by
  obtain ⟨ss, last, hsegs⟩ := h.exists_segs_eq
  have hjoin : join s.segs = closed ss ++ last := by
    rw [hsegs, ← closed_append_join (List.cons_ne_nil last []), join_singleton]
  rw [s.text_eq_join, hjoin, Shape.front, hsegs, List.dropLast_concat, List.getLastD_concat]
  simp only [List.append_assoc]

/-- The front is empty, or it ends in a slash: then the glob is tied to the root. -/
theorem Shape.tied_iff_exists_front {s : Shape} : s.Tied ↔ ∃ t, s.front = t ++ ['/'] := by
  rcases List.eq_nil_or_concat' s.segs.dropLast with hnil | ⟨us, u, hu⟩
  · have hlen : s.segs.length ≤ 1 := by
      have := congrArg List.length hnil
      rw [List.length_dropLast, List.length_nil] at this
      omega
    have hfront : s.front = if s.rooted then ['/'] else [] := by
      rw [Shape.front, hnil]
      exact List.append_nil _
    rw [Shape.Tied, hfront]
    cases s.rooted with
    | true => exact iff_of_true (Or.inl rfl) ⟨[], rfl⟩
    | false => exact iff_of_false (by simp; omega) (by simp)
  · have hlen : 1 < s.segs.length := by
      have := congrArg List.length hu
      rw [List.length_dropLast, List.length_append, List.length_singleton] at this
      omega
    refine iff_of_true (Or.inr hlen) ⟨(if s.rooted then ['/'] else []) ++ closed us ++ u, ?_⟩
    rw [Shape.front, hu, closed_concat]
    simp only [List.append_assoc]

/-- **Which globs end in a slash and a star**: the last segment is a star with a slash in front of
it and none behind. -/
theorem suffix_slash_star_iff {s : Shape} (h : s.WellFormed) :
    ['/', '*'] <:+ s.text ↔ s.beneath = false ∧ s.segs.getLastD [] = ['*'] ∧ s.Tied := by
  obtain ⟨ss, last, hsegs⟩ := h.exists_segs_eq
  have hlast : IsSegment last := h.isSegment last (by simp [hsegs])
  rw [Shape.text_eq_front_append h, Shape.tied_iff_exists_front, hsegs, List.getLastD_concat]
  cases s.beneath with
  | true =>
    refine iff_of_false ?_ (fun hs => Bool.false_ne_true hs.1.symm)
    rintro ⟨t, ht⟩
    have hend := congrArg List.getLast? ht
    simp at hend
  | false =>
    simp only [Bool.false_eq_true, if_false, List.append_nil, true_and]
    constructor
    · rintro ⟨t, ht⟩
      rcases List.eq_nil_or_concat' last with hnil | ⟨w, c, rfl⟩
      · exact absurd hnil hlast.1
      have hsplit : (t ++ ['/']) ++ ['*'] = (s.front ++ w) ++ [c] := by
        simpa using ht
      obtain ⟨hfront, hc⟩ := List.append_inj' hsplit rfl
      obtain rfl : '*' = c := (List.cons.inj hc).1
      -- A character before the star would be the slash, which no segment holds.
      rcases List.eq_nil_or_concat' w with rfl | ⟨v, d, rfl⟩
      · exact ⟨rfl, t, by simpa using hfront.symm⟩
      · have hd : ['/'] = [d] := by
          rw [← List.append_assoc] at hfront
          exact (List.append_inj' hfront rfl).2
        obtain rfl : '/' = d := (List.cons.inj hd).1
        exact absurd (by simp) hlast.2
    · rintro ⟨rfl, t, ht⟩
      exact ⟨t, by rw [ht, List.append_assoc]; rfl⟩

/-! ## 2. What is left over -/

/-- The end lets nothing be left over: a lone star behind other segments, and no slash behind. -/
def Shape.IsClosed (s : Shape) : Prop :=
  s.beneath = false ∧ s.segs.getLastD [] = ['*'] ∧ 1 < s.segs.length

theorem Shape.IsClosed.leaves_iff {s : Shape} (h : s.IsClosed) {left : List (List Char)} :
    s.Leaves left ↔ left = [] := by
  obtain ⟨hbeneath, hlast, hlen⟩ := h
  rw [Shape.Leaves, LeavesBehind, hlast, hbeneath, if_neg (by decide), if_neg Bool.false_ne_true,
    if_pos ⟨rfl, by simpa using hlen⟩]

/-- A glob with a slash and a star at its end is closed there, unless the two are all of it. -/
theorem Shape.isClosed_or_text_eq {s : Shape} (h : s.WellFormed) (hend : ['/', '*'] <:+ s.text) :
    s.IsClosed ∨ s.text = ['/', '*'] := by
  obtain ⟨hbeneath, hlast, htied⟩ := (suffix_slash_star_iff h).mp hend
  by_cases hlen : 1 < s.segs.length
  · exact Or.inl ⟨hbeneath, hlast, hlen⟩
  · have hrooted : s.rooted = true := htied.resolve_right hlen
    have hfront : s.segs.dropLast = [] := by
      rw [← List.length_eq_zero_iff, List.length_dropLast]
      omega
    right
    rw [Shape.text_eq_front_append h, Shape.front, hrooted, hfront, hlast, hbeneath]
    rfl

/-- **More may be left over** where the end is not closed. -/
theorem Shape.Leaves.append {s : Shape} {left : List (List Char)} (h : s.Leaves left)
    (hopen : ¬ s.IsClosed) (es : List (List Char)) : s.Leaves (left ++ es) := by
  unfold Shape.Leaves LeavesBehind at h ⊢
  split
  · rw [if_pos ‹_›] at h
    exact List.append_ne_nil_of_left_ne_nil h es
  · rw [if_neg ‹_›] at h
    split
    · rw [if_pos ‹_›] at h
      exact List.append_ne_nil_of_left_ne_nil h es
    · rename_i hbeneath
      split
      · rename_i hstar
        exact absurd ⟨by simpa using hbeneath, hstar.1, by simpa using hstar.2⟩ hopen
      · trivial

/-- A path that is covered may be made longer at its end, without line feeds. -/
theorem Shape.Covers.append {s : Shape} {ds es : List (List Char)} (h : s.Covers ds)
    (hopen : ¬ s.IsClosed) (hes : ∀ q ∈ es, '\n' ∉ q) : s.Covers (ds ++ es) := by
  obtain ⟨skipped, taken, left, rfl, hskip, htakes, hleaves, hnl⟩ := h
  refine ⟨skipped, taken, left ++ es, by simp only [List.append_assoc], hskip, htakes,
    hleaves.append hopen es, ?_⟩
  rw [← List.append_assoc]
  exact List.forall_mem_append.mpr ⟨hnl, hes⟩

/-! ## 3. How many segments are taken -/

/-- **Each segment takes one**, but for `**` as the last, which takes none. -/
theorem Takes.length_eq {ss : List (List Char)} {last : List Char} (hss : ['*', '*'] ∉ ss) :
    ∀ {taken : List (List Char)}, Takes (ss ++ [last]) taken →
      taken.length = ss.length + if last = ['*', '*'] then 0 else 1 := by
  induction ss with
  | nil =>
    intro taken h
    by_cases hlast : last = ['*', '*']
    · subst hlast
      rw [takes_last_any_iff.mp h]
      rfl
    · obtain ⟨q, rfl, -⟩ := (takes_last_iff hlast).mp h
      rw [if_neg hlast]
      rfl
  | cons s ss ih =>
    intro taken h
    have hs : s ≠ ['*', '*'] := fun hs => hss (hs ▸ List.mem_cons_self)
    obtain ⟨q, rest, rfl, -, hrest⟩ := (takes_one_iff hs).mp h
    rw [List.length_cons, List.length_cons, ih (fun h => hss (List.mem_cons_of_mem s h)) hrest]
    omega

/-- A shape with a closed end takes all of a path, a segment for each of its own. -/
theorem Shape.Covers.length_eq {s : Shape} {qs : List (List Char)} (hwf : s.WellFormed)
    (hclosed : s.IsClosed) (hany : ['*', '*'] ∉ s.segs) (h : s.Covers qs) :
    qs.length = s.segs.length := by
  obtain ⟨ss, last, hsegs⟩ := hwf.exists_segs_eq
  obtain ⟨skipped, taken, left, rfl, hskip, htakes, hleaves, -⟩ := h
  obtain rfl := hskip (Or.inr hclosed.2.2)
  obtain rfl := hclosed.leaves_iff.mp hleaves
  rw [hsegs] at hany htakes
  obtain ⟨hss, hlast⟩ := List.forall_mem_append.mp (List.forall_mem_ne'.mpr hany)
  have hlen := htakes.length_eq (List.forall_mem_ne'.mp hss)
  rw [if_neg (hlast last List.mem_cons_self)] at hlen
  rw [List.nil_append, List.append_nil, hlen, hsegs, List.length_append, List.length_singleton]

/-- A tied shape that does not leave open how many segments it takes leaves over what is behind
them, so all of that is free of line feeds. -/
theorem Shape.Covers.newline_not_mem {s : Shape} {ds es : List (List Char)} (hwf : s.WellFormed)
    (htied : s.Tied) (hany : ['*', '*'] ∉ s.segs.dropLast) (hds : s.Covers ds)
    (h : s.Covers (ds ++ es)) : ∀ q ∈ es, '\n' ∉ q := by
  obtain ⟨ss, last, hsegs⟩ := hwf.exists_segs_eq
  rw [hsegs, List.dropLast_concat] at hany
  obtain ⟨skipped, taken, left, rfl, hskip, htakes, -, -⟩ := hds
  obtain ⟨skipped', taken', left', heq, hskip', htakes', -, hnl⟩ := h
  obtain rfl := hskip htied
  obtain rfl := hskip' htied
  rw [hsegs] at htakes htakes'
  have hlen : taken.length = taken'.length :=
    (htakes.length_eq hany).trans (htakes'.length_eq hany).symm
  rw [List.nil_append, List.nil_append, List.append_assoc] at heq
  obtain ⟨-, hleft⟩ := List.append_inj heq hlen
  intro q hq
  exact hnl q (by rw [List.nil_append, ← hleft]; exact List.mem_append_right left hq)

/-! ## 4. Globs -/

/-- A glob covers the paths that its shape covers. -/
theorem covers_ofSegments_iff {text : String} {g : Glob} (hg : Glob.ofText text = .ok g)
    {qs : List (List Char)} (hne : qs ≠ []) (hqs : ∀ q ∈ qs, IsSegment q) :
    g.covers (RepoPath.ofSegments qs).text = true ↔ (shapeOf text.toList).Covers qs := by
  obtain ⟨hrefusal, rfl⟩ := ofText_eq_ok_iff.mp hg
  have hpath : (RepoPath.ofSegments qs).text.toList = join qs := by
    rw [RepoPath.ofSegments, String.toList_ofList, join]
  obtain ⟨c, hc, hslash⟩ := head?_join hne hqs
  have hhead : (RepoPath.ofSegments qs).text.toList.head? ≠ some '/' := by
    rw [hpath, hc]
    simpa using hslash
  rw [covers_iff_mem_language hhead, hpath,
    ← mem_language_iff_covers (shapeOf_wellFormed hrefusal) hne hqs, text_shapeOf]

/-- **What a glob covers beneath a path that it covers**, unless it ends in a slash and a star: all
that holds no line feed.  Nor does it cover anything else there if it is tied to the root and only
its last segment may be `**`. -/
theorem covers_beneath {text : String} {g : Glob} (hg : Glob.ofText text = .ok g)
    (hend : ¬ ['/', '*'] <:+ text.toList) {ds es : List (List Char)} (hne : ds ≠ [])
    (hds : ∀ q ∈ ds, IsSegment q) (hes : ∀ q ∈ es, IsSegment q)
    (hcovers : g.covers (RepoPath.ofSegments ds).text = true) :
    ((∀ q ∈ es, '\n' ∉ q) → g.covers (RepoPath.ofSegments (ds ++ es)).text = true) ∧
      (isTied text.toList = true → anySegments ∉ (segments text.toList).dropLast →
        g.covers (RepoPath.ofSegments (ds ++ es)).text = true → ∀ q ∈ es, '\n' ∉ q) := by
  have hwf : (shapeOf text.toList).WellFormed := shapeOf_wellFormed (ofText_eq_ok_iff.mp hg).1
  have hopen : ¬ (shapeOf text.toList).IsClosed := by
    rintro ⟨hbeneath, hlast, hlen⟩
    rw [← text_shapeOf text.toList, suffix_slash_star_iff hwf] at hend
    exact hend ⟨hbeneath, hlast, Or.inr hlen⟩
  have hshape := (covers_ofSegments_iff hg hne hds).mp hcovers
  rw [covers_ofSegments_iff hg (List.append_ne_nil_of_left_ne_nil hne es)
    (List.forall_mem_append.mpr ⟨hds, hes⟩)]
  refine ⟨hshape.append hopen, fun htied hany h => ?_⟩
  rw [← text_shapeOf text.toList, isTied_text_iff hwf] at htied
  exact hshape.newline_not_mem hwf htied hany h

/-- A glob with wildcards covers a path, and beneath it all that holds no line feed. -/
theorem covers_beneath_part :
    ∃ g, Glob.ofText "/book/*/part-?" = .ok g ∧
      g.covers (RepoPath.ofSegments ["book".toList, "a".toList, "part-1".toList]).text = true ∧
      g.covers (RepoPath.ofSegments (["book".toList, "a".toList, "part-1".toList] ++
        ["x".toList, "y.md".toList])).text = true ∧
      g.covers (RepoPath.ofSegments (["book".toList, "a".toList, "part-1".toList] ++
        ["x\ny".toList])).text = false := by
  obtain ⟨g, hg⟩ : ∃ g, Glob.ofText "/book/*/part-?" = .ok g := ⟨_, rfl⟩
  obtain ⟨-, rfl⟩ := ofText_eq_ok_iff.mp hg
  have hend : ¬ ['/', '*'] <:+ "/book/*/part-?".toList := by decide
  have hds : ∀ q ∈ ["book".toList, "a".toList, "part-1".toList], IsSegment q := by
    simp [IsSegment]
  have hxy : ∀ q ∈ ["x".toList, "y.md".toList], IsSegment q := by simp [IsSegment]
  have hnl : ∀ q ∈ ["x\ny".toList], IsSegment q := by simp [IsSegment]
  have hcovered := (covers_beneath hg hend (List.cons_ne_nil _ _) hds hxy (by decide)).1
  have honly := (covers_beneath hg hend (List.cons_ne_nil _ _) hds hnl (by decide)).2
  refine ⟨_, hg, by decide, hcovered (by decide), ?_⟩
  rw [← Bool.not_eq_true]
  exact fun h => absurd (honly (by decide) (by decide) h) (by decide)

/-- A name with a line feed lies beneath a path that is covered, and is not covered. -/
theorem newline_beneath_not_covered :
    ∃ g, Glob.ofText "docs" = .ok g ∧ ¬ ['/', '*'] <:+ "docs".toList ∧
      RepoPath.ofText "docs" = .ok ⟨"docs"⟩ ∧ RepoPath.ofText "docs/\n" = .ok ⟨"docs/\n"⟩ ∧
      g.covers "docs" = true ∧ g.covers "docs/\n" = false :=
  ⟨_, rfl, by decide⟩

/-- **Which globs with a slash and a star at their end stay among the children** of what is in
front, without `**`: all but the one that consists of the two. -/
theorem forall_length_eq_iff {text : String} {g : Glob} (hg : Glob.ofText text = .ok g)
    (hend : ['/', '*'] <:+ text.toList) (hany : anySegments ∉ segments text.toList) :
    (∀ qs, qs ≠ [] → (∀ q ∈ qs, IsSegment q) →
        g.covers (RepoPath.ofSegments qs).text = true →
        qs.length = (segments text.toList).length) ↔ text ≠ "/*" := by
  have hwf : (shapeOf text.toList).WellFormed := shapeOf_wellFormed (ofText_eq_ok_iff.mp hg).1
  constructor
  · rintro h rfl
    obtain ⟨-, rfl⟩ := ofText_eq_ok_iff.mp hg
    exact absurd (h [['a'], ['b']] (by decide) (by simp [IsSegment]) (by decide)) (by decide)
  · intro htext qs hne hqs hcovers
    rw [← text_shapeOf text.toList] at hend
    rcases Shape.isClosed_or_text_eq hwf hend with hclosed | heq
    · exact ((covers_ofSegments_iff hg hne hqs).mp hcovers).length_eq hwf hclosed hany
    · rw [text_shapeOf] at heq
      exact absurd (String.toList_injective heq) htext

/-- A glob with a slash and a star behind two other segments covers paths of three. -/
theorem length_eq_of_covers_docs_star :
    ∃ g, Glob.ofText "/docs/v?/*" = .ok g ∧ ∀ qs, qs ≠ [] → (∀ q ∈ qs, IsSegment q) →
      g.covers (RepoPath.ofSegments qs).text = true → qs.length = 3 := by
  obtain ⟨g, hg⟩ : ∃ g, Glob.ofText "/docs/v?/*" = .ok g := ⟨_, rfl⟩
  exact ⟨g, hg, (forall_length_eq_iff hg (by decide) (by decide)).mpr (by decide)⟩

/-- The glob of the files at the root reaches into a directory. -/
theorem slash_star_covers_beneath :
    ∃ g, Glob.ofText "/*" = .ok g ∧ ['/', '*'] <:+ "/*".toList ∧
      anySegments ∉ segments "/*".toList ∧ (segments "/*".toList).length = 1 ∧
      RepoPath.ofText "a/b" = .ok (.ofSegments [['a'], ['b']]) ∧ g.covers "a/b" = true :=
  ⟨_, rfl, by decide⟩

end Ownership.Glob
