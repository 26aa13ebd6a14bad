/-
# Which texts are globs

Reading a glob looks for eight faults in turn, some in the text and some in what is left of it when
a slash has been taken off either end.  Each of them is a property of the text as it stands
(`GlobRefusal.AppliesTo`): what is left is empty only for a text of at most two slashes, and a
segment of it is empty only where two slashes stand side by side.  So reading is a search for the
first fault (`refusal?_eq_first?`), and a text without a fault is one that the grammar of globs
writes (`first?_eq_none_iff`).

Where the slashes are taken off, one could be taken too many: a glob is tied to the root by any
slash but one at its very end, and taking off the first does not lose that (`isTied_iff`).

* `GlobRefusal.AppliesTo`: the faults;
* `InGrammar`: the grammar;
* `exists_ofText_iff_inGrammar`: which texts are read, which of them are tied to the root, and why
  the others are refused.
-/
import Ownership.Proofs.Glob.Segments

namespace Ownership

/-! ## 1. The faults and the grammar -/

/-- The fault that a text is refused for, said of the text. -/
def GlobRefusal.AppliesTo (cs : List Char) : GlobRefusal → Prop
  | .empty => cs = []
  | .negation => cs.head? = some '!'
  | .characterClass => '[' ∈ cs ∨ ']' ∈ cs
  | .escapeSequence => '\\' ∈ cs
  | .starRun => ['*', '*', '*'] <:+: cs
  | .rootOnly => cs = ['/'] ∨ cs = ['/', '/']
  | .emptySegment => ['/', '/'] <:+: cs
  | .tooLarge => maxMatcherBytes < Glob.matcherBytes (Glob.piecesOf cs)

instance (cs : List Char) : DecidablePred (GlobRefusal.AppliesTo cs)
  | .empty => inferInstanceAs (Decidable (cs = []))
  | .negation => inferInstanceAs (Decidable (cs.head? = some '!'))
  | .characterClass => inferInstanceAs (Decidable ('[' ∈ cs ∨ ']' ∈ cs))
  | .escapeSequence => inferInstanceAs (Decidable ('\\' ∈ cs))
  | .starRun => inferInstanceAs (Decidable (['*', '*', '*'] <:+: cs))
  | .rootOnly => inferInstanceAs (Decidable (cs = ['/'] ∨ cs = ['/', '/']))
  | .emptySegment => inferInstanceAs (Decidable (['/', '/'] <:+: cs))
  | .tooLarge =>
    inferInstanceAs (Decidable (maxMatcherBytes < Glob.matcherBytes (Glob.piecesOf cs)))

/-- The faults in the order in which they count. -/
def GlobRefusal.inOrder : List GlobRefusal :=
  [.empty, .negation, .characterClass, .escapeSequence, .starRun, .rootOnly, .emptySegment,
    .tooLarge]

/-- The first fault of a text, if it has one. -/
def GlobRefusal.first? (cs : List Char) : Option GlobRefusal :=
  inOrder.find? fun r => r.AppliesTo cs

namespace Glob

/-- The grammar of globs: segments with a slash between two of them, possibly a slash in front and a
slash behind, no exclamation mark at the front, no brackets or backslashes, and at most two stars in
a row. -/
structure InGrammar (cs : List Char) : Prop where
  spelled : ∃ s : Shape, s.WellFormed ∧ s.text = cs
  not_negated : cs.head? ≠ some '!'
  no_class : '[' ∉ cs ∧ ']' ∉ cs
  no_escape : '\\' ∉ cs
  no_starRun : ¬ ['*', '*', '*'] <:+: cs

/-- The matcher of the text stays within its bound. -/
def HasRoom (cs : List Char) : Prop := matcherBytes (piecesOf cs) ≤ maxMatcherBytes

/-! ## 2. Faults of the text and faults of its parts -/

theorem hasStarRun_iff {cs : List Char} : hasStarRun cs = true ↔ ['*', '*', '*'] <:+: cs := by
  fun_induction hasStarRun cs with
  | case1 cs => exact iff_of_true rfl ⟨[], cs, rfl⟩
  | case2 c cs hne ih =>
    have hfront : ¬ ['*', '*', '*'] <+: c :: cs := by
      rintro ⟨ds, hds⟩
      obtain ⟨rfl, rfl⟩ := List.cons.inj hds
      exact hne ds rfl rfl
    rw [ih, List.infix_cons_iff, or_iff_right hfront]
  | case3 => exact iff_of_false Bool.false_ne_true (by simp)

/-- The text is a slash if its shape says so, what is cut into segments, and a slash again if its
shape says so. -/
theorem eq_append_body (cs : List Char) :
    cs = (if (shapeOf cs).rooted then ['/'] else []) ++ body cs ++
      (if asksBeneath cs then ['/'] else []) := by
  have hjoin : join (segments cs) = body cs := List.intercalate_splitOn '/'
  conv => lhs; rw [← text_shapeOf cs, Shape.text_eq_join]
  rw [← hjoin]
  rfl

/-- **What is left is empty** only of a text of at most two slashes. -/
theorem body_eq_nil_iff {cs : List Char} (hne : cs ≠ []) :
    body cs = [] ↔ cs = ['/'] ∨ cs = ['/', '/'] := by
  constructor
  · intro hbody
    have hcs := eq_append_body cs
    rw [hbody, List.append_nil] at hcs
    split at hcs <;> split at hcs
    · exact Or.inr hcs
    · exact Or.inl hcs
    · exact Or.inl hcs
    · exact absurd hcs hne
  · rintro (rfl | rfl) <;> rfl

/-- A slash in front of what is left was the second one. -/
theorem rooted_of_head?_body {cs : List Char} (h : (body cs).head? = some '/') :
    (shapeOf cs).rooted = true := by
  by_contra hroot
  have hhead : (dropLastSlash cs).head? ≠ some '/' := by simpa [shapeOf] using hroot
  rw [body, dropFirstSlash_of_head?_ne hhead] at h
  exact hhead h

/-- A slash behind what is left was the last but one. -/
theorem asksBeneath_of_getLast?_body {cs : List Char} (h : (body cs).getLast? = some '/') :
    asksBeneath cs = true := by
  by_contra hlast
  have hcs := eq_append_body cs
  rw [if_neg hlast, List.append_nil] at hcs
  refine hlast ?_
  rw [asksBeneath, hcs, List.getLast?_append, h]
  rfl

/-- Two slashes side by side behind a slash: the second of them may be the first behind it. -/
theorem slashes_infix_cons_iff {cs : List Char} :
    ['/', '/'] <:+: '/' :: cs ↔ cs.head? = some '/' ∨ ['/', '/'] <:+: cs := by
  rw [List.infix_cons_iff, List.cons_prefix_cons, List.head?_eq_some_iff]
  refine or_congr_left ⟨?_, ?_⟩
  · rintro ⟨-, ds, hds⟩
    exact ⟨ds, hds.symm⟩
  · rintro ⟨ds, rfl⟩
    exact ⟨rfl, ds, rfl⟩

/-- And in front of one. -/
theorem slashes_infix_concat_iff {cs : List Char} :
    ['/', '/'] <:+: cs ++ ['/'] ↔ cs.getLast? = some '/' ∨ ['/', '/'] <:+: cs := by
  rw [List.infix_concat_iff, List.getLast?_eq_some_iff]
  refine or_congr_left ⟨?_, ?_⟩
  · rintro ⟨ds, hds⟩
    have hcs : ds ++ ['/'] ++ ['/'] = cs ++ ['/'] := by simpa using hds
    exact ⟨ds, (List.append_cancel_right hcs).symm⟩
  · rintro ⟨ds, rfl⟩
    exact ⟨ds, by simp⟩

/-- **Two slashes stand side by side** in a text if they do in what is left of it, or if one is left
at either end. -/
theorem slashes_infix_iff {cs : List Char} (hbody : body cs ≠ []) :
    ['/', '/'] <:+: cs ↔ (body cs).head? = some '/' ∨ (body cs).getLast? = some '/' ∨
      ['/', '/'] <:+: body cs := by
  have hbehind : ['/', '/'] <:+: body cs ++ (if asksBeneath cs then ['/'] else []) ↔
      (body cs).getLast? = some '/' ∨ ['/', '/'] <:+: body cs := by
    split
    · exact slashes_infix_concat_iff
    · rename_i hlast
      rw [List.append_nil, or_iff_right fun h => hlast (asksBeneath_of_getLast?_body h)]
  conv => lhs; rw [eq_append_body cs, List.append_assoc]
  split
  · rw [List.singleton_append, slashes_infix_cons_iff, hbehind, List.head?_append_of_ne_nil _ hbody]
  · rename_i hfirst
    rw [List.nil_append, hbehind, or_iff_right fun h => hfirst (rooted_of_head?_body h)]

theorem splitOn_slash_cons (cs : List Char) : ('/' :: cs).splitOn '/' = [] :: cs.splitOn '/' := by
  simpa using List.splitOn_append_cons_self (a := '/') [] cs

/-- A segment is empty only between two slashes, or between a slash and an end. -/
theorem nil_mem_splitOn_iff {cs : List Char} (hne : cs ≠ []) :
    [] ∈ cs.splitOn '/' ↔ cs.head? = some '/' ∨ cs.getLast? = some '/' ∨ ['/', '/'] <:+: cs := by
  constructor
  · intro hmem
    obtain ⟨us, vs, hsplit⟩ := List.append_of_mem hmem
    have hcs : cs = join (us ++ [] :: vs) := by
      rw [← hsplit]
      exact (List.intercalate_splitOn '/').symm
    by_cases hus : us = []
    · subst hus
      have hvs : vs ≠ [] := by
        rintro rfl
        exact hne hcs
      left
      rw [hcs, List.nil_append, join_cons hvs]
      rfl
    · rw [← join_append hus (List.cons_ne_nil [] vs)] at hcs
      by_cases hvs : vs = []
      · subst hvs
        right; left
        rw [hcs, join_singleton]
        exact List.getLast?_concat
      · right; right
        rw [join_cons hvs] at hcs
        exact ⟨join us, join vs, by rw [hcs]; simp⟩
  · rintro (h | h | ⟨us, vs, rfl⟩)
    · obtain ⟨ds, rfl⟩ := List.head?_eq_some_iff.mp h
      rw [splitOn_slash_cons]
      exact List.mem_cons_self
    · obtain ⟨ds, rfl⟩ := List.getLast?_eq_some_iff.mp h
      rw [List.splitOn_append_cons_self]
      exact List.mem_append_right _ List.mem_cons_self
    · rw [List.append_assoc, List.cons_append, List.singleton_append,
        List.splitOn_append_cons_self, splitOn_slash_cons]
      exact List.mem_append_right _ List.mem_cons_self

/-- **A segment is empty** only where two slashes stand side by side. -/
theorem nil_mem_segments_iff {cs : List Char} (hbody : body cs ≠ []) :
    [] ∈ segments cs ↔ ['/', '/'] <:+: cs := by
  rw [segments, nil_mem_splitOn_iff hbody, slashes_infix_iff hbody]

/-- The slash at the front and those inside make up all the slashes but one at the end. -/
theorem isTied_iff {cs : List Char} : isTied cs = true ↔ '/' ∈ cs.dropLast := by
  have hinner : isTied cs = true ↔ '/' ∈ dropLastSlash cs := by
    rw [isTied, body, Bool.or_eq_true, beq_iff_eq, List.contains_iff_mem]
    cases dropLastSlash cs with
    | nil => simp [dropFirstSlash]
    | cons c ds =>
      rw [dropFirstSlash_cons, List.head?_cons, Option.some.injEq]
      by_cases hc : c = '/'
      · simp [hc]
      · simp [hc]
  rw [hinner, dropLastSlash]
  split
  · rfl
  · rename_i hlast
    rcases List.eq_nil_or_concat' cs with rfl | ⟨ds, c, rfl⟩
    · rfl
    · have hc : '/' ≠ c := by simpa [eq_comm] using hlast
      simp [hc]

/-! ## 3. Reading is a search for the first fault -/

theorem find?_cons_eq_ite {α : Type} (p : α → Prop) [DecidablePred p] (a : α) (as : List α) :
    (a :: as).find? (fun x => p x) = if p a then some a else as.find? fun x => p x := by
  by_cases h : p a <;> simp [h]

/-- **The first fault is found.**  What is left of the text is looked at only when the text is not
empty, and the segments only when something is left. -/
theorem refusal?_eq_first? (cs : List Char) : refusal? cs = GlobRefusal.first? cs := by
  simp only [refusal?, GlobRefusal.first?, GlobRefusal.inOrder, find?_cons_eq_ite, List.find?_nil]
  refine ite_congr rfl (fun _ => rfl) fun hne => ?_
  refine ite_congr rfl (fun _ => rfl) fun _ => ?_
  refine ite_congr (by simp [GlobRefusal.AppliesTo]) (fun _ => rfl) fun _ => ?_
  refine ite_congr (by simp [GlobRefusal.AppliesTo]) (fun _ => rfl) fun _ => ?_
  refine ite_congr (propext hasStarRun_iff) (fun _ => rfl) fun _ => ?_
  have hroot : body cs = [] ↔ GlobRefusal.rootOnly.AppliesTo cs := body_eq_nil_iff hne
  refine ite_congr (propext hroot) (fun _ => rfl) fun hroot' => ?_
  have hbody : body cs ≠ [] := fun h => hroot' (hroot.mp h)
  refine ite_congr ?_ (fun _ => rfl) fun _ => rfl
  rw [List.contains_iff_mem]
  exact propext (nil_mem_segments_iff hbody)

/-- The texts that the grammar spells, without the two faults of their slashes. -/
theorem exists_shape_iff {cs : List Char} :
    (∃ s : Shape, s.WellFormed ∧ s.text = cs) ↔
      cs ≠ [] ∧ ¬ GlobRefusal.rootOnly.AppliesTo cs ∧ ¬ GlobRefusal.emptySegment.AppliesTo cs := by
  have hcut : (∃ s : Shape, s.WellFormed ∧ s.text = cs) ↔ [] ∉ segments cs := by
    constructor
    · rintro ⟨s, h, rfl⟩ hmem
      rw [segments_text h] at hmem
      exact (h.isSegment [] hmem).1 rfl
    · exact fun h => ⟨shapeOf cs, wellFormed_shapeOf h, text_shapeOf cs⟩
  rw [hcut]
  by_cases hbody : body cs = []
  · have hmem : [] ∈ segments cs := by simp [segments, hbody]
    refine iff_of_false (fun h => h hmem) ?_
    rintro ⟨hne, hroot, -⟩
    exact hroot ((body_eq_nil_iff hne).mp hbody)
  · have hne : cs ≠ [] := by
      rintro rfl
      exact hbody rfl
    have hroot : ¬ GlobRefusal.rootOnly.AppliesTo cs := fun h => hbody ((body_eq_nil_iff hne).mpr h)
    rw [nil_mem_segments_iff hbody]
    exact ⟨fun h => ⟨hne, hroot, h⟩, fun h => h.2.2⟩

/-- **A text without a fault** is one of the grammar whose matcher stays within its bound. -/
theorem first?_eq_none_iff {cs : List Char} :
    GlobRefusal.first? cs = none ↔ InGrammar cs ∧ HasRoom cs := by
  have hall : GlobRefusal.first? cs = none ↔ ∀ r ∈ GlobRefusal.inOrder, ¬ r.AppliesTo cs := by
    rw [GlobRefusal.first?, List.find?_eq_none]
    simp
  rw [hall]
  simp only [GlobRefusal.inOrder, List.forall_mem_cons]
  constructor
  · rintro ⟨hne, hneg, hclass, hescape, hrun, hroot, hseg, hlarge, -⟩
    exact ⟨⟨exists_shape_iff.mpr ⟨hne, hroot, hseg⟩, hneg, not_or.mp hclass, hescape, hrun⟩,
      Nat.le_of_not_lt hlarge⟩
  · rintro ⟨h, hroom⟩
    obtain ⟨hne, hroot, hseg⟩ := exists_shape_iff.mp h.spelled
    exact ⟨hne, h.not_negated, not_or.mpr h.no_class, h.no_escape, h.no_starRun, hroot, hseg,
      Nat.not_lt_of_le hroom, by simp⟩

/-! ## 4. Reading -/

/-- **Which texts are read as globs**, which of them are tied to the root, and why the others are
refused: for the first of their faults. -/
theorem exists_ofText_iff_inGrammar (text : String) :
    ((∃ g, ofText text = .ok g) ↔ InGrammar text.toList ∧ HasRoom text.toList) ∧
      (∀ g, ofText text = .ok g → (g.anchored = true ↔ '/' ∈ text.toList.dropLast)) ∧
      ∀ e, ofText text = .error e ↔
        GlobRefusal.first? text.toList = some e.refusal ∧ e.pattern = text := by
  refine ⟨?_, fun g hg => ?_, fun e => ?_⟩
  · simp only [ofText_eq_ok_iff, refusal?_eq_first?, exists_and_left, exists_eq, and_true]
    exact first?_eq_none_iff
  · obtain ⟨-, rfl⟩ := ofText_eq_ok_iff.mp hg
    exact isTied_iff
  · rw [ofText_eq_error_iff, refusal?_eq_first?]

/-- A glob that a slash inside ties to the root. -/
theorem anchored_docs_drafts :
    ∃ g, Glob.ofText "docs/**/draft-?*/" = .ok g ∧ g.anchored = true := by
  obtain ⟨g, hg⟩ : ∃ g, Glob.ofText "docs/**/draft-?*/" = .ok g := ⟨_, rfl⟩
  exact ⟨g, hg, ((exists_ofText_iff_inGrammar _).2.1 g hg).mpr (by decide)⟩

/-- Two slashes leave nothing, three leave an empty segment; a negation counts before either. -/
example : GlobRefusal.first? ['/', '/'] = some .rootOnly ∧
    GlobRefusal.first? ['/', '/', '/'] = some .emptySegment ∧
    GlobRefusal.first? ['!', '/', '/', '['] = some .negation := by
  decide

end Glob

end Ownership
