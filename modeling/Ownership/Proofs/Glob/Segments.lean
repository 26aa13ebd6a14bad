/-
# A glob, segment by segment

Read as a rule about segments, a glob takes the segments of a path in order: each of its segments
takes one segment of the path, `**` takes any number, and its end says what may be left over.  This
module states that rule without pieces (`Shape.Covers`) and proves that matching decides it.

A glob is seen here as its `Shape`: whether a slash stands at the front, the segments, whether a
slash stands at the end.  The shape is another writing of the text, not a reading of it, so nothing
about cutting texts enters the rule.

The proof follows the segments of the glob.  Each of them is matched by pieces of a known language,
and a path is cut at the slashes of a match in one way only (`eq_append_of_join_eq`), so a word of
the language in front of a path is some whole segments of it.

* `Wild`: what a segment with wildcards takes;
* `Shape.Covers`: the rule;
* `mem_language_iff_covers`: the language of a glob is the paths that its shape covers;
* `exists_shape_covers_iff`: so a glob covers these paths.
-/
import Ownership.RepoPath
import Ownership.Proofs.Text
import Ownership.Proofs.Glob.Language

namespace Ownership.Glob

open scoped Computability

/-! ## 1. The rule -/

/-- `WildChar c u`: the character `c` of a glob takes the text `u`.  A star takes any text, a
question mark takes one character, and any other character takes itself. -/
inductive WildChar : Char → List Char → Prop
  | star (u : List Char) : WildChar '*' u
  | one (d : Char) : WildChar '?' [d]
  | lit {c : Char} : c ≠ '*' → c ≠ '?' → WildChar c [c]

/-- `Wild seg q`: the segment `seg` of a glob takes the segment `q` of a path, character by
character.  Stars in a row take no more than one. -/
inductive Wild : List Char → List Char → Prop
  | nil : Wild [] []
  | cons {c : Char} {u seg q : List Char} : WildChar c u → Wild seg q → Wild (c :: seg) (u ++ q)

/-- `Takes ss qs`: the segments `ss` of a glob take exactly the segments `qs` of a path.  The
segment `**` takes any number of segments, but as the last one it takes none: what it covers is
left over. -/
inductive Takes : List (List Char) → List (List Char) → Prop
  | nil : Takes [] []
  | last : Takes [['*', '*']] []
  | any (us : List (List Char)) {ss qs : List (List Char)} :
      ss ≠ [] → Takes ss qs → Takes (['*', '*'] :: ss) (us ++ qs)
  | one {s q : List Char} {ss qs : List (List Char)} :
      s ≠ ['*', '*'] → Wild s q → Takes ss qs → Takes (s :: ss) (q :: qs)

/-- What may be left over of a path behind the last segment `seg` of a glob: something if that is
`**` or a slash stands behind it, nothing if it is a lone star behind other segments, else
anything. -/
def LeavesBehind (beneath several : Bool) (seg : List Char) (left : List (List Char)) : Prop :=
  if seg = ['*', '*'] then left ≠ []
  else if beneath then left ≠ []
  else if seg = ['*'] ∧ several then left = []
  else True

/-- How a glob is written: whether a slash stands at its front, its segments, and whether a slash
stands at its end. -/
structure Shape where
  rooted : Bool
  segs : List (List Char)
  beneath : Bool

namespace Shape

/-- The text that is written. -/
def text (s : Shape) : List Char :=
  (if s.rooted then ['/'] else []) ++ ['/'].intercalate s.segs ++ (if s.beneath then ['/'] else [])

/-- A glob has a segment, and no segment is empty or holds a slash. -/
structure WellFormed (s : Shape) : Prop where
  segs_ne_nil : s.segs ≠ []
  isSegment : ∀ seg ∈ s.segs, IsSegment seg

/-- A glob with a slash anywhere but at its end is tied to the root. -/
def Tied (s : Shape) : Prop := s.rooted = true ∨ 1 < s.segs.length

/-- What may be left over of a path behind the segments that the glob takes. -/
def Leaves (s : Shape) (left : List (List Char)) : Prop :=
  LeavesBehind s.beneath (1 < s.segs.length) (s.segs.getLastD []) left

/-- **The rule.**  A glob covers a path if its segments take some segments of the path in a row:
from the first one if the glob is tied to the root, and so that what is left over is allowed.  What
is skipped and what is left over holds no line feed. -/
def Covers (s : Shape) (qs : List (List Char)) : Prop :=
  ∃ skipped taken left, qs = skipped ++ taken ++ left ∧ (s.Tied → skipped = []) ∧
    Takes s.segs taken ∧ s.Leaves left ∧ ∀ q ∈ skipped ++ left, '\n' ∉ q

end Shape

/-! ## 2. The text of some segments -/

/-- The segments with a slash between two of them. -/
def join (qs : List (List Char)) : List Char := ['/'].intercalate qs

@[simp] theorem join_singleton (q : List Char) : join [q] = q := List.intercalate_singleton

theorem join_cons {q : List Char} {qs : List (List Char)} (h : qs ≠ []) :
    join (q :: qs) = q ++ '/' :: join qs := by
  rw [join, List.intercalate_cons_of_ne_nil h, join]
  simp

theorem closed_append_join {us vs : List (List Char)} (h : vs ≠ []) :
    closed us ++ join vs = join (us ++ vs) := by
  induction us with
  | nil => rfl
  | cons u us ih =>
    rw [List.cons_append, join_cons (by simp [h]), closed_cons, List.append_assoc,
      List.cons_append, ih]

theorem join_append {us vs : List (List Char)} (hu : us ≠ []) (hv : vs ≠ []) :
    join us ++ '/' :: join vs = join (us ++ vs) := by
  induction us with
  | nil => exact absurd rfl hu
  | cons u us ih =>
    cases us with
    | nil => rw [join_singleton, List.singleton_append, join_cons hv]
    | cons w us =>
      have hne : w :: us ≠ [] := List.cons_ne_nil w us
      have hne' : w :: us ++ vs ≠ [] := List.cons_ne_nil w (us ++ vs)
      rw [join_cons hne, List.append_assoc, List.cons_append, ih hne]
      exact (join_cons hne').symm

theorem mem_join_iff {x : Char} (hx : x ≠ '/') {qs : List (List Char)} :
    x ∈ join qs ↔ ∃ q ∈ qs, x ∈ q :=
  Text.mem_intercalate_iff hx

theorem newline_not_mem_join {qs : List (List Char)} :
    '\n' ∉ join qs ↔ ∀ q ∈ qs, '\n' ∉ q := by
  rw [mem_join_iff (by decide)]
  simp

theorem splitOn_join {qs : List (List Char)} (hne : qs ≠ []) (h : ∀ q ∈ qs, '/' ∉ q) :
    (join qs).splitOn '/' = qs :=
  List.splitOn_intercalate '/' h hne

/-- **A path is cut at a slash in one way only**: what stands in front of the slash and what stands
behind it are whole segments. -/
theorem eq_append_of_join_eq {qs : List (List Char)} (hne : qs ≠ []) (h : ∀ q ∈ qs, '/' ∉ q)
    {x v : List Char} (heq : x ++ '/' :: v = join qs) :
    ∃ us vs, us ≠ [] ∧ vs ≠ [] ∧ qs = us ++ vs ∧ x = join us ∧ v = join vs := by
  refine ⟨x.splitOn '/', v.splitOn '/', List.splitOn_ne_nil _ _, List.splitOn_ne_nil _ _, ?_,
    (List.intercalate_splitOn '/').symm, (List.intercalate_splitOn '/').symm⟩
  rw [← splitOn_join hne h, ← heq, List.splitOn_append_cons_self]

/-- If no slash stands in front of the slash, one segment does. -/
theorem eq_cons_of_join_eq {qs : List (List Char)} (hne : qs ≠ []) (h : ∀ q ∈ qs, '/' ∉ q)
    {w v : List Char} (hw : '/' ∉ w) (heq : w ++ '/' :: v = join qs) :
    ∃ vs, vs ≠ [] ∧ qs = w :: vs ∧ v = join vs := by
  refine ⟨v.splitOn '/', List.splitOn_ne_nil _ _, ?_, (List.intercalate_splitOn '/').symm⟩
  rw [← splitOn_join hne h, ← heq, List.splitOn_append_cons_self_of_not_mem hw]

/-- Segments with a slash behind each, in front of a path, are its first segments. -/
theorem eq_append_of_closed_append_eq {ds : List (List Char)} (hds : ∀ d ∈ ds, IsSegment d)
    {v : List Char} :
    ∀ {qs : List (List Char)}, qs ≠ [] → (∀ q ∈ qs, '/' ∉ q) → closed ds ++ v = join qs →
      ∃ vs, vs ≠ [] ∧ qs = ds ++ vs ∧ v = join vs := by
  induction ds with
  | nil => exact fun hne _ heq => ⟨_, hne, rfl, heq⟩
  | cons d ds ih =>
    intro qs hne h heq
    obtain ⟨hd, hds⟩ := List.forall_mem_cons.mp hds
    rw [closed_cons, List.append_assoc, List.cons_append] at heq
    obtain ⟨vs, hvs, rfl, hv⟩ := eq_cons_of_join_eq hne h hd.2 heq
    obtain ⟨ws, hws, rfl, hw⟩ := ih hds hvs (fun q hq => h q (List.mem_cons_of_mem _ hq)) hv
    exact ⟨ws, hws, rfl, hw⟩

/-! ## 3. One segment of a glob -/

/-- Stars in a row are one piece, but their language is that of a star for each. -/
theorem language_segmentPieces_cons (c : Char) (seg : List Char) :
    language (segmentPieces (c :: seg)) =
      (charPiece c).language * language (segmentPieces seg) := by
  have hcons : segmentPieces (c :: seg) =
      if c = '*' ∧ (segmentPieces seg).head? = some .run then segmentPieces seg
      else charPiece c :: segmentPieces seg := rfl
  rw [hcons]
  split
  · rename_i h
    obtain ⟨rfl, hrun⟩ := h
    cases hps : segmentPieces seg with
    | nil => rw [hps] at hrun; exact absurd hrun (by simp)
    | cons p ps =>
      rw [hps, List.head?_cons, Option.some.injEq] at hrun
      subst hrun
      have hstar : (charPiece '*').language = (oneOf inSegment)∗ := rfl
      rw [language_cons, hstar, Piece.language, ← mul_assoc, kstar_mul_kstar]
  · exact language_cons _ _

/-- The piece of a character takes what the character takes, except for slashes. -/
theorem mem_language_charPiece {c : Char} (hc : c ≠ '/') {u : List Char} :
    u ∈ (charPiece c).language ↔ WildChar c u ∧ '/' ∉ u := by
  by_cases hstar : c = '*'
  · subst hstar
    have hlang : (charPiece '*').language = (oneOf inSegment)∗ := rfl
    rw [hlang, mem_star_inSegment]
    exact (and_iff_right (WildChar.star u)).symm
  by_cases hone : c = '?'
  · subst hone
    have hlang : (charPiece '?').language = oneOf inSegment := rfl
    simp only [hlang, mem_oneOf, inSegment_eq_true_iff]
    constructor
    · rintro ⟨d, hd, rfl⟩
      exact ⟨WildChar.one d, List.not_mem_cons_of_ne_of_not_mem (Ne.symm hd) List.not_mem_nil⟩
    · rintro ⟨hu, hslash⟩
      cases hu with
      | one d => exact ⟨d, fun h => hslash (h ▸ List.mem_cons_self), rfl⟩
      | lit _ h => exact absurd rfl h
  · have hlang : (charPiece c).language = oneOf (· == c) := by
      rw [charPiece]
      · rfl
      · exact fun h => hstar h
      · exact fun h => hone h
    simp only [hlang, mem_oneOf, beq_iff_eq]
    constructor
    · rintro ⟨d, rfl, rfl⟩
      exact ⟨WildChar.lit hstar hone,
        List.not_mem_cons_of_ne_of_not_mem (Ne.symm hc) List.not_mem_nil⟩
    · rintro ⟨hu, -⟩
      cases hu with
      | star => exact absurd rfl hstar
      | one => exact absurd rfl hone
      | lit => exact ⟨c, rfl, rfl⟩

theorem wild_cons_iff {c : Char} {seg q : List Char} :
    Wild (c :: seg) q ↔ ∃ u v, u ++ v = q ∧ WildChar c u ∧ Wild seg v := by
  constructor
  · intro h
    cases h with
    | cons hu hv => exact ⟨_, _, rfl, hu, hv⟩
  · rintro ⟨u, v, rfl, hu, hv⟩
    exact Wild.cons hu hv

/-- **A segment takes the texts without a slash that its wildcards allow.** -/
theorem mem_language_segmentPieces {seg : List Char} (hseg : '/' ∉ seg) :
    ∀ {w : List Char}, w ∈ language (segmentPieces seg) ↔ Wild seg w ∧ '/' ∉ w := by
  induction seg with
  | nil =>
    intro w
    have hnil : language (segmentPieces []) = 1 := rfl
    rw [hnil, Language.mem_one]
    constructor
    · rintro rfl
      exact ⟨Wild.nil, List.not_mem_nil⟩
    · rintro ⟨⟨⟩, -⟩
      rfl
  | cons c seg ih =>
    intro w
    have hseg' : '/' ∉ seg := fun h => hseg (List.mem_cons_of_mem _ h)
    have hc : c ≠ '/' := fun h => hseg (h ▸ List.mem_cons_self)
    rw [language_segmentPieces_cons, Language.mem_mul, wild_cons_iff]
    simp only [mem_language_charPiece hc, ih hseg']
    constructor
    · rintro ⟨u, ⟨hu, hus⟩, v, ⟨hv, hvs⟩, rfl⟩
      exact ⟨⟨u, v, rfl, hu, hv⟩, by simp [hus, hvs]⟩
    · rintro ⟨⟨u, v, rfl, hu, hv⟩, hslash⟩
      rw [List.mem_append, not_or] at hslash
      exact ⟨u, ⟨hu, hslash.1⟩, v, ⟨hv, hslash.2⟩, rfl⟩

/-! ## 4. The end of a glob -/

theorem takes_nil_iff {taken : List (List Char)} : Takes [] taken ↔ taken = [] := by
  constructor
  · intro h
    cases h
    rfl
  · rintro rfl
    exact Takes.nil

/-- The last segment `**` takes nothing. -/
theorem takes_last_any_iff {taken : List (List Char)} : Takes [['*', '*']] taken ↔ taken = [] := by
  constructor
  · intro h
    cases h with
    | last => rfl
    | any us hne _ => exact absurd rfl hne
    | one hne _ _ => exact absurd rfl hne
  · rintro rfl
    exact Takes.last

/-- A segment `**` in front of others takes some first segments. -/
theorem takes_any_iff {ss : List (List Char)} (hss : ss ≠ []) {taken : List (List Char)} :
    Takes (['*', '*'] :: ss) taken ↔ ∃ us rest, taken = us ++ rest ∧ Takes ss rest := by
  constructor
  · intro h
    cases h with
    | last => exact absurd rfl hss
    | any us _ hrest => exact ⟨us, _, rfl, hrest⟩
    | one hne _ _ => exact absurd rfl hne
  · rintro ⟨us, rest, rfl, hrest⟩
    exact Takes.any us hss hrest

/-- Any other segment takes one segment. -/
theorem takes_one_iff {s : List Char} (hs : s ≠ ['*', '*']) {ss taken : List (List Char)} :
    Takes (s :: ss) taken ↔ ∃ q rest, taken = q :: rest ∧ Wild s q ∧ Takes ss rest := by
  constructor
  · intro h
    cases h with
    | last => exact absurd rfl hs
    | any us _ _ => exact absurd rfl hs
    | one _ hw hrest => exact ⟨_, _, rfl, hw, hrest⟩
  · rintro ⟨q, rest, rfl, hw, hrest⟩
    exact Takes.one hs hw hrest

theorem takes_last_iff {seg : List Char} (hseg : seg ≠ ['*', '*']) {taken : List (List Char)} :
    Takes [seg] taken ↔ ∃ q, taken = [q] ∧ Wild seg q := by
  rw [takes_one_iff hseg]
  constructor
  · rintro ⟨q, rest, rfl, hw, hrest⟩
    exact ⟨q, by rw [takes_nil_iff.mp hrest], hw⟩
  · rintro ⟨q, rfl, hw⟩
    exact ⟨q, [], rfl, hw, Takes.nil⟩

/-- A glob takes a segment or leaves one over. -/
theorem taken_append_left_ne_nil {beneath several : Bool} {ss : List (List Char)}
    {seg : List Char} {taken left : List (List Char)} (ht : Takes (ss ++ [seg]) taken)
    (hl : LeavesBehind beneath several seg left) : taken ++ left ≠ [] := by
  induction ss generalizing taken with
  | nil =>
    by_cases hseg : seg = ['*', '*']
    · rw [LeavesBehind, if_pos hseg] at hl
      exact List.append_ne_nil_of_right_ne_nil taken hl
    · obtain ⟨q, rfl, -⟩ := (takes_last_iff hseg).mp ht
      exact List.cons_ne_nil q left
  | cons s ss ih =>
    by_cases hs : s = ['*', '*']
    · subst hs
      obtain ⟨us, rest, rfl, hrest⟩ := (takes_any_iff (by simp)).mp ht
      rw [List.append_assoc]
      exact List.append_ne_nil_of_right_ne_nil us (ih hrest)
    · obtain ⟨q, rest, rfl, -, -⟩ := (takes_one_iff hs).mp ht
      exact List.cons_ne_nil q _

/-- What the pieces behind the last segment match: nothing, or a slash and a text without line
feeds, as what may be left over says. -/
theorem mem_language_end_iff {beneath several : Bool} {seg : List Char} (hseg : seg ≠ ['*', '*'])
    {v : List Char} :
    v ∈ language (if beneath then [.lit '/', .rest]
        else if several && seg = ['*'] then [] else [.below]) ↔
      (v = [] ∧ LeavesBehind beneath several seg []) ∨
        ∃ r, v = '/' :: r ∧ '\n' ∉ r ∧ ∀ left ≠ [], LeavesBehind beneath several seg left := by
  have hslash : ∀ {w : List Char},
      w ∈ (Piece.lit '/').language * Piece.rest.language ↔ ∃ r, w = '/' :: r ∧ '\n' ∉ r := by
    intro w
    simp only [Piece.language, Language.mem_mul, mem_star_inLine]
    constructor
    · rintro ⟨u, hu, r, hr, rfl⟩
      exact ⟨r, by rw [mem_slash.mp hu]; rfl, hr⟩
    · rintro ⟨r, rfl, hr⟩
      exact ⟨['/'], mem_slash.mpr rfl, r, hr, rfl⟩
  cases beneath with
  | true =>
    simp only [LeavesBehind, if_neg hseg, if_true, language_cons, language_nil, mul_one, hslash]
    simp
  | false =>
    by_cases hstar : seg = ['*'] ∧ several = true
    · have hcond : (several && decide (seg = ['*'])) = true := by simp [hstar]
      simp only [LeavesBehind, if_neg hseg, hcond, if_pos hstar, Bool.false_eq_true, if_false,
        if_true, language_nil, Language.mem_one]
      constructor
      · exact fun hv => Or.inl ⟨hv, trivial⟩
      · rintro (⟨hv, -⟩ | ⟨r, -, -, hall⟩)
        · exact hv
        · exact absurd (hall [[]] (List.cons_ne_nil _ _)) (List.cons_ne_nil _ _)
    · have hcond : ¬ (several && decide (seg = ['*'])) = true := by
        simpa [and_comm] using hstar
      have hbelow : Piece.below.language = 1 + (Piece.lit '/').language * Piece.rest.language := rfl
      simp only [LeavesBehind, if_neg hseg, if_neg hcond, if_neg hstar, Bool.false_eq_true,
        if_false, language_cons, language_nil, mul_one, hbelow, Language.mem_add, Language.mem_one,
        hslash]
      simp

/-- **The end of a glob**: its last segment and what may be left over behind it. -/
theorem mem_language_lastPieces {beneath several : Bool} {seg : List Char} (hseg : '/' ∉ seg)
    {qs : List (List Char)} (hne : qs ≠ []) (hqs : ∀ q ∈ qs, '/' ∉ q) :
    join qs ∈ language (lastPieces beneath several seg) ↔
      ∃ taken left, qs = taken ++ left ∧ Takes [seg] taken ∧
        LeavesBehind beneath several seg left ∧ ∀ q ∈ left, '\n' ∉ q := by
  by_cases hany : seg = ['*', '*']
  · subst hany
    have hpieces : lastPieces beneath several ['*', '*'] = [.rest] := rfl
    rw [hpieces, language_cons, language_nil, mul_one, Piece.language, mem_star_inLine,
      newline_not_mem_join]
    simp only [takes_last_any_iff, LeavesBehind, if_true]
    constructor
    · exact fun hnl => ⟨[], qs, rfl, rfl, hne, hnl⟩
    · rintro ⟨taken, left, rfl, rfl, -, hnl⟩
      exact hnl
  · have hpieces : lastPieces beneath several seg = segmentPieces seg ++
        if beneath then [.lit '/', .rest]
        else if several && seg = ['*'] then [] else [.below] := if_neg hany
    rw [hpieces, language_append, Language.mem_mul]
    simp only [mem_language_segmentPieces hseg, mem_language_end_iff hany, takes_last_iff hany]
    constructor
    · rintro ⟨w, ⟨hw, hws⟩, v, ⟨rfl, hleft⟩ | ⟨r, rfl, hr, hleft⟩, heq⟩
      · have hqs_eq : qs = [w] := by
          rw [← splitOn_join hne hqs, ← heq, List.append_nil, List.splitOn_eq_singleton hws]
        exact ⟨[w], [], hqs_eq, ⟨w, rfl, hw⟩, hleft, by simp⟩
      · obtain ⟨vs, hvs, rfl, rfl⟩ := eq_cons_of_join_eq hne hqs hws heq
        exact ⟨[w], vs, rfl, ⟨w, rfl, hw⟩, hleft vs hvs, newline_not_mem_join.mp hr⟩
    · rintro ⟨taken, left, rfl, ⟨q, rfl, hw⟩, hleft, hnl⟩
      have hq : '/' ∉ q := hqs q List.mem_cons_self
      by_cases hl : left = []
      · subst hl
        exact ⟨q, ⟨hw, hq⟩, [], Or.inl ⟨rfl, hleft⟩, by simp⟩
      · have hall : ∀ l ≠ [], LeavesBehind beneath several seg l := by
          intro l hl'
          unfold LeavesBehind at hleft ⊢
          split at hleft
          · exact absurd ‹_› hany
          · split at hleft
            · simp [*]
            · split at hleft
              · exact absurd hleft hl
              · simp [*]
        exact ⟨q, ⟨hw, hq⟩, '/' :: join left,
          Or.inr ⟨join left, rfl, newline_not_mem_join.mpr hnl, hall⟩, (join_cons hl).symm⟩

/-! ## 5. The segments in a row -/

/-- The segments `ss` and the last segment `last` take the first segments of a path, and what is
left over is allowed. -/
def Fits (beneath several : Bool) (ss : List (List Char)) (last : List Char)
    (qs : List (List Char)) : Prop :=
  ∃ taken left, qs = taken ++ left ∧ Takes (ss ++ [last]) taken ∧
    LeavesBehind beneath several last left ∧ ∀ q ∈ left, '\n' ∉ q

theorem Fits.ne_nil {beneath several : Bool} {ss : List (List Char)} {last : List Char}
    {qs : List (List Char)} (h : Fits beneath several ss last qs) : qs ≠ [] := by
  obtain ⟨taken, left, rfl, ht, hl, -⟩ := h
  exact taken_append_left_ne_nil ht hl

/-- A segment `**` in front: some first segments, then the rest. -/
theorem fits_any_iff {beneath several : Bool} {ss : List (List Char)} {last : List Char}
    {qs : List (List Char)} :
    Fits beneath several (['*', '*'] :: ss) last qs ↔
      ∃ us vs, qs = us ++ vs ∧ Fits beneath several ss last vs := by
  have hne : ss ++ [last] ≠ [] := by simp
  simp only [Fits, List.cons_append, takes_any_iff hne]
  constructor
  · rintro ⟨_, left, rfl, ⟨us, rest, rfl, hrest⟩, hl, hnl⟩
    exact ⟨us, rest ++ left, List.append_assoc _ _ _, rest, left, rfl, hrest, hl, hnl⟩
  · rintro ⟨us, _, rfl, rest, left, rfl, hrest, hl, hnl⟩
    exact ⟨us ++ rest, left, (List.append_assoc _ _ _).symm, ⟨us, rest, rfl, hrest⟩, hl, hnl⟩

/-- Any other segment in front: one segment, then the rest. -/
theorem fits_one_iff {beneath several : Bool} {s : List Char} (hs : s ≠ ['*', '*'])
    {ss : List (List Char)} {last : List Char} {qs : List (List Char)} :
    Fits beneath several (s :: ss) last qs ↔
      ∃ q vs, qs = q :: vs ∧ Wild s q ∧ Fits beneath several ss last vs := by
  simp only [Fits, List.cons_append, takes_one_iff hs]
  constructor
  · rintro ⟨_, left, rfl, ⟨q, rest, rfl, hw, hrest⟩, hl, hnl⟩
    exact ⟨q, rest ++ left, rfl, hw, rest, left, rfl, hrest, hl, hnl⟩
  · rintro ⟨q, _, rfl, hw, rest, left, rfl, hrest, hl, hnl⟩
    exact ⟨q :: rest, left, rfl, ⟨q, rest, rfl, hw, hrest⟩, hl, hnl⟩

/-- **The pieces of the segments match the paths that the segments fit.** -/
theorem mem_language_segments {beneath several : Bool} {ss : List (List Char)} {last : List Char}
    (hss : ∀ s ∈ ss, '/' ∉ s) (hlast : '/' ∉ last) :
    ∀ {qs : List (List Char)}, qs ≠ [] → (∀ q ∈ qs, IsSegment q) →
      (join qs ∈ language (ss.flatMap innerPieces ++ lastPieces beneath several last) ↔
        Fits beneath several ss last qs) := by
  induction ss with
  | nil => exact fun hne hqs => mem_language_lastPieces hlast hne fun q hq => (hqs q hq).2
  | cons s ss ih =>
    intro qs hne hqs
    obtain ⟨hs, hrest⟩ := List.forall_mem_cons.mp hss
    have hslashless : ∀ q ∈ qs, '/' ∉ q := fun q hq => (hqs q hq).2
    rw [List.flatMap_cons, List.append_assoc, language_append, Language.mem_mul]
    by_cases hany : s = ['*', '*']
    · subst hany
      have hpieces : innerPieces ['*', '*'] = [.dirs] := rfl
      rw [hpieces, language_cons, language_nil, mul_one, fits_any_iff]
      simp only [mem_language_dirs]
      constructor
      · rintro ⟨_, ⟨ds, hds, rfl⟩, v, hv, heq⟩
        obtain ⟨vs, hvs, rfl, rfl⟩ := eq_append_of_closed_append_eq hds hne hslashless heq
        exact ⟨ds, vs, rfl,
          (ih hrest hvs fun q hq => hqs q (List.mem_append_right ds hq)).mp hv⟩
      · rintro ⟨us, vs, rfl, hfits⟩
        refine ⟨closed us, ⟨us, fun d hd => hqs d (List.mem_append_left vs hd), rfl⟩, join vs, ?_,
          closed_append_join hfits.ne_nil⟩
        exact (ih hrest hfits.ne_nil fun q hq => hqs q (List.mem_append_right us hq)).mpr hfits
    · have hpieces : innerPieces s = segmentPieces s ++ [.lit '/'] := if_neg hany
      rw [hpieces, language_append, language_cons, language_nil, mul_one, fits_one_iff hany]
      have hlit : (Piece.lit '/').language = slash := rfl
      simp only [hlit, Language.mem_mul, mem_slash, mem_language_segmentPieces hs]
      constructor
      · rintro ⟨_, ⟨w, ⟨hw, hws⟩, _, rfl, rfl⟩, v, hv, heq⟩
        rw [List.append_assoc, List.singleton_append] at heq
        obtain ⟨vs, hvs, rfl, rfl⟩ := eq_cons_of_join_eq hne hslashless hws heq
        exact ⟨w, vs, rfl, hw, (ih hrest hvs fun q hq => hqs q (List.mem_cons_of_mem w hq)).mp hv⟩
      · rintro ⟨q, vs, rfl, hw, hfits⟩
        refine ⟨q ++ ['/'], ⟨q, ⟨hw, hslashless q List.mem_cons_self⟩, ['/'], rfl, rfl⟩, join vs,
          ?_, ?_⟩
        · exact (ih hrest hfits.ne_nil fun q hq => hqs q (List.mem_cons_of_mem _ hq)).mpr hfits
        · rw [List.append_assoc, List.singleton_append, join_cons hfits.ne_nil]

/-- In front of a glob that is not tied to the root, some segments without line feeds are
skipped. -/
theorem mem_anywhere_mul {L : Language Char} {qs : List (List Char)} (hne : qs ≠ [])
    (hqs : ∀ q ∈ qs, '/' ∉ q) :
    join qs ∈ Piece.anywhere.language * L ↔
      ∃ us vs, qs = us ++ vs ∧ vs ≠ [] ∧ (∀ q ∈ us, '\n' ∉ q) ∧ join vs ∈ L := by
  simp only [Piece.language, Language.mem_mul, Language.mem_add, Language.mem_one,
    mem_star_inLine, mem_slash]
  constructor
  · rintro ⟨_, rfl | ⟨x, hx, _, rfl, rfl⟩, v, hv, heq⟩
    · rw [List.nil_append] at heq
      exact ⟨[], qs, rfl, hne, by simp, heq ▸ hv⟩
    · rw [List.append_assoc, List.singleton_append] at heq
      obtain ⟨us, vs, -, hvs, rfl, rfl, rfl⟩ := eq_append_of_join_eq hne hqs heq
      exact ⟨us, vs, rfl, hvs, newline_not_mem_join.mp hx, hv⟩
  · rintro ⟨us, vs, rfl, hvs, hnl, hv⟩
    by_cases hus : us = []
    · subst hus
      exact ⟨[], Or.inl rfl, join vs, hv, rfl⟩
    · refine ⟨join us ++ ['/'], Or.inr ⟨join us, newline_not_mem_join.mpr hnl, ['/'], rfl, rfl⟩,
        join vs, hv, ?_⟩
      rw [List.append_assoc, List.singleton_append, join_append hus hvs]

/-! ## 6. Reading the shape back -/

/-- The shape of a text, by the parts that matching is made from. -/
def shapeOf (cs : List Char) : Shape :=
  ⟨(dropLastSlash cs).head? == some '/', segments cs, asksBeneath cs⟩

theorem dropLastSlash_concat (cs : List Char) : dropLastSlash (cs ++ ['/']) = cs := by
  simp [dropLastSlash]

theorem dropFirstSlash_cons (c : Char) (cs : List Char) :
    dropFirstSlash (c :: cs) = if c = '/' then cs else c :: cs := by
  by_cases hc : c = '/'
  · subst hc
    rfl
  · rw [if_neg hc, dropFirstSlash]
    exact fun ds heq => hc (List.cons.inj heq).1

theorem dropFirstSlash_of_head?_ne {cs : List Char} (h : cs.head? ≠ some '/') :
    dropFirstSlash cs = cs := by
  cases cs with
  | nil => rfl
  | cons c cs => rw [dropFirstSlash_cons, if_neg (by simpa using h)]

/-- The segments in a row start with a character that is no slash. -/
theorem head?_join {qs : List (List Char)} (hne : qs ≠ []) (hqs : ∀ q ∈ qs, IsSegment q) :
    ∃ c, (join qs).head? = some c ∧ c ≠ '/' := by
  obtain ⟨q, qs, rfl⟩ := List.exists_cons_of_ne_nil hne
  obtain ⟨hq, hslash⟩ := hqs q List.mem_cons_self
  obtain ⟨c, q, rfl⟩ := List.exists_cons_of_ne_nil hq
  refine ⟨c, ?_, fun h => hslash (h ▸ List.mem_cons_self)⟩
  by_cases hqs' : qs = []
  · subst hqs'
    rw [join_singleton, List.head?_cons]
  · rw [join_cons hqs', List.cons_append, List.head?_cons]

/-- They end in a character that is no slash. -/
theorem getLast?_join {qs : List (List Char)} (hne : qs ≠ []) (hqs : ∀ q ∈ qs, IsSegment q) :
    ∃ c, (join qs).getLast? = some c ∧ c ≠ '/' := by
  induction qs with
  | nil => exact absurd rfl hne
  | cons q qs ih =>
    by_cases hqs' : qs = []
    · subst hqs'
      obtain ⟨hq, hslash⟩ := hqs q List.mem_cons_self
      refine ⟨q.getLast hq, ?_, fun h => hslash (h ▸ List.getLast_mem hq)⟩
      rw [join_singleton, List.getLast?_eq_some_getLast hq]
    · obtain ⟨c, hc, hslash⟩ := ih hqs' fun q' hq' => hqs q' (List.mem_cons_of_mem _ hq')
      refine ⟨c, ?_, hslash⟩
      rw [join_cons hqs', List.getLast?_append, List.getLast?_cons, hc]
      rfl

/-- A slash stands between segments if there are several. -/
theorem slash_mem_join_iff {qs : List (List Char)} (hne : qs ≠ []) (hqs : ∀ q ∈ qs, '/' ∉ q) :
    '/' ∈ join qs ↔ 1 < qs.length := by
  obtain ⟨q, qs, rfl⟩ := List.exists_cons_of_ne_nil hne
  by_cases hqs' : qs = []
  · subst hqs'
    simpa using hqs q List.mem_cons_self
  · rw [join_cons hqs']
    have hpos := List.length_pos_iff.mpr hqs'
    simp only [List.mem_append, List.mem_cons, List.length_cons]
    constructor
    · exact fun _ => by omega
    · exact fun _ => Or.inr (Or.inl trivial)

section WellFormed

variable {s : Shape}

theorem Shape.text_eq_join (s : Shape) :
    s.text =
      (if s.rooted then ['/'] else []) ++ join s.segs ++ (if s.beneath then ['/'] else []) := rfl

theorem dropLastSlash_text (h : s.WellFormed) :
    dropLastSlash s.text = (if s.rooted then ['/'] else []) ++ join s.segs := by
  obtain ⟨c, hc, hslash⟩ := getLast?_join h.segs_ne_nil h.isSegment
  rw [s.text_eq_join]
  cases s.beneath with
  | true => exact dropLastSlash_concat _
  | false =>
    rw [if_neg Bool.false_ne_true, List.append_nil, dropLastSlash, List.getLast?_append, hc]
    exact if_neg (by simpa using hslash)

theorem asksBeneath_text (h : s.WellFormed) : asksBeneath s.text = s.beneath := by
  obtain ⟨c, hc, hslash⟩ := getLast?_join h.segs_ne_nil h.isSegment
  rw [s.text_eq_join, asksBeneath]
  cases s.beneath with
  | true => simp
  | false =>
    rw [if_neg Bool.false_ne_true, List.append_nil, List.getLast?_append, hc]
    simpa using hslash

theorem head?_dropLastSlash_text (h : s.WellFormed) :
    ((dropLastSlash s.text).head? == some '/') = s.rooted := by
  obtain ⟨c, hc, hslash⟩ := head?_join h.segs_ne_nil h.isSegment
  rw [dropLastSlash_text h]
  cases s.rooted with
  | true => rfl
  | false =>
    rw [if_neg Bool.false_ne_true, List.nil_append, hc]
    simpa using hslash

theorem body_text (h : s.WellFormed) : body s.text = join s.segs := by
  obtain ⟨c, hc, hslash⟩ := head?_join h.segs_ne_nil h.isSegment
  rw [body, dropLastSlash_text h]
  cases s.rooted with
  | true => rfl
  | false =>
    rw [if_neg Bool.false_ne_true, List.nil_append]
    exact dropFirstSlash_of_head?_ne (by simpa [hc] using hslash)

theorem segments_text (h : s.WellFormed) : segments s.text = s.segs := by
  rw [segments, body_text h]
  exact splitOn_join h.segs_ne_nil fun q hq => (h.isSegment q hq).2

theorem isTied_text_iff (h : s.WellFormed) : isTied s.text = true ↔ s.Tied := by
  rw [isTied, head?_dropLastSlash_text h, body_text h, Bool.or_eq_true, List.contains_iff_mem,
    slash_mem_join_iff h.segs_ne_nil fun q hq => (h.isSegment q hq).2]
  rfl

/-- **A shape is read back from its text**, so a text has one shape at most. -/
theorem shapeOf_text (h : s.WellFormed) : shapeOf s.text = s := by
  rw [shapeOf, head?_dropLastSlash_text h, segments_text h, asksBeneath_text h]

end WellFormed

theorem text_shapeOf (cs : List Char) : (shapeOf cs).text = cs := by
  have hlast : dropLastSlash cs ++ (if asksBeneath cs then ['/'] else []) = cs := by
    by_cases h : cs.getLast? = some '/'
    · rw [dropLastSlash, if_pos h, asksBeneath, if_pos (by simp [h])]
      exact List.dropLast_append_getLast? _ h
    · rw [dropLastSlash, if_neg h, asksBeneath, if_neg (by simpa using h), List.append_nil]
  have hfirst : ∀ ds : List Char,
      (if ds.head? == some '/' then ['/'] else []) ++ dropFirstSlash ds = ds := by
    intro ds
    by_cases h : ds.head? = some '/'
    · obtain ⟨ds, rfl⟩ := List.head?_eq_some_iff.mp h
      rw [dropFirstSlash_cons, if_pos rfl]
      rfl
    · rw [dropFirstSlash_of_head?_ne h, if_neg (by simpa using h), List.nil_append]
  have hjoin : join (segments cs) = body cs := List.intercalate_splitOn '/'
  rw [Shape.text_eq_join, shapeOf, hjoin, body, hfirst, hlast]

/-- A text without an empty segment has a well-formed shape. -/
theorem wellFormed_shapeOf {cs : List Char} (hnil : [] ∉ segments cs) :
    (shapeOf cs).WellFormed := by
  constructor
  · exact List.splitOn_ne_nil '/' (body cs)
  · exact fun q hq => ⟨fun hq' => hnil (hq' ▸ hq), Text.not_mem_of_mem_splitOn hq⟩

/-- A text that is not refused has a well-formed shape. -/
theorem shapeOf_wellFormed {cs : List Char} (h : refusal? cs = none) :
    (shapeOf cs).WellFormed := by
  refine wellFormed_shapeOf fun hmem => ?_
  simp [refusal?, hmem, ite_eq_iff] at h

/-! ## 7. Matching decides the rule -/

/-- The rule, with the last segment apart from the others. -/
theorem Shape.covers_iff_fits {s : Shape} {ss : List (List Char)} {last : List Char}
    (hsegs : s.segs = ss ++ [last]) {qs : List (List Char)} :
    s.Covers qs ↔ ∃ us vs, qs = us ++ vs ∧ (s.Tied → us = []) ∧ (∀ q ∈ us, '\n' ∉ q) ∧
      Fits s.beneath (1 < s.segs.length) ss last vs := by
  have hleaves : ∀ left, s.Leaves left ↔
      LeavesBehind s.beneath (1 < s.segs.length) last left := by
    intro left
    rw [Shape.Leaves, hsegs, List.getLastD_concat]
  simp only [Shape.Covers, Fits, hleaves, ← hsegs, List.forall_mem_append]
  constructor
  · rintro ⟨us, taken, left, rfl, hus, ht, hl, hnlu, hnll⟩
    exact ⟨us, taken ++ left, List.append_assoc _ _ _, hus, hnlu, taken, left, rfl, ht, hl, hnll⟩
  · rintro ⟨us, _, rfl, hus, hnlu, taken, left, rfl, ht, hl, hnll⟩
    exact ⟨us, taken, left, (List.append_assoc _ _ _).symm, hus, ht, hl, hnlu, hnll⟩

/-- **The language of a glob is the paths that its shape covers.** -/
theorem mem_language_iff_covers {s : Shape} (h : s.WellFormed) {qs : List (List Char)}
    (hne : qs ≠ []) (hqs : ∀ q ∈ qs, IsSegment q) :
    join qs ∈ language (piecesOf s.text) ↔ s.Covers qs := by
  obtain ⟨ss, last, hsegs⟩ : ∃ ss last, s.segs = ss ++ [last] :=
    ⟨_, _, (List.dropLast_append_getLast h.segs_ne_nil).symm⟩
  have hslashless : ∀ seg ∈ ss ++ [last], '/' ∉ seg := by
    rw [← hsegs]
    exact fun seg hseg => (h.isSegment seg hseg).2
  obtain ⟨hss, hlast⟩ := List.forall_mem_append.mp hslashless
  have hlast' : '/' ∉ last := hlast last List.mem_cons_self
  have hpieces : piecesOf s.text = (if isTied s.text then [] else [.anywhere]) ++
      (ss.flatMap innerPieces ++ lastPieces s.beneath (1 < s.segs.length) last) := by
    simp only [piecesOf, segments_text h, asksBeneath_text h, gt_iff_lt, List.append_assoc]
    rw [hsegs, List.dropLast_concat, List.getLastD_concat]
  rw [hpieces, Shape.covers_iff_fits hsegs]
  by_cases htied : s.Tied
  · rw [if_pos ((isTied_text_iff h).mpr htied), List.nil_append,
      mem_language_segments hss hlast' hne hqs]
    constructor
    · exact fun hfits => ⟨[], qs, rfl, fun _ => rfl, by simp, hfits⟩
    · rintro ⟨us, vs, rfl, hus, -, hfits⟩
      rw [hus htied]
      exact hfits
  · rw [if_neg fun ht => htied ((isTied_text_iff h).mp ht), List.singleton_append, language_cons,
      mem_anywhere_mul hne fun q hq => (hqs q hq).2]
    constructor
    · rintro ⟨us, vs, rfl, hvs, hnl, hmem⟩
      have hqs' : ∀ q ∈ vs, IsSegment q := fun q hq => hqs q (List.mem_append_right us hq)
      exact ⟨us, vs, rfl, fun ht => absurd ht htied, hnl,
        (mem_language_segments hss hlast' hvs hqs').mp hmem⟩
    · rintro ⟨us, vs, rfl, -, hnl, hfits⟩
      have hqs' : ∀ q ∈ vs, IsSegment q := fun q hq => hqs q (List.mem_append_right us hq)
      exact ⟨us, vs, rfl, hfits.ne_nil, hnl,
        (mem_language_segments hss hlast' hfits.ne_nil hqs').mpr hfits⟩

/-- **A glob covers the paths that the rule says.**  The text of the glob is that of one shape and
no other, and of all paths the glob covers those that this shape covers. -/
theorem exists_shape_covers_iff {text : String} {g : Glob} (hg : Glob.ofText text = .ok g) :
    ∃ s : Shape, s.WellFormed ∧ s.text = text.toList ∧
      (∀ t : Shape, t.WellFormed → t.text = text.toList → t = s) ∧
      ∀ qs, qs ≠ [] → (∀ q ∈ qs, IsSegment q) →
        (g.covers (RepoPath.ofSegments qs).text = true ↔ s.Covers qs) := by
  obtain ⟨hrefusal, rfl⟩ := ofText_eq_ok_iff.mp hg
  have hwf : (shapeOf text.toList).WellFormed := shapeOf_wellFormed hrefusal
  refine ⟨shapeOf text.toList, hwf, text_shapeOf _, fun t ht htext => ?_, fun qs hne hqs => ?_⟩
  · rw [← htext, shapeOf_text ht]
  · have hpath : (RepoPath.ofSegments qs).text.toList = join qs := by
      rw [RepoPath.ofSegments, String.toList_ofList, join]
    have hhead : (RepoPath.ofSegments qs).text.toList.head? ≠ some '/' := by
      obtain ⟨c, hc, hslash⟩ := head?_join hne hqs
      rw [hpath, hc]
      simpa using hslash
    rw [covers_iff_mem_language hhead, hpath, ← mem_language_iff_covers hwf hne hqs, text_shapeOf]

/-- A glob with several segments, wildcards of each kind and a slash at its end. -/
theorem covers_beneath_drafts_iff :
    ∃ g, Glob.ofText "docs/**/draft-?*/" = .ok g ∧
      ∀ qs, qs ≠ [] → (∀ q ∈ qs, IsSegment q) →
        (g.covers (RepoPath.ofSegments qs).text = true ↔
          Shape.Covers ⟨false, ["docs".toList, "**".toList, "draft-?*".toList], true⟩ qs) := by
  obtain ⟨g, hg⟩ : ∃ g, Glob.ofText "docs/**/draft-?*/" = .ok g := ⟨_, rfl⟩
  obtain ⟨s, -, -, huniq, hcovers⟩ := exists_shape_covers_iff hg
  have hs : ⟨false, ["docs".toList, "**".toList, "draft-?*".toList], true⟩ = s :=
    huniq _ ⟨by decide, by simp [IsSegment]⟩ (by decide)
  exact ⟨g, hg, hs ▸ hcovers⟩

end Ownership.Glob
