/-
# The language of a glob

A list of pieces is a regular expression, and `Piece.language` says which: each piece is built from
single characters by union, product and star, in the library's Kleene algebra of languages.  What
the pieces accept, by tests that are handed from the back to the front, is the product of their
languages.  From here on the tests can be forgotten.

* `Piece.accepts_iff`: a piece takes a word of its language and leaves the rest;
* `covers_iff_mem_language`: a glob covers the paths in the language of its pieces;
* `mem_star_oneOf`, `mem_language_dirs`: the two stars in plain words.
-/
import Mathlib.Computability.Language
import Ownership.Glob

namespace Ownership.Glob

open scoped Computability

/-! ## 1. Languages of pieces -/

/-- The texts of one character that is `ok`. -/
def oneOf (ok : Char → Bool) : Language Char := {w | ∃ c, ok c = true ∧ w = [c]}

/-- The text that is one slash. -/
def slash : Language Char := oneOf (· == '/')

/-- The regular expression that a piece is. -/
def Piece.language : Piece → Language Char
  | .lit c => oneOf (· == c)
  | .one => oneOf inSegment
  | .run => (oneOf inSegment)∗
  | .dirs => (oneOf inSegment * (oneOf inSegment)∗ * slash)∗
  | .anywhere => 1 + (oneOf inLine)∗ * slash
  | .rest => (oneOf inLine)∗
  | .below => 1 + slash * (oneOf inLine)∗

/-- The language of some pieces, one behind the other. -/
def language (ps : List Piece) : Language Char := (ps.map Piece.language).prod

@[simp] theorem language_nil : language [] = 1 := rfl

@[simp] theorem language_cons (p : Piece) (ps : List Piece) :
    language (p :: ps) = p.language * language ps := List.prod_cons

@[simp] theorem language_append (ps qs : List Piece) :
    language (ps ++ qs) = language ps * language qs := by
  simp [language]

theorem mem_oneOf {ok : Char → Bool} {w : List Char} :
    w ∈ oneOf ok ↔ ∃ c, ok c = true ∧ w = [c] := Iff.rfl

/-- The texts of one slash, of which there is one. -/
theorem mem_slash {w : List Char} : w ∈ slash ↔ w = ['/'] := by
  simp [slash, mem_oneOf]

/-- The star over one character is the texts of such characters. -/
theorem mem_star_oneOf {ok : Char → Bool} {w : List Char} :
    w ∈ (oneOf ok)∗ ↔ ∀ c ∈ w, ok c = true := by
  rw [Language.mem_kstar]
  constructor
  · rintro ⟨us, rfl, hus⟩ c hc
    obtain ⟨u, hu, hcu⟩ := List.mem_flatten.mp hc
    obtain ⟨d, hd, rfl⟩ := mem_oneOf.mp (hus u hu)
    exact List.mem_singleton.mp hcu ▸ hd
  · intro h
    refine ⟨w.map fun c => [c], ?_, fun u hu => ?_⟩
    · rw [← List.flatMap_def, List.flatMap_singleton']
    · obtain ⟨c, hc, rfl⟩ := List.mem_map.mp hu
      exact ⟨c, h c hc, rfl⟩

/-- A segment: it has a character and no slash. -/
def IsSegment (s : List Char) : Prop := s ≠ [] ∧ '/' ∉ s

/-- Segments with a slash behind each. -/
def closed (ds : List (List Char)) : List Char := ds.flatMap fun d => d ++ ['/']

@[simp] theorem closed_cons (d : List Char) (ds : List (List Char)) :
    closed (d :: ds) = d ++ '/' :: closed ds := by
  simp [closed]

theorem inSegment_eq_true_iff {c : Char} : inSegment c = true ↔ c ≠ '/' := by
  simp [inSegment]

theorem inLine_eq_true_iff {c : Char} : inLine c = true ↔ c ≠ '\n' := by
  simp [inLine]

theorem mem_star_inSegment {w : List Char} : w ∈ (oneOf inSegment)∗ ↔ '/' ∉ w := by
  rw [mem_star_oneOf]
  simp only [inSegment_eq_true_iff]
  exact List.forall_mem_ne'

theorem mem_star_inLine {w : List Char} : w ∈ (oneOf inLine)∗ ↔ '\n' ∉ w := by
  rw [mem_star_oneOf]
  simp only [inLine_eq_true_iff]
  exact List.forall_mem_ne'

/-- One segment with its slash. -/
theorem mem_segment_slash {w : List Char} :
    w ∈ oneOf inSegment * (oneOf inSegment)∗ * slash ↔ ∃ d, IsSegment d ∧ w = d ++ ['/'] := by
  simp only [Language.mem_mul, mem_slash, mem_star_inSegment, mem_oneOf, inSegment_eq_true_iff]
  constructor
  · rintro ⟨d, ⟨a, ⟨c, hc, rfl⟩, b, hb, rfl⟩, s, rfl, rfl⟩
    refine ⟨[c] ++ b, ⟨by simp, ?_⟩, rfl⟩
    exact List.not_mem_cons_of_ne_of_not_mem (Ne.symm hc) hb
  · rintro ⟨d, ⟨hne, hd⟩, rfl⟩
    obtain ⟨c, b, rfl⟩ := List.exists_cons_of_ne_nil hne
    have hc : c ≠ '/' := fun h => hd (h ▸ List.mem_cons_self)
    have hb : '/' ∉ b := fun h => hd (List.mem_cons_of_mem _ h)
    exact ⟨c :: b, ⟨[c], ⟨c, hc, rfl⟩, b, hb, rfl⟩, ['/'], rfl, rfl⟩

/-- The star over whole segments is the texts of segments with a slash behind each. -/
theorem mem_language_dirs {w : List Char} :
    w ∈ Piece.dirs.language ↔ ∃ ds, (∀ d ∈ ds, IsSegment d) ∧ w = closed ds := by
  rw [Piece.language, Language.mem_kstar]
  simp only [mem_segment_slash]
  constructor
  · rintro ⟨us, rfl, hus⟩
    induction us with
    | nil => exact ⟨[], by simp, rfl⟩
    | cons u us ih =>
      obtain ⟨d, hd, rfl⟩ := hus u List.mem_cons_self
      obtain ⟨ds, hds, hw⟩ := ih fun v hv => hus v (List.mem_cons_of_mem _ hv)
      refine ⟨d :: ds, List.forall_mem_cons.mpr ⟨hd, hds⟩, ?_⟩
      rw [List.flatten_cons, hw, closed_cons]
      simp
  · rintro ⟨ds, hds, rfl⟩
    refine ⟨ds.map fun d => d ++ ['/'], by rw [closed, List.flatMap_def], fun u hu => ?_⟩
    obtain ⟨d, hd, rfl⟩ := List.mem_map.mp hu
    exact ⟨d, hds d hd, rfl⟩

/-! ## 2. Tests accept languages -/

theorem next_iff {ok : Char → Bool} {k : Test} {cs : List Char} :
    next ok k cs = true ↔ ∃ u ∈ oneOf ok, ∃ v, u ++ v = cs ∧ k v = true := by
  cases cs with
  | nil => simp [next, mem_oneOf]
  | cons c cs =>
    simp only [next, Bool.and_eq_true, mem_oneOf]
    constructor
    · rintro ⟨hc, hk⟩
      exact ⟨[c], ⟨c, hc, rfl⟩, cs, rfl, hk⟩
    · rintro ⟨u, ⟨d, hd, rfl⟩, v, hv, hk⟩
      obtain ⟨rfl, rfl⟩ := List.cons.inj hv
      exact ⟨hd, hk⟩

theorem many_iff {ok : Char → Bool} {k : Test} {cs : List Char} :
    many ok k cs = true ↔ ∃ u ∈ (oneOf ok)∗, ∃ v, u ++ v = cs ∧ k v = true := by
  simp only [mem_star_oneOf]
  induction cs with
  | nil => simp [many]
  | cons c cs ih =>
    simp only [many, Bool.or_eq_true, Bool.and_eq_true, ih]
    constructor
    · rintro (hk | ⟨hc, u, hu, v, rfl, hk⟩)
      · exact ⟨[], by simp, c :: cs, rfl, hk⟩
      · exact ⟨c :: u, List.forall_mem_cons.mpr ⟨hc, hu⟩, v, rfl, hk⟩
    · rintro ⟨u, hu, v, huv, hk⟩
      cases u with
      | nil => exact Or.inl (huv ▸ hk)
      | cons d u =>
        obtain ⟨rfl, rfl⟩ := List.cons.inj huv
        obtain ⟨hd, hu⟩ := List.forall_mem_cons.mp hu
        exact Or.inr ⟨hd, u, hu, v, rfl, hk⟩

/-- Whole segments with their slashes stand in front of what `k` accepts. -/
def DirsThen (k : Test) (cs : List Char) : Prop :=
  ∃ ds, (∀ d ∈ ds, IsSegment d) ∧ ∃ v, closed ds ++ v = cs ∧ k v = true

/-- The rest of a segment that is under way, and its slash, stand in front of such a text. -/
def RestThen (k : Test) (cs : List Char) : Prop :=
  ∃ e, '/' ∉ e ∧ ∃ v, e ++ '/' :: v = cs ∧ DirsThen k v

theorem dirsThen_nil_iff {k : Test} : DirsThen k [] ↔ k [] = true := by
  constructor
  · rintro ⟨ds, -, v, hv, hk⟩
    exact (List.append_eq_nil_iff.mp hv).2 ▸ hk
  · exact fun hk => ⟨[], by simp, [], rfl, hk⟩

theorem dirsThen_cons_iff {k : Test} {c : Char} {cs : List Char} :
    DirsThen k (c :: cs) ↔ k (c :: cs) = true ∨ (c ≠ '/' ∧ RestThen k cs) := by
  constructor
  · rintro ⟨ds, hds, v, hv, hk⟩
    cases ds with
    | nil => exact Or.inl (hv ▸ hk)
    | cons d ds =>
      obtain ⟨⟨hne, hd⟩, hrest⟩ := List.forall_mem_cons.mp hds
      obtain ⟨b, e, rfl⟩ := List.exists_cons_of_ne_nil hne
      rw [closed_cons, List.cons_append, List.cons_append] at hv
      obtain ⟨rfl, rfl⟩ := List.cons.inj hv
      refine Or.inr ⟨fun h => hd (h ▸ List.mem_cons_self), e,
        fun h => hd (List.mem_cons_of_mem _ h), closed ds ++ v, by simp, ds, hrest, v, rfl, hk⟩
  · rintro (hk | ⟨hc, e, he, w, rfl, ds, hds, v, rfl, hk⟩)
    · exact ⟨[], by simp, c :: cs, rfl, hk⟩
    · have hseg : IsSegment (c :: e) :=
        ⟨List.cons_ne_nil _ _, List.not_mem_cons_of_ne_of_not_mem (Ne.symm hc) he⟩
      exact ⟨(c :: e) :: ds, List.forall_mem_cons.mpr ⟨hseg, hds⟩, v, by simp, hk⟩

/-- A slash ends the segment that is under way. -/
theorem restThen_slash_iff {k : Test} {cs : List Char} :
    RestThen k ('/' :: cs) ↔ DirsThen k cs := by
  constructor
  · rintro ⟨e, he, w, hw, hdirs⟩
    cases e with
    | nil => exact (List.cons.inj hw).2 ▸ hdirs
    | cons b e =>
      have hb : b = '/' := (List.cons.inj hw).1
      exact absurd (hb ▸ List.mem_cons_self) he
  · exact fun hdirs => ⟨[], List.not_mem_nil, cs, rfl, hdirs⟩

/-- Any other character belongs to it. -/
theorem restThen_cons_iff {k : Test} {c : Char} (hc : c ≠ '/') {cs : List Char} :
    RestThen k (c :: cs) ↔ RestThen k cs := by
  constructor
  · rintro ⟨e, he, w, hw, hdirs⟩
    cases e with
    | nil => exact absurd (List.cons.inj hw).1.symm hc
    | cons b e =>
      obtain ⟨rfl, rfl⟩ := List.cons.inj hw
      exact ⟨e, fun h => he (List.mem_cons_of_mem _ h), w, rfl, hdirs⟩
  · rintro ⟨e, he, w, rfl, hdirs⟩
    exact ⟨c :: e, List.not_mem_cons_of_ne_of_not_mem (Ne.symm hc) he, w, rfl, hdirs⟩

/-- The test outside of a segment, and inside of one that is under way. -/
theorem manyDirs_iff {k : Test} {cs : List Char} :
    (manyDirs k false cs = true ↔ DirsThen k cs) ∧
      (manyDirs k true cs = true ↔ RestThen k cs) := by
  induction cs with
  | nil =>
    constructor
    · rw [dirsThen_nil_iff, manyDirs, Bool.not_false, Bool.true_and]
    · simp [manyDirs, RestThen]
  | cons c cs ih =>
    obtain ⟨ihout, ihin⟩ := ih
    constructor
    · simp only [manyDirs, Bool.false_eq_true, if_false, Bool.or_eq_true, Bool.and_eq_true, ihin,
        inSegment_eq_true_iff]
      exact dirsThen_cons_iff.symm
    · rw [manyDirs, if_pos rfl]
      by_cases hc : c = '/'
      · subst hc
        rw [if_pos rfl, ihout, restThen_slash_iff]
      · rw [if_neg hc, ihin, restThen_cons_iff hc]

/-- **A piece takes a word of its language** and leaves the rest to what comes behind it. -/
theorem Piece.accepts_iff (p : Piece) {k : Test} {cs : List Char} :
    p.accepts k cs = true ↔ ∃ u ∈ p.language, ∃ v, u ++ v = cs ∧ k v = true := by
  have heither : ∀ {l : Test}, either k l cs = true ↔ k cs = true ∨ l cs = true := by
    intro l
    rw [either, Bool.or_eq_true]
  cases p with
  | lit c => exact next_iff
  | one => exact next_iff
  | run => exact many_iff
  | rest => exact many_iff
  | dirs =>
    rw [Piece.accepts, manyDirs_iff.1, DirsThen]
    simp only [mem_language_dirs]
    constructor
    · rintro ⟨ds, hds, v, hv, hk⟩
      exact ⟨closed ds, ⟨ds, hds, rfl⟩, v, hv, hk⟩
    · rintro ⟨u, ⟨ds, hds, rfl⟩, v, hv, hk⟩
      exact ⟨ds, hds, v, hv, hk⟩
  | anywhere =>
    rw [Piece.accepts, heither, many_iff]
    simp only [next_iff, Piece.language, Language.mem_add, Language.mem_one, Language.mem_mul]
    constructor
    · rintro (hk | ⟨u, hu, v, rfl, s, hs, w, rfl, hk⟩)
      · exact ⟨[], Or.inl rfl, cs, rfl, hk⟩
      · exact ⟨u ++ s, Or.inr ⟨u, hu, s, hs, rfl⟩, w, List.append_assoc _ _ _, hk⟩
    · rintro ⟨u, rfl | ⟨u, hu, s, hs, rfl⟩, w, rfl, hk⟩
      · exact Or.inl hk
      · exact Or.inr ⟨u, hu, s ++ w, (List.append_assoc _ _ _).symm, s, hs, w, rfl, hk⟩
  | below =>
    rw [Piece.accepts, heither, next_iff]
    simp only [many_iff, Piece.language, Language.mem_add, Language.mem_one, Language.mem_mul]
    constructor
    · rintro (hk | ⟨s, hs, v, rfl, u, hu, w, rfl, hk⟩)
      · exact ⟨[], Or.inl rfl, cs, rfl, hk⟩
      · exact ⟨s ++ u, Or.inr ⟨s, hs, u, hu, rfl⟩, w, List.append_assoc _ _ _, hk⟩
    · rintro ⟨u, rfl | ⟨s, hs, u, hu, rfl⟩, w, rfl, hk⟩
      · exact Or.inl hk
      · exact Or.inr ⟨s, hs, u ++ w, (List.append_assoc _ _ _).symm, u, hu, w, rfl, hk⟩

/-- **Pieces accept the product of their languages.** -/
theorem accepts_iff_mem_language (ps : List Piece) :
    ∀ cs : List Char, accepts ps cs = true ↔ cs ∈ language ps := by
  induction ps with
  | nil =>
    intro cs
    rw [language_nil, Language.mem_one]
    exact List.isEmpty_iff
  | cons p ps ih =>
    intro cs
    have hcons : accepts (p :: ps) cs = p.accepts (accepts ps) cs := rfl
    rw [hcons, Piece.accepts_iff, language_cons, Language.mem_mul]
    constructor
    · rintro ⟨u, hu, v, huv, hv⟩
      exact ⟨u, hu, v, (ih v).mp hv, huv⟩
    · rintro ⟨u, hu, v, hv, huv⟩
      exact ⟨u, hu, v, huv, (ih v).mpr hv⟩

/-- **A glob covers the paths in its language.** -/
theorem covers_iff_mem_language {g : Glob} {path : String}
    (h : path.toList.head? ≠ some '/') :
    g.covers path = true ↔ path.toList ∈ language g.pieces := by
  have hpath : path.toList.dropWhile (· == '/') = path.toList := by
    cases hcs : path.toList with
    | nil => rfl
    | cons c cs =>
      rw [hcs, List.head?_cons, ne_eq, Option.some.injEq] at h
      exact List.dropWhile_cons_of_neg (by simpa using h)
  rw [covers, hpath, matchesPieces_eq_accepts, accepts_iff_mem_language]

end Ownership.Glob
