/-
# Writing a file and reading it again

A file that has been read is written line by line, and reading what was written treats each line by
itself.  A blank line and a comment always come back.  A rule comes back unless one of three things
happens to its words:

* a word in front of the last ends in a backslash, which then escapes the space behind it;
* the last word ends in a blank, which trimming cuts off although it is escaped;
* the rule stands on the first line and its pattern starts with a byte order mark, which is then
  taken for the mark of the file.

`OwnersFile.Survives` says that none of them happens.  It is sufficient because words are read back
(`words_of_spaced`), and it is necessary because no two of the three can cancel out: the words in
front of the first offending one are always read as they were, and a lost byte order mark is never
made up for, since reading makes no character up.

* `Rule.WellFormed.reread_iff`: when one rule comes back;
* `lines_reread_iff`: when the lines of a file come back;
* `lines_ofText_render_iff_survives`: the same for a text;
* `rules_ofText_render_iff_survives`: the same for the rules, their identifier and the written
  form.
-/
import Ownership.RuleId
import Ownership.Proofs.OwnersFile.Form

namespace Ownership

open Text

/-! ## 1. A rule as it is written -/

/-- **A written rule is its words with spaces between them**, if the owners start behind the
pattern. -/
theorem Rule.spaced_render {width : Nat} {r : Rule}
    (h : (escape r.pattern.toList).length < width) :
    Spaced r.wordList.dropLast (r.wordList.getLast r.wordList_ne_nil) (r.render width) := by
  obtain ⟨line, pattern, owners⟩ := r
  cases owners with
  | nil => exact Spaced.last _
  | cons o os =>
    obtain ⟨k, hk⟩ : ∃ k, width - (escape pattern.toList).length = k + 1 :=
      ⟨width - (escape pattern.toList).length - 1, by simp only at h; omega⟩
    have howners := spaced_intercalate o.raw.toList (os.map fun o => o.raw.toList)
    rw [List.map_cons, List.map_map] at howners
    simp only [Rule.render, List.isEmpty_cons, Bool.false_eq_true, if_false, padTo, hk,
      List.append_assoc]
    exact Spaced.cons _ k howners

/-- A written rule starts with its pattern. -/
theorem Rule.exists_render_eq (width : Nat) (r : Rule) :
    ∃ t, r.render width = escape r.pattern.toList ++ t := by
  unfold Rule.render
  split
  · exact ⟨[], (List.append_nil _).symm⟩
  · exact ⟨List.replicate _ ' ' ++ _, List.append_assoc _ _ _⟩

/-- The owners of a file start behind each of its patterns. -/
theorem length_escape_lt_ownerColumn {f : OwnersFile} {r : Rule} (h : r ∈ f.rules) :
    (escape r.pattern.toList).length < f.ownerColumn := by
  have hle : ∀ (ns : List Nat) (m n : Nat), n ≤ m ∨ n ∈ ns → n ≤ ns.foldl max m := by
    intro ns
    induction ns with
    | nil => exact fun m n h => h.elim id fun h => absurd h List.not_mem_nil
    | cons k ns ih =>
      intro m n h
      refine ih (max m k) n ?_
      rcases h with h | h
      · exact Or.inl (by omega)
      · rcases List.mem_cons.mp h with rfl | h
        · exact Or.inl (by omega)
        · exact Or.inr h
  exact hle _ _ _ (Or.inr (List.mem_map.mpr ⟨r, h, rfl⟩))

/-! ## 2. One rule, read again -/

/-- No word of the rule in front of the last ends in a backslash. -/
def Rule.NoBackslashInside (r : Rule) : Prop :=
  ∀ w ∈ r.wordList.dropLast, w.getLast? ≠ some '\\'

/-- The last word of the rule does not end in a space or a tab. -/
def Rule.NoBlankAtEnd (r : Rule) : Prop :=
  ∀ w, r.wordList.getLast? = some w → w.getLast? ≠ some ' ' ∧ w.getLast? ≠ some '\t'

theorem Rule.noBlankAtEnd_iff {r : Rule} :
    r.NoBlankAtEnd ↔
      ∀ c, (r.wordList.getLast r.wordList_ne_nil).getLast? = some c → isBlank c = false := by
  have hlast := List.getLast?_eq_some_getLast r.wordList_ne_nil
  constructor
  · intro h c hc
    obtain ⟨hspace, htab⟩ := h _ hlast
    by_contra hb
    rw [Bool.not_eq_false] at hb
    rcases isBlank_iff.mp hb with rfl | rfl
    · exact hspace hc
    · exact htab hc
  · intro h w hw
    rw [hlast, Option.some.injEq] at hw
    subst hw
    exact ⟨fun hc => absurd (h _ hc) (by decide), fun hc => absurd (h _ hc) (by decide)⟩

/-- A line whose first character is neither white space nor a comment sign is a rule. -/
theorem Line.ofText_eq_rule (n : Nat) {text : List Char} {c : Char}
    (hhead : (trim text).head? = some c) (hc : c ≠ commentSign) :
    Line.ofText n text = .rule (Rule.ofWords n (words (trim text))) := by
  obtain ⟨d, cs, htrim⟩ : ∃ d cs, trim text = d :: cs := by
    cases htrim : trim text with
    | nil => rw [htrim] at hhead; exact absurd hhead (by simp)
    | cons d cs => exact ⟨d, cs, rfl⟩
  rw [htrim, List.head?_cons, Option.some.injEq] at hhead
  subst hhead
  simp only [Line.ofText, htrim, if_neg hc]

/-- A rule that is read off a line holds only words of that line. -/
theorem wordList_ofWords_isPrefix (n : Nat) {ws : List (List Char)} (h : ws ≠ []) :
    (Rule.ofWords n ws).wordList <+: ws := by
  obtain ⟨w, ws, rfl⟩ := List.exists_cons_of_ne_nil h
  rw [wordList_ofWords]
  exact List.cons_prefix_cons.mpr ⟨rfl, List.takeWhile_prefix _⟩

namespace Rule.WellFormed

variable {n width : Nat} {r : Rule}

theorem isWord_front (h : r.WellFormed n) : ∀ w ∈ r.wordList.dropLast, IsWord w :=
  fun w hw => h.isWord w (List.dropLast_subset _ hw)

theorem isWord_last (h : r.WellFormed n) : IsWord (r.wordList.getLast r.wordList_ne_nil) :=
  h.isWord _ (List.getLast_mem _)

/-- What is read off a written rule. -/
theorem ofText_render (h : r.WellFormed n) (hwidth : (escape r.pattern.toList).length < width) :
    Line.ofText n (r.render width) = .rule (Rule.ofWords n (words (trim (r.render width)))) := by
  have hsp := Rule.spaced_render hwidth
  have hpattern : IsWord r.pattern.toList := h.isWord _ List.mem_cons_self
  obtain ⟨t, ht⟩ := r.exists_render_eq width
  obtain ⟨c, cs, hesc⟩ := List.exists_cons_of_ne_nil (escape_ne_nil hpattern.1)
  have hc : c ≠ commentSign := by
    rintro rfl
    have hopen := h.no_comment _ List.mem_cons_self
    obtain ⟨d, ds, hd⟩ := List.exists_cons_of_ne_nil hpattern.1
    rw [hd] at hesc hopen
    by_cases hb : isBlank d = true
    · rw [escape_cons_of_blank hb] at hesc
      exact absurd (List.cons.inj hesc).1 (by decide)
    · rw [escape_cons_of_not_blank (by simpa using hb)] at hesc
      rw [(List.cons.inj hesc).1] at hopen
      exact absurd hopen (by simp [opensComment])
  refine Line.ofText_eq_rule n (c := c) ?_ hc
  obtain ⟨u, hu⟩ : trim (r.render width) <+: r.render width := by
    rw [Text.trim, hsp.trimStart h.isWord_front h.isWord_last]
    exact trimEnd_isPrefix _
  have hne := (hsp.trim h.isWord_front h.isWord_last).ne_nil (isWord_cutBlank h.isWord_last).1
  obtain ⟨d, ds, hd⟩ := List.exists_cons_of_ne_nil hne
  rw [hd, ht, hesc] at hu
  rw [hd, List.head?_cons, (List.cons.inj hu).1]

/-- **When a rule comes back.**  Trimming and reading can only harm the end of a word: a blank at
the end of the last one, a backslash at the end of another. -/
theorem reread_iff (h : r.WellFormed n) (hwidth : (escape r.pattern.toList).length < width) :
    Line.ofText n (r.render width) = .rule r ↔ r.NoBackslashInside ∧ r.NoBlankAtEnd := by
  have htrim := (Rule.spaced_render hwidth).trim h.isWord_front h.isWord_last
  have hlast := isWord_cutBlank h.isWord_last
  have hlist := List.dropLast_concat_getLast r.wordList_ne_nil
  rw [h.ofText_render hwidth, Line.rule.injEq, Rule.noBlankAtEnd_iff]
  constructor
  · intro hr
    have hws : words (trim (r.render width)) ≠ [] := by
      intro hnil
      have hlist : (Rule.ofWords n []).wordList = r.wordList := by rw [← hnil, hr]
      exact (h.isWord [] (hlist ▸ List.mem_cons_self)).1 rfl
    have hpre : r.wordList <+: words (trim (r.render width)) := by
      have := wordList_ofWords_isPrefix n hws
      rwa [hr] at this
    have hbs : r.NoBackslashInside := by
      by_contra hbs
      simp only [Rule.NoBackslashInside, not_forall, ne_eq, not_not] at hbs
      obtain ⟨w, hw, hwb⟩ := hbs
      have hfront : r.wordList.dropLast <+: r.wordList := List.dropLast_prefix r.wordList
      exact not_prefix_words_of_spaced htrim h.isWord_front ⟨w, hw, hwb⟩ (hfront.trans hpre)
    refine ⟨hbs, fun c hc => ?_⟩
    by_contra hb
    rw [words_of_spaced htrim h.isWord_front hlast hbs] at hpre
    have hlast_eq : r.wordList.dropLast ++ [r.wordList.getLast r.wordList_ne_nil] <+:
        r.wordList.dropLast ++ [cutBlank (r.wordList.getLast r.wordList_ne_nil)] := by
      rw [hlist]
      exact hpre
    rw [List.prefix_append_right_inj, List.cons_prefix_cons] at hlast_eq
    exact cutBlank_ne_self hc (by simpa using hb) hlast_eq.1.symm
  · rintro ⟨hbs, hblank⟩
    rw [words_of_spaced htrim h.isWord_front hlast hbs, cutBlank_eq_self hblank, hlist,
      h.ofWords_wordList]

end Rule.WellFormed

/-! ## 3. The byte order mark -/

/-- The pattern of the rule starts with a byte order mark. -/
def Rule.OpensWithMark (r : Rule) : Prop := r.pattern.toList.head? = some '\uFEFF'

/-- A rule that is read off a line has no character more often than the line. -/
theorem count_wordList_ofText_le {n : Nat} {text : List Char} {s : Rule}
    (h : Line.ofText n text = .rule s) (x : Char) :
    s.wordList.flatten.count x ≤ text.count x := by
  unfold Line.ofText at h
  split at h
  · exact Line.noConfusion h
  · rename_i c cs htrim
    split at h
    · exact Line.noConfusion h
    · rw [Line.rule.injEq] at h
      obtain ⟨d, w, ws, hwords, -⟩ :=
        exists_words_eq_cons (head?_trim (c := c) (by rw [htrim]; rfl)) cs
      have hne : words (c :: cs) ≠ [] := by
        rw [hwords]
        exact List.cons_ne_nil _ _
      obtain ⟨vs, hvs⟩ := wordList_ofWords_isPrefix n hne
      rw [h] at hvs
      calc s.wordList.flatten.count x
          ≤ (words (c :: cs)).flatten.count x := by
            rw [← hvs, List.flatten_append, List.count_append]
            exact Nat.le_add_right _ _
        _ ≤ (c :: cs).count x := (flatten_words_sublist _).count_le x
        _ = (trim text).count x := by rw [htrim]
        _ ≤ text.count x := (trim_sublist text).count_le x

/-- **A byte order mark in front of the first pattern is lost for good**: what is read without it
has one byte order mark less, so it is not the rule that was written. -/
theorem wordList_ne_of_opensWithMark {n width : Nat} {r s : Rule}
    (hwidth : (escape r.pattern.toList).length < width) (hmark : r.OpensWithMark)
    (h : Line.ofText n (dropMark (r.render width)) = .rule s) : s.wordList ≠ r.wordList := by
  obtain ⟨t, ht⟩ := r.exists_render_eq width
  obtain ⟨p, hp⟩ : ∃ p, r.pattern.toList = '\uFEFF' :: p := by
    cases hpat : r.pattern.toList with
    | nil => rw [Rule.OpensWithMark, hpat] at hmark; exact absurd hmark (by simp)
    | cons c p =>
      rw [Rule.OpensWithMark, hpat, List.head?_cons, Option.some.injEq] at hmark
      exact ⟨p, by rw [hmark]⟩
  have hrender : r.render width = '\uFEFF' :: dropMark (r.render width) := by
    rw [ht, hp, escape_cons_of_not_blank (by decide)]
    rfl
  have hcount := (Rule.spaced_render hwidth).count_eq (x := '\uFEFF') (by decide) (by decide)
  rw [List.dropLast_concat_getLast, hrender, List.count_cons_self] at hcount
  intro heq
  have hle := count_wordList_ofText_le h '\uFEFF'
  rw [heq] at hle
  omega

/-- Without such a rule on it, the first line is not touched. -/
theorem dropMark_render_eq_self {n width : Nat} {l : Line} (h : l.WellFormed n)
    (hmark : ∀ r, l = .rule r → ¬ r.OpensWithMark) :
    dropMark (l.render width) = l.render width := by
  cases l with
  | blank => rfl
  | comment text => exact dropMark_cons_of_ne (by decide)
  | rule r =>
    obtain ⟨t, ht⟩ := r.exists_render_eq width
    have hwf : r.WellFormed n := h
    obtain ⟨c, p, hp⟩ := List.exists_cons_of_ne_nil (hwf.isWord _ List.mem_cons_self).1
    have hne : c ≠ '\uFEFF' := by
      rintro rfl
      exact hmark r rfl (by rw [Rule.OpensWithMark, hp]; rfl)
    rw [Line.render, ht, hp]
    by_cases hb : isBlank c = true
    · rw [escape_cons_of_blank hb]
      exact dropMark_cons_of_ne (by decide)
    · rw [escape_cons_of_not_blank (by simpa using hb)]
      exact dropMark_cons_of_ne hne

/-! ## 4. Lines, read again -/

/-- A blank line and a comment come back. -/
theorem ofText_render_of_not_rule {n width : Nat} {l : Line} (h : l.WellFormed n)
    (hl : l.rule? = none) : Line.ofText n (l.render width) = l := by
  cases l with
  | blank => rfl
  | comment text =>
    have htrim : trim (commentSign :: text.toList) = commentSign :: text.toList := by
      refine trim_eq_self (fun c hc => ?_) (fun c hc => ?_)
      · rw [List.head?_cons, Option.some.injEq] at hc
        exact hc ▸ by decide
      · rw [List.getLast?_cons] at hc
        cases hlast : text.toList.getLast? with
        | none => rw [hlast] at hc; exact Option.some.inj hc ▸ by decide
        | some d => rw [hlast] at hc; exact Option.some.inj hc ▸ h.2 d hlast
    simp only [Line.ofText, Line.render, htrim, if_true, String.ofList_toList]
  | rule r => exact absurd hl (by simp [Line.rule?])

/-- A rule becomes some rule again. -/
theorem exists_ofText_render_eq_rule {n width : Nat} {r : Rule} (h : r.WellFormed n)
    (hwidth : (escape r.pattern.toList).length < width) :
    ∃ s, Line.ofText n (r.render width) = .rule s ∧ s.WellFormed n := by
  refine ⟨_, h.ofText_render hwidth, ?_⟩
  have hnl : '\n' ∉ r.render width := by
    intro hmem
    have := (Rule.spaced_render hwidth).isBlank_of_mem h.isWord_front h.isWord_last hmem
      (by decide)
    exact absurd this (by decide)
  have hwf := wellFormed_line_ofText n hnl
  rwa [h.ofText_render hwidth] at hwf

/-- The owners' column lies behind the pattern of every rule among the lines. -/
def Narrow (width : Nat) (ls : List Line) : Prop :=
  ∀ r ∈ ls.filterMap Line.rule?, (escape r.pattern.toList).length < width

theorem Narrow.tail {width : Nat} {l : Line} {ls : List Line} (h : Narrow width (l :: ls)) :
    Narrow width ls := by
  intro r hr
  obtain ⟨k, hk, hkr⟩ := List.mem_filterMap.mp hr
  exact h r (List.mem_filterMap.mpr ⟨k, List.mem_cons_of_mem _ hk, hkr⟩)

theorem Narrow.head {width : Nat} {r : Rule} {ls : List Line} (h : Narrow width (.rule r :: ls)) :
    (escape r.pattern.toList).length < width :=
  h r List.mem_cons_self

/-- **When lines come back**: when each rule among them does. -/
theorem readFrom_render_eq_iff {width : Nat} {ls : List Line} :
    ∀ {n : Nat}, WellFormedFrom n ls → Narrow width ls →
      (Line.readFrom n (ls.map (Line.render width)) = ls ↔
        ∀ r ∈ ls.filterMap Line.rule?, r.NoBackslashInside ∧ r.NoBlankAtEnd) := by
  induction ls with
  | nil => exact fun _ _ => by simp [Line.readFrom]
  | cons l ls ih =>
    intro n h hwidth
    rw [List.map_cons, Line.readFrom, List.cons.injEq, ih h.2 hwidth.tail]
    cases l with
    | rule r =>
      have hr : r.WellFormed n := h.1
      rw [Line.render, hr.reread_iff hwidth.head, filterMap_rule?_cons,
        List.forall_mem_cons]
    | blank => exact and_iff_right (ofText_render_of_not_rule h.1 rfl)
    | comment text => exact and_iff_right (ofText_render_of_not_rule h.1 rfl)

/-- A rule as its pattern and its owners, both as they are written. -/
def Rule.written (r : Rule) : String × List String := (r.pattern, r.owners.map Owner.raw)

theorem wordList_eq_of_written_eq {r s : Rule} (h : r.written = s.written) :
    r.wordList = s.wordList := by
  obtain ⟨hpattern, howners⟩ := Prod.mk.inj h
  have hraw : ∀ t : Rule,
      t.wordList = t.pattern.toList :: (t.owners.map Owner.raw).map String.toList := by
    intro t
    rw [List.map_map]
    rfl
  rw [hraw, hraw, hpattern, howners]

/-- As many rules are read as were written. -/
theorem length_rules_readFrom_render {width : Nat} {ls : List Line} :
    ∀ {n : Nat}, WellFormedFrom n ls → Narrow width ls →
      ((Line.readFrom n (ls.map (Line.render width))).filterMap Line.rule?).length =
        (ls.filterMap Line.rule?).length := by
  induction ls with
  | nil => exact fun _ _ => rfl
  | cons l ls ih =>
    intro n h hwidth
    have htail := ih h.2 hwidth.tail
    rw [List.map_cons, Line.readFrom]
    cases l with
    | rule r =>
      obtain ⟨s, hs, -⟩ := exists_ofText_render_eq_rule h.1 hwidth.head
      rw [Line.render, hs, filterMap_rule?_cons, filterMap_rule?_cons,
        List.length_cons, List.length_cons, htail]
    | blank => rwa [ofText_render_of_not_rule h.1 rfl]
    | comment text => rwa [ofText_render_of_not_rule h.1 rfl]

/-- Lines whose rules come back as they are written come back as a whole. -/
theorem readFrom_render_eq_of_written_eq {width : Nat} {ls : List Line} :
    ∀ {n : Nat}, WellFormedFrom n ls → Narrow width ls →
      ((Line.readFrom n (ls.map (Line.render width))).filterMap Line.rule?).map Rule.written =
        (ls.filterMap Line.rule?).map Rule.written →
      Line.readFrom n (ls.map (Line.render width)) = ls := by
  induction ls with
  | nil => exact fun _ _ _ => rfl
  | cons l ls ih =>
    intro n h hwidth hwritten
    rw [List.map_cons, Line.readFrom] at hwritten ⊢
    cases l with
    | rule r =>
      have hr : r.WellFormed n := h.1
      obtain ⟨s, hs, hswf⟩ := exists_ofText_render_eq_rule hr hwidth.head
      rw [Line.render, hs, filterMap_rule?_cons, filterMap_rule?_cons,
        List.map_cons, List.map_cons, List.cons.injEq] at hwritten
      rw [Line.render, hs, ih h.2 hwidth.tail hwritten.2,
        hswf.eq_of_wordList_eq hr (wordList_eq_of_written_eq hwritten.1)]
    | blank =>
      rw [ofText_render_of_not_rule h.1 rfl] at hwritten ⊢
      rw [ih h.2 hwidth.tail hwritten]
    | comment text =>
      rw [ofText_render_of_not_rule h.1 rfl] at hwritten ⊢
      rw [ih h.2 hwidth.tail hwritten]

/-! ## 5. Files, written and read again -/

/-- What a file needs for its rules to come back when it is written and read again. -/
structure OwnersFile.Survives (f : OwnersFile) : Prop where
  no_backslash : ∀ r ∈ f.rules, r.NoBackslashInside
  no_blank : ∀ r ∈ f.rules, r.NoBlankAtEnd
  no_mark : ∀ r, f.lines.head? = some (.rule r) → ¬ r.OpensWithMark

/-- A written line holds no line feed, and no carriage return at its end. -/
theorem Line.WellFormed.render_closed {n width : Nat} {l : Line} (h : l.WellFormed n)
    (hwidth : ∀ r, l = .rule r → (escape r.pattern.toList).length < width) :
    '\n' ∉ l.render width ∧ (l.render width).getLast? ≠ some '\r' := by
  cases l with
  | blank => exact ⟨List.not_mem_nil, by simp [Line.render]⟩
  | comment text =>
    refine ⟨List.not_mem_cons_of_ne_of_not_mem (by decide) h.1, fun hlast => ?_⟩
    rw [Line.render, List.getLast?_cons, Option.some.injEq] at hlast
    cases htext : text.toList.getLast? with
    | none =>
      rw [htext] at hlast
      exact absurd hlast (by decide)
    | some c =>
      have hc : c = '\r' := by rwa [htext] at hlast
      exact absurd (h.2 c htext) (by rw [hc]; decide)
  | rule r =>
    have hwf : r.WellFormed n := h
    have hblank := fun x => (Rule.spaced_render (hwidth r rfl)).isBlank_of_mem (x := x)
      hwf.isWord_front hwf.isWord_last
    refine ⟨fun hmem => absurd (hblank '\n' hmem (by decide)) (by decide), fun hlast => ?_⟩
    exact absurd (hblank '\r' (List.mem_of_getLast? hlast) (by decide)) (by decide)

theorem WellFormedFrom.render_closed {width : Nat} {ls : List Line} :
    ∀ {n : Nat}, WellFormedFrom n ls → Narrow width ls →
      ∀ t ∈ ls.map (Line.render width), '\n' ∉ t ∧ t.getLast? ≠ some '\r' := by
  induction ls with
  | nil => exact fun _ _ t ht => absurd ht List.not_mem_nil
  | cons l ls ih =>
    intro n h hwidth t ht
    rw [List.map_cons] at ht
    rcases List.mem_cons.mp ht with rfl | ht
    · refine h.1.render_closed fun r hr => ?_
      subst hr
      exact hwidth.head
    · exact ih h.2 hwidth.tail t ht

/-- **What is read when a file is written**: each written line by itself, the first without a byte
order mark. -/
theorem lines_ofText_render {f : OwnersFile} (h : WellFormedFrom 1 f.lines)
    (hwidth : Narrow f.ownerColumn f.lines) :
    (OwnersFile.ofText f.render).lines =
      Line.readFrom 1 ((f.lines.map (Line.render f.ownerColumn)).modifyHead dropMark) := by
  have hclosed : ∀ t ∈ (f.lines.map (Line.render f.ownerColumn)).modifyHead dropMark,
      '\n' ∉ t ∧ t.getLast? ≠ some '\r' := by
    have hrender := h.render_closed hwidth
    cases hls : f.lines.map (Line.render f.ownerColumn) with
    | nil => exact fun t ht => absurd ht List.not_mem_nil
    | cons u us =>
      rw [hls] at hrender
      obtain ⟨hu, hus⟩ := List.forall_mem_cons.mp hrender
      rw [List.modifyHead_cons]
      refine List.forall_mem_cons.mpr ⟨⟨?_, fun hlast => ?_⟩, hus⟩
      · exact fun hmem => hu.1 ((dropMark_suffix_self u).subset hmem)
      · obtain ⟨v, hv⟩ := dropMark_suffix_self u
        refine hu.2 ?_
        rw [← hv, List.getLast?_append, hlast]
        rfl
  have htext : f.render.toList =
      (f.lines.map (Line.render f.ownerColumn)).flatMap fun t => t ++ ['\n'] := by
    rw [OwnersFile.render, String.toList_ofList, List.flatMap_map]
  rw [OwnersFile.lines_ofText, htext, dropMark_closed, lines_closed fun t ht => (hclosed t ht).1]
  congr 1
  conv => rhs; rw [← List.map_id (List.modifyHead dropMark _)]
  exact List.map_congr_left fun t ht => dropReturn_eq_self (hclosed t ht).2

/-- The owners' column is wide enough for the file's own lines. -/
theorem narrow_ownerColumn (f : OwnersFile) : Narrow f.ownerColumn f.lines :=
  fun _ hr => length_escape_lt_ownerColumn hr

/-- Without a byte order mark in front of the first rule, every line is read as it was written. -/
theorem lines_ofText_render_of_no_mark {f : OwnersFile} (h : WellFormedFrom 1 f.lines)
    (hmark : ∀ r, f.lines.head? = some (.rule r) → ¬ r.OpensWithMark) :
    (OwnersFile.ofText f.render).lines =
      Line.readFrom 1 (f.lines.map (Line.render f.ownerColumn)) := by
  rw [lines_ofText_render h (narrow_ownerColumn f)]
  congr 1
  cases hls : f.lines with
  | nil => rfl
  | cons l ls =>
    rw [hls] at h hmark
    rw [List.map_cons, List.modifyHead_cons,
      dropMark_render_eq_self h.1 fun r hr => hmark r (by rw [hr]; rfl)]

/-- With such a mark the rules that are read are not the rules that were written: the first line
holds another rule, or none at all. -/
theorem written_ne_of_mark {f : OwnersFile} (h : WellFormedFrom 1 f.lines) {r : Rule}
    (hhead : f.lines.head? = some (.rule r)) (hmark : r.OpensWithMark) :
    (OwnersFile.ofText f.render).rules.map Rule.written ≠ f.rules.map Rule.written := by
  have hwidth := narrow_ownerColumn f
  rw [OwnersFile.rules, OwnersFile.rules, lines_ofText_render h hwidth]
  cases hls : f.lines with
  | nil => rw [hls] at hhead; exact absurd hhead (by simp)
  | cons l ls =>
    rw [hls] at h hhead hwidth
    rw [List.head?_cons, Option.some.injEq] at hhead
    subst hhead
    rw [List.map_cons, List.modifyHead_cons, Line.readFrom]
    intro heq
    cases hfirst : (Line.ofText 1 (dropMark (r.render f.ownerColumn))).rule? with
    | some s =>
      have hs := Line.rule?_eq_some_iff.mp hfirst
      rw [Line.render, hs, filterMap_rule?_cons, filterMap_rule?_cons, List.map_cons,
        List.map_cons, List.cons.injEq] at heq
      exact wordList_ne_of_opensWithMark hwidth.head hmark hs (wordList_eq_of_written_eq heq.1)
    | none =>
      have hlen := length_rules_readFrom_render h.2 hwidth.tail
      have hcount := congrArg List.length heq
      rw [Line.render, List.filterMap_cons_none hfirst, filterMap_rule?_cons, List.length_map,
        List.length_map, List.length_cons, hlen] at hcount
      omega

/-- **When the lines of a file come back.** -/
theorem lines_reread_iff {f : OwnersFile} (h : WellFormedFrom 1 f.lines) :
    (OwnersFile.ofText f.render).lines = f.lines ↔ f.Survives := by
  have hiff := readFrom_render_eq_iff h (narrow_ownerColumn f)
  constructor
  · intro heq
    have hmark : ∀ r, f.lines.head? = some (.rule r) → ¬ r.OpensWithMark := by
      intro r hhead hmark
      refine written_ne_of_mark h hhead hmark ?_
      rw [OwnersFile.rules, heq, OwnersFile.rules]
    rw [lines_ofText_render_of_no_mark h hmark] at heq
    have hrules := hiff.mp heq
    exact ⟨fun r hr => (hrules r hr).1, fun r hr => (hrules r hr).2, hmark⟩
  · intro hs
    rw [lines_ofText_render_of_no_mark h hs.no_mark]
    exact hiff.mpr fun r hr => ⟨hs.no_backslash r hr, hs.no_blank r hr⟩

/-- Lines come back as soon as the rules among them do. -/
theorem lines_reread_of_written_eq {f : OwnersFile} (h : WellFormedFrom 1 f.lines)
    (heq : (OwnersFile.ofText f.render).rules.map Rule.written = f.rules.map Rule.written) :
    (OwnersFile.ofText f.render).lines = f.lines := by
  have hmark : ∀ r, f.lines.head? = some (.rule r) → ¬ r.OpensWithMark :=
    fun r hhead hmark => written_ne_of_mark h hhead hmark heq
  have hread := lines_ofText_render_of_no_mark h hmark
  rw [hread]
  refine readFrom_render_eq_of_written_eq h (narrow_ownerColumn f) ?_
  rw [← hread]
  exact heq

/-- What a file looks like when it is written depends on its lines alone. -/
theorem render_eq_of_lines_eq {f g : OwnersFile} (h : f.lines = g.lines) : f.render = g.render := by
  simp only [OwnersFile.render, OwnersFile.ownerColumn, OwnersFile.rules, h]

/-- So does the identifier of its rules. -/
theorem rulesetId_eq_of_lines_eq {f g : OwnersFile} (h : f.lines = g.lines) :
    rulesetId f = rulesetId g := by
  simp only [rulesetId, OwnersFile.rules, h]

/-- **Exactly which files come back line by line**: comments, blank lines, numbers, patterns and
owners with their kinds. -/
theorem lines_ofText_render_iff_survives (text : String) :
    (OwnersFile.ofText (OwnersFile.ofText text).render).lines = (OwnersFile.ofText text).lines ↔
      (OwnersFile.ofText text).Survives :=
  lines_reread_iff (wellFormedFrom_lines text)

/-- **Exactly which files keep their rules**, and with them the identifier of the rules and the
text that is written. -/
theorem rules_ofText_render_iff_survives (text : String) :
    ((OwnersFile.ofText (OwnersFile.ofText text).render).rules.map Rule.written =
        (OwnersFile.ofText text).rules.map Rule.written ∧
      rulesetId (OwnersFile.ofText (OwnersFile.ofText text).render) =
        rulesetId (OwnersFile.ofText text) ∧
      (OwnersFile.ofText (OwnersFile.ofText text).render).render =
        (OwnersFile.ofText text).render) ↔
      (OwnersFile.ofText text).Survives := by
  have h := wellFormedFrom_lines text
  constructor
  · rintro ⟨hwritten, -, -⟩
    exact (lines_reread_iff h).mp (lines_reread_of_written_eq h hwritten)
  · intro hs
    have hlines := (lines_reread_iff h).mpr hs
    refine ⟨?_, rulesetId_eq_of_lines_eq hlines, render_eq_of_lines_eq hlines⟩
    rw [OwnersFile.rules, OwnersFile.rules, hlines]

/-- A comment behind an owner with an escaped blank at its end hides the blank from trimming once,
but is not written again: the owner comes back with a backslash for the blank. -/
theorem rules_lost_after_escaped_blank :
    (OwnersFile.ofText (OwnersFile.ofText "a @b\\  #c").render).rules.map Rule.written ≠
        (OwnersFile.ofText "a @b\\  #c").rules.map Rule.written ∧
      (OwnersFile.ofText (OwnersFile.ofText "a @b\\  #c").render).render ≠
        (OwnersFile.ofText "a @b\\  #c").render := by
  decide

end Ownership
