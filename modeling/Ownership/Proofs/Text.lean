/-
# Trimming a text and cutting it into lines

Two facts carry all that is proved about reading a file.  A trimmed text has no white space at
either end, and trimming changes nothing about a text that has none there already; so a line that
is written without outer white space is read as it stands.  And a text in which every line is
closed by a line feed is cut into exactly those lines, up to the one carriage return that a line
may lose.

* `trimEnd_append`: white space is cut off the last part of a text alone, if that has another
  character;
* `trim_eq_self`: what has no outer white space is not changed;
* `not_mem_of_mem_splitOn`: what a text is cut at is in none of its pieces;
* `splitOn_intercalate_eq_flatMap`: parts that were joined are cut into their own pieces;
* `cutAt_eq_some_iff`: a cut is made at the first place;
* `lines_closed`: closed lines are read back;
* `length_lines`: how many lines a text has;
* `IsClosed.lines_append`: what stands behind a closed text is cut into lines by itself.
-/
import Mathlib.Data.List.DropRight
import Ownership.Text.WhiteSpace
import Ownership.Text.Lines

namespace Ownership.Text

/-! ## 1. Trimming -/

/-- Cutting off at the end is the library's `rdropWhile`. -/
theorem trimEnd_eq_rdropWhile (cs : List Char) : trimEnd cs = cs.rdropWhile isWhiteSpace := rfl

theorem trimEnd_isPrefix (cs : List Char) : trimEnd cs <+: cs :=
  List.rdropWhile_prefix isWhiteSpace cs

/-- What is left after trimming stood there before. -/
theorem trim_sublist (cs : List Char) : (trim cs).Sublist cs :=
  (trimEnd_isPrefix _).sublist.trans (List.dropWhile_sublist _)

/-- A text that ends in another character is not cut at its end. -/
theorem trimEnd_eq_self {cs : List Char} (h : ∀ c, cs.getLast? = some c → isWhiteSpace c = false) :
    trimEnd cs = cs := by
  rw [trimEnd_eq_rdropWhile, List.rdropWhile_eq_self_iff]
  intro hne
  rw [h _ (List.getLast?_eq_some_getLast hne)]
  exact Bool.false_ne_true

/-- A text that starts with another character is not cut at its front. -/
theorem trimStart_eq_self {cs : List Char} (h : ∀ c, cs.head? = some c → isWhiteSpace c = false) :
    trimStart cs = cs := by
  cases cs with
  | nil => rfl
  | cons c cs => exact List.dropWhile_cons_of_neg (by simp [h c rfl])

/-- **What has no outer white space is not changed by trimming.** -/
theorem trim_eq_self {cs : List Char} (hhead : ∀ c, cs.head? = some c → isWhiteSpace c = false)
    (hlast : ∀ c, cs.getLast? = some c → isWhiteSpace c = false) : trim cs = cs := by
  rw [trim, trimStart_eq_self hhead, trimEnd_eq_self hlast]

/-- White space in front of another character stays, whatever is cut off behind it. -/
theorem trimEnd_append {cs ds : List Char} (h : trimEnd ds ≠ []) :
    trimEnd (cs ++ ds) = cs ++ trimEnd ds := by
  simp only [trimEnd, List.reverse_append, List.dropWhile_append] at h ⊢
  have hne : ¬ (List.dropWhile isWhiteSpace ds.reverse).isEmpty = true := by
    simpa using h
  rw [if_neg hne, List.reverse_append, List.reverse_reverse]

/-- One character of white space at the end is cut off, and on goes the search. -/
theorem trimEnd_concat {cs : List Char} {c : Char} (h : isWhiteSpace c = true) :
    trimEnd (cs ++ [c]) = trimEnd cs := by
  simp only [trimEnd_eq_rdropWhile]
  exact List.rdropWhile_concat_pos _ cs c h

/-- White space at the end of a text does not change what trimming leaves of it. -/
theorem trim_concat {cs : List Char} {c : Char} (h : isWhiteSpace c = true) :
    trim (cs ++ [c]) = trim cs := by
  have hstart : trimStart (cs ++ [c]) =
      if (trimStart cs).isEmpty then trimStart [c] else trimStart cs ++ [c] :=
    List.dropWhile_append
  rw [trim, trim, hstart]
  split
  · rename_i hempty
    rw [List.isEmpty_iff.mp hempty, trimStart, List.dropWhile_cons_of_pos h, List.dropWhile_nil]
  · exact trimEnd_concat h

/-- The end of what was cut is no white space. -/
theorem getLast?_trimEnd {cs : List Char} {c : Char} (h : (trimEnd cs).getLast? = some c) :
    isWhiteSpace c = false := by
  have hne : cs.rdropWhile isWhiteSpace ≠ [] := by
    intro hnil
    rw [trimEnd_eq_rdropWhile, hnil] at h
    exact absurd h (by simp)
  have hlast := List.rdropWhile_last_not isWhiteSpace cs hne
  rw [trimEnd_eq_rdropWhile, List.getLast?_eq_some_getLast hne, Option.some.injEq] at h
  simpa [h] using hlast

/-- A trimmed text does not end in white space. -/
theorem getLast?_trim {cs : List Char} {c : Char} (h : (trim cs).getLast? = some c) :
    isWhiteSpace c = false :=
  getLast?_trimEnd h

/-- A trimmed text does not start with white space. -/
theorem head?_trim {cs : List Char} {c : Char} (h : (trim cs).head? = some c) :
    isWhiteSpace c = false := by
  obtain ⟨ds, hds⟩ := trimEnd_isPrefix (trimStart cs)
  have hhead : (trimStart cs).head? = some c := by
    rw [← hds, List.head?_append]
    exact Option.or_of_isSome (by rw [trim] at h; simp [h]) |>.trans h
  have := List.head?_dropWhile_not isWhiteSpace cs
  rw [trimStart] at hhead
  rw [hhead] at this
  simpa using this

/-! ## 2. Cutting at separators -/

/-- The pieces between separators hold no separator. -/
theorem eq_false_of_mem_splitOnP {α : Type} {sep : α → Bool} {xs p : List α}
    (h : p ∈ xs.splitOnP sep) : ∀ x ∈ p, sep x = false := by
  induction xs generalizing p with
  | nil =>
    rw [List.splitOnP_nil, List.mem_singleton] at h
    exact h ▸ fun x hx => absurd hx List.not_mem_nil
  | cons x xs ih =>
    rw [List.splitOnP_cons_eq_if_modifyHead] at h
    split at h
    · rcases List.mem_cons.mp h with rfl | hp
      · exact fun x hx => absurd hx List.not_mem_nil
      · exact ih hp
    · rename_i hx
      obtain ⟨q, qs, hq⟩ := List.exists_cons_of_ne_nil (List.splitOnP_ne_nil sep xs)
      rw [hq, List.modifyHead_cons] at h
      rcases List.mem_cons.mp h with rfl | hp
      · exact List.forall_mem_cons.mpr ⟨by simpa using hx, ih (hq ▸ List.mem_cons_self)⟩
      · exact ih (hq ▸ List.mem_cons_of_mem _ hp)

theorem not_mem_of_mem_splitOn {α : Type} [BEq α] [LawfulBEq α] {a : α} {xs p : List α}
    (h : p ∈ xs.splitOn a) : a ∉ p := by
  intro ha
  rw [List.splitOn_eq_splitOnP] at h
  exact absurd (eq_false_of_mem_splitOnP h a ha) (by simp)

/-- What is joined with separators holds no more than its parts and these. -/
theorem mem_intercalate_iff {α : Type} {a x : α} (hx : x ≠ a) {xss : List (List α)} :
    x ∈ [a].intercalate xss ↔ ∃ xs ∈ xss, x ∈ xs := by
  induction xss with
  | nil => simp
  | cons xs xss ih =>
    by_cases hxss : xss = []
    · subst hxss; simp
    · rw [List.intercalate_cons_of_ne_nil hxss, List.append_assoc, List.mem_append,
        List.mem_append, ih]
      simp [hx]

/-- Where two tests agree on a text, they cut it alike. -/
theorem splitOnP_congr {α : Type} {sep sep' : α → Bool} {xs : List α}
    (h : ∀ x ∈ xs, sep x = sep' x) : xs.splitOnP sep = xs.splitOnP sep' := by
  induction xs with
  | nil => rfl
  | cons x xs ih =>
    obtain ⟨hx, hxs⟩ := List.forall_mem_cons.mp h
    rw [List.splitOnP_cons_eq_if_modifyHead, List.splitOnP_cons_eq_if_modifyHead, hx, ih hxs]

/-- There is one piece more than there are separators. -/
theorem length_splitOn {α : Type} [BEq α] (a : α) (xs : List α) :
    (xs.splitOn a).length = xs.count a + 1 := by
  induction xs with
  | nil => rfl
  | cons x xs ih =>
    rw [List.splitOn_eq_splitOnP] at ih ⊢
    rw [List.splitOnP_cons_eq_if_modifyHead, List.count_cons]
    split
    · rw [List.length_cons, ih]
    · rw [List.length_modifyHead, ih]

/-- What is joined is its first part, and each other with the separator in front. -/
theorem intercalate_cons_eq {α : Type} (sep xs : List α) (xss : List (List α)) :
    sep.intercalate (xs :: xss) = xs ++ xss.flatMap (sep ++ ·) := by
  induction xss generalizing xs with
  | nil => simp
  | cons ys xss ih =>
    rw [List.intercalate_cons_cons, ih, List.flatMap_cons, List.append_assoc, List.append_assoc]

section SplitOn

variable {α : Type} [BEq α] [LawfulBEq α]

/-- Cutting loses nothing. -/
theorem splitOn_injective (a : α) : Function.Injective (List.splitOn a) := by
  intro xs ys h
  calc xs = [a].intercalate (xs.splitOn a) := (List.intercalate_splitOn a).symm
    _ = [a].intercalate (ys.splitOn a) := by rw [h]
    _ = ys := List.intercalate_splitOn a

/-- What was joined with separators is cut into the pieces of its parts, also where these hold a
separator. -/
theorem splitOn_intercalate_eq_flatMap (a : α) {xss : List (List α)} (h : xss ≠ []) :
    ([a].intercalate xss).splitOn a = xss.flatMap (List.splitOn a) := by
  induction xss with
  | nil => exact absurd rfl h
  | cons xs xss ih =>
    by_cases hxss : xss = []
    · subst hxss
      rw [List.intercalate_singleton, List.flatMap_singleton]
    · rw [List.intercalate_cons_of_ne_nil hxss, List.append_assoc, List.singleton_append,
        List.splitOn_append_cons_self, ih hxss, List.flatMap_cons]

/-- What was closed with separators is cut into its parts, with nothing behind the last. -/
theorem splitOn_closed {a : α} {xss : List (List α)} (h : ∀ xs ∈ xss, a ∉ xs) :
    (xss.flatMap fun xs => xs ++ [a]).splitOn a = xss ++ [[]] := by
  induction xss with
  | nil => rfl
  | cons xs xss ih =>
    obtain ⟨hxs, hxss⟩ := List.forall_mem_cons.mp h
    rw [List.flatMap_cons, List.append_assoc, List.singleton_append,
      List.splitOn_append_cons_self_of_not_mem hxs, ih hxss]
    rfl

end SplitOn

theorem cutAt_cons (c d : Char) (ds : List Char) :
    cutAt c (d :: ds) =
      if d = c then some ([], ds) else (cutAt c ds).map fun p => (d :: p.1, p.2) := by
  by_cases hd : d = c
  · simp [cutAt, hd]
  · have hne : (d != c) = true := bne_iff_ne.mpr hd
    simp only [if_neg hd, cutAt, List.dropWhile_cons, List.takeWhile_cons, hne, if_true]
    split <;> rfl

/-- **A text is cut at the first place where the character stands.** -/
theorem cutAt_eq_some_iff {c : Char} {cs : List Char} :
    ∀ {front rest : List Char},
      cutAt c cs = some (front, rest) ↔ cs = front ++ c :: rest ∧ c ∉ front := by
  induction cs with
  | nil => simp [cutAt]
  | cons d ds ih =>
    intro front rest
    rw [cutAt_cons]
    by_cases hd : d = c
    · subst hd
      cases front with
      | nil => simp
      | cons e front => simp +contextual
    · cases front with
      | nil => simp [hd]
      | cons e front =>
        simp only [if_neg hd, Option.map_eq_some_iff, Prod.mk.injEq, List.cons.injEq, Prod.exists]
        constructor
        · rintro ⟨_, _, hcut, ⟨rfl, rfl⟩, rfl⟩
          obtain ⟨rfl, hfront⟩ := ih.mp hcut
          exact ⟨rfl, by simp [Ne.symm hd, hfront]⟩
        · rintro ⟨heq, hfront⟩
          obtain ⟨rfl, rfl⟩ := List.cons.inj heq
          exact ⟨_, _, ih.mpr ⟨rfl, fun h => hfront (List.mem_cons_of_mem _ h)⟩, ⟨rfl, rfl⟩, rfl⟩

/-- Texts that are cut at a character which they do not hold are told from what follows it. -/
theorem append_cons_inj {c : Char} {cs ds rest rest' : List Char} (hcs : c ∉ cs) (hds : c ∉ ds)
    (h : cs ++ c :: rest = ds ++ c :: rest') : cs = ds ∧ rest = rest' := by
  have hcut : cutAt c (cs ++ c :: rest) = some (cs, rest) := cutAt_eq_some_iff.mpr ⟨rfl, hcs⟩
  rw [h, cutAt_eq_some_iff.mpr ⟨rfl, hds⟩, Option.some_inj, Prod.mk.injEq] at hcut
  exact ⟨hcut.1.symm, hcut.2.symm⟩

/-- The same for what stands in front of a character and behind the last place where it does. -/
theorem append_cons_inj_last {c : Char} {cs ds rest rest' : List Char} (hrest : c ∉ rest)
    (hrest' : c ∉ rest') (h : cs ++ c :: rest = ds ++ c :: rest') : cs = ds ∧ rest = rest' := by
  have hback := congrArg List.reverse h
  simp only [List.reverse_append, List.reverse_cons, List.append_assoc, List.singleton_append]
    at hback
  obtain ⟨hfirst, hlast⟩ :=
    append_cons_inj (by rwa [List.mem_reverse]) (by rwa [List.mem_reverse]) hback
  exact ⟨List.reverse_injective hlast, List.reverse_injective hfirst⟩

/-- A number is written with digits alone. -/
theorem not_mem_toDigits {c : Char} (hc : c.isDigit = false) (n : Nat) :
    c ∉ Nat.toDigits 10 n := fun h => by
  rw [Nat.isDigit_of_mem_toDigits (by decide) (by decide) h] at hc
  cases hc

/-- **A number is told by its digits.** -/
theorem toDigits_injective : Function.Injective (Nat.toDigits 10) := by
  intro m n h
  calc m = Nat.ofDigitChars 10 (Nat.toDigits 10 m) 0 := Nat.ofDigitChars_ten_toDigits.symm
    _ = Nat.ofDigitChars 10 (Nat.toDigits 10 n) 0 := by rw [h]
    _ = n := Nat.ofDigitChars_ten_toDigits

/-! ## 3. Lines -/

theorem dropReturn_sublist (l : List Char) : (dropReturn l).Sublist l := by
  unfold dropReturn
  split
  · exact List.dropLast_sublist l
  · exact List.Sublist.refl l

/-- The lines of a text hold no line feed. -/
theorem newline_not_mem_of_mem_lines {cs l : List Char} (h : l ∈ lines cs) : '\n' ∉ l := by
  have hclosed : ∀ l ∈ (cs.splitOn '\n').dropLast.map dropReturn, '\n' ∉ l := by
    intro l hl hc
    obtain ⟨p, hp, rfl⟩ := List.mem_map.mp hl
    exact not_mem_of_mem_splitOn ((List.dropLast_subset _ hp))
      ((dropReturn_sublist p).subset hc)
  simp only [lines] at h
  split at h
  · exact hclosed l h
  · exact hclosed l h
  · rename_i last _ hlast
    rcases List.mem_append.mp h with h | h
    · exact hclosed l h
    · rw [List.mem_singleton.mp h]
      exact not_mem_of_mem_splitOn (List.mem_of_getLast? hlast)

/-- One carriage return at the end of the line is all that it can lose. -/
theorem dropReturn_eq_self {l : List Char} (h : l.getLast? ≠ some '\r') : dropReturn l = l :=
  if_neg h

/-- **Closed lines are read back**, each without a carriage return before its line feed. -/
theorem lines_closed {ls : List (List Char)} (h : ∀ l ∈ ls, '\n' ∉ l) :
    lines (ls.flatMap fun l => l ++ ['\n']) = ls.map dropReturn := by
  simp [lines, splitOn_closed h]

/-- A text in which every line is closed by a line feed. -/
def IsClosed (cs : List Char) : Prop := cs = [] ∨ cs.getLast? = some '\n'

instance : DecidablePred IsClosed := fun cs =>
  inferInstanceAs (Decidable (cs = [] ∨ cs.getLast? = some '\n'))

theorem isClosed_iff {cs : List Char} : IsClosed cs ↔ cs = [] ∨ ∃ init, cs = init ++ ['\n'] :=
  or_congr_right List.getLast?_eq_some_iff

/-- What stands behind a line feed is cut into lines by itself. -/
theorem lines_append_cons (cs ds : List Char) :
    lines (cs ++ '\n' :: ds) = (cs.splitOn '\n').map dropReturn ++ lines ds := by
  have hne : ds.splitOn '\n' ≠ [] := List.splitOn_ne_nil _ _
  simp only [lines, List.splitOn_append_cons_self, List.dropLast_append_of_ne_nil hne,
    List.getLast?_append_of_ne_nil _ hne, List.map_append]
  split
  · rfl
  · rfl
  · exact List.append_assoc _ _ _

/-- **What stands behind a closed text** is cut into lines by itself. -/
theorem IsClosed.lines_append {cs : List Char} (h : IsClosed cs) (ds : List Char) :
    lines (cs ++ ds) = lines cs ++ lines ds := by
  rcases isClosed_iff.mp h with rfl | ⟨init, rfl⟩
  · rfl
  · have hclosed : lines (init ++ ['\n']) = (init.splitOn '\n').map dropReturn := by
      rw [lines_append_cons]
      exact List.append_nil _
    rw [hclosed, List.append_assoc, List.singleton_append, lines_append_cons]

/-- A closed text has as many lines as line feeds. -/
theorem IsClosed.length_lines {cs : List Char} (h : IsClosed cs) :
    (lines cs).length = cs.count '\n' := by
  rcases isClosed_iff.mp h with rfl | ⟨init, rfl⟩
  · rfl
  · rw [lines_append_cons, List.length_append, List.length_map, length_splitOn, List.count_append]
    rfl

/-- Where nothing stands behind the last line feed, the text is closed. -/
theorem isClosed_of_getLast?_splitOn {cs : List Char}
    (h : (cs.splitOn '\n').getLast? = some []) : IsClosed cs := by
  obtain ⟨front, hfront⟩ := List.getLast?_eq_some_iff.mp h
  have hcs : cs = ['\n'].intercalate (front ++ [[]]) := by
    rw [← hfront, List.intercalate_splitOn]
  cases front with
  | nil => exact Or.inl hcs
  | cons l ls =>
    right
    rw [hcs, List.cons_append, intercalate_cons_eq, List.flatMap_append, ← List.append_assoc,
      List.flatMap_singleton, List.append_nil, List.getLast?_concat]

/-- **How many lines a text has**: one for each line feed, and one more for what stands behind the
last, if anything does. -/
theorem length_lines (cs : List Char) :
    (lines cs).length = cs.count '\n' + if IsClosed cs then 0 else 1 := by
  split
  · rename_i hclosed
    exact hclosed.length_lines
  · rename_i hopen
    have hlast := List.getLast?_eq_some_getLast (List.splitOn_ne_nil '\n' cs)
    cases hpiece : (cs.splitOn '\n').getLast (List.splitOn_ne_nil '\n' cs) with
    | nil => exact absurd (isClosed_of_getLast?_splitOn (hpiece ▸ hlast)) hopen
    | cons c rest =>
      rw [hpiece] at hlast
      simp only [lines, hlast, List.length_append, List.length_map, List.length_dropLast,
        length_splitOn, List.length_singleton, Nat.add_sub_cancel]

theorem dropMark_cons_of_ne {c : Char} {cs : List Char} (h : c ≠ '\uFEFF') :
    dropMark (c :: cs) = c :: cs := by
  unfold dropMark
  split
  · rename_i heq
    exact absurd (List.cons.inj heq).1 h
  · rfl

theorem dropMark_suffix_self (cs : List Char) : dropMark cs <:+ cs := by
  unfold dropMark
  split
  · exact List.suffix_cons _ _
  · exact List.suffix_refl _

/-- A byte order mark is all that a text can lose. -/
theorem dropMark_eq_or (cs : List Char) : dropMark cs = cs ∨ cs = '\uFEFF' :: dropMark cs := by
  unfold dropMark
  split
  · exact Or.inr rfl
  · exact Or.inl rfl

/-- Of two texts, one behind the other, only the first loses a mark if the second has none. -/
theorem dropMark_append {ds : List Char} (h : ds.head? ≠ some '\uFEFF') (cs : List Char) :
    dropMark (cs ++ ds) = dropMark cs ++ ds := by
  cases cs with
  | nil =>
    refine (dropMark_eq_or ds).resolve_right fun heq => h ?_
    rw [heq]
    rfl
  | cons c cs =>
    by_cases hc : c = '\uFEFF'
    · subst hc
      rfl
    · rw [List.cons_append, dropMark_cons_of_ne hc, dropMark_cons_of_ne hc, List.cons_append]

theorem count_dropMark (cs : List Char) : (dropMark cs).count '\n' = cs.count '\n' := by
  rcases dropMark_eq_or cs with h | h
  · rw [h]
  · conv => rhs; rw [h, List.count_cons_of_ne (by decide)]

theorem IsClosed.dropMark {cs : List Char} (h : IsClosed cs) : IsClosed (dropMark cs) := by
  obtain ⟨front, hfront⟩ := dropMark_suffix_self cs
  by_cases hnil : Text.dropMark cs = []
  · exact Or.inl hnil
  · rw [← hfront] at h
    have hlast := h.resolve_left (List.append_ne_nil_of_right_ne_nil front hnil)
    rw [List.getLast?_append_of_ne_nil _ hnil] at hlast
    exact Or.inr hlast

/-- A byte order mark in front of some lines stands in the first of them. -/
theorem dropMark_closed (ls : List (List Char)) :
    dropMark (ls.flatMap fun l => l ++ ['\n']) =
      (ls.modifyHead dropMark).flatMap fun l => l ++ ['\n'] := by
  cases ls with
  | nil => rfl
  | cons l ls =>
    cases l with
    | nil => rfl
    | cons c cs =>
      simp only [List.flatMap_cons, List.modifyHead_cons, List.cons_append]
      by_cases hc : c = '\uFEFF'
      · subst hc; rfl
      · rw [dropMark_cons_of_ne hc, dropMark_cons_of_ne hc]
        rfl

end Ownership.Text
