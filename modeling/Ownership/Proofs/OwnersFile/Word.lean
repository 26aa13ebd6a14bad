/-
# Words that are written and read again

A line is written as its words, each with its blanks escaped, and spaces between them.  Reading
the line again undoes the escaping inside every word: a backslash that a word holds stands before
another character of the same word, never before a bare blank.  The one place where this fails is
the end of a word.  A word that ends in a backslash takes the first space behind it for an escaped
one, and so runs into what follows.

`Spaced front last line` is the writing, with any positive number of spaces in each gap; it is a
relation because one list of words has many lines.

* `words_of_spaced`: the words are read back when none in front of the last ends in a backslash;
* `not_prefix_words_of_spaced`: else not even the words in front of the last are read back;
* `words_of_written_words`: both for words with single spaces between them;
* `Spaced.trimEnd`: trimming costs the last word its blank, and leaves the backslash before it;
* `flatten_words_sublist`: reading makes no character up.
-/
import Ownership.OwnersFile.Word
import Ownership.Proofs.Text

namespace Ownership

open Text

/-! ## 1. One step of reading -/

/-- The backslash is not white space, so it always belongs to a word. -/
theorem isWhiteSpace_backslash : isWhiteSpace '\\' = false := by decide

theorem isBlank_backslash : isBlank '\\' = false := by decide

theorem isBlank_iff {c : Char} : isBlank c = true ↔ c = ' ' ∨ c = '\t' := by
  rw [isBlank, Bool.or_eq_true, beq_iff_eq, beq_iff_eq]

@[simp] theorem wordsFrom_nil (back : List Char) : wordsFrom back [] = wordOf back := rfl

/-- An escaped blank belongs to the word. -/
theorem wordsFrom_escaped {b : Char} (hb : isBlank b = true) (back cs : List Char) :
    wordsFrom back ('\\' :: b :: cs) = wordsFrom (b :: back) cs := by
  rw [wordsFrom.eq_def]
  exact if_pos hb

/-- A backslash with no blank behind it belongs to the word. -/
theorem wordsFrom_backslash {cs : List Char} (h : ∀ c, cs.head? = some c → isBlank c = false)
    (back : List Char) : wordsFrom back ('\\' :: cs) = wordsFrom ('\\' :: back) cs := by
  rw [wordsFrom.eq_def]
  cases cs with
  | nil => exact if_neg (by rw [isWhiteSpace_backslash]; exact Bool.false_ne_true)
  | cons c cs => exact if_neg (by rw [h c rfl]; exact Bool.false_ne_true)

/-- What happens at any other character. -/
theorem wordsFrom_cons_of_ne {c : Char} (hc : c ≠ '\\') (back cs : List Char) :
    wordsFrom back (c :: cs) =
      if isWhiteSpace c then wordOf back ++ wordsFrom [] cs else wordsFrom (c :: back) cs := by
  rw [wordsFrom.eq_def]
  split
  · rename_i heq
    exact absurd heq (List.cons_ne_nil _ _)
  · rename_i heq
    exact absurd (List.cons.inj heq).1 hc
  · rename_i heq
    obtain ⟨rfl, rfl⟩ := List.cons.inj heq
    rfl

/-- Any other character but white space belongs to the word. -/
theorem wordsFrom_cons {c : Char} (hc : c ≠ '\\') (hws : isWhiteSpace c = false)
    (back cs : List Char) : wordsFrom back (c :: cs) = wordsFrom (c :: back) cs := by
  rw [wordsFrom_cons_of_ne hc, if_neg (by rw [hws]; exact Bool.false_ne_true)]

/-- White space ends the word. -/
theorem wordsFrom_space {c : Char} (hws : isWhiteSpace c = true) (back cs : List Char) :
    wordsFrom back (c :: cs) = wordOf back ++ words cs := by
  have hc : c ≠ '\\' := by
    rintro rfl
    exact absurd hws (by rw [isWhiteSpace_backslash]; exact Bool.false_ne_true)
  rw [wordsFrom_cons_of_ne hc, if_pos hws, words]

theorem wordOf_reverse {w : List Char} (h : w ≠ []) : wordOf w.reverse = [w] := by
  simp [wordOf, h]

/-! ## 2. What any reading gives -/

/-- A word: it has a character, and all the white space in it is blanks. -/
def IsWord (w : List Char) : Prop :=
  w ≠ [] ∧ ∀ c ∈ w, isWhiteSpace c = true → isBlank c = true

instance : DecidablePred IsWord := fun w =>
  decidable_of_iff (w ≠ [] ∧ (w.all fun c => !isWhiteSpace c || isBlank c) = true) <| by
    simp only [IsWord, List.all_eq_true, Bool.or_eq_true, Bool.not_eq_true', ← Bool.not_eq_true,
      imp_iff_not_or]

/-- What has been read of a word is a word as soon as it has a character. -/
theorem isWord_of_mem_wordOf {back w : List Char}
    (hback : ∀ c ∈ back, isWhiteSpace c = true → isBlank c = true) (h : w ∈ wordOf back) :
    IsWord w := by
  unfold wordOf at h
  split at h
  · exact absurd h List.not_mem_nil
  · rename_i hne
    rw [List.mem_singleton.mp h]
    refine ⟨by simpa using hne, fun c hc => hback c (List.mem_reverse.mp hc)⟩

theorem isWord_of_mem_wordsFrom {line : List Char} :
    ∀ {back w : List Char}, (∀ c ∈ back, isWhiteSpace c = true → isBlank c = true) →
      w ∈ wordsFrom back line → IsWord w := by
  intro back
  fun_induction wordsFrom back line with
  | case1 back => exact isWord_of_mem_wordOf
  | case2 back b cs hb ih =>
    intro w hback
    exact ih (List.forall_mem_cons.mpr ⟨fun _ => hb, hback⟩)
  | case3 back b cs hb ih =>
    intro w hback
    refine ih (List.forall_mem_cons.mpr ⟨fun h => ?_, hback⟩)
    exact absurd h (by rw [isWhiteSpace_backslash]; exact Bool.false_ne_true)
  | case4 back c cs _ hc ih =>
    intro w hback h
    rcases List.mem_append.mp h with h | h
    · exact isWord_of_mem_wordOf hback h
    · exact ih (by simp) h
  | case5 back c cs _ hc ih =>
    intro w hback
    exact ih (List.forall_mem_cons.mpr ⟨fun h => absurd h hc, hback⟩)

/-- **Reading gives words.** -/
theorem isWord_of_mem_words {line w : List Char} (h : w ∈ words line) : IsWord w :=
  isWord_of_mem_wordsFrom (by simp) h

theorem flatten_wordOf (back : List Char) : (wordOf back).flatten = back.reverse := by
  cases back <;> simp [wordOf]

theorem flatten_wordsFrom_sublist (back line : List Char) :
    (wordsFrom back line).flatten.Sublist (back.reverse ++ line) := by
  fun_induction wordsFrom back line with
  | case1 back => rw [flatten_wordOf, List.append_nil]
  | case2 back b cs hb ih =>
    refine ih.trans ?_
    simp
  | case3 back b cs hb ih => simpa using ih
  | case4 back c cs _ hc ih =>
    rw [List.flatten_append, flatten_wordOf]
    exact List.Sublist.append_left (ih.trans (List.sublist_cons_self c cs)) _
  | case5 back c cs _ hc ih => simpa using ih

/-- **Reading makes no character up**, and keeps the characters in their order. -/
theorem flatten_words_sublist (line : List Char) : (words line).flatten.Sublist line :=
  flatten_wordsFrom_sublist [] line

/-- What has been read of a word opens the first word that is found. -/
theorem exists_wordsFrom_eq_cons (line : List Char) :
    ∀ back : List Char, back ≠ [] →
      ∃ w ws, wordsFrom back line = (back.reverse ++ w) :: ws := by
  intro back
  fun_induction wordsFrom back line with
  | case1 back => exact fun h => ⟨[], [], by simp [wordOf, h]⟩
  | case2 back b cs hb ih =>
    intro _
    obtain ⟨w, ws, h⟩ := ih (List.cons_ne_nil _ _)
    exact ⟨b :: w, ws, by simpa using h⟩
  | case3 back b cs hb ih =>
    intro _
    obtain ⟨w, ws, h⟩ := ih (List.cons_ne_nil _ _)
    exact ⟨'\\' :: w, ws, by simpa using h⟩
  | case4 back c cs _ hc ih => exact fun h => ⟨[], wordsFrom [] cs, by simp [wordOf, h]⟩
  | case5 back c cs _ hc ih =>
    intro _
    obtain ⟨w, ws, h⟩ := ih (List.cons_ne_nil _ _)
    exact ⟨c :: w, ws, by simpa using h⟩

/-! ## 3. One written word -/

@[simp] theorem escape_nil : escape [] = [] := rfl

theorem escape_cons_of_blank {c : Char} (h : isBlank c = true) (w : List Char) :
    escape (c :: w) = '\\' :: c :: escape w := by
  simp [escape, h]

theorem escape_cons_of_not_blank {c : Char} (h : isBlank c = false) (w : List Char) :
    escape (c :: w) = c :: escape w := by
  simp [escape, h]

theorem escape_append (u v : List Char) : escape (u ++ v) = escape u ++ escape v :=
  List.flatMap_append

/-- A word is never written as nothing. -/
theorem escape_ne_nil {w : List Char} (h : w ≠ []) : escape w ≠ [] := by
  cases w with
  | nil => exact absurd rfl h
  | cons c w =>
    by_cases hc : isBlank c = true
    · rw [escape_cons_of_blank hc]; exact List.cons_ne_nil _ _
    · rw [escape_cons_of_not_blank (by simpa using hc)]; exact List.cons_ne_nil _ _

/-- A written word starts with no blank: a backslash stands before it. -/
theorem isBlank_head?_escape {w : List Char} {c : Char} (h : (escape w).head? = some c) :
    isBlank c = false := by
  cases w with
  | nil => exact absurd h (by simp)
  | cons d w =>
    by_cases hd : isBlank d = true
    · rw [escape_cons_of_blank hd, List.head?_cons, Option.some.injEq] at h
      exact h ▸ isBlank_backslash
    · rw [escape_cons_of_not_blank (by simpa using hd), List.head?_cons, Option.some.injEq] at h
      exact h ▸ by simpa using hd

/-- A written word starts with no white space at all. -/
theorem isWhiteSpace_head?_escape {w : List Char} (hw : IsWord w) {c : Char}
    (h : (escape w).head? = some c) : isWhiteSpace c = false := by
  obtain ⟨d, ds, rfl⟩ := List.exists_cons_of_ne_nil hw.1
  by_cases hd : isBlank d = true
  · rw [escape_cons_of_blank hd, List.head?_cons, Option.some.injEq] at h
    exact h ▸ isWhiteSpace_backslash
  · rw [escape_cons_of_not_blank (by simpa using hd), List.head?_cons, Option.some.injEq] at h
    have hws : ¬ isWhiteSpace d = true := fun hws => hd (hw.2 d List.mem_cons_self hws)
    exact h ▸ by simpa using hws

/-- **A written word is read to its end.**  Only a backslash that ends the word can meet a blank
that is not its own, so that case is ruled out. -/
theorem wordsFrom_escape {w : List Char} (hw : ∀ c ∈ w, isWhiteSpace c = true → isBlank c = true)
    {rest : List Char}
    (hend : w.getLast? = some '\\' → ∀ c, rest.head? = some c → isBlank c = false) :
    ∀ back : List Char, wordsFrom back (escape w ++ rest) = wordsFrom (w.reverse ++ back) rest := by
  induction w with
  | nil => exact fun back => rfl
  | cons c w ih =>
    intro back
    have hw' : ∀ d ∈ w, isWhiteSpace d = true → isBlank d = true :=
      fun d hd => hw d (List.mem_cons_of_mem _ hd)
    have hend' : w.getLast? = some '\\' → ∀ d, rest.head? = some d → isBlank d = false := by
      intro hl
      refine hend ?_
      rw [List.getLast?_cons, hl]
      rfl
    rw [List.reverse_cons, List.append_assoc, List.singleton_append]
    by_cases hb : isBlank c = true
    · rw [escape_cons_of_blank hb, List.cons_append, List.cons_append, wordsFrom_escaped hb,
        ih hw' hend']
    · have hb' : isBlank c = false := by simpa using hb
      rw [escape_cons_of_not_blank hb', List.cons_append]
      by_cases hc : c = '\\'
      · subst hc
        rw [wordsFrom_backslash ?_, ih hw' hend']
        intro d hd
        cases w with
        | nil => exact hend rfl d hd
        | cons e w =>
          refine isBlank_head?_escape (w := e :: w) ?_
          rw [List.head?_append_of_ne_nil _ (escape_ne_nil (List.cons_ne_nil e w))] at hd
          exact hd
      · have hws : isWhiteSpace c = false := by
          simpa using fun h => hb (hw c List.mem_cons_self h)
        rw [wordsFrom_cons hc hws, ih hw' hend']

/-! ## 4. A line of written words -/

/-- `Spaced front last line`: the line is the words of `front` and behind them `last`, each
written with its blanks escaped, and one space or more between two of them. -/
inductive Spaced : List (List Char) → List Char → List Char → Prop
  | last (w : List Char) : Spaced [] w (escape w)
  | cons (w : List Char) (k : Nat) {front : List (List Char)} {last line : List Char} :
      Spaced front last line →
        Spaced (w :: front) last (escape w ++ (List.replicate (k + 1) ' ' ++ line))

/-- Words with one space between two of them. -/
theorem spaced_intercalate (w : List Char) (ws : List (List Char)) :
    Spaced (w :: ws).dropLast ((w :: ws).getLast (List.cons_ne_nil w ws))
      ([' '].intercalate ((w :: ws).map escape)) := by
  induction ws generalizing w with
  | nil => simpa using Spaced.last w
  | cons v ws ih =>
    rw [List.map_cons, List.map_cons, List.intercalate_cons_cons, List.append_assoc]
    exact Spaced.cons w 0 (ih v)

/-- Spaces in front of a line are not read. -/
theorem words_replicate_space (k : Nat) (line : List Char) :
    words (List.replicate k ' ' ++ line) = words line := by
  induction k with
  | zero => rfl
  | succ k ih =>
    rw [List.replicate_succ, List.cons_append, words, wordsFrom_space (by decide), ih]
    rfl

/-- The word in front of a space is read, if it does not escape that space. -/
theorem words_escape_space {w : List Char} (hw : IsWord w) (hb : w.getLast? ≠ some '\\')
    (k : Nat) (line : List Char) :
    words (escape w ++ (List.replicate (k + 1) ' ' ++ line)) = w :: words line := by
  rw [words, wordsFrom_escape hw.2 (fun h => absurd h hb), List.append_nil, List.replicate_succ,
    List.cons_append, wordsFrom_space (by decide), wordOf_reverse hw.1, words_replicate_space]
  rfl

/-- **A written word is read back.**  Nothing stands behind it, so a backslash at its end escapes
nothing. -/
theorem words_escape {w : List Char} (hw : IsWord w) : words (escape w) = [w] := by
  have hread : wordsFrom [] (escape w ++ []) = wordsFrom (w.reverse ++ []) [] :=
    wordsFrom_escape hw.2 (fun _ c hc => absurd hc (by simp)) []
  rw [words, ← List.append_nil (escape w), hread, List.append_nil, wordsFrom_nil,
    wordOf_reverse hw.1]

/-- **The words are read back** when none in front of the last ends in a backslash. -/
theorem words_of_spaced {front : List (List Char)} {last line : List Char}
    (h : Spaced front last line) (hw : ∀ w ∈ front, IsWord w) (hlast : IsWord last)
    (hb : ∀ w ∈ front, w.getLast? ≠ some '\\') : words line = front ++ [last] := by
  induction h with
  | last w => exact words_escape hlast
  | cons w k _ ih =>
    rw [words_escape_space (hw w List.mem_cons_self) (hb w List.mem_cons_self),
      ih (fun v hv => hw v (List.mem_cons_of_mem _ hv)) hlast
        (fun v hv => hb v (List.mem_cons_of_mem _ hv))]
    rfl

/-- A backslash at the end of a word takes the space behind it into the word. -/
theorem exists_words_backslash_space {u : List Char}
    (hu : ∀ c ∈ u, isWhiteSpace c = true → isBlank c = true) (line : List Char) :
    ∃ w ws, words (escape (u ++ ['\\']) ++ ' ' :: line) = (u ++ ' ' :: w) :: ws := by
  have hesc : escape (u ++ ['\\']) ++ ' ' :: line = escape u ++ '\\' :: ' ' :: line := by
    rw [escape_append, escape_cons_of_not_blank isBlank_backslash]
    simp
  have hread : words (escape u ++ '\\' :: ' ' :: line) = wordsFrom (' ' :: u.reverse) line := by
    rw [words, wordsFrom_escape hu ?_, wordsFrom_escaped (by decide), List.append_nil]
    intro _ c hc
    rw [List.head?_cons, Option.some.injEq] at hc
    exact hc ▸ isBlank_backslash
  obtain ⟨w, ws, h⟩ := exists_wordsFrom_eq_cons line (' ' :: u.reverse) (List.cons_ne_nil _ _)
  exact ⟨w, ws, by rw [hesc, hread, h]; simp⟩

/-- **Else the words in front of the last are not read back**, whatever is read in their place:
the first that ends in a backslash becomes a word with a space where the backslash was. -/
theorem not_prefix_words_of_spaced {front : List (List Char)} {last line : List Char}
    (h : Spaced front last line) (hw : ∀ w ∈ front, IsWord w)
    (hb : ∃ w ∈ front, w.getLast? = some '\\') : ¬ front <+: words line := by
  induction h with
  | last w =>
    obtain ⟨w, hmem, -⟩ := hb
    exact absurd hmem List.not_mem_nil
  | @cons w k front last line _ ih =>
    have hw' : ∀ v ∈ front, IsWord v := fun v hv => hw v (List.mem_cons_of_mem _ hv)
    by_cases hwb : w.getLast? = some '\\'
    · obtain ⟨u, rfl⟩ := List.getLast?_eq_some_iff.mp hwb
      have hu : ∀ c ∈ u, isWhiteSpace c = true → isBlank c = true :=
        fun c hc => (hw _ List.mem_cons_self).2 c (List.mem_append_left _ hc)
      obtain ⟨v, ws, hread⟩ :=
        exists_words_backslash_space hu (List.replicate k ' ' ++ line)
      rw [List.replicate_succ, List.cons_append, hread, List.cons_prefix_cons]
      rintro ⟨heq, -⟩
      have : '\\' = ' ' := (List.cons.inj (List.append_cancel_left heq)).1
      exact absurd this (by decide)
    · have hb' : ∃ v ∈ front, v.getLast? = some '\\' := by
        obtain ⟨v, hv, hvb⟩ := hb
        rcases List.mem_cons.mp hv with rfl | hv
        · exact absurd hvb hwb
        · exact ⟨v, hv, hvb⟩
      rw [words_escape_space (hw w List.mem_cons_self) hwb, List.cons_prefix_cons]
      rintro ⟨-, hpre⟩
      exact ih hw' hb' hpre

/-- **When a line of written words is read back.** -/
theorem words_spaced_iff {front : List (List Char)} {last line : List Char}
    (h : Spaced front last line) (hw : ∀ w ∈ front, IsWord w) (hlast : IsWord last) :
    words line = front ++ [last] ↔ ∀ w ∈ front, w.getLast? ≠ some '\\' := by
  refine ⟨fun heq w hmem hb => ?_, words_of_spaced h hw hlast⟩
  refine not_prefix_words_of_spaced h hw ⟨w, hmem, hb⟩ ?_
  rw [heq]
  exact List.prefix_append front [last]

/-- The same for a list of words, written with one space between two of them. -/
theorem words_intercalate_iff {ws : List (List Char)} (h : ∀ w ∈ ws, IsWord w) :
    words ([' '].intercalate (ws.map escape)) = ws ↔
      ∀ w ∈ ws.dropLast, w.getLast? ≠ some '\\' := by
  cases ws with
  | nil => exact iff_of_true rfl fun w hw => absurd hw List.not_mem_nil
  | cons w ws =>
    have hiff := words_spaced_iff (spaced_intercalate w ws)
      (fun v hv => h v (List.dropLast_subset _ hv)) (h _ (List.getLast_mem _))
    rwa [List.dropLast_concat_getLast] at hiff

/-- **Reading gives words, and words that are written are read back.**  A list of words that is
written with single spaces is read back exactly if no word in front of the last ends in a
backslash; so a single word always is. -/
theorem words_of_written_words :
    (∀ line : List Char, ∀ w ∈ words line, w ≠ [] ∧
      ∀ c ∈ w, isWhiteSpace c = true → c = ' ' ∨ c = '\t') ∧
    (∀ ws : List (List Char), (∀ w ∈ ws, IsWord w) →
      (words ([' '].intercalate (ws.map escape)) = ws ↔
        ∀ w ∈ ws.dropLast, w.getLast? ≠ some '\\')) ∧
    ∀ w : List Char, IsWord w → words (escape w) = [w] := by
  refine ⟨fun line w hw => ?_, fun ws => words_intercalate_iff, fun w => words_escape⟩
  obtain ⟨hne, hblank⟩ := isWord_of_mem_words hw
  exact ⟨hne, fun c hc hws => isBlank_iff.mp (hblank c hc hws)⟩

/-- A backslash in front of an escaped blank and one at the end of the last word do no harm; at the
end of the first word it makes the two words one. -/
theorem words_of_written_backslashes :
    let ws := ["a\\ b".toList, "\\\t".toList, "c\\".toList]
    let vs := ["c\\".toList, "a".toList]
    ((∀ w ∈ ws, IsWord w) ∧ words ([' '].intercalate (ws.map escape)) = ws) ∧
      (∀ v ∈ vs, IsWord v) ∧ words ([' '].intercalate (vs.map escape)) ≠ vs := by
  intro ws vs
  have hws : ∀ w ∈ ws, IsWord w := by decide
  have hvs : ∀ v ∈ vs, IsWord v := by decide
  obtain ⟨-, hiff, -⟩ := words_of_written_words
  refine ⟨⟨hws, (hiff ws hws).mpr (by decide)⟩, hvs, fun heq => ?_⟩
  exact absurd ((hiff vs hvs).mp heq) (by decide)

/-! ## 5. The characters of a line of written words -/

/-- Writing a word adds backslashes and nothing else. -/
theorem count_escape {x : Char} (hx : x ≠ '\\') (w : List Char) :
    (escape w).count x = w.count x := by
  induction w with
  | nil => rfl
  | cons c w ih =>
    by_cases hc : isBlank c = true
    · rw [escape_cons_of_blank hc, List.count_cons_of_ne (Ne.symm hx), List.count_cons,
        List.count_cons, ih]
    · rw [escape_cons_of_not_blank (by simpa using hc), List.count_cons, List.count_cons, ih]

/-- A character that is neither a blank nor a backslash occurs in a line as often as in its
words. -/
theorem Spaced.count_eq {front : List (List Char)} {last line : List Char}
    (h : Spaced front last line) {x : Char} (hx : x ≠ '\\') (hs : x ≠ ' ') :
    line.count x = (front ++ [last]).flatten.count x := by
  induction h with
  | last w => simp [count_escape hx]
  | cons w k _ ih =>
    have hgap : (List.replicate (k + 1) ' ').count x = 0 := by
      rw [List.count_eq_zero]
      exact fun hmem => hs (List.eq_of_mem_replicate hmem)
    rw [List.count_append, List.count_append, hgap, Nat.zero_add, count_escape hx, ih,
      List.cons_append, List.flatten_cons, List.count_append]

/-- The white space in a line of written words is blanks alone. -/
theorem Spaced.isBlank_of_mem {front : List (List Char)} {last line : List Char}
    (h : Spaced front last line) (hw : ∀ w ∈ front, IsWord w) (hlast : IsWord last) {x : Char}
    (hx : x ∈ line) (hws : isWhiteSpace x = true) : isBlank x = true := by
  by_cases hs : x = ' '
  · subst hs; rfl
  · have hbs : x ≠ '\\' := by
      rintro rfl
      exact absurd hws (by rw [isWhiteSpace_backslash]; exact Bool.false_ne_true)
    have hpos : 0 < (front ++ [last]).flatten.count x := by
      rw [← h.count_eq hbs hs]
      exact List.count_pos_iff.mpr hx
    obtain ⟨w, hmem, hxw⟩ := List.mem_flatten.mp (List.count_pos_iff.mp hpos)
    rcases List.mem_append.mp hmem with hmem | hmem
    · exact (hw w hmem).2 x hxw hws
    · rw [List.mem_singleton.mp hmem] at hxw
      exact hlast.2 x hxw hws

/-! ## 6. Trimming a line of written words -/

/-- What a word becomes when a line that ends in it is trimmed: a blank at its end is cut off, and
the backslash that was written before the blank is left. -/
def cutBlank (w : List Char) : List Char :=
  if w.getLast?.any isBlank then w.dropLast ++ ['\\'] else w

theorem cutBlank_concat {b : Char} (hb : isBlank b = true) (u : List Char) :
    cutBlank (u ++ [b]) = u ++ ['\\'] := by
  simp [cutBlank, hb]

theorem cutBlank_eq_self {w : List Char} (h : ∀ c, w.getLast? = some c → isBlank c = false) :
    cutBlank w = w := by
  unfold cutBlank
  split
  · rename_i hb
    obtain ⟨c, hc, hcb⟩ := Option.any_eq_true _ _ |>.mp hb
    exact absurd hcb (by rw [h c hc]; exact Bool.false_ne_true)
  · rfl

/-- A word with a blank at its end is changed by the cut. -/
theorem cutBlank_ne_self {w : List Char} {b : Char} (hlast : w.getLast? = some b)
    (hb : isBlank b = true) : cutBlank w ≠ w := by
  obtain ⟨u, rfl⟩ := List.getLast?_eq_some_iff.mp hlast
  rw [cutBlank_concat hb]
  intro h
  have : ['\\'] = [b] := List.append_cancel_left h
  have hbs : '\\' = b := (List.cons.inj this).1
  exact absurd hb (by rw [← hbs, isBlank_backslash]; exact Bool.false_ne_true)

theorem isWord_cutBlank {w : List Char} (h : IsWord w) : IsWord (cutBlank w) := by
  unfold cutBlank
  split
  · refine ⟨by simp, fun c hc hws => ?_⟩
    rcases List.mem_append.mp hc with hc | hc
    · exact h.2 c (List.dropLast_subset w hc) hws
    · rw [List.mem_singleton.mp hc, isWhiteSpace_backslash] at hws
      exact absurd hws Bool.false_ne_true
  · exact h

/-- Trimming a written word. -/
theorem trimEnd_escape {w : List Char} (h : IsWord w) :
    trimEnd (escape w) = escape (cutBlank w) := by
  obtain ⟨u, c, rfl⟩ : ∃ u c, w = u ++ [c] :=
    ⟨w.dropLast, w.getLast h.1, (List.dropLast_concat_getLast h.1).symm⟩
  by_cases hb : isBlank c = true
  · have hbs : trimEnd (escape u ++ ['\\']) = escape u ++ ['\\'] := by
      refine trimEnd_eq_self fun d hd => ?_
      rw [List.getLast?_concat, Option.some.injEq] at hd
      exact hd ▸ isWhiteSpace_backslash
    have hesc : escape (u ++ [c]) = escape u ++ ['\\'] ++ [c] := by
      rw [escape_append, escape_cons_of_blank hb]
      simp
    rw [cutBlank_concat hb, hesc, trimEnd_concat (isWhiteSpace_of_isBlank hb), hbs, escape_append,
      escape_cons_of_not_blank isBlank_backslash]
    rfl
  · have hb' : isBlank c = false := by simpa using hb
    have hws : ¬ isWhiteSpace c = true := fun hws => hb (h.2 c (by simp) hws)
    have hesc : escape (u ++ [c]) = escape u ++ [c] := by
      rw [escape_append, escape_cons_of_not_blank hb']
      rfl
    rw [cutBlank_eq_self fun d hd => ?_, hesc]
    · refine trimEnd_eq_self fun d hd => ?_
      rw [List.getLast?_concat, Option.some.injEq] at hd
      exact hd ▸ by simpa using hws
    · rw [List.getLast?_concat, Option.some.injEq] at hd
      exact hd ▸ hb'

/-- A line of written words is not empty. -/
theorem Spaced.ne_nil {front : List (List Char)} {last line : List Char}
    (h : Spaced front last line) (hlast : last ≠ []) : line ≠ [] := by
  induction h with
  | last w => exact escape_ne_nil hlast
  | cons w k _ ih => simp [ih hlast]

/-- A line of written words starts with no white space. -/
theorem Spaced.trimStart {front : List (List Char)} {last line : List Char}
    (h : Spaced front last line) (hw : ∀ w ∈ front, IsWord w) (hlast : IsWord last) :
    trimStart line = line := by
  refine trimStart_eq_self fun c hc => ?_
  cases h with
  | last w => exact isWhiteSpace_head?_escape hlast hc
  | cons w k _ =>
    have hword : IsWord w := hw w List.mem_cons_self
    rw [List.head?_append_of_ne_nil _ (escape_ne_nil hword.1)] at hc
    exact isWhiteSpace_head?_escape hword hc

/-- **Trimming cuts a blank off the last word alone**, and what is left is again a line of written
words. -/
theorem Spaced.trimEnd {front : List (List Char)} {last line : List Char}
    (h : Spaced front last line) (hlast : IsWord last) :
    Spaced front (cutBlank last) (trimEnd line) := by
  induction h with
  | last w => exact trimEnd_escape hlast ▸ Spaced.last _
  | cons w k _ ih =>
    have htrim := ih hlast
    have hne := htrim.ne_nil (isWord_cutBlank hlast).1
    rw [trimEnd_append (by rw [trimEnd_append hne]; simp [hne]), trimEnd_append hne]
    exact Spaced.cons w k htrim

/-- Trimming a line of written words. -/
theorem Spaced.trim {front : List (List Char)} {last line : List Char}
    (h : Spaced front last line) (hw : ∀ w ∈ front, IsWord w) (hlast : IsWord last) :
    Spaced front (cutBlank last) (trim line) := by
  rw [Text.trim, h.trimStart hw hlast]
  exact h.trimEnd hlast

end Ownership
