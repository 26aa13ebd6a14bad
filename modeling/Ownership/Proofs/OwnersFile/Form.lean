/-
# The form of a file that has been read

Whatever a text holds, the file that is read from it has a fixed form: its lines are numbered from
one without a gap, a rule stands on the line whose number it carries, its words hold no white space
but blanks and open no comment, and its owners are what their words say.  A comment holds no line
feed and ends in no white space.

The numbering is followed by recursion: `Line.readFrom n` reads texts as the lines from number `n`
on, and `WellFormedFrom n` says that lines have the form of lines that were read from number `n`
on.  Every statement about a file is proved for these two and any `n`, and used for `n = 1`.

* `OwnersFile.lines_ofText`: the lines of a file, read from number one;
* `wellFormedFrom_lines`: the form;
* `pairwise_line_lt`: the lines of the rules ascend;
* `OwnersFile.wellFormed_ofText`: all that is said of a file here.
-/
import Ownership.OwnersFile.Printer
import Ownership.Proofs.OwnersFile.Word

namespace Ownership

open Text

/-! ## 1. Reading lines with their numbers -/

/-- The lines that these texts are, numbered from `n`. -/
def Line.readFrom (n : Nat) : List (List Char) → List Line
  | [] => []
  | text :: texts => Line.ofText n text :: readFrom (n + 1) texts

theorem Line.map_zipIdx_eq_readFrom (texts : List (List Char)) :
    ∀ n : Nat, ((texts.zipIdx n).map fun (l, i) => Line.ofText (i + 1) l) =
      Line.readFrom (n + 1) texts := by
  induction texts with
  | nil => exact fun n => rfl
  | cons text texts ih =>
    intro n
    rw [List.zipIdx_cons, List.map_cons, ih (n + 1)]
    rfl

/-- The lines of a file are read from number one, without the byte order mark. -/
theorem OwnersFile.lines_ofText (text : String) :
    (OwnersFile.ofText text).lines = Line.readFrom 1 (Text.lines (dropMark text.toList)) :=
  Line.map_zipIdx_eq_readFrom _ 0

/-! ## 2. The form of a rule -/

/-- The words that a rule was read from: its pattern and behind it its owners. -/
def Rule.wordList (r : Rule) : List (List Char) :=
  r.pattern.toList :: r.owners.map fun o => o.raw.toList

/-- The form of a rule on line `n`. -/
structure Rule.WellFormed (n : Nat) (r : Rule) : Prop where
  line_eq : r.line = n
  isWord : ∀ w ∈ r.wordList, IsWord w
  no_comment : ∀ w ∈ r.wordList, opensComment w = false
  owner_eq : ∀ o ∈ r.owners, o = Owner.ofText o.raw

theorem Rule.wordList_ne_nil (r : Rule) : r.wordList ≠ [] := List.cons_ne_nil _ _

/-- The words of the rule that is made of some words: the first, and of the others those in front
of a comment. -/
theorem wordList_ofWords (n : Nat) (w : List Char) (ws : List (List Char)) :
    (Rule.ofWords n (w :: ws)).wordList = w :: ws.takeWhile fun v => !opensComment v := by
  simp only [Rule.wordList, Rule.ofWords, Owner.ofText, List.headD_cons, List.tail_cons,
    List.map_map, Function.comp_def, String.toList_ofList, List.map_id']

/-- A rule is made of its own words. -/
theorem Rule.WellFormed.ofWords_wordList {n : Nat} {r : Rule} (h : r.WellFormed n) :
    Rule.ofWords n r.wordList = r := by
  have hall : ∀ w ∈ r.owners.map fun o => o.raw.toList, (!opensComment w) = true := by
    intro w hw
    rw [h.no_comment w (List.mem_cons_of_mem _ hw)]
    rfl
  have howners : r.owners.map (fun o => Owner.ofText o.raw) = r.owners := by
    conv => rhs; rw [← List.map_id r.owners]
    exact List.map_congr_left fun o ho => (h.owner_eq o ho).symm
  have hline := h.line_eq
  cases r with
  | mk line pattern owners =>
    simp only at hline howners hall
    simp only [Rule.ofWords, Rule.wordList, List.headD_cons, List.tail_cons,
      List.takeWhile_eq_self_iff.mpr hall, List.map_map, Function.comp_def,
      String.ofList_toList, howners, hline]

/-- Two rules on the same line, made of the same words, are equal. -/
theorem Rule.WellFormed.eq_of_wordList_eq {n : Nat} {r s : Rule} (hr : r.WellFormed n)
    (hs : s.WellFormed n) (h : r.wordList = s.wordList) : r = s := by
  rw [← hr.ofWords_wordList, ← hs.ofWords_wordList, h]

/-! ## 3. The form of a line -/

/-- The form of line `n`. -/
def Line.WellFormed (n : Nat) : Line → Prop
  | .blank => True
  | .comment text =>
    '\n' ∉ text.toList ∧ ∀ c, text.toList.getLast? = some c → isWhiteSpace c = false
  | .rule r => r.WellFormed n

/-- The first word of a line opens with the line's first character, unless that escapes a blank. -/
theorem exists_words_eq_cons {c : Char} (hc : isWhiteSpace c = false) (cs : List Char) :
    ∃ d w ws, words (c :: cs) = (d :: w) :: ws ∧ (d = c ∨ isBlank d = true) := by
  by_cases hbs : c = '\\'
  · subst hbs
    by_cases hb : ∀ b, cs.head? = some b → isBlank b = false
    · obtain ⟨w, ws, h⟩ := exists_wordsFrom_eq_cons cs ['\\'] (List.cons_ne_nil _ _)
      exact ⟨'\\', w, ws, by rw [words, wordsFrom_backslash hb, h]; rfl, Or.inl rfl⟩
    · simp only [not_forall] at hb
      obtain ⟨b, hhead, hb⟩ := hb
      have hb' : isBlank b = true := by simpa using hb
      obtain ⟨ds, rfl⟩ : ∃ ds, cs = b :: ds := by
        cases cs with
        | nil => exact absurd hhead (by simp)
        | cons e ds => exact ⟨ds, by rw [List.head?_cons, Option.some.injEq] at hhead; rw [hhead]⟩
      obtain ⟨w, ws, h⟩ := exists_wordsFrom_eq_cons ds [b] (List.cons_ne_nil _ _)
      exact ⟨b, w, ws, by rw [words, wordsFrom_escaped hb', h]; rfl, Or.inr hb'⟩
  · obtain ⟨w, ws, h⟩ := exists_wordsFrom_eq_cons cs [c] (List.cons_ne_nil _ _)
    exact ⟨c, w, ws, by rw [words, wordsFrom_cons hbs hc, h]; rfl, Or.inl rfl⟩

/-- **The rule on a line has the form of a rule.**  Its pattern opens no comment because the line
does not, and an escaped blank is no comment sign. -/
theorem wellFormed_ofWords (n : Nat) {c : Char} {cs : List Char} (hws : isWhiteSpace c = false)
    (hc : c ≠ commentSign) : (Rule.ofWords n (words (c :: cs))).WellFormed n := by
  obtain ⟨d, w, ws, hwords, hd⟩ := exists_words_eq_cons hws cs
  have hlist := wordList_ofWords n (d :: w) ws
  rw [← hwords] at hlist
  have hmem : ∀ v ∈ (Rule.ofWords n (words (c :: cs))).wordList, v ∈ words (c :: cs) := by
    intro v hv
    rw [hlist] at hv
    rw [hwords]
    rcases List.mem_cons.mp hv with rfl | hv
    · exact List.mem_cons_self
    · exact List.mem_cons_of_mem _ ((List.takeWhile_sublist _).subset hv)
  refine ⟨rfl, fun v hv => isWord_of_mem_words (hmem v hv), ?_, ?_⟩
  · intro v hv
    rw [hlist] at hv
    rcases List.mem_cons.mp hv with rfl | hv
    · have hne : d ≠ commentSign := by
        rintro rfl
        rcases hd with hd | hd
        · exact hc hd.symm
        · exact absurd hd (by decide)
      simpa [opensComment] using hne
    · simpa using List.mem_takeWhile_imp hv
  · intro o ho
    obtain ⟨v, -, rfl⟩ := List.mem_map.mp ho
    rfl

/-- **A line that is read has the form of a line.** -/
theorem wellFormed_line_ofText (n : Nat) {text : List Char} (h : '\n' ∉ text) :
    (Line.ofText n text).WellFormed n := by
  unfold Line.ofText
  split
  · trivial
  · rename_i c cs htrim
    split
    · refine ⟨?_, fun d hd => ?_⟩
      · rw [String.toList_ofList]
        intro hmem
        exact h ((trim_sublist text).subset (htrim ▸ List.mem_cons_of_mem _ hmem))
      · rw [String.toList_ofList] at hd
        have hlast : (trim text).getLast? = some d := by
          rw [htrim, List.getLast?_cons, hd]
          rfl
        exact getLast?_trim hlast
    · rename_i hc
      exact wellFormed_ofWords n (head?_trim (by rw [htrim]; rfl)) hc

/-! ## 4. The form of a file -/

theorem Line.rule?_eq_some_iff {l : Line} {r : Rule} : l.rule? = some r ↔ l = .rule r := by
  cases l <;> simp [Line.rule?]

@[simp] theorem filterMap_rule?_cons (r : Rule) (ls : List Line) :
    (Line.rule r :: ls).filterMap Line.rule? = r :: ls.filterMap Line.rule? := rfl

/-- The form of lines that are numbered from `n`. -/
def WellFormedFrom (n : Nat) : List Line → Prop
  | [] => True
  | l :: ls => l.WellFormed n ∧ WellFormedFrom (n + 1) ls

theorem wellFormedFrom_readFrom {texts : List (List Char)} (h : ∀ t ∈ texts, '\n' ∉ t) :
    ∀ n : Nat, WellFormedFrom n (Line.readFrom n texts) := by
  induction texts with
  | nil => exact fun n => trivial
  | cons text texts ih =>
    exact fun n => ⟨wellFormed_line_ofText n (h text List.mem_cons_self),
      ih (fun t ht => h t (List.mem_cons_of_mem _ ht)) (n + 1)⟩

/-- **The form of a file that has been read.** -/
theorem wellFormedFrom_lines (text : String) : WellFormedFrom 1 (OwnersFile.ofText text).lines := by
  rw [OwnersFile.lines_ofText]
  exact wellFormedFrom_readFrom (fun t ht => newline_not_mem_of_mem_lines ht) 1

/-- A line of the file has the form of a line. -/
theorem WellFormedFrom.exists_of_mem {ls : List Line} {l : Line} :
    ∀ {n : Nat}, WellFormedFrom n ls → l ∈ ls → ∃ m, n ≤ m ∧ l.WellFormed m := by
  induction ls with
  | nil => exact fun _ h => absurd h List.not_mem_nil
  | cons k ls ih =>
    intro n h hl
    rcases List.mem_cons.mp hl with rfl | hl
    · exact ⟨n, Nat.le_refl n, h.1⟩
    · obtain ⟨m, hm, hwf⟩ := ih h.2 hl
      exact ⟨m, by omega, hwf⟩

/-- A rule stands on the line whose number it carries. -/
theorem WellFormedFrom.getElem?_of_mem {ls : List Line} {r : Rule} :
    ∀ {n : Nat}, WellFormedFrom n ls → Line.rule r ∈ ls →
      n ≤ r.line ∧ ls[r.line - n]? = some (.rule r) := by
  induction ls with
  | nil => exact fun _ h => absurd h List.not_mem_nil
  | cons l ls ih =>
    intro n h hr
    rcases List.mem_cons.mp hr with rfl | hr
    · have hline : r.line = n := h.1.line_eq
      exact ⟨hline.ge, by rw [hline, Nat.sub_self]; rfl⟩
    · obtain ⟨hle, hget⟩ := ih h.2 hr
      refine ⟨Nat.le_of_succ_le hle, ?_⟩
      rw [show r.line - n = r.line - (n + 1) + 1 by omega, List.getElem?_cons_succ, hget]

/-- The rules among lines numbered from `n` stand on lines from `n` on, each further down than the
one before. -/
theorem WellFormedFrom.pairwise_line_lt {ls : List Line} :
    ∀ {n : Nat}, WellFormedFrom n ls →
      ((ls.filterMap Line.rule?).map Rule.line).Pairwise (· < ·) := by
  induction ls with
  | nil => exact fun _ => List.Pairwise.nil
  | cons l ls ih =>
    intro n h
    cases l with
    | blank => exact ih h.2
    | comment t => exact ih h.2
    | rule r =>
      refine List.Pairwise.cons (fun k hk => ?_) (ih h.2)
      obtain ⟨s, hs, rfl⟩ := List.mem_map.mp hk
      obtain ⟨l, hl, hls⟩ := List.mem_filterMap.mp hs
      obtain ⟨m, hm, hwf⟩ := h.2.exists_of_mem hl
      rw [Line.rule?_eq_some_iff.mp hls] at hwf
      have hr : r.line = n := h.1.line_eq
      have hs' : s.line = m := hwf.line_eq
      omega

/-- A rule of a file has the form of a rule. -/
theorem exists_wellFormed_of_mem_rules {text : String} {r : Rule}
    (hr : r ∈ (OwnersFile.ofText text).rules) : ∃ n, r.WellFormed n := by
  obtain ⟨l, hl, hlr⟩ := List.mem_filterMap.mp hr
  obtain ⟨n, -, h⟩ := (wellFormedFrom_lines text).exists_of_mem hl
  rw [Line.rule?_eq_some_iff.mp hlr] at h
  exact ⟨n, h⟩

/-- **A rule of a file stands on the line whose number it carries**, counted from one. -/
theorem getElem?_lines_of_mem_rules {text : String} {r : Rule}
    (hr : r ∈ (OwnersFile.ofText text).rules) :
    1 ≤ r.line ∧ (OwnersFile.ofText text).lines[r.line - 1]? = some (.rule r) := by
  obtain ⟨l, hl, hlr⟩ := List.mem_filterMap.mp hr
  exact (wellFormedFrom_lines text).getElem?_of_mem (Line.rule?_eq_some_iff.mp hlr ▸ hl)

/-- **The lines of the rules ascend.** -/
theorem pairwise_line_lt (text : String) :
    ((OwnersFile.ofText text).rules.map Rule.line).Pairwise (· < ·) :=
  (wellFormedFrom_lines text).pairwise_line_lt

/-! ## 5. The whole of it -/

/-- Each line of a text is read as the line of its file with the same number. -/
theorem getElem?_lines_ofText (text : String) (i : Nat) :
    (OwnersFile.ofText text).lines[i]? =
      (Text.lines (dropMark text.toList))[i]?.map (Line.ofText (i + 1)) := by
  rw [OwnersFile.ofText, List.getElem?_map, List.getElem?_zipIdx, Option.map_map, Nat.zero_add]
  rfl

theorem wellFormed_of_getElem?_lines {text : String} {i : Nat} {l : Line}
    (h : (OwnersFile.ofText text).lines[i]? = some l) : l.WellFormed (i + 1) := by
  rw [getElem?_lines_ofText] at h
  obtain ⟨t, ht, rfl⟩ := Option.map_eq_some_iff.mp h
  exact wellFormed_line_ofText (i + 1) (newline_not_mem_of_mem_lines (List.mem_of_getElem? ht))

theorem length_lines_ofText (text : String) :
    (OwnersFile.ofText text).lines.length =
      text.toList.count '\n' + if IsClosed (dropMark text.toList) then 0 else 1 := by
  rw [OwnersFile.ofText, List.length_map, List.length_zipIdx, Text.length_lines, count_dropMark]

/-- The form of the file that a text is read as. -/
structure OwnersFile.WellFormed (text : String) (f : OwnersFile) : Prop where
  sourceBytes_eq : f.sourceBytes = text.utf8ByteSize
  /-- A text has a line for each line feed, and one for what stands behind the last. -/
  length_eq : f.lines.length =
    text.toList.count '\n' + if IsClosed (dropMark text.toList) then 0 else 1
  /-- Each line is read by itself. -/
  getElem?_eq : ∀ i,
    f.lines[i]? = (Text.lines (dropMark text.toList))[i]?.map (Line.ofText (i + 1))
  /-- A rule carries the number of its line. -/
  line_eq : ∀ i r, f.lines[i]? = some (.rule r) → r.line = i + 1
  lines_lt : (f.rules.map Rule.line).Pairwise (· < ·)
  /-- Patterns and owners are words, and none of them opens a comment. -/
  word_form : ∀ r ∈ f.rules, ∀ w ∈ r.wordList, w ≠ [] ∧ w.head? ≠ some '#' ∧
    ∀ c ∈ w, isWhiteSpace c = true → c = ' ' ∨ c = '\t'
  kind_eq : ∀ r ∈ f.rules, ∀ o ∈ r.owners, o.kind = (Owner.ofText o.raw).kind
  comment_form : ∀ t, .comment t ∈ f.lines → '\n' ∉ t.toList ∧
    ∀ c, t.toList.getLast? = some c → isWhiteSpace c = false

/-- **Every text is read as a file of this form.** -/
theorem OwnersFile.wellFormed_ofText (text : String) : (ofText text).WellFormed text := by
  refine
    { sourceBytes_eq := rfl
      length_eq := length_lines_ofText text
      getElem?_eq := getElem?_lines_ofText text
      line_eq := fun i r hr => ?line
      lines_lt := pairwise_line_lt text
      word_form := fun r hr w hw => ?word
      kind_eq := fun r hr o ho => ?kind
      comment_form := fun t ht => ?comment }
  case line =>
    have hform : r.WellFormed (i + 1) := wellFormed_of_getElem?_lines hr
    exact hform.line_eq
  case word =>
    obtain ⟨n, hform⟩ := exists_wellFormed_of_mem_rules hr
    obtain ⟨hne, hblank⟩ := hform.isWord w hw
    refine ⟨hne, fun hopens => ?_, fun c hc hws => isBlank_iff.mp (hblank c hc hws)⟩
    have hcomment := hform.no_comment w hw
    rw [opensComment, hopens] at hcomment
    exact absurd hcomment (by decide)
  case kind =>
    obtain ⟨n, hform⟩ := exists_wellFormed_of_mem_rules hr
    exact congrArg Owner.kind (hform.owner_eq o ho)
  case comment =>
    obtain ⟨i, hi⟩ := List.mem_iff_getElem?.mp ht
    exact wellFormed_of_getElem?_lines hi

/-- A pattern that starts with an escaped blank opens no comment, whatever stands behind the
blank. -/
example : (OwnersFile.ofText "\uFEFF\\ #a @b\t#c\r\n#").lines =
    [.rule ⟨1, " #a", [⟨"@b", .user⟩]⟩, .comment ""] := by decide

end Ownership
