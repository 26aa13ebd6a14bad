/-
# How lines end does not matter

A line is trimmed before anything else is read of it.  So a file is what the trimmed lines of its
text are: white space around a line does not enter, and a carriage return is white space, whether it
belongs to the end of the line or stands in front of that.  The byte order mark is taken off before
the text is cut into lines.

A line feed may therefore be written with a carriage return in front of it, each one by itself, so
that the endings of a text may be mixed (`Reended`); what stands between two line feeds then differs
by one carriage return at its end at most.

* `OwnersFile.trimmedLines`: what a file is read from;
* `OwnersFile.lines_eq_of_trimmedLines_eq`: that nothing else enters;
* `Reended.map_trim_lines`: the lines of a text under other endings;
* `OwnersFile.lines_of_trimmed_alike`: all of it together.
-/
import Ownership.Proofs.OwnersFile.Form

namespace Ownership

open Text

/-! ## 1. Trimmed lines -/

/-- A line is read from what trimming leaves of it. -/
theorem Line.ofText_congr {l k : List Char} (h : trim l = trim k) (n : Nat) :
    Line.ofText n l = Line.ofText n k := by
  rw [Line.ofText, Line.ofText, h]

theorem Line.readFrom_congr {ls : List (List Char)} :
    ∀ {ks : List (List Char)}, ls.map trim = ks.map trim →
      ∀ n : Nat, Line.readFrom n ls = Line.readFrom n ks := by
  induction ls with
  | nil =>
    intro ks h n
    rw [List.map_eq_nil_iff.mp h.symm]
  | cons l ls ih =>
    intro ks h n
    obtain ⟨k, ks, rfl, hk, hks⟩ := List.map_eq_cons_iff.mp h.symm
    rw [readFrom, readFrom, ofText_congr hk.symm, ih hks.symm]

/-- The lines of a text without its byte order mark, each of them trimmed. -/
def OwnersFile.trimmedLines (text : String) : List (List Char) :=
  (Text.lines (dropMark text.toList)).map trim

/-- **A file is read from its trimmed lines.** -/
theorem OwnersFile.lines_eq_of_trimmedLines_eq {t u : String}
    (h : trimmedLines t = trimmedLines u) : (ofText t).lines = (ofText u).lines := by
  rw [lines_ofText, lines_ofText, Line.readFrom_congr h]

/-! ## 2. Endings -/

/-- The second text is the first, with a carriage return before some of its line feeds. -/
inductive Reended : List Char → List Char → Prop
  | nil : Reended [] []
  | keep (c : Char) {cs ds : List Char} (h : Reended cs ds) : Reended (c :: cs) (c :: ds)
  | ret {cs ds : List Char} (h : Reended cs ds) : Reended ('\n' :: cs) ('\r' :: '\n' :: ds)

/-- The text with a carriage return before each of its line feeds. -/
def withReturns (cs : List Char) : List Char :=
  cs.flatMap fun c => if c = '\n' then ['\r', '\n'] else [c]

theorem reended_withReturns (cs : List Char) : Reended cs (withReturns cs) := by
  induction cs with
  | nil => exact .nil
  | cons c cs ih =>
    rw [withReturns, List.flatMap_cons]
    split
    · rename_i hc
      rw [hc]
      exact .ret ih
    · exact .keep c ih

/-- A carriage return at the end of a line is trimmed off it. -/
theorem trim_concat_return (l : List Char) : trim (l ++ ['\r']) = trim l :=
  trim_concat (by decide)

theorem trim_dropReturn (l : List Char) : trim (dropReturn l) = trim l := by
  unfold dropReturn
  split
  · rename_i hlast
    obtain ⟨init, rfl⟩ := List.getLast?_eq_some_iff.mp hlast
    rw [List.dropLast_concat, trim_concat_return]
  · rfl

/-- The first line of a text and the others. -/
theorem map_trim_lines_append {l : List Char} (hl : '\n' ∉ l) (cs : List Char) :
    (Text.lines (l ++ '\n' :: cs)).map trim = trim l :: (Text.lines cs).map trim := by
  rw [lines_append_cons, List.splitOn_eq_singleton hl, List.map_append, List.map_singleton,
    List.map_singleton, trim_dropReturn, List.singleton_append]

/-- **Other endings leave the trimmed lines as they are.** -/
theorem Reended.map_trim_lines {cs ds : List Char} (h : Reended cs ds) :
    (Text.lines cs).map trim = (Text.lines ds).map trim := by
  -- The induction is on the rest of the text, behind the part of a line that has been passed.
  have hbehind : ∀ l : List Char, '\n' ∉ l →
      (Text.lines (l ++ cs)).map trim = (Text.lines (l ++ ds)).map trim := by
    induction h with
    | nil => exact fun _ _ => rfl
    | keep c h ih =>
      intro l hl
      by_cases hc : c = '\n'
      · subst hc
        rw [map_trim_lines_append hl, map_trim_lines_append hl]
        exact congrArg _ (ih [] List.not_mem_nil)
      · have hl' : '\n' ∉ l ++ [c] := by simp [hl, Ne.symm hc]
        simpa using ih (l ++ [c]) hl'
    | @ret cs ds h ih =>
      intro l hl
      have hl' : '\n' ∉ l ++ ['\r'] := by simp [hl]
      have hreturn : l ++ '\r' :: '\n' :: ds = l ++ ['\r'] ++ '\n' :: ds := List.append_cons ..
      rw [hreturn, map_trim_lines_append hl, map_trim_lines_append hl', trim_concat_return]
      exact congrArg _ (ih [] List.not_mem_nil)
  exact hbehind [] List.not_mem_nil

theorem Reended.dropMark {cs ds : List Char} (h : Reended cs ds) :
    Reended (dropMark cs) (dropMark ds) := by
  cases h with
  | nil => exact .nil
  | @keep c cs ds h =>
    by_cases hc : c = '\uFEFF'
    · subst hc
      exact h
    · rw [dropMark_cons_of_ne hc, dropMark_cons_of_ne hc]
      exact .keep c h
  | ret h => exact .ret h

/-! ## 3. Files -/

namespace OwnersFile

variable {t u : String}

theorem trimmedLines_eq_of_reended (h : Reended t.toList u.toList) :
    trimmedLines t = trimmedLines u :=
  h.dropMark.map_trim_lines

/-- A byte order mark in front of a text that has none is taken off again. -/
theorem trimmedLines_mark_append (h : t.toList.head? ≠ some '\uFEFF') :
    trimmedLines ("\uFEFF" ++ t) = trimmedLines t := by
  have hself : dropMark t.toList = t.toList := dropMark_append h []
  rw [trimmedLines, trimmedLines, String.toList_append, dropMark_append h, hself]
  rfl

/-- **Line endings, outer white space and one byte order mark do not matter.**  Texts with the same
trimmed lines are read as the same lines, so that of their files only the sizes can differ.  So are
two texts of which one has carriage returns before some line feeds of the other, whether before all
of them or in a mixture, and a text with a byte order mark put in front of it. -/
theorem lines_of_trimmed_alike :
    (∀ t u : String, trimmedLines t = trimmedLines u →
      (ofText t).lines = (ofText u).lines ∧
        ofText u = { ofText t with sourceBytes := u.utf8ByteSize }) ∧
    (∀ t u : String, Reended t.toList u.toList → (ofText t).lines = (ofText u).lines) ∧
    (∀ t : String, (ofText (.ofList (withReturns t.toList))).lines = (ofText t).lines) ∧
    ∀ t : String, t.toList.head? ≠ some '\uFEFF' →
      (ofText ("\uFEFF" ++ t)).lines = (ofText t).lines := by
  refine ⟨fun t u h => ?_, fun t u h => ?_, fun t => ?_, fun t h => ?_⟩
  · have hlines := lines_eq_of_trimmedLines_eq h
    exact ⟨hlines, congrArg (OwnersFile.mk · u.utf8ByteSize) hlines.symm⟩
  · exact lines_eq_of_trimmedLines_eq (trimmedLines_eq_of_reended h)
  · refine (lines_eq_of_trimmedLines_eq (trimmedLines_eq_of_reended ?_)).symm
    rw [String.toList_ofList]
    exact reended_withReturns _
  · exact lines_eq_of_trimmedLines_eq (trimmedLines_mark_append h)

/-- A byte order mark, two kinds of endings and a no-break space, against a text without any of
them; an escaped blank at the end of a line is cut off its backslash in both. -/
theorem lines_of_mixed_endings :
    (ofText "\uFEFFdocs @a\\ \r\n\u00A0# team\r\r\n\nsrc").lines =
        (ofText "docs @a\\\n# team\n \nsrc\r\n").lines ∧
      (ofText "\uFEFFdocs @a\r\n").lines = (ofText "docs @a\n").lines := by
  obtain ⟨htrimmed, hreended, -, hmark⟩ := lines_of_trimmed_alike
  refine ⟨(htrimmed _ _ (by decide)).1, (hmark "docs @a\r\n" (by decide)).trans ?_⟩
  exact (hreended "docs @a\n" "docs @a\r\n" (reended_withReturns _)).symm

end OwnersFile

end Ownership
