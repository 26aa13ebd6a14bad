/-
# Files one behind the other, and notes between them

A file is read line by line, and a line knows of the others no more than how many stand in front of
it.  So where a text ends with a line feed, what is put behind it is read as if it stood alone, only
that its rules carry higher line numbers (`OwnersFile.lines_append`).  The one thing that
belongs to a text as a whole is the byte order mark in front of it, which the second text must not
open with.

Blank lines and comments hold no rule.  Putting some of them between two texts therefore leaves the
rules what they are and moves those behind them down.  The identifiers of a file and of its rules
are made without line numbers, so they stay the same (`OwnersFile.ruleIds_moved`).

* `Line.readFrom_append`, `Line.readFrom_add`: lines are read one by one;
* `OwnersFile.rules_append`: the rules of two texts, one behind the other;
* `IsNote`: blank lines and comments; `OwnersFile.rules_insert`: what they do to the rules;
* `OwnersFile.ofText_append_insert`: all of it together.
-/
import Ownership.Auditor.Lint
import Ownership.Proofs.OwnersFile.Form

namespace Ownership

open Text

/-! ## 1. Lines further down -/

/-- The rule `n` lines further down. -/
def Rule.shift (n : Nat) (r : Rule) : Rule := { r with line := r.line + n }

@[simp] theorem Rule.line_shift (n : Nat) (r : Rule) : (r.shift n).line = r.line + n := rfl

/-- The line `n` lines further down. -/
def Line.shift (n : Nat) : Line → Line
  | .blank => .blank
  | .comment text => .comment text
  | .rule r => .rule (r.shift n)

theorem Line.rule?_shift (n : Nat) (l : Line) : (l.shift n).rule? = l.rule?.map (Rule.shift n) := by
  cases l <;> rfl

/-- A line is read without regard to its number. -/
theorem Line.ofText_add (m n : Nat) (text : List Char) :
    Line.ofText (m + n) text = (Line.ofText m text).shift n := by
  unfold Line.ofText
  split
  · rfl
  · split <;> rfl

theorem Line.readFrom_add (n : Nat) (texts : List (List Char)) :
    ∀ m : Nat, Line.readFrom (m + n) texts = (Line.readFrom m texts).map (Line.shift n) := by
  induction texts with
  | nil => exact fun _ => rfl
  | cons text texts ih =>
    intro m
    rw [Line.readFrom, Line.readFrom, List.map_cons, Line.ofText_add, Nat.add_right_comm, ih]

theorem Line.readFrom_append (texts rest : List (List Char)) :
    ∀ m : Nat, Line.readFrom m (texts ++ rest) =
      Line.readFrom m texts ++ Line.readFrom (m + texts.length) rest := by
  induction texts with
  | nil => exact fun _ => rfl
  | cons text texts ih =>
    intro m
    rw [List.cons_append, Line.readFrom, Line.readFrom, ih, List.cons_append, List.length_cons,
      Nat.add_right_comm, Nat.add_assoc]

namespace OwnersFile

/-! ## 2. Two texts, one behind the other -/

section Append

variable {t u : String}

/-- **What stands behind a closed text** is read as if it stood alone, only further down. -/
theorem lines_append (ht : IsClosed t.toList) (hu : u.toList.head? ≠ some '\uFEFF') :
    (ofText (t ++ u)).lines =
      (ofText t).lines ++ (ofText u).lines.map (Line.shift (t.toList.count '\n')) := by
  have hmark : dropMark u.toList = u.toList := dropMark_append hu []
  have hlength : (Text.lines (dropMark t.toList)).length = t.toList.count '\n' := by
    rw [ht.dropMark.length_lines, count_dropMark]
  rw [lines_ofText, lines_ofText, lines_ofText, String.toList_append, dropMark_append hu,
    ht.dropMark.lines_append, Line.readFrom_append, hlength, Line.readFrom_add, hmark]

theorem rules_append (ht : IsClosed t.toList) (hu : u.toList.head? ≠ some '\uFEFF') :
    (ofText (t ++ u)).rules =
      (ofText t).rules ++ (ofText u).rules.map (Rule.shift (t.toList.count '\n')) := by
  rw [rules, lines_append ht hu, List.filterMap_append, List.filterMap_map]
  simp only [Function.comp_def, Line.rule?_shift, rules, List.map_filterMap]

theorem length_lines (ht : IsClosed t.toList) :
    (ofText t).lines.length = t.toList.count '\n' := by
  rw [length_lines_ofText, if_pos ht.dropMark, Nat.add_zero]

/-- The rules of a closed text stand on its lines. -/
theorem line_le_of_mem_rules (ht : IsClosed t.toList) {r : Rule} (hr : r ∈ (ofText t).rules) :
    r.line ≤ t.toList.count '\n' := by
  obtain ⟨hone, hline⟩ := getElem?_lines_of_mem_rules hr
  have hlt := (List.getElem?_eq_some_iff.mp hline).1
  rw [length_lines ht] at hlt
  omega

end Append

end OwnersFile

/-! ## 3. Notes -/

/-- Holds of a blank line and of a comment. -/
def IsNote (l : List Char) : Prop := trim l = [] ∨ (trim l).head? = some commentSign

instance : DecidablePred IsNote := fun l =>
  inferInstanceAs (Decidable (trim l = [] ∨ (trim l).head? = some commentSign))

/-- A note is read as a line without a rule. -/
theorem IsNote.rule?_ofText {l : List Char} (h : IsNote l) (n : Nat) :
    (Line.ofText n l).rule? = none := by
  unfold Line.ofText
  rcases h with h | h
  · rw [h]
    rfl
  · obtain ⟨cs, hcs⟩ := List.head?_eq_some_iff.mp h
    simp only [hcs, if_true, Line.rule?]

theorem filterMap_rule?_readFrom {ls : List (List Char)} (h : ∀ l ∈ ls, IsNote l) :
    ∀ n : Nat, (Line.readFrom n ls).filterMap Line.rule? = [] := by
  induction ls with
  | nil => exact fun _ => rfl
  | cons l ls ih =>
    obtain ⟨hl, hls⟩ := List.forall_mem_cons.mp h
    intro n
    rw [Line.readFrom, List.filterMap_cons_none (hl.rule?_ofText n), ih hls]

/-! ## 4. Notes between two texts -/

/-- The rule where it stands once `k` lines have been put in behind line `n`. -/
def Rule.moved (n k : Nat) (r : Rule) : Rule := if r.line ≤ n then r else r.shift k

theorem Rule.moved_of_le {n : Nat} {r : Rule} (h : r.line ≤ n) (k : Nat) : r.moved n k = r :=
  if_pos h

theorem Rule.moved_shift {r : Rule} (h : 1 ≤ r.line) (n k : Nat) :
    (r.shift n).moved n k = (r.shift k).shift n := by
  have hbehind : ¬ (r.shift n).line ≤ n := by
    rw [Rule.line_shift]
    omega
  rw [moved, if_neg hbehind, shift, shift, shift, shift, Nat.add_right_comm]

theorem Rule.serialize_moved (n k : Nat) (r : Rule) : (r.moved n k).serialize = r.serialize := by
  rw [moved]
  split <;> rfl

/-- The identifiers are made without line numbers. -/
theorem ruleId_moved (n k : Nat) (ruleset : Uuid) (r : Rule) (index : Nat) :
    ruleId ruleset (r.moved n k) index = ruleId ruleset r index := by
  rw [ruleId, ruleId, Rule.serializeAt, Rule.serializeAt, Rule.serialize_moved]

namespace OwnersFile

section Moved

variable {f g : OwnersFile} {n k : Nat}

theorem rulesetId_moved (h : f.rules = g.rules.map (Rule.moved n k)) :
    rulesetId f = rulesetId g := by
  rw [rulesetId, rulesetId, serializeRules, serializeRules, h, List.map_map]
  simp only [Function.comp_def, Rule.serialize_moved]

theorem ruleIds_moved (h : f.rules = g.rules.map (Rule.moved n k)) :
    f.ruleIds.map Prod.snd = g.ruleIds.map Prod.snd := by
  simp only [ruleIds, rulesetId_moved h, h, List.zipIdx_map, List.map_map, Function.comp_def,
    Prod.map_fst, Prod.map_snd, ruleId_moved, id]

end Moved

section Insert

variable {t c u : String}

/-- **Notes between two texts** move the rules of the second down. -/
theorem rules_insert (ht : IsClosed t.toList) (hu : u.toList.head? ≠ some '\uFEFF')
    (hc : IsClosed c.toList) (hmark : c.toList.head? ≠ some '\uFEFF')
    (hnotes : ∀ l ∈ Text.lines c.toList, IsNote l) :
    (ofText (t ++ c ++ u)).rules =
      (ofText (t ++ u)).rules.map (Rule.moved (t.toList.count '\n') (c.toList.count '\n')) := by
  have hempty : (ofText c).rules = [] := by
    have hself : dropMark c.toList = c.toList := dropMark_append hmark []
    rw [rules, lines_ofText, hself, filterMap_rule?_readFrom hnotes]
  -- Without notes it is the second text that follows the first, so its mark counts as well.
  have hcu : (c ++ u).toList.head? ≠ some '\uFEFF' := by
    rw [String.toList_append, List.head?_append]
    cases hhead : c.toList.head? with
    | none => simpa using hu
    | some d => simpa [hhead] using hmark
  have hbelow : (ofText (c ++ u)).rules =
      (ofText u).rules.map (Rule.shift (c.toList.count '\n')) := by
    rw [rules_append hc hu, hempty, List.nil_append]
  have hfirst : (ofText t).rules.map (Rule.moved (t.toList.count '\n') (c.toList.count '\n')) =
      (ofText t).rules :=
    (List.map_congr_left fun r hr => Rule.moved_of_le (line_le_of_mem_rules ht hr) _).trans
      (List.map_id _)
  rw [String.append_assoc, rules_append ht hcu, hbelow, rules_append ht hu, List.map_append, hfirst,
    List.map_map, List.map_map]
  refine congrArg _ (List.map_congr_left fun r hr => ?_)
  exact (Rule.moved_shift (getElem?_lines_of_mem_rules hr).1 _ _).symm

/-- **Reading is local to the line, and notes do not enter identifiers**: behind a closed text the
lines are read as if they stood alone, only further down, and notes in between move the rules behind
them but leave the identifiers of the file and of each rule what they are. -/
theorem ofText_append_insert (ht : IsClosed t.toList) (hu : u.toList.head? ≠ some '\uFEFF') :
    (ofText (t ++ u)).lines =
        (ofText t).lines ++ (ofText u).lines.map (Line.shift (ofText t).lines.length) ∧
      ∀ c : String, IsClosed c.toList → c.toList.head? ≠ some '\uFEFF' →
        (∀ l ∈ Text.lines c.toList, IsNote l) →
        (ofText (t ++ c ++ u)).rules =
            (ofText (t ++ u)).rules.map
              (Rule.moved (ofText t).lines.length (ofText c).lines.length) ∧
          rulesetId (ofText (t ++ c ++ u)) = rulesetId (ofText (t ++ u)) ∧
          (ofText (t ++ c ++ u)).ruleIds.map Prod.snd = (ofText (t ++ u)).ruleIds.map Prod.snd := by
  rw [length_lines ht]
  refine ⟨lines_append ht hu, fun c hc hmark hnotes => ?_⟩
  have hrules := rules_insert ht hu hc hmark hnotes
  rw [length_lines hc]
  exact ⟨hrules, rulesetId_moved hrules, ruleIds_moved hrules⟩

/-- A comment and a line of white space, between a rule with a byte order mark in front and another
rule. -/
theorem rules_with_notes :
    (ofText ("\uFEFFdocs @a\r\n" ++ " # team\r\n\t\n" ++ "src @b")).rules.map Rule.line = [1, 4] ∧
      rulesetId (ofText ("\uFEFFdocs @a\r\n" ++ " # team\r\n\t\n" ++ "src @b")) =
        rulesetId (ofText ("\uFEFFdocs @a\r\n" ++ "src @b")) := by
  obtain ⟨-, hinsert⟩ := ofText_append_insert (t := "\uFEFFdocs @a\r\n") (u := "src @b") (by decide)
    (by decide)
  obtain ⟨hrules, hruleset, -⟩ := hinsert " # team\r\n\t\n" (by decide) (by decide) (by decide)
  refine ⟨?_, hruleset⟩
  rw [hrules]
  decide

end Insert

end OwnersFile

end Ownership
