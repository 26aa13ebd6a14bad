/-
# What a written scalar tells

A text behind a key is written in one of four styles, and each has its own way to keep the text from
what follows it.  Quotes are closed by a sign that is escaped or doubled inside; a plain scalar ends
with its line; a block goes on as long as the lines are indented.  The first character tells the
style, for a plain scalar starts with none of the signs that open the others.  So what is written
tells the text, and where it ends, in front of any rest that is not indented like a block
(`tells_written`).

Escapes, quotes and blocks are written character by character, in a state that says whether a line
has just ended.  What one character is written as tells the character, whatever is written behind
it, and the end of a text is not taken for a character: from these two the rest follows by induction
on the text, once for all of them (`Tells.scan`).

* `Tells`: what is written tells the value and where it ends;
* `escapeCode_cases`: the escapes, as they are read again;
* `tells_doubleQuoted`, `tells_singleQuoted`, `tells_blockBody`: three of the styles;
* `tells_written`: all of them.
-/
import Mathlib.Data.List.Infix
import Ownership.Proofs.Text
import Ownership.Yaml.Token.Scalar
import Ownership.Yaml.Written

namespace Ownership

/-! ## 1. Telling values -/

section Telling

variable {α β σ : Type}

/-- **What is written tells the value and where it ends**, when a value and what follows it are such
as `good` says. -/
def Tells (good : α → List β → Prop) (write : α → List β) : Prop :=
  ∀ ⦃x : α⦄ ⦃rest : List β⦄, good x rest → ∀ ⦃y : α⦄ ⦃rest' : List β⦄, good y rest' →
    write x ++ rest = write y ++ rest' → x = y ∧ rest = rest'

/-- **Values that are written one after another**, in a state that changes with each of them, are
told if each value is told in each state, and the end is not taken for a value. -/
theorem Tells.scan {good : σ → α → List β → Prop} (goods : σ → List α → List β → Prop)
    {emit : σ → α → List β} (next : σ → α → σ) {write : σ → List α → List β}
    (hcons : ∀ s x xs, write s (x :: xs) = emit s x ++ write (next s x) xs)
    (hstep : ∀ s, Tells (good s) (emit s))
    (hgood : ∀ {s x xs rest}, goods s (x :: xs) rest →
      good s x (write (next s x) xs ++ rest) ∧ goods (next s x) xs rest)
    (hstop : ∀ {s x rest rest'}, goods s [] rest → good s x rest' →
      write s [] ++ rest ≠ emit s x ++ rest') (s : σ) :
    Tells (goods s) (write s) := by
  intro xs rest h ys rest' h' heq
  induction xs generalizing s ys with
  | nil =>
    cases ys with
    | nil => exact ⟨rfl, List.append_cancel_left heq⟩
    | cons y ys =>
      rw [hcons, List.append_assoc] at heq
      exact absurd heq (hstop h (hgood h').1)
  | cons x xs ih =>
    cases ys with
    | nil =>
      rw [hcons, List.append_assoc] at heq
      exact absurd heq.symm (hstop h' (hgood h).1)
    | cons y ys =>
      rw [hcons, hcons, List.append_assoc, List.append_assoc] at heq
      obtain ⟨rfl, heq⟩ := hstep s (hgood h).1 (hgood h').1 heq
      obtain ⟨rfl, hrest⟩ := ih _ (hgood h).2 (hgood h').2 heq
      exact ⟨rfl, hrest⟩

/-- Values that are written one after another, without a state. -/
theorem Tells.flatMap {good : α → List β → Prop} {goods : List α → List β → Prop}
    {write : α → List β} (hwrite : Tells good write)
    (hgood : ∀ {x xs rest}, goods (x :: xs) rest →
      good x (xs.flatMap write ++ rest) ∧ goods xs rest)
    (hstop : ∀ {x rest rest'}, goods [] rest → good x rest' → rest ≠ write x ++ rest') :
    Tells goods (List.flatMap write) :=
  Tells.scan (fun _ => goods) (fun _ _ => ()) (fun _ _ _ => List.flatMap_cons) (fun _ => hwrite)
    hgood hstop ()

end Telling

namespace Yaml

/-! ## 2. Double quotes -/

theorem length_hexDigits (width n : Nat) : (hexDigits width n).length = width := by
  induction width generalizing n with
  | zero => rfl
  | succ width ih => rw [hexDigits, List.length_append, ih, List.length_singleton]

theorem digit?_hexDigit : ∀ d < 16, digit? 16 (hexDigit d) = some d := by decide

/-- Digits tell the number up to their width. -/
theorem mod_eq_of_hexDigits_eq {width : Nat} :
    ∀ {n m : Nat}, hexDigits width n = hexDigits width m →
      n % Nat.pow 16 width = m % Nat.pow 16 width := by
  induction width with
  | zero => exact fun _ => (Nat.mod_one _).trans (Nat.mod_one _).symm
  | succ width ih =>
    intro n m h
    rw [hexDigits, hexDigits] at h
    obtain ⟨hhigh, hlow⟩ := List.append_inj h (by rw [length_hexDigits, length_hexDigits])
    have hdigit : n % 16 = m % 16 := by
      have hread := congrArg (digit? 16) (List.singleton_inj.mp hlow)
      rw [digit?_hexDigit _ (Nat.mod_lt _ (by decide)),
        digit?_hexDigit _ (Nat.mod_lt _ (by decide))] at hread
      exact Option.some.inj hread
    have hpow : Nat.pow 16 (width + 1) = 16 * Nat.pow 16 width := Nat.mul_comm _ _
    rw [hpow, Nat.mod_mul, Nat.mod_mul, ih hhigh, hdigit]

/-- A character that is told by its number is read again. -/
theorem escapeCode?_eq_some {c e : Char} {n : Nat} (hc : c.toNat = n)
    (he : escapeCode? e = some (.char (Char.ofNat n))) : escapeCode? e = some (.char c) := by
  rwa [← hc, Char.ofNat_toNat] at he

/-- **The escape of a character** is read again as that character, or as the digits of its
number. -/
theorem escapeCode_cases (c : Char) :
    (∃ e, escapeCode c = [e] ∧ escapeCode? e = some (.char c)) ∨
      ∃ e width, escapeCode c = e :: hexDigits width c.toNat ∧
        escapeCode? e = some (.hex width) ∧ c.toNat < Nat.pow 16 width := by
  unfold escapeCode
  split
  case h_16 =>
    have hc : c.val.toNat < 0x110000 := c.valid.elim (fun h => by omega) fun h => h.2
    refine .inr ?_
    split
    · rename_i hbyte
      exact ⟨'x', 2, rfl, rfl, hbyte.trans_lt (by decide)⟩
    · split
      · rename_i hshort
        exact ⟨'u', 4, rfl, rfl, hshort.trans_lt (by decide)⟩
      · exact ⟨'U', 8, rfl, rfl, hc.trans (by decide)⟩
  all_goals
    rename_i hc
    exact .inl ⟨_, rfl, escapeCode?_eq_some hc rfl⟩

/-- **An escape tells its character**, whatever follows. -/
theorem tells_escapeCode : Tells (fun _ _ => True) escapeCode := by
  intro c rest _ d rest' _ h
  rcases escapeCode_cases c with ⟨e, hc, he⟩ | ⟨e, width, hc, he, hwidth⟩ <;>
    rcases escapeCode_cases d with ⟨e', hd, he'⟩ | ⟨e', width', hd, he', hwidth'⟩ <;>
    rw [hc, hd, List.cons_append, List.cons_append, List.cons.injEq] at h <;>
    obtain ⟨rfl, h⟩ := h <;> rw [he, Option.some_inj] at he'
  · cases he'
    exact ⟨rfl, h⟩
  · cases he'
  · cases he'
  · cases he'
    obtain ⟨hdigits, hrest⟩ := List.append_inj h (by rw [length_hexDigits, length_hexDigits])
    have hnumber := mod_eq_of_hexDigits_eq hdigits
    rw [Nat.mod_eq_of_lt hwidth, Nat.mod_eq_of_lt hwidth'] at hnumber
    exact ⟨Char.toNat_inj.mp hnumber, hrest⟩

/-- A character in double quotes. -/
def escaped (c : Char) : List Char := if needsEscape c then '\\' :: escapeCode c else [c]

theorem tells_escaped : Tells (fun _ _ => True) escaped := by
  have hbackslash : needsEscape '\\' = true := by decide
  intro c rest _ d rest' _ h
  unfold escaped at h
  split at h <;> split at h
  · exact tells_escapeCode trivial trivial (List.cons.inj h).2
  · rename_i hd
    cases (List.cons.inj h).1
    exact absurd hbackslash hd
  · rename_i hc _
    cases (List.cons.inj h).1
    exact absurd hbackslash hc
  · exact List.cons.inj h

/-- The closing quote is taken for no character. -/
theorem quote_ne_escaped (c : Char) (rest rest' : List Char) :
    '"' :: rest ≠ escaped c ++ rest' := by
  unfold escaped
  split
  · exact fun h => absurd (List.cons.inj h).1 (by decide)
  · rename_i hc
    intro h
    cases (List.cons.inj h).1
    exact hc (by decide)

/-- **Double quotes tell a text**, whatever follows. -/
theorem tells_doubleQuoted : Tells (fun _ _ => True) doubleQuoted := by
  have hinside : Tells (fun _ rest => rest.head? = some '"') (List.flatMap escaped) := by
    refine tells_escaped.flatMap (fun h => ⟨trivial, h⟩) fun {c rest rest'} h _ => ?_
    obtain ⟨behind, rfl⟩ := List.head?_eq_some_iff.mp h
    exact quote_ne_escaped c behind rest'
  intro cs rest _ ds rest' _ h
  have hquoted : ∀ cs, doubleQuoted cs = '"' :: (cs.flatMap escaped ++ ['"']) := fun _ => rfl
  have hopened : cs.flatMap escaped ++ '"' :: rest = ds.flatMap escaped ++ '"' :: rest' := by
    simpa [hquoted] using h
  obtain ⟨rfl, hclosed⟩ := hinside rfl rfl hopened
  exact ⟨rfl, (List.cons.inj hclosed).2⟩

/-! ## 3. Lines -/

section Lines

variable {indent : Nat} {tail : Char → List Char}

/-- What a character is written as behind a line end or not, in a style that indents the lines and
writes `tail` behind a character. -/
def lineChar (indent : Nat) (tail : Char → List Char) (afterBreak : Bool) (c : Char) : List Char :=
  if isBreak c then [c]
  else List.replicate (if afterBreak then indent else 0) ' ' ++ c :: tail c

/-- A line end does not start an indented line. -/
theorem break_ne_indented {c d : Char} (hc : isBreak c = true) (hd : isBreak d = false)
    (width : Nat) (rest rest' : List Char) :
    c :: rest ≠ List.replicate width ' ' ++ d :: rest' := by
  intro h
  cases width with
  | zero =>
    cases (List.cons.inj h).1
    exact absurd hc (Bool.eq_false_iff.mp hd)
  | succ n =>
    cases (List.cons.inj h).1
    exact absurd hc (by decide)

theorem tells_lineChar (afterBreak : Bool) :
    Tells (fun _ _ => True) (lineChar indent tail afterBreak) := by
  intro c rest _ d rest' _ h
  rw [lineChar, lineChar] at h
  by_cases hc : isBreak c = true <;> by_cases hd : isBreak d = true
  · rw [if_pos hc, if_pos hd] at h
    exact List.cons.inj h
  · rw [if_pos hc, if_neg hd, List.append_assoc] at h
    exact absurd h (break_ne_indented hc (Bool.eq_false_iff.mpr hd) _ rest _)
  · rw [if_neg hc, if_pos hd, List.append_assoc] at h
    exact absurd h.symm (break_ne_indented hd (Bool.eq_false_iff.mpr hc) _ rest' _)
  · rw [if_neg hc, if_neg hd, List.append_assoc, List.append_assoc] at h
    obtain ⟨rfl, h⟩ := List.cons.inj (List.append_cancel_left h)
    exact ⟨rfl, List.append_cancel_left h⟩

/-! ## 4. Single quotes -/

/-- Quotes are doubled. -/
def doubledQuote (c : Char) : List Char := if c = '\'' then ['\''] else []

theorem singleBody_nil (afterBreak : Bool) :
    singleBody indent afterBreak [] = List.replicate (if afterBreak then indent else 0) ' ' := by
  cases afterBreak <;> rfl

theorem singleBody_cons (afterBreak : Bool) (c : Char) (cs : List Char) :
    singleBody indent afterBreak (c :: cs) =
      lineChar indent doubledQuote afterBreak c ++ singleBody indent (isBreak c) cs := by
  rw [singleBody, lineChar, doubledQuote]
  cases hc : isBreak c with
  | true => rfl
  | false => cases afterBreak <;> by_cases hquote : c = '\'' <;> simp [hquote]

/-- **Single quotes tell a text**, unless another quote follows them. -/
theorem tells_singleQuoted :
    Tells (fun _ rest => rest.head? ≠ some '\'') (singleQuoted indent) := by
  have hinside : Tells (fun _ rest => ∃ behind, rest = '\'' :: behind ∧ behind.head? ≠ some '\'')
      (singleBody indent false) := by
    refine Tells.scan
      (fun _ _ rest => ∃ behind, rest = '\'' :: behind ∧ behind.head? ≠ some '\'')
      (fun _ c => isBreak c) singleBody_cons tells_lineChar
      (fun h => ⟨trivial, h⟩) (fun {afterBreak c rest rest'} h _ heq => ?_) false
    obtain ⟨behind, rfl, hbehind⟩ := h
    rw [singleBody_nil, lineChar] at heq
    by_cases hc : isBreak c = true
    · rw [if_pos hc] at heq
      exact break_ne_indented hc (by decide) _ _ _ heq.symm
    · rw [if_neg hc, List.append_assoc] at heq
      obtain ⟨rfl, htail⟩ := List.cons.inj (List.append_cancel_left heq)
      exact hbehind (congrArg List.head? htail)
  intro cs rest hrest ds rest' hrest' h
  have hquoted : ∀ cs, singleQuoted indent cs = '\'' :: (singleBody indent false cs ++ ['\'']) :=
    fun _ => rfl
  have hopened : singleBody indent false cs ++ '\'' :: rest =
      singleBody indent false ds ++ '\'' :: rest' := by
    simpa [hquoted] using h
  obtain ⟨rfl, hclosed⟩ := hinside ⟨rest, rfl, hrest⟩ ⟨rest', rfl, hrest'⟩ hopened
  exact ⟨rfl, (List.cons.inj hclosed).2⟩

/-! ## 5. Blocks of lines -/

/-- What follows a block is not indented like its lines, and does not start with a line end. -/
structure Below (indent : Nat) (rest : List Char) : Prop where
  no_break : ∀ c, rest.head? = some c → isBreak c = false
  outdented : ¬ List.replicate indent ' ' <+: rest

theorem blockBody_cons (afterBreak : Bool) (c : Char) (cs : List Char) :
    blockBody indent afterBreak (c :: cs) =
      lineChar indent (fun _ => []) afterBreak c ++ blockBody indent (isBreak c) cs := by
  rw [blockBody, lineChar]
  cases hc : isBreak c with
  | true => rfl
  | false => cases afterBreak <;> simp

/-- **The lines of a block tell the text** that they hold, if it ends with a line end. -/
theorem tells_blockBody (afterBreak : Bool) :
    Tells (fun cs rest => cs.foldl (fun _ c => isBreak c) afterBreak = true ∧ Below indent rest)
      (blockBody indent afterBreak) := by
  refine Tells.scan
    (fun afterBreak cs rest =>
      cs.foldl (fun _ c => isBreak c) afterBreak = true ∧ Below indent rest)
    (fun _ c => isBreak c) blockBody_cons tells_lineChar
    (fun h => ⟨trivial, h⟩) (fun {afterBreak c rest rest'} h _ heq => ?_) afterBreak
  obtain ⟨rfl, hrest⟩ := h
  change rest = lineChar indent (fun _ => []) true c ++ rest' at heq
  rw [lineChar] at heq
  split at heq
  · rename_i hc
    exact absurd hc (Bool.eq_false_iff.mp (hrest.no_break c (congrArg List.head? heq)))
  · exact hrest.outdented ⟨c :: rest', by simpa using heq.symm⟩

/-- Holds of the texts that end with a line end. -/
def endsInBreak (cs : List Char) : Bool := cs.getLast?.any isBreak

/-- The text with a line end behind it, unless it has one. -/
def closed (cs : List Char) : List Char := if endsInBreak cs then cs else cs ++ ['\n']

theorem endsInBreak_concat (cs : List Char) (c : Char) : endsInBreak (cs ++ [c]) = isBreak c := by
  rw [endsInBreak, List.getLast?_concat, Option.any_some]

theorem foldl_isBreak_closed (cs : List Char) (afterBreak : Bool) :
    (closed cs).foldl (fun _ c => isBreak c) afterBreak = true := by
  have hlast : endsInBreak (closed cs) = true := by
    rw [closed]
    split
    · assumption
    · exact endsInBreak_concat cs '\n'
  rcases (closed cs).eq_nil_or_concat' with hnil | ⟨front, c, hfront⟩
  · rw [hnil] at hlast
    cases hlast
  · rw [hfront, endsInBreak_concat] at hlast
    rw [hfront, List.foldl_concat]
    exact hlast

/-- Texts that both end with a line end, or both do not, are told by the closed ones. -/
theorem closed_inj {cs ds : List Char} (hends : endsInBreak cs = endsInBreak ds)
    (h : closed cs = closed ds) : cs = ds := by
  rw [closed, closed, hends] at h
  split at h
  · exact h
  · exact List.append_cancel_right h

theorem blockBody_concat_newline (afterBreak : Bool) (cs : List Char) :
    blockBody indent afterBreak (cs ++ ['\n']) = blockBody indent afterBreak cs ++ ['\n'] := by
  induction cs generalizing afterBreak with
  | nil => rfl
  | cons c cs ih => rw [List.cons_append, blockBody_cons, blockBody_cons, ih, List.append_assoc]

theorem getLast?_blockBody (afterBreak : Bool) {cs : List Char} (h : cs ≠ []) :
    (blockBody indent afterBreak cs).getLast? = cs.getLast? := by
  induction cs generalizing afterBreak with
  | nil => exact absurd rfl h
  | cons c cs ih =>
    rw [blockBody_cons]
    by_cases hcs : cs = []
    · subst hcs
      have hend : blockBody indent (isBreak c) [] = [] := rfl
      rw [hend, List.append_nil, lineChar]
      split
      · rfl
      · exact List.getLast?_concat
    · have htail := ih (isBreak c) hcs
      have hne : blockBody indent (isBreak c) cs ≠ [] := fun hnil => by
        rw [hnil] at htail
        exact hcs (List.getLast?_eq_none_iff.mp htail.symm)
      rw [List.getLast?_append_of_ne_nil _ hne, htail, List.getLast?_cons_of_ne_nil hcs]

/-- What opens a block: how it is indented, and how it ends. -/
def blockHeader (cs : List Char) : List Char := indentHint cs ++ chompHint cs

theorem mem_indentHint {cs : List Char} {c : Char} (h : c ∈ indentHint cs) : c = '2' := by
  rw [indentHint] at h
  split at h
  · exact List.mem_singleton.mp h
  · exact absurd h List.not_mem_nil

theorem newline_not_mem_blockHeader (cs : List Char) : '\n' ∉ blockHeader cs := by
  rw [blockHeader, List.mem_append, not_or]
  refine ⟨fun h => absurd (mem_indentHint h) (by decide), ?_⟩
  unfold chompHint
  split
  · decide
  · split
    · decide
    · split
      · decide
      · split <;> decide

/-- The header of a block says whether the text ends with a line end. -/
theorem dash_mem_blockHeader_iff (cs : List Char) :
    '-' ∈ blockHeader cs ↔ endsInBreak cs = false := by
  rw [blockHeader, List.mem_append, or_iff_right fun h => absurd (mem_indentHint h) (by decide)]
  rcases cs.eq_nil_or_concat' with rfl | ⟨front, c, rfl⟩
  · decide
  · rw [endsInBreak_concat, chompHint, List.reverse_concat]
    cases hc : isBreak c with
    | false => simp [hc]
    | true =>
      cases front.reverse with
      | nil => simp [hc]
      | cons d _ => cases hd : isBreak d <;> simp [hc, hd]

end Lines

/-! ## 6. Styles -/

variable {indent : Nat}

/-- The style that the first character of what is written shows. -/
def styleOf : Option Char → Style
  | some '\'' => .single
  | some '"' => .double
  | some '|' => .literal
  | _ => .plain

/-- A plain scalar starts with a character that is no indicator, and stands on one line. -/
theorem of_style_eq_plain {cs : List Char} (h : Style.ofText cs = .plain) :
    (∃ c, cs.head? = some c ∧ isIndicator c = false) ∧ '\n' ∉ cs := by
  rw [Style.ofText] at h
  split at h
  · split at h <;> cases h
  · rename_i hline
    refine ⟨?_, by simpa using hline⟩
    split at h
    · rename_i hplain
      cases cs with
      | nil => exact absurd hplain (by decide)
      | cons c cs =>
        simp only [Traits.allowsPlain, Traits.ofText, firstIndicates, Bool.and_eq_true,
          Bool.not_eq_true', Bool.or_eq_false_iff] at hplain
        obtain ⟨-, ⟨⟨⟨⟨⟨-, hindicator, -⟩, -⟩, -⟩, -⟩, -⟩, -⟩ := hplain
        exact ⟨c, rfl, hindicator⟩
    · split at h <;> cases h

theorem newline_mem_of_style_eq_literal {cs : List Char} (h : Style.ofText cs = .literal) :
    '\n' ∈ cs := by
  rw [Style.ofText] at h
  split at h
  · rename_i hline
    exact List.contains_iff_mem.mp hline
  · split at h
    · cases h
    · split at h <;> cases h

theorem styleOf_of_not_isIndicator {c : Char} (h : isIndicator c = false) :
    styleOf (some c) = .plain := by
  have hne : ∀ d, isIndicator d = true → c ≠ d := by
    rintro d hd rfl
    exact absurd hd (Bool.eq_false_iff.mp h)
  have hsingle := hne '\'' (by decide)
  have hdouble := hne '"' (by decide)
  have hliteral := hne '|' (by decide)
  unfold styleOf
  split <;> simp_all

/-- A block is written with its last line closed. -/
theorem written_of_literal {cs : List Char} (h : Style.ofText cs = .literal) :
    written indent cs = '|' :: (blockHeader cs ++ '\n' :: blockBody indent true (closed cs)) := by
  have hne : cs ≠ [] := List.ne_nil_of_mem (newline_mem_of_style_eq_literal h)
  have hblock : literal indent cs = '|' :: blockHeader cs ++ '\n' :: blockBody indent true cs := rfl
  have hlast : (literal indent cs).getLast?.any isBreak = endsInBreak cs := by
    have hbody : (blockBody indent true cs).getLast? = cs.getLast? := getLast?_blockBody true hne
    have hbody' : blockBody indent true cs ≠ [] := fun hnil => by
      rw [hnil] at hbody
      exact hne (List.getLast?_eq_none_iff.mp hbody.symm)
    rw [hblock, List.getLast?_append_of_ne_nil _ (List.cons_ne_nil _ _),
      List.getLast?_cons_of_ne_nil hbody', hbody, endsInBreak]
  simp only [written, h, hlast, closed]
  split
  · rw [hblock, List.cons_append]
  · rw [hblock, blockBody_concat_newline, List.append_assoc, List.cons_append, List.cons_append]

/-- **What is written shows its style.** -/
theorem styleOf_head?_written (indent : Nat) (cs rest : List Char) :
    styleOf (written indent cs ++ rest).head? = Style.ofText cs := by
  cases h : Style.ofText cs with
  | plain =>
    obtain ⟨⟨c, hc, hindicator⟩, -⟩ := of_style_eq_plain h
    obtain ⟨behind, rfl⟩ := List.head?_eq_some_iff.mp hc
    simp only [written, h, List.cons_append, List.head?_cons]
    exact styleOf_of_not_isIndicator hindicator
  | single | double => simp only [written, h]; rfl
  | literal => rw [written_of_literal h]; rfl

/-- **What is written tells the text**, whatever follows below it. -/
theorem tells_written : Tells (fun _ rest => Below indent rest) (written indent) := by
  intro cs rest hrest ds rest' hrest' heq
  have hstyle : Style.ofText ds = Style.ofText cs := by
    rw [← styleOf_head?_written indent ds rest', ← heq, styleOf_head?_written]
  have hnewline : ∀ cs : List Char, ('\n' :: cs).head? ≠ some '\'' := fun _ => by simp
  cases h : Style.ofText cs with
  | plain =>
    simp only [written, hstyle, h, List.append_assoc, List.singleton_append] at heq
    exact Text.append_cons_inj (of_style_eq_plain h).2 (of_style_eq_plain (hstyle.trans h)).2 heq
  | single =>
    simp only [written, hstyle, h, List.append_assoc, List.singleton_append] at heq
    obtain ⟨rfl, hrest⟩ := tells_singleQuoted (hnewline rest) (hnewline rest') heq
    exact ⟨rfl, (List.cons.inj hrest).2⟩
  | double =>
    simp only [written, hstyle, h, List.append_assoc, List.singleton_append] at heq
    obtain ⟨rfl, hrest⟩ := tells_doubleQuoted trivial trivial heq
    exact ⟨rfl, (List.cons.inj hrest).2⟩
  | literal =>
    rw [written_of_literal h, written_of_literal (hstyle.trans h)] at heq
    simp only [List.cons_append, List.append_assoc, List.cons.injEq, true_and] at heq
    obtain ⟨hheader, hbody⟩ := Text.append_cons_inj (newline_not_mem_blockHeader cs)
      (newline_not_mem_blockHeader ds) heq
    obtain ⟨hclosed, rfl⟩ := tells_blockBody true ⟨foldl_isBreak_closed cs true, hrest⟩
      ⟨foldl_isBreak_closed ds true, hrest'⟩ hbody
    refine ⟨closed_inj ?_ hclosed, rfl⟩
    have hends : endsInBreak cs = false ↔ endsInBreak ds = false := by
      rw [← dash_mem_blockHeader_iff, ← dash_mem_blockHeader_iff, hheader]
    exact Bool.eq_iff_iff.mpr (by simpa using not_congr hends)

end Yaml

end Ownership
