/-
# What the identifier of a set of rules tells apart

The identifier of the rules of a file is a hash over a text: each rule on a line of its own, its
words with spaces between them.  No word holds a line feed, so the lines of that text are the rules.
But a word may hold a space, which was escaped where it was read, and it is not escaped again where
it is hashed.  What is hashed of a rule is therefore no more than its pieces between spaces, whether
a space stands between two words or inside one.

So two files that are hashed alike have as many rules, and each two of them fall into the same
pieces.  The rules are the same if besides their words hold as many spaces each, since that says how
many pieces go to a word; and where no word holds a space, the pieces are the words.

* `OwnersFile.hashed`: the bytes that are hashed;
* `Rule.serialize_eq_iff`, `Rule.wordList_eq_iff`: what one line of the text tells of a rule;
* `OwnersFile.hashed_eq_iff`: which files are hashed alike;
* `OwnersFile.written_eq_iff_hashed_eq`: and when they have the same rules.
-/
import Ownership.RuleId
import Ownership.Proofs.OwnersFile.RoundTrip

namespace Ownership

/-! ## 1. What is hashed -/

namespace Uuid

/-- The bytes that the identifier of a name is a hash of: those of the name space and of the
name. -/
def hashed (space : Uuid) (name : String) : ByteArray :=
  space.bytes.foldl ByteArray.push .empty ++ name.toUTF8

theorem hashed_eq_iff {space : Uuid} {m n : String} : space.hashed m = space.hashed n ↔ m = n :=
  (ByteArray.append_right_inj _).trans String.toByteArray_inj

end Uuid

/-- The bytes that the identifier of the rules of a file is a hash of. -/
def OwnersFile.hashed (f : OwnersFile) : ByteArray := idSpace.hashed (serializeRules f.rules)

/-- The identifier follows from these bytes alone. -/
theorem rulesetId_eq (f : OwnersFile) :
    rulesetId f = ⟨Uuid.stamp ((Sha1.digest f.hashed).take 16)⟩ := rfl

/-! ## 2. One rule -/

namespace Rule

/-- The pieces that a rule falls into between spaces, wherever these stand. -/
def pieces (r : Rule) : List (List Char) := r.wordList.flatMap (List.splitOn ' ')

/-- How many spaces each word of a rule holds. -/
def spaces (r : Rule) : List Nat := r.wordList.map (List.count ' ')

/-- A rule is hashed as its words with one space between two of them. -/
theorem toList_serialize (r : Rule) : r.serialize.toList = [' '].intercalate r.wordList := by
  obtain ⟨line, pattern, owners⟩ := r
  simp only [serialize, wordList, String.toList_append, String.toList_join]
  induction owners generalizing pattern with
  | nil => simp
  | cons o os ih =>
    rw [List.map_cons, List.map_cons, List.flatMap_cons, String.toList_append, List.append_assoc,
      ih o.raw, List.intercalate_cons_of_ne_nil (List.cons_ne_nil _ _), List.append_assoc]
    rfl

/-- **What a hashed rule tells**: the pieces of the rule. -/
theorem serialize_eq_iff {r s : Rule} : r.serialize = s.serialize ↔ r.pieces = s.pieces := by
  have hpieces : ∀ t : Rule, t.serialize.toList.splitOn ' ' = t.pieces := fun t => by
    rw [toList_serialize, Text.splitOn_intercalate_eq_flatMap ' ' t.wordList_ne_nil, pieces]
  rw [← hpieces r, ← hpieces s, (Text.splitOn_injective ' ').eq_iff, String.toList_inj]

/-- **What is missing for the words**: how many of the pieces go to each of them, which is one more
than there are spaces in the word. -/
theorem wordList_eq_iff {r s : Rule} :
    r.wordList = s.wordList ↔ r.pieces = s.pieces ∧ r.spaces = s.spaces := by
  have hlengths : ∀ t : Rule, (t.wordList.map (List.splitOn ' ')).map List.length =
      t.spaces.map (· + 1) := fun t => by
    simp only [spaces, List.map_map, Function.comp_def, Text.length_splitOn]
  have hsucc : Function.Injective (List.map (· + 1) : List Nat → List Nat) :=
    List.map_injective_iff.mpr fun _ _ => Nat.add_right_cancel
  rw [← (List.map_injective_iff.mpr (Text.splitOn_injective ' ')).eq_iff, List.eq_iff_flatten_eq,
    hlengths, hlengths, hsucc.eq_iff]
  rfl

/-- Without a space in a word the pieces are the words. -/
theorem pieces_eq_wordList {r : Rule} (h : ∀ w ∈ r.wordList, ' ' ∉ w) : r.pieces = r.wordList := by
  have hcut : ∀ w ∈ r.wordList, w.splitOn ' ' = [w] := fun w hw =>
    List.splitOn_eq_singleton (h w hw)
  rw [pieces, List.flatMap_congr hcut, List.flatMap_singleton']

/-- A rule as it is written is its words. -/
theorem written_eq_iff {r s : Rule} : r.written = s.written ↔ r.wordList = s.wordList := by
  refine ⟨wordList_eq_of_written_eq, fun h => ?_⟩
  obtain ⟨hpattern, howners⟩ := List.cons.inj h
  have hraw : (r.owners.map Owner.raw).map String.toList =
      (s.owners.map Owner.raw).map String.toList := by
    rw [List.map_map, List.map_map]
    exact howners
  rw [written, written, String.toList_inj.mp hpattern,
    List.map_injective_iff.mpr (fun _ _ => String.toList_inj.mp) hraw]

/-- A rule that is read is hashed without a line feed, since a line feed is white space and none of
the blanks. -/
theorem WellFormed.newline_not_mem_serialize {n : Nat} {r : Rule} (h : r.WellFormed n) :
    '\n' ∉ r.serialize.toList := by
  rw [toList_serialize, Text.mem_intercalate_iff (by decide)]
  rintro ⟨w, hw, hmem⟩
  exact absurd ((h.isWord w hw).2 _ hmem (by decide)) (by decide)

end Rule

/-! ## 3. A whole file -/

/-- Lists are mapped alike under `f` if they are under `g` and `k`, where `f` tells of an element
what `g` and `k` tell of it together. -/
theorem map_eq_map_iff_and {α β γ δ : Type} {f : α → β} {g : α → γ} {k : α → δ}
    (h : ∀ x y, f x = f y ↔ g x = g y ∧ k x = k y) {xs : List α} :
    ∀ {ys : List α}, xs.map f = ys.map f ↔ xs.map g = ys.map g ∧ xs.map k = ys.map k := by
  induction xs with
  | nil => intro ys; cases ys <;> simp
  | cons x xs ih =>
    intro ys
    cases ys with
    | nil => simp
    | cons y ys =>
      simp only [List.map_cons, List.cons.injEq, h x y, ih]
      exact and_and_and_comm

/-- No rule of a file that is read is hashed with a line feed in it. -/
theorem newline_not_mem_serialize_of_mem_rules {text : String} {r : Rule}
    (hr : r ∈ (OwnersFile.ofText text).rules) : '\n' ∉ r.serialize.toList := by
  obtain ⟨n, h⟩ := exists_wellFormed_of_mem_rules hr
  exact h.newline_not_mem_serialize

/-- The hashed text is cut into its rules at the line feeds. -/
theorem splitOn_serializeRules {rs : List Rule} (h : ∀ r ∈ rs, '\n' ∉ r.serialize.toList) :
    (serializeRules rs).toList.splitOn '\n' = (rs.map fun r => r.serialize.toList) ++ [[]] := by
  have htext : (serializeRules rs).toList =
      (rs.map fun r => r.serialize.toList).flatMap fun cs => cs ++ ['\n'] := by
    rw [serializeRules, String.toList_join, List.flatMap_map, List.flatMap_map]
    refine List.flatMap_congr fun r _ => ?_
    rw [String.toList_append]
    rfl
  rw [htext, Text.splitOn_closed fun cs hcs => ?_]
  obtain ⟨r, hr, rfl⟩ := List.mem_map.mp hcs
  exact h r hr

/-- **Which sets of rules are hashed alike**: those whose rules have the same pieces, one by one. -/
theorem serializeRules_eq_iff {rs ss : List Rule} (hr : ∀ r ∈ rs, '\n' ∉ r.serialize.toList)
    (hs : ∀ s ∈ ss, '\n' ∉ s.serialize.toList) :
    serializeRules rs = serializeRules ss ↔ rs.map Rule.pieces = ss.map Rule.pieces := by
  have hone : ∀ r s : Rule, r.serialize.toList = s.serialize.toList ↔
      r.pieces = s.pieces ∧ r.pieces = s.pieces := fun r s => by
    rw [and_self, String.toList_inj, Rule.serialize_eq_iff]
  rw [← String.toList_inj, ← (Text.splitOn_injective '\n').eq_iff, splitOn_serializeRules hr,
    splitOn_serializeRules hs, List.append_cancel_right_eq, map_eq_map_iff_and hone, and_self]

namespace OwnersFile

/-- No word of a rule holds a space. -/
def Unspaced (f : OwnersFile) : Prop := ∀ r ∈ f.rules, ∀ w ∈ r.wordList, ' ' ∉ w

/-- **Which files are hashed alike.** -/
theorem hashed_eq_iff (t u : String) :
    (ofText t).hashed = (ofText u).hashed ↔
      (ofText t).rules.map Rule.pieces = (ofText u).rules.map Rule.pieces :=
  Uuid.hashed_eq_iff.trans (serializeRules_eq_iff
    (fun _ => newline_not_mem_serialize_of_mem_rules)
    (fun _ => newline_not_mem_serialize_of_mem_rules))

theorem written_eq_iff_pieces_eq {f g : OwnersFile} :
    f.rules.map Rule.written = g.rules.map Rule.written ↔
      f.rules.map Rule.pieces = g.rules.map Rule.pieces ∧
        f.rules.map Rule.spaces = g.rules.map Rule.spaces :=
  map_eq_map_iff_and fun _ _ => Rule.written_eq_iff.trans Rule.wordList_eq_iff

theorem Unspaced.pieces_eq {f : OwnersFile} (h : f.Unspaced) :
    f.rules.map Rule.pieces = f.rules.map Rule.wordList :=
  List.map_congr_left fun r hr => Rule.pieces_eq_wordList (h r hr)

/-- **What the identifier of the rules tells apart.**  Two files are hashed alike if and only if
their rules fall into the same pieces; they have the same rules if and only if they are hashed alike
and their words hold equally many spaces; and where no word holds a space, being hashed alike and
having the same rules is one thing. -/
theorem written_eq_iff_hashed_eq (t u : String) :
    ((ofText t).hashed = (ofText u).hashed ↔
        (ofText t).rules.map Rule.pieces = (ofText u).rules.map Rule.pieces) ∧
      ((ofText t).rules.map Rule.written = (ofText u).rules.map Rule.written ↔
        (ofText t).hashed = (ofText u).hashed ∧
          (ofText t).rules.map Rule.spaces = (ofText u).rules.map Rule.spaces) ∧
      ((ofText t).Unspaced → (ofText u).Unspaced →
        ((ofText t).hashed = (ofText u).hashed ↔
          (ofText t).rules.map Rule.written = (ofText u).rules.map Rule.written)) := by
  refine ⟨hashed_eq_iff t u, ?_, fun ht hu => ?_⟩
  · rw [hashed_eq_iff, written_eq_iff_pieces_eq]
  · have hwords : ∀ r s : Rule, r.written = s.written ↔
        r.wordList = s.wordList ∧ r.wordList = s.wordList := fun r s => by
      rw [and_self, Rule.written_eq_iff]
    rw [hashed_eq_iff, ht.pieces_eq, hu.pieces_eq, map_eq_map_iff_and hwords, and_self]

/-- Blanks between words, comments and blank lines are not hashed. -/
theorem hashed_eq_of_respaced :
    (ofText "a @b").Unspaced ∧ (ofText "# c\n\na\t @b  # d").Unspaced ∧
      (ofText "a @b").hashed = (ofText "# c\n\na\t @b  # d").hashed := by
  have ht : (ofText "a @b").Unspaced := by unfold Unspaced; decide
  have hu : (ofText "# c\n\na\t @b  # d").Unspaced := by unfold Unspaced; decide
  exact ⟨ht, hu, ((written_eq_iff_hashed_eq _ _).2.2 ht hu).mpr (by decide)⟩

/-- **An escaped space is hashed like one that ends a word**, so that two owners and the one owner
whose word they make together are not told apart. -/
theorem hashed_eq_of_escaped_space :
    (ofText "docs @a @b").hashed = (ofText "docs @a\\ @b").hashed ∧
      rulesetId (ofText "docs @a @b") = rulesetId (ofText "docs @a\\ @b") ∧
      (ofText "docs @a @b").rules.map Rule.written ≠
        (ofText "docs @a\\ @b").rules.map Rule.written := by
  have hhashed : (ofText "docs @a @b").hashed = (ofText "docs @a\\ @b").hashed :=
    congrArg idSpace.hashed (by decide)
  refine ⟨hhashed, ?_, by decide⟩
  rw [rulesetId_eq, hhashed, ← rulesetId_eq]

end OwnersFile

end Ownership
