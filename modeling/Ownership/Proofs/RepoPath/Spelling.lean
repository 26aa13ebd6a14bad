/-
# Spellings of a path

A change proposal may spell one path in many ways.  Reading cuts a text at the slashes of both
directions, drops the pieces that name no segment, and asks of the others only whether one leads to
the parent.  So a piece that names no segment may stand anywhere (`ofText_eq_of_void`), and it does
not matter which slash cuts two pieces apart: these changes lead to the same path, or to the same
problem.

* `RepoPath.Respelled`: one change of a spelling;
* `RepoPath.Alike`: spellings that such changes turn into one another;
* `RepoPath.Alike.ofText_eq`: they are read alike.
-/
import Mathlib.Logic.Relation
import Ownership.RepoPath

namespace Ownership.RepoPath

/-! ## 1. Changes of a spelling -/

/-- A spelling of a path, and a shorter or plainer one of the same path. -/
inductive Respelled : String → String → Prop
  /-- A slash stands in front. -/
  | rooted (text : String) : Respelled ("/" ++ text) text
  /-- A point and a slash stand in front. -/
  | here (text : String) : Respelled ("./" ++ text) text
  /-- A slash stands behind. -/
  | closed (text : String) : Respelled (text ++ "/") text
  /-- A slash is repeated. -/
  | repeated (before after : String) :
    Respelled (before ++ "//" ++ after) (before ++ "/" ++ after)
  /-- A point stands between slashes. -/
  | point (before after : String) :
    Respelled (before ++ "/./" ++ after) (before ++ "/" ++ after)
  /-- A backslash stands for a slash. -/
  | backslash (before after : String) :
    Respelled (before ++ "\\" ++ after) (before ++ "/" ++ after)

/-- Spellings that are turned into one another by any number of changes, in either direction. -/
def Alike : String → String → Prop := Relation.EqvGen Respelled

/-! ## 2. Pieces that name no segment -/

/-- The pieces of a text. -/
def pieces (text : String) : List (List Char) := text.toList.splitOnP isSeparator

theorem splitOnP_between (before after : List Char) {c : Char} (hc : isSeparator c = true) :
    (before ++ c :: after).splitOnP isSeparator =
      before.splitOnP isSeparator ++ after.splitOnP isSeparator :=
  List.splitOnP_append_cons before after hc

theorem splitOnP_of_void {piece : List Char} (h : isVoid piece = true) :
    piece.splitOnP isSeparator = [piece] := by
  rcases isVoid_iff.mp h with rfl | rfl <;> rfl

/-- **A piece that names no segment** leads to no other path. -/
theorem ofText_eq_of_void {t u : String} {piece : List Char} (hpiece : isVoid piece = true)
    (front back : List (List Char)) (ht : pieces t = front ++ piece :: back)
    (hu : pieces u = front ++ back) : ofText t = ofText u := by
  have hne : ['.', '.'] ≠ piece := by
    rintro rfl
    exact absurd hpiece (by decide)
  have hup : (front ++ piece :: back).contains ['.', '.'] =
      (front ++ back).contains ['.', '.'] := by
    rw [Bool.eq_iff_iff]
    simp [hne]
  have hnames : (front ++ piece :: back).filter (fun p => !isVoid p) =
      (front ++ back).filter fun p => !isVoid p := by
    rw [List.filter_append, List.filter_append, List.filter_cons_of_neg (by simp [hpiece])]
  rw [pieces] at ht hu
  simp only [ofText, ht, hu, hup, hnames]

/-- Such a piece may stand in front of a text, with a slash behind it. -/
theorem ofText_eq_of_void_in_front {t u : String} {piece : List Char}
    (hpiece : isVoid piece = true) (ht : t.toList = piece ++ '/' :: u.toList) :
    ofText t = ofText u := by
  refine ofText_eq_of_void hpiece [] (pieces u) ?_ rfl
  rw [pieces, ht, splitOnP_between _ _ rfl, splitOnP_of_void hpiece]
  rfl

/-- It may stand behind a slash with another behind it. -/
theorem ofText_eq_of_void_between {t u : String} {piece : List Char}
    (hpiece : isVoid piece = true) (before after : List Char)
    (ht : t.toList = before ++ '/' :: (piece ++ '/' :: after))
    (hu : u.toList = before ++ '/' :: after) : ofText t = ofText u := by
  refine ofText_eq_of_void hpiece (before.splitOnP isSeparator) (after.splitOnP isSeparator) ?_ ?_
  · rw [pieces, ht, splitOnP_between _ _ rfl, splitOnP_between _ _ rfl, splitOnP_of_void hpiece]
    rfl
  · rw [pieces, hu, splitOnP_between _ _ rfl]

/-! ## 3. Spellings that are alike -/

/-- **A change of the spelling** leads to no other path. -/
theorem ofText_eq_of_respelled {t u : String} (h : Respelled t u) : ofText t = ofText u := by
  have hempty : isVoid [] = true := rfl
  have hpoint : isVoid ['.'] = true := rfl
  cases h with
  | rooted => exact ofText_eq_of_void_in_front hempty (by simp)
  | here => exact ofText_eq_of_void_in_front hpoint (by simp)
  | closed =>
    refine ofText_eq_of_void hempty (pieces u) [] ?_ (List.append_nil _).symm
    rw [pieces, String.toList_append]
    exact splitOnP_between u.toList [] rfl
  | repeated before after =>
    exact ofText_eq_of_void_between hempty before.toList after.toList (by simp) (by simp)
  | point before after =>
    exact ofText_eq_of_void_between hpoint before.toList after.toList (by simp) (by simp)
  | backslash before after =>
    have hcut : (before ++ "\\" ++ after).toList.splitOnP isSeparator =
        (before ++ "/" ++ after).toList.splitOnP isSeparator := by
      simp only [String.toList_append, List.append_assoc]
      exact (splitOnP_between before.toList after.toList rfl).trans
        (splitOnP_between before.toList after.toList rfl).symm
    simp only [ofText, hcut]

/-- **Spellings that are alike are read alike.** -/
theorem Alike.ofText_eq {t u : String} (h : Alike t u) : ofText t = ofText u := by
  induction h with
  | rel t u h => exact ofText_eq_of_respelled h
  | refl t => rfl
  | symm t u _ ih => exact ih.symm
  | trans t u v _ _ iht ihu => exact iht.trans ihu

end Ownership.RepoPath
