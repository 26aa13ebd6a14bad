/-
# Pieces of a glob

A glob is matched as a list of pieces, each of which takes a stretch of the path.  The pieces of one
path segment take any character but a slash; the pieces that span segments take any character but a
line feed.

What a list of pieces takes is defined by `Piece.accepts`, which is given what the pieces behind
accept.  Its own recursion may try a suffix of the path again and again, so matching goes through a
table with one entry for each suffix of the path: `Piece.table` computes the table of a piece from
the table of the pieces behind it in one pass.

* `accepts` is the meaning of a list of pieces;
* `matchesPieces` decides it with tables;
* `matchesPieces_eq_accepts`: the two agree.
-/

namespace Ownership.Glob

/-! ## 1. Pieces and their meaning -/

/-- A piece of a glob. -/
inductive Piece where
  /-- The character itself. -/
  | lit (c : Char)
  /-- One character of a segment. -/
  | one
  /-- Any characters of a segment. -/
  | run
  /-- Any number of whole segments, none of them empty, each with the slash behind it. -/
  | dirs
  /-- Nothing, or anything up to and with a slash. -/
  | anywhere
  /-- Anything. -/
  | rest
  /-- Nothing, or a slash and anything. -/
  | below
  deriving DecidableEq, Repr

/-- Characters that a segment can hold. -/
def inSegment (c : Char) : Bool := c != '/'

/-- Characters that may be skipped or left over: all but the line feed. -/
def inLine (c : Char) : Bool := c != '\n'

/-- A test on the text that is left. -/
abbrev Test := List Char → Bool

/-- One character that is `ok`, then `k`. -/
def next (ok : Char → Bool) (k : Test) : Test
  | [] => false
  | c :: cs => ok c && k cs

/-- Any number of characters that are `ok`, then `k`. -/
def many (ok : Char → Bool) (k : Test) : Test
  | [] => k []
  | c :: cs => k (c :: cs) || (ok c && many ok k cs)

/-- Either of two. -/
def either (k l : Test) : Test := fun cs => k cs || l cs

/-- Whole nonempty segments, then `k`.  With `inside`, a first segment is under way: its further
characters and its slash come first. -/
def manyDirs (k : Test) (inside : Bool) : Test
  | [] => !inside && k []
  | c :: cs =>
    if inside then
      if c = '/' then manyDirs k false cs else manyDirs k true cs
    else k (c :: cs) || (inSegment c && manyDirs k true cs)

/-- What a piece takes when `k` tells what is accepted behind it. -/
def Piece.accepts (k : Test) : Piece → Test
  | .lit c => next (· == c) k
  | .one => next inSegment k
  | .run => many inSegment k
  | .dirs => manyDirs k false
  | .anywhere => either k (many inLine (next (· == '/') k))
  | .rest => many inLine k
  | .below => either k (next (· == '/') (many inLine k))

/-- What a list of pieces takes, as a whole text. -/
def accepts (ps : List Piece) : Test := ps.foldr (fun p k => p.accepts k) List.isEmpty

/-! ## 2. Tables -/

/-- A table of a test on a text: its answers for the text and for each shorter end of it. -/
def tableOf (k : Test) : List Char → List Bool
  | [] => [k []]
  | c :: cs => k (c :: cs) :: tableOf k cs

/-- The table of `next`. -/
def nextTable (ok : Char → Bool) (text : List Char) (t : List Bool) : List Bool :=
  List.zipWith (fun c b => ok c && b) text t.tail ++ [false]

/-- The table of `many`. -/
def manyTable (ok : Char → Bool) (text : List Char) (t : List Bool) : List Bool :=
  (text.zip t).foldr (fun (c, b) out => (b || (ok c && out.headD false)) :: out)
    [t.getLastD false]

/-- The table of `manyDirs`: each entry holds the answers outside and inside a segment. -/
def dirsTable (text : List Char) (t : List Bool) : List Bool :=
  ((text.zip t).foldr
    (fun (c, b) out =>
      let after := out.headD (false, false)
      (b || (inSegment c && after.2), if c = '/' then after.1 else after.2) :: out)
    [(t.getLastD false, false)]).map Prod.fst

/-- The table of `either`. -/
def eitherTable (t u : List Bool) : List Bool := List.zipWith (· || ·) t u

/-- The table of a piece, from the table of what comes behind it. -/
def Piece.table (text : List Char) (t : List Bool) : Piece → List Bool
  | .lit c => nextTable (· == c) text t
  | .one => nextTable inSegment text t
  | .run => manyTable inSegment text t
  | .dirs => dirsTable text t
  | .anywhere => eitherTable t (manyTable inLine text (nextTable (· == '/') text t))
  | .rest => manyTable inLine text t
  | .below => eitherTable t (nextTable (· == '/') text (manyTable inLine text t))

/-- Holds if the pieces take the whole text. -/
def matchesPieces (ps : List Piece) (text : List Char) : Bool :=
  (ps.foldr (fun p t => p.table text t) (tableOf List.isEmpty text)).headD false

/-! ## 3. Tables compute the meaning -/

theorem tableOf_ne_nil (k : Test) (cs : List Char) : tableOf k cs ≠ [] := by
  cases cs <;> simp [tableOf]

theorem headD_tableOf (k : Test) (cs : List Char) : (tableOf k cs).headD false = k cs := by
  cases cs <;> rfl

theorem getLastD_tableOf (k : Test) (cs : List Char) : (tableOf k cs).getLastD false = k [] := by
  induction cs with
  | nil => rfl
  | cons c cs ih =>
    obtain ⟨b, bs, h⟩ := List.exists_cons_of_ne_nil (tableOf_ne_nil k cs)
    rw [tableOf, h, List.getLastD_cons, List.getLastD_cons]
    rw [h, List.getLastD_cons] at ih
    exact ih

theorem nextTable_tableOf (ok : Char → Bool) (k : Test) (cs : List Char) :
    nextTable ok cs (tableOf k cs) = tableOf (next ok k) cs := by
  induction cs with
  | nil => rfl
  | cons c cs ih =>
    cases cs with
    | nil => simp [nextTable, tableOf, next]
    | cons d ds =>
      simp only [nextTable, tableOf, List.tail_cons, List.zipWith_cons_cons, List.cons_append,
        next] at ih ⊢
      rw [ih]

theorem manyTable_tableOf (ok : Char → Bool) (k : Test) (cs : List Char) :
    manyTable ok cs (tableOf k cs) = tableOf (many ok k) cs := by
  induction cs with
  | nil => rfl
  | cons c cs ih =>
    simp only [manyTable, getLastD_tableOf] at ih ⊢
    simp only [tableOf, List.zip_cons_cons, List.foldr_cons, ih, headD_tableOf, many]

theorem dirsTable_tableOf (k : Test) (cs : List Char) :
    dirsTable cs (tableOf k cs) = tableOf (manyDirs k false) cs := by
  have key : ∀ cs : List Char,
      ((cs.zip (tableOf k cs)).foldr
        (fun (c, b) out =>
          let after := out.headD (false, false)
          (b || (inSegment c && after.2), if c = '/' then after.1 else after.2) :: out)
        [(k [], false)]) =
      (tableOf (manyDirs k false) cs).zip (tableOf (manyDirs k true) cs) := by
    intro cs
    induction cs with
    | nil => simp [tableOf, manyDirs]
    | cons c cs ih =>
      have hd : ∀ l : Test, ∀ m : Test,
          ((tableOf l cs).zip (tableOf m cs)).headD (false, false) = (l cs, m cs) := by
        intro l m; cases cs <;> rfl
      simp only [tableOf, List.zip_cons_cons, List.foldr_cons, ih, hd, manyDirs]
      by_cases h : c = '/' <;> simp [h]
  have len : ∀ l m : Test, ∀ cs : List Char,
      ((tableOf l cs).zip (tableOf m cs)).map Prod.fst = tableOf l cs := by
    intro l m cs
    induction cs with
    | nil => rfl
    | cons c cs ih => simp [tableOf, ih]
  rw [dirsTable, getLastD_tableOf, key, len]

theorem eitherTable_tableOf (k l : Test) (cs : List Char) :
    eitherTable (tableOf k cs) (tableOf l cs) = tableOf (either k l) cs := by
  induction cs with
  | nil => rfl
  | cons c cs ih =>
    simp only [eitherTable] at ih
    simp [eitherTable, tableOf, ih, either]

/-- The table of a piece is the table of what it takes. -/
theorem Piece.table_tableOf (p : Piece) (k : Test) (cs : List Char) :
    p.table cs (tableOf k cs) = tableOf (p.accepts k) cs := by
  cases p <;>
    simp only [Piece.table, Piece.accepts, nextTable_tableOf, manyTable_tableOf,
      dirsTable_tableOf, eitherTable_tableOf]

/-- Matching decides what the pieces take. -/
theorem matchesPieces_eq_accepts (ps : List Piece) (cs : List Char) :
    matchesPieces ps cs = accepts ps cs := by
  have key : ps.foldr (fun p t => p.table cs t) (tableOf List.isEmpty cs) =
      tableOf (accepts ps) cs := by
    induction ps with
    | nil => rfl
    | cons p ps ih => simp only [List.foldr_cons, ih, Piece.table_tableOf, accepts]
  rw [matchesPieces, key, headD_tableOf]

end Ownership.Glob
