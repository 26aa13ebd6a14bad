/-
# Globs

The pattern of a rule is a glob: segments with slashes between them, in which `*` stands for any run
of characters, `?` for one character, and a segment `**` for any number of segments.  A slash at the
front or between segments ties the glob to the root of the repository, and a slash at the end asks
for something beneath.

* `Glob.ofText` reads a glob, or says why a text is none;
* `Glob.covers` holds of the paths that a glob covers;
* `Glob.specificity` counts its literal characters.
-/
import Ownership.Glob.Piece

namespace Ownership

/-! ## 1. Why a text is no glob -/

/-- Why a text is refused as a glob. -/
inductive GlobRefusal where
  | empty
  | negation
  | characterClass
  | escapeSequence
  | starRun
  | rootOnly
  | emptySegment
  | tooLarge
  deriving DecidableEq, Repr

/-- A text that is no glob, and why. -/
structure GlobError where
  pattern : String
  refusal : GlobRefusal
  deriving DecidableEq, Repr

/-- The most that the matcher of one glob may take up, in bytes. -/
def maxMatcherBytes : Nat := 10 * 1024 * 1024

/-- What is not supported, or not valid, in a refused glob. -/
def GlobRefusal.phrase : GlobRefusal → String
  | .empty => "empty pattern"
  | .negation => "negation"
  | .characterClass => "character class"
  | .escapeSequence => "escape sequence"
  | .starRun => "more than two consecutive \x60*\x60"
  | .rootOnly => "pattern names the repository root"
  | .emptySegment => "empty path segment"
  | .tooLarge => s!"Compiled regex exceeds size limit of {maxMatcherBytes} bytes."

/-- The class of a refusal. -/
def GlobRefusal.className : GlobRefusal → String
  | .empty => "Empty"
  | .negation | .characterClass | .escapeSequence => "Unsupported"
  | .starRun | .rootOnly | .emptySegment => "Invalid"
  | .tooLarge => "Compile"

/-- A text in grave accents. -/
def quoted (s : String) : String := "\x60" ++ s ++ "\x60"

/-- The refusal in words. -/
def GlobError.message (e : GlobError) : String :=
  match e.refusal with
  | .empty => e.refusal.phrase
  | .negation | .characterClass | .escapeSequence =>
    s!"unsupported {e.refusal.phrase} in pattern {quoted e.pattern}"
  | .starRun | .rootOnly | .emptySegment =>
    s!"invalid pattern {quoted e.pattern}: {e.refusal.phrase}"
  | .tooLarge => s!"pattern {quoted e.pattern} failed to compile: {e.refusal.phrase}"

namespace Glob

/-! ## 2. The parts of a glob -/

/-- Holds of a text with three stars in a row. -/
def hasStarRun : List Char → Bool
  | '*' :: '*' :: '*' :: _ => true
  | _ :: cs => hasStarRun cs
  | [] => false

/-- The text without one slash at its end. -/
def dropLastSlash (cs : List Char) : List Char :=
  if cs.getLast? = some '/' then cs.dropLast else cs

/-- The text without one slash at its front. -/
def dropFirstSlash : List Char → List Char
  | '/' :: cs => cs
  | cs => cs

/-- Holds of a glob that asks for something beneath what it names. -/
def asksBeneath (cs : List Char) : Bool := cs.getLast? == some '/'

/-- The part of a glob that is cut into segments. -/
def body (cs : List Char) : List Char := dropFirstSlash (dropLastSlash cs)

/-- Holds of a glob that is tied to the root: a slash stands at its front or inside. -/
def isTied (cs : List Char) : Bool :=
  (dropLastSlash cs).head? == some '/' || (body cs).contains '/'

/-- The segments of a glob. -/
def segments (cs : List Char) : List (List Char) := (body cs).splitOn '/'

/-- The segment that stands for any number of segments. -/
def anySegments : List Char := ['*', '*']

/-! ## 3. Pieces -/

/-- The piece that a character of a segment stands for. -/
def charPiece : Char → Piece
  | '*' => .run
  | '?' => .one
  | c => .lit c

/-- The pieces of a segment; stars in a row are one run. -/
def segmentPieces (seg : List Char) : List Piece :=
  seg.foldr (fun c ps => if c = '*' ∧ ps.head? = some .run then ps else charPiece c :: ps) []

/-- The pieces of a segment before the last one. -/
def innerPieces (seg : List Char) : List Piece :=
  if seg = anySegments then [.dirs] else segmentPieces seg ++ [.lit '/']

/-- The pieces of the last segment and of what may lie beneath it.  A lone star behind other
segments covers what it names and nothing beneath. -/
def lastPieces (beneath several : Bool) (seg : List Char) : List Piece :=
  if seg = anySegments then [.rest]
  else segmentPieces seg ++
    if beneath then [.lit '/', .rest]
    else if several && seg = ['*'] then []
    else [.below]

/-- The pieces of a glob. -/
def piecesOf (cs : List Char) : List Piece :=
  let segs := segments cs
  (if isTied cs then [] else [.anywhere]) ++ segs.dropLast.flatMap innerPieces ++
    lastPieces (asksBeneath cs) (segs.length > 1) (segs.getLastD [])

/-- Bytes that the matcher spends on one of its states. -/
def stateBytes : Nat := 32

/-- Bytes that the matcher spends on a way out of a state that has several. -/
def branchBytes : Nat := 4

/-- Bytes that the matcher spends on a state with two ways out. -/
def forkBytes : Nat := stateBytes + 2 * branchBytes

/-- Bytes that the matcher spends on a class of characters: the ways to write one of them fall into
ten kinds, with 28 ranges of bytes in all, which part from one state and meet in another. -/
def classBytes : Nat := 28 * stateBytes + (stateBytes + 10 * branchBytes) + stateBytes

/-- Bytes that the matcher spends on a piece. -/
def pieceBytes : Piece → Nat
  | .lit c => c.utf8Size * stateBytes
  | .one => classBytes
  | .run | .rest => classBytes + forkBytes
  | .dirs => classBytes + forkBytes + stateBytes + forkBytes
  | .anywhere | .below => classBytes + forkBytes + stateBytes + forkBytes + stateBytes

/-- Bytes that the matcher spends on some pieces, with its start, its end and both ends of the
path. -/
def matcherBytes (ps : List Piece) : Nat :=
  ps.foldl (fun n p => n + pieceBytes p) (4 * stateBytes)

/-! ## 4. Refusals -/

/-- Why a text is no glob, if it is none; the first reason that applies counts. -/
def refusal? (cs : List Char) : Option GlobRefusal :=
  if cs = [] then some .empty
  else if cs.head? = some '!' then some .negation
  else if cs.contains '[' || cs.contains ']' then some .characterClass
  else if cs.contains '\\' then some .escapeSequence
  else if hasStarRun cs then some .starRun
  else if body cs = [] then some .rootOnly
  else if (segments cs).contains [] then some .emptySegment
  else if matcherBytes (piecesOf cs) > maxMatcherBytes then some .tooLarge
  else none

end Glob

/-! ## 5. Globs -/

/-- A glob that has been read: its text, and the pieces that match it. -/
structure Glob where
  text : String
  anchored : Bool
  pieces : List Glob.Piece
  deriving DecidableEq, Repr

namespace Glob

/-- Reads a glob. -/
def ofText (text : String) : Except GlobError Glob :=
  let cs := text.toList
  match refusal? cs with
  | some r => .error ⟨text, r⟩
  | none => .ok ⟨text, isTied cs, piecesOf cs⟩

theorem ofText_eq_ok_iff {text : String} {g : Glob} :
    ofText text = .ok g ↔
      refusal? text.toList = none ∧ g = ⟨text, isTied text.toList, piecesOf text.toList⟩ := by
  simp only [ofText]
  cases refusal? text.toList with
  | none => simp [eq_comm]
  | some r => simp

theorem ofText_eq_error_iff {text : String} {e : GlobError} :
    ofText text = .error e ↔ refusal? text.toList = some e.refusal ∧ e.pattern = text := by
  obtain ⟨pattern, refusal⟩ := e
  simp only [ofText]
  cases refusal? text.toList with
  | none => simp
  | some r => simp [and_comm, eq_comm]

/-- Holds of a character that counts as literal. -/
def isLiteral (c : Char) : Bool := c != '*' && c != '?' && c != '/'

/-- How many literal characters the glob has. -/
def specificity (g : Glob) : Nat := g.text.toList.countP isLiteral

/-- Holds of the paths that the glob covers; slashes at the front of a path do not count. -/
def covers (g : Glob) (path : String) : Bool :=
  matchesPieces g.pieces (path.toList.dropWhile (· == '/'))

end Glob

end Ownership
