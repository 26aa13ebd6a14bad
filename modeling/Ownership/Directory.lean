/-
# Directories of owners

A directory knows which owners exist on the hosting platform, by name: a user or a team without the
handle sign, or an email address.

* `Directory.ofNames` knows the listed names, with or without a handle sign;
* `Directory.ofText` knows the names on the lines of a text.
-/
import Ownership.OwnersFile.Reader

namespace Ownership

open Text

/-- A directory, by the names it knows. -/
structure Directory where
  knows : String → Bool

namespace Directory

/-- The directory of the listed names; one handle sign in front of a name is dropped. -/
def ofNames (names : List String) : Directory where
  knows := (names.map dropHandleSign).contains

/-- The names on the lines of a text; blank lines and comments name nobody. -/
def namesIn (text : String) : List String :=
  let trimmed := (Text.lines text.toList).map trim
  (trimmed.filter fun l => !l.isEmpty && !opensComment l).map String.ofList

/-- The directory of the names on the lines of a text. -/
def ofText (text : String) : Directory := ofNames (namesIn text)

end Directory

end Ownership
