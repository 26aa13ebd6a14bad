/-
# Components and what is put behind them

A path on disk is compared by its components, so that two spellings of it are one path.  Putting a
name behind a path puts one component behind its components, whether or not the path ends in a slash
already (`Signs.components_join`); and taking the components of a root off the front of those of a
path is to split a list (`dropPrefix_eq_some_iff`).  So the two undo each other.

None of this depends on what a path is made of.  A path that is given as a text is a list of
characters, and a path on a disk is a list of bytes that need not be a text; all that counts is
which of them are the slash and the point.  So components are described here for any two `Signs`.

* `dropPrefix_eq_some_iff`, `dropPrefix_eq_none_iff`: when the front can be taken off;
* `Signs.components`: the components of a path in some signs; `components_eq` for texts;
* `Signs.eq_parent_or_name_of_mem_inner`: what stands behind the first component;
* `Signs.components_join`: a name behind a path.
-/
import Ownership.Path.Component
import Ownership.Proofs.Text

namespace Ownership.Path

/-! ## 1. The front of a list -/

section DropPrefix

variable {α β : Type} [DecidableEq α] [DecidableEq β]

theorem dropPrefix_eq_some_iff {ys : List α} :
    ∀ {xs rest : List α}, dropPrefix ys xs = some rest ↔ xs = ys ++ rest := by
  induction ys with
  | nil => exact fun {_ _} => Option.some_inj
  | cons y ys ih =>
    intro xs rest
    cases xs with
    | nil => simp [dropPrefix]
    | cons x xs =>
      rw [dropPrefix, List.cons_append, List.cons.injEq]
      by_cases hx : x = y
      · rw [if_pos hx, ih, and_iff_right hx]
      · simp [hx]

theorem dropPrefix_eq_none_iff {xs ys : List α} : dropPrefix ys xs = none ↔ ¬ ys <+: xs := by
  have hsome : (∃ rest, dropPrefix ys xs = some rest) ↔ ys <+: xs := by
    simp only [dropPrefix_eq_some_iff, List.IsPrefix, @eq_comm _ xs]
  rw [← hsome, ← Option.isSome_iff_exists, Option.not_isSome_iff_eq_none]

/-- Where elements are told apart, the same front is taken off. -/
theorem dropPrefix_map {f : α → β} (hf : Function.Injective f) {ys : List α} :
    ∀ xs : List α, dropPrefix (ys.map f) (xs.map f) = (dropPrefix ys xs).map (List.map f) := by
  induction ys with
  | nil => exact fun _ => rfl
  | cons y ys ih =>
    intro xs
    cases xs with
    | nil => rfl
    | cons x xs =>
      rw [List.map_cons, List.map_cons, dropPrefix, dropPrefix, ih]
      simp only [hf.eq_iff]
      split <;> rfl

end DropPrefix

/-! ## 2. Paths in some signs -/

/-- The signs that a path is spelled with: one that separates names, and one of which the names of
the current directory and of the parent are made. -/
structure Signs (α : Type) where
  slash : α
  point : α

namespace Signs

variable {α : Type} [DecidableEq α] (σ : Signs α)

/-- Holds of a path that starts at the root of the disk. -/
def isAbsolute (path : List α) : Bool := path.head? == some σ.slash

/-- The component that a piece between slashes inside a path stands for, if any. -/
def component? (piece : List α) : Option (Component (List α)) :=
  if piece = [] ∨ piece = [σ.point] then none
  else if piece = [σ.point, σ.point] then some .parent
  else some (.name piece)

/-- The component in front of the others. -/
def leading (path : List α) : List (Component (List α)) :=
  if σ.isAbsolute path then [.root]
  else if (path.splitOn σ.slash).head? = some [σ.point] then [.current]
  else []

/-- The components that the pieces of a path stand for. -/
def inner (path : List α) : List (Component (List α)) :=
  (path.splitOn σ.slash).filterMap σ.component?

/-- The components of a path. -/
def components (path : List α) : List (Component (List α)) := σ.leading path ++ σ.inner path

/-- The path with a name behind it. -/
def join (path name : List α) : List α :=
  if path = [] ∨ path.getLast? = some σ.slash then path ++ name else path ++ σ.slash :: name

/-- The signs of a text. -/
def chars : Signs Char := ⟨'/', '.'⟩

end Signs

theorem components_eq (path : List Char) : components path = Signs.chars.components path := rfl

namespace Signs

variable {α : Type} [DecidableEq α] {σ : Signs α} {path name : List α}

/-! ## 3. The components of a path -/

theorem component?_eq_some_iff {piece : List α} {c : Component (List α)} :
    σ.component? piece = some c ↔
      piece = [σ.point, σ.point] ∧ c = .parent ∨
        piece ≠ [] ∧ piece ≠ [σ.point] ∧ piece ≠ [σ.point, σ.point] ∧ c = .name piece := by
  unfold component?
  split
  · rename_i hvoid
    rcases hvoid with rfl | rfl <;> simp
  · rename_i hvoid
    rw [not_or] at hvoid
    split
    · rename_i hup
      simp [hup, @eq_comm _ _ c]
    · rename_i hup
      simp [hup, hvoid, @eq_comm _ _ c]

theorem component?_eq_some_name_iff {n : List α} :
    σ.component? n = some (.name n) ↔ n ≠ [] ∧ n ≠ [σ.point] ∧ n ≠ [σ.point, σ.point] := by
  simp [component?_eq_some_iff]

/-- **What stands behind the first component** is a name or leads to the parent. -/
theorem eq_parent_or_name_of_mem_inner {c : Component (List α)} (h : c ∈ σ.inner path) :
    c = .parent ∨ ∃ s, c = .name s := by
  obtain ⟨piece, -, hc⟩ := List.mem_filterMap.mp h
  rcases component?_eq_some_iff.mp hc with ⟨-, rfl⟩ | ⟨-, -, -, rfl⟩
  · exact Or.inl rfl
  · exact Or.inr ⟨piece, rfl⟩

theorem root_not_mem_inner : .root ∉ σ.inner path := fun h => by
  rcases eq_parent_or_name_of_mem_inner h with h | ⟨s, h⟩ <;> cases h

theorem parent_mem_inner_iff :
    .parent ∈ σ.inner path ↔ [σ.point, σ.point] ∈ path.splitOn σ.slash := by
  simp [inner, List.mem_filterMap, component?_eq_some_iff]

theorem components_of_isAbsolute (h : σ.isAbsolute path = true) :
    σ.components path = .root :: σ.inner path := by
  rw [components, leading, if_pos h]
  rfl

/-- In front of a relative path the current directory may stand, and nothing else. -/
theorem eq_current_of_mem_leading (h : σ.isAbsolute path = false) {c : Component (List α)}
    (hc : c ∈ σ.leading path) : c = .current := by
  rw [leading, h, if_neg Bool.false_ne_true] at hc
  split at hc
  · exact List.mem_singleton.mp hc
  · exact absurd hc List.not_mem_nil

/-- A name among the components of a path is one that stands for itself. -/
theorem of_name_mem_components {n : List α} (h : .name n ∈ σ.components path) :
    σ.slash ∉ n ∧ σ.component? n = some (.name n) := by
  rcases List.mem_append.mp h with h | h
  · cases habs : σ.isAbsolute path with
    | true =>
      rw [leading, if_pos habs] at h
      cases List.mem_singleton.mp h
    | false => cases eq_current_of_mem_leading habs h
  · obtain ⟨piece, hpiece, hn⟩ := List.mem_filterMap.mp h
    rcases component?_eq_some_iff.mp hn with ⟨-, hup⟩ | ⟨-, -, -, hname⟩
    · cases hup
    · cases hname
      exact ⟨Text.not_mem_of_mem_splitOn hpiece, hn⟩

/-- A path is absolute if it starts at the root of the disk. -/
theorem isAbsolute_iff : σ.isAbsolute path = true ↔ .root ∈ σ.components path := by
  constructor
  · intro h
    rw [components_of_isAbsolute h]
    exact List.mem_cons_self
  · intro h
    cases habs : σ.isAbsolute path with
    | true => rfl
    | false =>
      rcases List.mem_append.mp h with h | h
      · cases eq_current_of_mem_leading habs h
      · exact absurd h root_not_mem_inner

/-! ## 4. A name behind a path -/

/-- The pieces of a path with a name behind it: those of the path and the name, where the empty
piece behind a slash at the end of the path gives way. -/
theorem exists_splitOn_join (hpath : path ≠ []) (hslash : σ.slash ∉ name) :
    ∃ front, front ≠ [] ∧ (σ.join path name).splitOn σ.slash = front ++ [name] ∧
      (path.splitOn σ.slash = front ∨ path.splitOn σ.slash = front ++ [[]]) := by
  have hname : name.splitOn σ.slash = [name] := List.splitOn_eq_singleton hslash
  rw [join]
  split
  · rename_i h
    obtain ⟨before, rfl⟩ := List.getLast?_eq_some_iff.mp (h.resolve_left hpath)
    refine ⟨before.splitOn σ.slash, List.splitOn_ne_nil _ _, ?_, Or.inr ?_⟩
    · rw [List.append_assoc, List.singleton_append, List.splitOn_append_cons_self, hname]
    · exact List.splitOn_append_cons_self before []
  · refine ⟨path.splitOn σ.slash, List.splitOn_ne_nil _ _, ?_, Or.inl rfl⟩
    rw [List.splitOn_append_cons_self, hname]

theorem isAbsolute_join (hpath : path ≠ []) :
    σ.isAbsolute (σ.join path name) = σ.isAbsolute path := by
  have hhead : (σ.join path name).head? = path.head? := by
    rw [join]
    split <;> exact List.head?_append_of_ne_nil _ hpath
  rw [isAbsolute, hhead, isAbsolute]

/-- A name alone is one component. -/
theorem components_of_name (hslash : σ.slash ∉ name)
    (hname : σ.component? name = some (.name name)) : σ.components name = [.name name] := by
  have habs : σ.isAbsolute name = false := by
    cases name with
    | nil => rfl
    | cons c cs =>
      have hc : c ≠ σ.slash := fun h => hslash (h ▸ List.mem_cons_self)
      simpa [isAbsolute] using hc
  have hhere : name ≠ [σ.point] := by
    rintro rfl
    simp [component?] at hname
  rw [components, leading, habs, if_neg Bool.false_ne_true, inner,
    List.splitOn_eq_singleton hslash, List.head?_cons, if_neg (by simpa using hhere)]
  simp [hname]

/-- **A name behind a path** is one component behind the components of the path. -/
theorem components_join (hslash : σ.slash ∉ name)
    (hname : σ.component? name = some (.name name)) :
    σ.components (σ.join path name) = σ.components path ++ [.name name] := by
  by_cases hpath : path = []
  · subst hpath
    exact components_of_name hslash hname
  · obtain ⟨front, hfront, hjoin, hpieces⟩ := exists_splitOn_join hpath hslash
    have hleading : σ.leading (σ.join path name) = σ.leading path := by
      have hhead : (path.splitOn σ.slash).head? = front.head? := by
        rcases hpieces with h | h
        · rw [h]
        · rw [h, List.head?_append_of_ne_nil _ hfront]
      rw [leading, leading, isAbsolute_join hpath, hjoin, hhead,
        List.head?_append_of_ne_nil _ hfront]
    have hinner : σ.inner (σ.join path name) = σ.inner path ++ [.name name] := by
      have hlast : [name].filterMap σ.component? = [.name name] := by simp [hname]
      rw [inner, hjoin, List.filterMap_append, hlast, inner]
      rcases hpieces with h | h
      · rw [h]
      · rw [h, List.filterMap_append]
        simp [component?]
    rw [components, components, hleading, hinner, List.append_assoc]

/-- Several names behind a path, one after the other. -/
theorem components_foldl_join {names : List (List α)}
    (h : ∀ s ∈ names, σ.slash ∉ s ∧ σ.component? s = some (.name s)) :
    σ.components (names.foldl σ.join path) = σ.components path ++ names.map .name := by
  induction names generalizing path with
  | nil => simp
  | cons s names ih =>
    obtain ⟨⟨hslash, hname⟩, hnames⟩ := List.forall_mem_cons.mp h
    rw [List.foldl_cons, ih hnames, components_join hslash hname, List.append_assoc]
    rfl

end Signs

end Ownership.Path
