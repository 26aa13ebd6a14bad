/-
# Paths below a root

A path on disk is read against the root of a repository, and a path in the repository is put below
the root again.  The two undo each other, up to the spelling of a path on disk: repeated slashes,
points and a slash at the end of the root make no difference, for roots and paths are compared by
their components.  So a directory beside the root is not taken for one below it, even where its path
starts with the text of the root, and what leads out of the root again is never read.

On disk neither the root nor the path need be a text, and both are given as bytes here.  Where they
are texts, `ofRootedBytes_bytesOf` and `underBytes_bytesOf` lead back to `ofRooted` and `under`.

* `RepoPath.ofRooted_eq_ofText`: relative paths are read as a proposal spells them;
* `RepoPath.ofByteComponents_eq_ok_iff`: what may follow the root;
* `RepoPath.ofRooted_under_inverse`: absolute paths below a root.
-/
import Ownership.Proofs.RepoPath

namespace Ownership.RepoPath

open Ownership.Path (Component Signs components encode)

/-! ## 1. Relative paths -/

section Relative

variable {text : String}

/-- Reads the pieces of a path between slashes. -/
def readPieces (pieces : List (List Char)) : Except PathProblem RepoPath :=
  if ['.', '.'] ∈ pieces then .error .parentSegment
  else ofSegments? (pieces.filter fun piece => !isVoid piece)

/-- What the pieces of a path between slashes come to: a piece of two points is a fault, and so is
it if no piece names a segment. -/
def ofPieces (pieces : List (List Char)) : Except Fault RepoPath :=
  if ['.', '.'] ∈ pieces then .error ⟨.policy, "dotdot"⟩
  else if ∀ piece ∈ pieces, piece = [] ∨ piece = ['.'] then .error ⟨.invalidPath, "empty path"⟩
  else .ok (ofSegments (pieces.filter fun piece => !isVoid piece))

/-- The name that a component is, if it is one. -/
def nameOf? : Component (List Char) → Option (List Char)
  | .name n => some n
  | _ => none

section OfComponents

variable {cs : List (Component (List Char))}

theorem mapM_segmentOf_of_parent_mem (hroot : .root ∉ cs) (hup : .parent ∈ cs) :
    cs.mapM segmentOf = .error .parentSegment := by
  cases hread : cs.mapM segmentOf with
  | ok named =>
    obtain ⟨_, h⟩ := exists_mapM_eq_ok_iff.mp ⟨named, hread⟩ .parent hup
    cases h
  | error e =>
    obtain ⟨c, hc, he⟩ := exists_of_mapM_eq_error hread
    cases c with
    | current => cases he
    | name n => cases he
    | parent => cases he; rfl
    | root => exact absurd hc hroot

theorem mapM_segmentOf_of_parent_not_mem (hroot : .root ∉ cs) (hup : .parent ∉ cs) :
    cs.mapM segmentOf = .ok (cs.map nameOf?) := by
  rw [mapM_eq_ok_iff, List.forall₂_map_right_iff, List.forall₂_same]
  intro c hc
  cases c with
  | current => rfl
  | name n => rfl
  | parent => exact absurd hc hup
  | root => exact absurd hc hroot

/-- **Components without the root name a path**, unless one of them leads to the parent. -/
theorem ofComponents_eq (hroot : .root ∉ cs) :
    ofComponents cs =
      if .parent ∈ cs then .error .parentSegment else ofSegments? (cs.filterMap nameOf?) := by
  have hnames : (cs.map nameOf?).filterMap id = cs.filterMap nameOf? := by
    rw [List.filterMap_map]
    rfl
  rw [ofComponents]
  split
  · rw [mapM_segmentOf_of_parent_mem hroot ‹_›]
    rfl
  · rw [mapM_segmentOf_of_parent_not_mem hroot ‹_›, ← hnames]
    rfl

end OfComponents

/-- The names among the components of a path are the pieces that name a segment. -/
theorem filterMap_nameOf?_inner {path : List Char} (hup : ['.', '.'] ∉ path.splitOn '/') :
    (Signs.chars.inner path).filterMap nameOf? =
      (path.splitOn '/').filter fun piece => !isVoid piece := by
  have hpiece : ∀ piece ∈ path.splitOn '/', (Path.innerComponent? piece).bind nameOf? =
      Option.guard (fun piece => !isVoid piece) piece := by
    intro piece hmem
    have hne : piece ≠ ['.', '.'] := fun heq => hup (heq ▸ hmem)
    simp only [Path.innerComponent?, if_neg hne, ← isVoid_iff]
    cases hvoid : isVoid piece <;> simp [Option.guard, hvoid, nameOf?]
  rw [Signs.inner, List.filterMap_filterMap]
  exact (List.filterMap_congr hpiece).trans (congrFun List.filterMap_eq_filter _)

theorem ofRooted_of_relative (root : String) (hrel : Path.isAbsolute text.toList = false) :
    ofRooted root text = readPieces (text.toList.splitOn '/') := by
  have hrel' : Signs.chars.isAbsolute text.toList = false := hrel
  have hleading : ∀ c ∈ Signs.chars.leading text.toList, c = .current := fun c =>
    Signs.eq_current_of_mem_leading hrel'
  have hroot : .root ∉ components text.toList := by
    rw [Path.components_eq, ← Signs.isAbsolute_iff, hrel']
    exact Bool.false_ne_true
  have hup : .parent ∈ components text.toList ↔ ['.', '.'] ∈ text.toList.splitOn '/' := by
    rw [Path.components_eq, Signs.components, List.mem_append, Signs.parent_mem_inner_iff,
      or_iff_right]
    · rfl
    · intro h
      cases hleading _ h
  simp only [ofRooted, hrel, Bool.false_eq_true, if_false, ofComponents_eq hroot, hup, readPieces]
  split
  · rfl
  · rename_i hup'
    have hnone : (Signs.chars.leading text.toList).filterMap nameOf? = [] := by
      refine List.filterMap_eq_nil_iff.mpr fun c hc => ?_
      rw [hleading c hc]
      rfl
    rw [Path.components_eq, Signs.components, List.filterMap_append, hnone, List.nil_append,
      filterMap_nameOf?_inner hup']

theorem ofRootedBytes_of_relative (root : Disk.Path) (hrel : Path.isAbsolute text.toList = false) :
    ofRootedBytes root (Disk.bytesOf text) = ofRooted "" text := by
  rw [← ofRootedBytes_bytesOf]
  simp only [ofRootedBytes, Path.bytesOf_eq, Path.isAbsolute_encode, hrel, Bool.false_eq_true,
    if_false]

theorem ofText_of_no_backslash (h : '\\' ∉ text.toList) :
    ofText text = readPieces (text.toList.splitOn '/') := by
  simp only [ofText, splitOnP_isSeparator h, List.contains_iff_mem, readPieces]

theorem mapError_fault_readPieces (pieces : List (List Char)) :
    (readPieces pieces).mapError PathProblem.fault = ofPieces pieces := by
  have hnone : (pieces.filter fun piece => !isVoid piece) = [] ↔
      ∀ piece ∈ pieces, piece = [] ∨ piece = ['.'] := by
    simp only [List.filter_eq_nil_iff, Bool.not_eq_true', Bool.not_eq_false, isVoid_iff]
  rw [readPieces, ofPieces]
  split
  · rfl
  · simp only [ofSegments?, hnone]
    split <;> rfl

/-- **A relative path without backslashes** is read from disk as a proposal spells it, whatever the
root: as the same path, or with the same fault. -/
theorem ofRooted_eq_ofText (hback : '\\' ∉ text.toList) (hrel : text.toList.head? ≠ some '/') :
    (∀ root : Disk.Path, ofRootedBytes root (Disk.bytesOf text) = ofText text) ∧
      (∀ root : String, ofRooted root text = ofText text) ∧
      (ofText text).mapError PathProblem.fault = ofPieces (text.toList.splitOn '/') := by
  have habs : Path.isAbsolute text.toList = false := by simpa [Path.isAbsolute] using hrel
  have htext : ∀ root : String, ofRooted root text = ofText text := fun root => by
    rw [ofRooted_of_relative root habs, ofText_of_no_backslash hback]
  refine ⟨fun root => ?_, htext, ?_⟩
  · rw [ofRootedBytes_of_relative root habs, htext]
  · rw [ofText_of_no_backslash hback]
    exact mapError_fault_readPieces _

/-- A relative path with points and repeated slashes, and a root that is no text. -/
theorem ofRooted_dotted_relative :
    ofRootedBytes [47, 255] (Disk.bytesOf "./src//x.rs/.") = ofText "./src//x.rs/." ∧
      ofText "./src//x.rs/." = .ok ⟨"src/x.rs"⟩ :=
  ⟨(ofRooted_eq_ofText (by decide) (by decide)).1 _, by decide⟩

end Relative

/-! ## 2. What follows the root -/

section Following

variable {rest : List (Component Disk.Name)}

/-- Names and steps to the parent are read as segments if they are names only, and these texts. -/
theorem mapM_segmentOfBytes_eq_ok_iff (h : ∀ c ∈ rest, c = .parent ∨ ∃ n, c = .name n)
    {named : List (Option (List Char))} :
    rest.mapM segmentOfBytes = .ok named ↔
      ∃ segs : List (List Char), rest = segs.map (fun s => .name (encode s)) ∧
        named = segs.map some := by
  rw [mapM_eq_ok_iff]
  constructor
  · intro hread
    -- By induction on the components that were read: a step to the parent never is.
    induction hread with
    | nil => exact ⟨[], rfl, rfl⟩
    | cons hc _ ih =>
      obtain ⟨hfirst, hrest⟩ := List.forall_mem_cons.mp h
      obtain ⟨segs, rfl, rfl⟩ := ih hrest
      rcases hfirst with rfl | ⟨n, rfl⟩
      · cases hc
      · obtain ⟨s, hs, rfl⟩ := map_eq_ok_iff.mp hc
        obtain rfl := Path.textOfName_eq_ok_iff.mp hs
        exact ⟨s :: segs, rfl, rfl⟩
  · rintro ⟨segs, rfl, rfl⟩
    rw [List.forall₂_map_left_iff, List.forall₂_map_right_iff, List.forall₂_same]
    exact fun _ _ => segmentOfBytes_eq_ok_some_iff.mpr rfl

/-- **What may follow the root**: one name or more, all of them texts, and no step to the parent. -/
theorem ofByteComponents_eq_ok_iff (h : ∀ c ∈ rest, c = .parent ∨ ∃ n, c = .name n)
    {p : RepoPath} :
    ofByteComponents rest = .ok p ↔
      ∃ segs : List (List Char), segs ≠ [] ∧ rest = segs.map (fun s => .name (encode s)) ∧
        p = ofSegments segs := by
  rw [ofByteComponents, bind_eq_ok_iff]
  simp only [mapM_segmentOfBytes_eq_ok_iff h, ofSegments?_eq_ok_iff]
  have hsome : ∀ segs : List (List Char), (segs.map some).filterMap id = segs := fun segs => by
    rw [List.filterMap_map]
    exact List.filterMap_some
  constructor
  · rintro ⟨_, ⟨segs, hrest, rfl⟩, hne, rfl⟩
    rw [hsome] at hne ⊢
    exact ⟨segs, hne, hrest, rfl⟩
  · rintro ⟨segs, hne, hrest, rfl⟩
    refine ⟨_, ⟨segs, hrest, rfl⟩, ?_⟩
    rw [hsome]
    exact ⟨hne, rfl⟩

/-- Of the components that follow a root none is said to lie outside of it. -/
theorem ofByteComponents_ne_outsideRoot : ofByteComponents rest ≠ .error .outsideRoot := by
  intro h
  rcases bind_eq_error_iff.mp h with h | ⟨named, -, h⟩
  · obtain ⟨c, -, hc⟩ := exists_of_mapM_eq_error h
    cases c with
    | root => cases hc
    | current => cases hc
    | parent => cases hc
    | name n =>
      rw [segmentOfBytes, textOfName] at hc
      split at hc <;> cases hc
  · rw [ofSegments?] at h
    split at h <;> cases h

end Following

/-! ## 3. Below a root -/

section Below

variable {root path : Disk.Path} {rest : List (Component Disk.Name)}

/-- **A path outside the root** is refused as such. -/
theorem ofRootedBytes_of_outside (hpath : Signs.bytes.isAbsolute path = true)
    (h : ¬ Signs.bytes.components root <+: Signs.bytes.components path) :
    ofRootedBytes root path = .error .outsideRoot := by
  simp only [ofRootedBytes, hpath, if_true, Path.dropPrefix_eq_none_iff.mpr h]

/-- **A path below the root** is read from what follows the root. -/
theorem ofRootedBytes_of_components_eq (hpath : Signs.bytes.isAbsolute path = true)
    (h : Signs.bytes.components path = Signs.bytes.components root ++ rest) :
    ofRootedBytes root path = ofByteComponents rest := by
  simp only [ofRootedBytes, hpath, if_true, Path.dropPrefix_eq_some_iff.mpr h]

/-- An absolute root is followed by names and steps to the parent. -/
theorem eq_parent_or_name_of_mem_rest (hroot : Signs.bytes.isAbsolute root = true)
    (h : Signs.bytes.components path = Signs.bytes.components root ++ rest) :
    ∀ c ∈ rest, c = .parent ∨ ∃ n, c = .name n := by
  have hpath : Signs.bytes.isAbsolute path = true := by
    rw [Signs.isAbsolute_iff, h]
    exact List.mem_append_left rest (Signs.isAbsolute_iff.mp hroot)
  rw [Signs.components_of_isAbsolute hroot, Signs.components_of_isAbsolute hpath,
    List.cons_append, List.cons.injEq] at h
  intro c hc
  exact Signs.eq_parent_or_name_of_mem_inner (h.2 ▸ List.mem_append_right _ hc)

/-- The path on disk of a repository path, as `under` gives it, where the root need not be a
text. -/
def underBytes (root : Disk.Path) (p : RepoPath) : Disk.Path :=
  (p.segments.map encode).foldl Signs.bytes.join root

/-- **Where the root is a text**, so is the path below it. -/
theorem underBytes_bytesOf (root : String) (p : RepoPath) :
    underBytes (Disk.bytesOf root) p = Disk.bytesOf (under root p) := by
  rw [underBytes, under, Path.bytesOf_eq, Path.bytesOf_eq, String.toList_ofList, List.foldl_map]
  exact List.foldl_hom encode Path.join_encode

theorem segments_ofSegments {segs : List (List Char)} (hne : segs ≠ [])
    (h : ∀ s ∈ segs, IsName s) : (ofSegments segs).segments = segs := by
  rw [segments, toList_text_ofSegments]
  exact Glob.splitOn_join hne fun s hs => (h s hs).isSegment.2

/-- **The components of a path below a root** are those of the root and the names of the path. -/
theorem components_underBytes {segs : List (List Char)} (hne : segs ≠ [])
    (h : ∀ s ∈ segs, IsName s) :
    Signs.bytes.components (underBytes root (ofSegments segs)) =
      Signs.bytes.components root ++ segs.map fun s => .name (encode s) := by
  rw [underBytes, segments_ofSegments hne h, Signs.components_foldl_join, List.map_map]
  · rfl
  · intro n hn
    obtain ⟨s, hs, rfl⟩ := List.mem_map.mp hn
    exact isName_iff.mp (h s hs)

/-- **What is put below a root is read back.** -/
theorem ofRootedBytes_underBytes (hroot : Signs.bytes.isAbsolute root = true) {p : RepoPath}
    (hp : p.IsCanonical) : ofRootedBytes root (underBytes root p) = .ok p := by
  obtain ⟨segs, hne, hsegs, rfl⟩ := hp
  have hbelow : Signs.bytes.components (underBytes root (ofSegments segs)) = _ :=
    components_underBytes hne hsegs
  have habs : Signs.bytes.isAbsolute (underBytes root (ofSegments segs)) = true := by
    rw [Signs.isAbsolute_iff, hbelow]
    exact List.mem_append_left _ (Signs.isAbsolute_iff.mp hroot)
  rw [ofRootedBytes_of_components_eq habs hbelow,
    ofByteComponents_eq_ok_iff (eq_parent_or_name_of_mem_rest hroot hbelow)]
  exact ⟨segs, hne, rfl, rfl⟩

/-- **What is read below a root** is made of the names that follow the root. -/
theorem exists_of_ofRootedBytes (hroot : Signs.bytes.isAbsolute root = true)
    (hpath : Signs.bytes.isAbsolute path = true) {p : RepoPath}
    (h : ofRootedBytes root path = .ok p) :
    ∃ segs : List (List Char), segs ≠ [] ∧ (∀ s ∈ segs, IsName s) ∧ p = ofSegments segs ∧
      Signs.bytes.components path =
        Signs.bytes.components root ++ segs.map fun s => .name (encode s) := by
  by_cases hprefix : Signs.bytes.components root <+: Signs.bytes.components path
  · obtain ⟨rest, hrest⟩ := hprefix
    rw [ofRootedBytes_of_components_eq hpath hrest.symm,
      ofByteComponents_eq_ok_iff (eq_parent_or_name_of_mem_rest hroot hrest.symm)] at h
    obtain ⟨segs, hne, rfl, rfl⟩ := h
    have hmem : ∀ s ∈ segs, .name (encode s) ∈ Signs.bytes.components path := fun s hs =>
      hrest ▸ List.mem_append_right _ (List.mem_map_of_mem hs)
    exact ⟨segs, hne, fun s hs => isName_iff.mpr (Signs.of_name_mem_components (hmem s hs)), rfl,
      hrest.symm⟩
  · rw [ofRootedBytes_of_outside hpath hprefix] at h
    cases h

/-- Paths are read from somewhere if and only if they are canonical. -/
theorem isRead_iff_isCanonical {p : RepoPath} : p.IsRead ↔ p.IsCanonical := by
  refine ⟨IsRead.isCanonical, fun h => .rooted "/" (under "/" p) ?_⟩
  rw [← ofRootedBytes_bytesOf, ← underBytes_bytesOf]
  exact ofRootedBytes_underBytes (by decide) h

/-- Each problem with a path is reported as a fault of its own. -/
theorem fault_injective : Function.Injective PathProblem.fault := by
  intro e e' h
  cases e <;> cases e' <;> first | rfl | exact absurd h (by decide)

/-- **Putting a path below an absolute root and reading it there undo each other**, whether root
and path are texts or only bytes, and nothing outside the root is read. -/
theorem ofRooted_under_inverse (hroot : Signs.bytes.isAbsolute root = true) :
    (∀ p, p.IsRead → ofRootedBytes root (underBytes root p) = .ok p) ∧
      (∀ path, Signs.bytes.isAbsolute path = true →
        (∀ p, ofRootedBytes root path = .ok p →
          Signs.bytes.components (underBytes root p) = Signs.bytes.components path) ∧
        ((ofRootedBytes root path).mapError PathProblem.fault =
            .error ⟨.policy, "path escapes root"⟩ ↔
          ¬ Signs.bytes.components root <+: Signs.bytes.components path) ∧
        ∀ rest, Signs.bytes.components path = Signs.bytes.components root ++ rest →
          .parent ∈ rest → ∀ p, ofRootedBytes root path ≠ .ok p) ∧
      ∀ text : String, Disk.bytesOf text = root →
        (∀ path : String, ofRootedBytes root (Disk.bytesOf path) = ofRooted text path) ∧
        ∀ p, underBytes root p = Disk.bytesOf (under text p) := by
  refine ⟨fun p hp => ofRootedBytes_underBytes hroot hp.isCanonical, fun path hpath => ⟨?_, ?_, ?_⟩,
    ?_⟩
  · intro p hp
    obtain ⟨segs, hne, hsegs, rfl, hcomponents⟩ := exists_of_ofRootedBytes hroot hpath hp
    rw [components_underBytes hne hsegs, hcomponents]
  · rw [show (⟨.policy, "path escapes root"⟩ : Fault) = PathProblem.outsideRoot.fault from rfl,
      mapError_eq_error_iff]
    constructor
    · rintro ⟨e, he, hfault⟩ ⟨rest, hrest⟩
      obtain rfl := fault_injective hfault
      rw [ofRootedBytes_of_components_eq hpath hrest.symm] at he
      exact ofByteComponents_ne_outsideRoot he
    · exact fun h => ⟨_, ofRootedBytes_of_outside hpath h, rfl⟩
  · intro rest hrest hup p hp
    -- If a path were read, names alone would follow the root, and none of them is a step up.
    obtain ⟨segs, -, -, -, hcomponents⟩ := exists_of_ofRootedBytes hroot hpath hp
    rw [hrest, List.append_cancel_left_eq] at hcomponents
    simp [hcomponents] at hup
  · rintro text rfl
    exact ⟨ofRootedBytes_bytesOf text, underBytes_bytesOf text⟩

/-- A root with a step to the parent and a slash behind it, a path beside it whose text starts like
that of the root, and one that leads out of it again. -/
theorem ofRooted_beside_root :
    let root := Disk.bytesOf "/s/../r/"
    ofRooted "/s/../r/" (under "/s/../r/" ⟨"src/x.rs"⟩) = .ok ⟨"src/x.rs"⟩ ∧
      (ofRootedBytes root (Disk.bytesOf "/s/../r2/x.rs")).mapError PathProblem.fault =
        .error ⟨.policy, "path escapes root"⟩ ∧
      ofRootedBytes root (Disk.bytesOf "/s/../r/../r/x.rs") ≠ .ok ⟨"x.rs"⟩ := by
  intro root
  have hread : IsRead ⟨"src/x.rs"⟩ := .proposed "src/x.rs" (by decide)
  have hroot : Signs.bytes.isAbsolute root = true := by decide
  obtain ⟨hunder, hpaths, htexts⟩ := ofRooted_under_inverse hroot
  obtain ⟨hrooted, hbelow⟩ := htexts "/s/../r/" rfl
  refine ⟨?_, ?_, ?_⟩
  · rw [← hrooted, ← hbelow]
    exact hunder _ hread
  · obtain ⟨-, hescapes, -⟩ := hpaths (Disk.bytesOf "/s/../r2/x.rs") (by decide)
    exact hescapes.mpr (by decide)
  · obtain ⟨-, -, hup⟩ := hpaths (Disk.bytesOf "/s/../r/../r/x.rs") (by decide)
    exact hup [.parent, .name (Disk.bytesOf "r"), .name (Disk.bytesOf "x.rs")] (by decide)
      (by decide) _

end Below

end Ownership.RepoPath
