/-
# The canonical form of a repository path

A path inside a repository comes from a change proposal, from a path on disk, or from a walk of a
working copy.  Each of the three cuts its source into segments in its own way, and all of them end
in the same form: one segment or more with slashes between them, none of them empty, `.` or `..`.

The three do not agree on what separates segments.  In a proposal that is a slash of either
direction; on disk it is the forward slash alone, and a name there may hold a backslash.  So the
text of a path is read back as the same path, as a proposal spells it, exactly if it holds no
backslash: a path from a proposal never does, and one from disk may.

Nor need a path on disk be a text.  `ofRootedBytes` reads one that is given as bytes, and is
`ofRooted` where it is the bytes of a text.

* `RepoPath.IsCanonical`: the form of a path; `RepoPath.IsRead`: where paths come from;
* `RepoPath.ofRootedBytes_bytesOf`: paths of bytes and texts;
* `RepoPath.ofText_text_iff`: which canonical paths are read back from their text;
* `RepoPath.isCanonical_and_reread_iff`: the same for all paths that are read.
-/
import Ownership.Proofs.Disk
import Ownership.Proofs.Glob.Segments
import Ownership.Proofs.Listing
import Ownership.Proofs.Path.Bytes

namespace Ownership

open Glob (IsSegment join)
open Ownership.Path (Component Signs components encode)

/-! ## 1. The canonical form -/

/-- A name in a path: a segment that leads one step down, so neither `.` nor `..`. -/
structure IsName (s : List Char) : Prop where
  isSegment : IsSegment s
  ne_here : s ≠ ['.']
  ne_up : s ≠ ['.', '.']

namespace RepoPath

/-- A path in canonical form is made of names, of which there is one at least. -/
def IsCanonical (p : RepoPath) : Prop :=
  ∃ segs, segs ≠ [] ∧ (∀ s ∈ segs, IsName s) ∧ p = ofSegments segs

theorem toList_text_ofSegments (segs : List (List Char)) :
    (ofSegments segs).text.toList = join segs := by
  rw [ofSegments, String.toList_ofList, join]

theorem ofSegments?_eq_ok_iff {segs : List (List Char)} {p : RepoPath} :
    ofSegments? segs = .ok p ↔ segs ≠ [] ∧ p = ofSegments segs := by
  rw [ofSegments?]
  split
  · simp [*]
  · simp [*, eq_comm]

/-! ## 2. From a proposal -/

theorem isSeparator_eq_false_iff {c : Char} : isSeparator c = false ↔ c ≠ '/' ∧ c ≠ '\\' := by
  simp [isSeparator]

/-- **A path from a proposal** is made of names without backslashes. -/
theorem exists_of_ofText {text : String} {p : RepoPath} (h : ofText text = .ok p) :
    ∃ segs, segs ≠ [] ∧ (∀ s ∈ segs, IsName s ∧ '\\' ∉ s) ∧ p = ofSegments segs := by
  simp only [ofText] at h
  split at h
  · cases h
  · rename_i hup
    obtain ⟨hne, rfl⟩ := ofSegments?_eq_ok_iff.mp h
    refine ⟨_, hne, fun s hs => ?_, rfl⟩
    obtain ⟨hmem, hvoid⟩ := List.mem_filter.mp hs
    have hclear : ∀ c ∈ s, c ≠ '/' ∧ c ≠ '\\' := fun c hc =>
      isSeparator_eq_false_iff.mp (Text.eq_false_of_mem_splitOnP hmem c hc)
    obtain ⟨hempty, hhere⟩ : s ≠ [] ∧ s ≠ ['.'] := by simpa [isVoid] using hvoid
    exact ⟨⟨⟨hempty, fun hc => (hclear _ hc).1 rfl⟩, hhere,
      fun heq => hup (by simpa [heq] using hmem)⟩, fun hc => (hclear _ hc).2 rfl⟩

theorem backslash_not_mem_of_ofText {text : String} {p : RepoPath} (h : ofText text = .ok p) :
    '\\' ∉ p.text.toList := by
  obtain ⟨segs, -, hsegs, rfl⟩ := exists_of_ofText h
  rw [toList_text_ofSegments, Glob.mem_join_iff (by decide)]
  rintro ⟨s, hs, hc⟩
  exact (hsegs s hs).2 hc

/-- Without backslashes the two notions of a separator cut a text alike. -/
theorem splitOnP_isSeparator {cs : List Char} (h : '\\' ∉ cs) :
    cs.splitOnP isSeparator = cs.splitOn '/' := by
  have hagree : ∀ c ∈ cs, isSeparator c = (c == '/') := by
    intro c hc
    have hne : c ≠ '\\' := fun heq => h (heq ▸ hc)
    simp [isSeparator, hne]
  rw [Text.splitOnP_congr hagree, ← List.splitOn_eq_splitOnP]

/-- **Which canonical paths are read back from their text**: those without a backslash. -/
theorem ofText_text_iff {p : RepoPath} (h : p.IsCanonical) :
    ofText p.text = .ok p ↔ '\\' ∉ p.text.toList := by
  constructor
  · exact backslash_not_mem_of_ofText
  · intro hclear
    obtain ⟨segs, hne, hsegs, rfl⟩ := h
    rw [toList_text_ofSegments] at hclear
    have hcut : (join segs).splitOnP isSeparator = segs := by
      rw [splitOnP_isSeparator hclear]
      exact Glob.splitOn_join hne fun s hs => (hsegs s hs).isSegment.2
    have hup : ¬ segs.contains ['.', '.'] = true := by
      rw [List.contains_iff_mem]
      exact fun hmem => (hsegs _ hmem).ne_up rfl
    have hvoid : segs.filter (fun s => !isVoid s) = segs := by
      refine List.filter_eq_self.mpr fun s hs => ?_
      simp [isVoid, (hsegs s hs).isSegment.1, (hsegs s hs).ne_here]
    simp only [ofText, toList_text_ofSegments, hcut, if_neg hup, hvoid]
    exact ofSegments?_eq_ok_iff.mpr ⟨hne, rfl⟩

/-! ## 3. From a path on disk -/

/-- The segment that a component names, if its name is a text. -/
def segmentOfBytes (c : Component Disk.Name) : Except PathProblem (Option (List Char)) :=
  match c with
  | .current => .ok none
  | .name n => (textOfName n).map some
  | .parent => .error .parentSegment
  | .root => .error .unsupported

/-- The path that the components name, or the problem with the first that names none. -/
def ofByteComponents (cs : List (Component Disk.Name)) : Except PathProblem RepoPath := do
  ofSegments? ((← cs.mapM segmentOfBytes).filterMap id)

/-- Reads a path on disk, as `ofRooted` does, where neither the root nor the path need be a
text. -/
def ofRootedBytes (root path : Disk.Path) : Except PathProblem RepoPath :=
  let cs := Signs.bytes.components path
  if Signs.bytes.isAbsolute path then
    match Path.dropPrefix (Signs.bytes.components root) cs with
    | none => .error .outsideRoot
    | some rest => ofByteComponents rest
  else ofByteComponents cs

theorem segmentOfBytes_map_encode (c : Component (List Char)) :
    segmentOfBytes (c.map encode) = segmentOf c := by
  cases c with
  | root => rfl
  | current => rfl
  | parent => rfl
  | name n =>
    have hn : textOfName (encode n) = .ok n := Path.textOfName_eq_ok_iff.mpr rfl
    simp only [Component.map, segmentOfBytes, hn, segmentOf, Except.map]

theorem ofByteComponents_map_encode (cs : List (Component (List Char))) :
    ofByteComponents (cs.map (.map encode)) = ofComponents cs := by
  rw [ofByteComponents, List.mapM_map, ofComponents]
  simp only [Function.comp_def, segmentOfBytes_map_encode]

theorem segmentOfBytes_eq_ok_some_iff {c : Component Disk.Name} {s : List Char} :
    segmentOfBytes c = .ok (some s) ↔ c = .name (encode s) := by
  cases c with
  | name n => simp [segmentOfBytes, map_eq_ok_iff, Path.textOfName_eq_ok_iff]
  | root => simp [segmentOfBytes]
  | current => simp [segmentOfBytes]
  | parent => simp [segmentOfBytes]

/-- **Where the root and the path are texts**, they are read as texts. -/
theorem ofRootedBytes_bytesOf (root path : String) :
    ofRootedBytes (Disk.bytesOf root) (Disk.bytesOf path) = ofRooted root path := by
  simp only [ofRootedBytes, ofRooted, Path.bytesOf_eq, Path.isAbsolute_encode,
    Path.components_encode, Path.dropPrefix_map Path.map_encode_injective]
  split
  · cases Path.dropPrefix (components root.toList) (components path.toList) with
    | none => rfl
    | some rest => exact ofByteComponents_map_encode rest
  · exact ofByteComponents_map_encode _

/-- A name in a path, in bytes. -/
theorem isName_iff {s : List Char} :
    IsName s ↔ Signs.bytes.slash ∉ encode s ∧
      Signs.bytes.component? (encode s) = some (.name (encode s)) := by
  have hname : Signs.bytes.component? (encode s) = some (.name (encode s)) ↔
      Signs.chars.component? s = some (.name s) := by
    rw [Path.component?_encode]
    exact (Option.map_injective Path.map_encode_injective).eq_iff (b := some (.name s))
  rw [hname, Signs.component?_eq_some_name_iff]
  constructor
  · exact fun h =>
      ⟨mt Path.slash_mem_encode_iff.mp h.isSegment.2, h.isSegment.1, h.ne_here, h.ne_up⟩
  · rintro ⟨hslash, hempty, hhere, hup⟩
    exact ⟨⟨hempty, mt Path.slash_mem_encode_iff.mpr hslash⟩, hhere, hup⟩

/-- A path that components name is made of the names among them. -/
theorem exists_of_ofByteComponents {cs : List (Component Disk.Name)} {p : RepoPath}
    (h : ofByteComponents cs = .ok p) :
    ∃ segs, segs ≠ [] ∧ (∀ s ∈ segs, .name (encode s) ∈ cs) ∧ p = ofSegments segs := by
  obtain ⟨named, hnamed, h⟩ := bind_eq_ok_iff.mp h
  obtain ⟨hne, rfl⟩ := ofSegments?_eq_ok_iff.mp h
  refine ⟨_, hne, fun s hs => ?_, rfl⟩
  obtain ⟨_, hmem, rfl⟩ := List.mem_filterMap.mp hs
  obtain ⟨c, hc, hseg⟩ := exists_of_mem_of_mapM_eq_ok hnamed _ hmem
  exact segmentOfBytes_eq_ok_some_iff.mp hseg ▸ hc

/-- **A path from disk** is made of names. -/
theorem isCanonical_of_ofRootedBytes {root path : Disk.Path} {p : RepoPath}
    (h : ofRootedBytes root path = .ok p) : p.IsCanonical := by
  have hnames : ∀ {cs : List (Component Disk.Name)},
      cs <:+ Signs.bytes.components path → ofByteComponents cs = .ok p → p.IsCanonical := by
    intro cs hsuffix hcs
    obtain ⟨segs, hne, hsegs, rfl⟩ := exists_of_ofByteComponents hcs
    exact ⟨segs, hne, fun s hs =>
      isName_iff.mpr (Signs.of_name_mem_components (hsuffix.subset (hsegs s hs))), rfl⟩
  simp only [ofRootedBytes] at h
  split at h
  · split at h
    · cases h
    · exact hnames ⟨_, (Path.dropPrefix_eq_some_iff.mp ‹_›).symm⟩ h
  · exact hnames (List.suffix_refl _) h

theorem isCanonical_of_ofRooted {root path : String} {p : RepoPath}
    (h : ofRooted root path = .ok p) : p.IsCanonical :=
  isCanonical_of_ofRootedBytes ((ofRootedBytes_bytesOf root path).trans h)

end RepoPath

/-! ## 4. From a walk -/

namespace Disk

mutual

/-- A walk goes along the names below a node. -/
theorem isPlace_of_mem_leaves {place : Place} :
    ∀ {n : Node}, n.Named → place ∈ n.leaves → IsPlace place
  | .file _, _, hplace | .link _, _, hplace => by
    rw [Node.leaves, List.mem_singleton] at hplace
    exact hplace ▸ List.forall_mem_nil _
  | .directory _, h, hplace => by
    rw [Node.Named] at h
    rw [Node.leaves] at hplace
    exact isPlace_of_mem_leavesIn h hplace

theorem isPlace_of_mem_leavesIn {place : Place} :
    ∀ {es : List (Name × Node)}, Node.NamedIn es → place ∈ Node.leavesIn es → IsPlace place
  | [], _, hplace => absurd hplace List.not_mem_nil
  | (_, _) :: _, h, hplace => by
    rw [Node.NamedIn] at h
    obtain ⟨hx, hn, hes⟩ := h
    rw [Node.leavesIn] at hplace
    rcases List.mem_append.mp hplace with hplace | hplace
    · split at hplace
      · exact absurd hplace List.not_mem_nil
      · obtain ⟨rest, hrest, rfl⟩ := List.mem_map.mp hplace
        exact List.forall_mem_cons.mpr ⟨hx, isPlace_of_mem_leaves hn hrest⟩
    · exact isPlace_of_mem_leavesIn hes hplace

end

end Disk

/-- The root of a working copy is what its path leads to, not followed at its end. -/
theorem nodeAt_of_walkRoot {d : Disk} {root : String} {n : Disk.Node} (h : walkRoot d root = .ok n) :
    d.nodeAt (Disk.bytesOf root) false = .ok n := by
  obtain ⟨m, hm, h⟩ := bind_eq_ok_iff.mp h
  cases m with
  | link target =>
    obtain ⟨_, -, h⟩ := bind_eq_ok_iff.mp h
    cases h
    exact hm
  | file content | directory es => cases h; exact hm

theorem named_of_walkRoot {d : Disk} (h : d.root.Named) {root : String} {n : Disk.Node}
    (hn : walkRoot d root = .ok n) : n.Named :=
  Disk.named_of_nodeAt h (nodeAt_of_walkRoot hn)

/-- A name on disk that is a text is a name in a path. -/
theorem isName_of_textOfName {x : Disk.Name} (hx : Disk.IsFileName x) {cs : List Char}
    (h : textOfName x = .ok cs) : IsName cs := by
  obtain rfl := Path.textOfName_eq_ok_iff.mp h
  have hhere := hx.isHere_eq_false
  have hup := hx.isUp_eq_false
  refine ⟨⟨?_, fun hslash => hx.no_slash (Path.slash_mem_encode_iff.mpr hslash)⟩, ?_, ?_⟩
  · rintro rfl
    cases hhere
  · rintro rfl
    exact absurd hhere (by decide)
  · rintro rfl
    exact absurd hup (by decide)

namespace RepoPath

/-- **A path from a walk** is made of names. -/
theorem isCanonical_of_ofPlace {place : Disk.Place} (hplace : Disk.IsPlace place) {p : RepoPath}
    (h : ofPlace place = .ok p) : p.IsCanonical := by
  obtain ⟨segs, hsegs, h⟩ := bind_eq_ok_iff.mp h
  obtain ⟨hne, rfl⟩ := ofSegments?_eq_ok_iff.mp h
  refine ⟨segs, hne, fun s hs => ?_, rfl⟩
  obtain ⟨x, hx, hs⟩ := exists_of_mem_of_mapM_eq_ok hsegs s hs
  exact isName_of_textOfName (hplace x hx) hs

end RepoPath

namespace Listing

/-- A path that is listed in a working copy is that of a place in it. -/
theorem exists_of_mem_ofDisk {d : Disk} {root : String} {ps : List RepoPath}
    (h : ofDisk d root = .ok ps) {p : RepoPath} (hp : p ∈ ps) :
    ∃ top, walkRoot d root = .ok top ∧ ∃ place ∈ top.leaves, RepoPath.ofPlace place = .ok p := by
  obtain ⟨top, htop, h⟩ := bind_eq_ok_iff.mp h
  refine ⟨top, mapError_eq_ok_iff.mp htop, ?_⟩
  cases hfar : farFault? root top with
  | some fault => simp only [hfar] at h; cases h
  | none =>
    simp only [hfar] at h
    obtain ⟨qs, hqs, h⟩ := bind_eq_ok_iff.mp h
    cases h
    exact exists_of_mem_of_mapM_eq_ok (mapError_eq_ok_iff.mp hqs) p (mem_sort.mp hp)

end Listing

namespace RepoPath

/-! ## 5. Reading a path again -/

/-- Where paths come from: a change proposal, a path on disk, a listing by spelling, or the listing
of a working copy on a disk whose names are such as a directory can hold. -/
inductive IsRead (p : RepoPath) : Prop
  | proposed (text : String) : ofText text = .ok p → IsRead p
  | rooted (root path : String) : ofRooted root path = .ok p → IsRead p
  | spelled (texts : List String) (ps : List RepoPath) :
      Listing.ofTexts texts = .ok ps → p ∈ ps → IsRead p
  | walked (d : Disk) (root : String) (ps : List RepoPath) :
      d.root.Named → Listing.ofDisk d root = .ok ps → p ∈ ps → IsRead p

theorem isCanonical_of_ofText {text : String} {p : RepoPath} (h : ofText text = .ok p) :
    p.IsCanonical := by
  obtain ⟨segs, hne, hsegs, rfl⟩ := exists_of_ofText h
  exact ⟨segs, hne, fun s hs => (hsegs s hs).1, rfl⟩

/-- **Every path that is read is canonical.** -/
theorem IsRead.isCanonical {p : RepoPath} (h : p.IsRead) : p.IsCanonical := by
  cases h with
  | proposed text h => exact isCanonical_of_ofText h
  | rooted root path h => exact isCanonical_of_ofRooted h
  | spelled texts ps h hp =>
    obtain ⟨text, -, h⟩ := (Listing.mem_ofTexts_iff h).mp hp
    exact isCanonical_of_ofText h
  | walked d root ps hd h hp =>
    obtain ⟨top, htop, place, hplace, h⟩ := Listing.exists_of_mem_ofDisk h hp
    exact isCanonical_of_ofPlace (Disk.isPlace_of_mem_leaves (named_of_walkRoot hd htop) hplace) h

/-- **Every path that is read is canonical, and which of them are read back from their text**, as a
proposal spells it: those without a backslash, and these are the paths that proposals can name. -/
theorem isCanonical_and_reread_iff {p : RepoPath} (h : p.IsRead) :
    p.IsCanonical ∧ (ofText p.text = .ok p ↔ '\\' ∉ p.text.toList) ∧
      ((∃ text, ofText text = .ok p) ↔ '\\' ∉ p.text.toList) := by
  have hreread := ofText_text_iff h.isCanonical
  exact ⟨h.isCanonical, hreread, fun ⟨_, htext⟩ => backslash_not_mem_of_ofText htext,
    fun hclear => ⟨p.text, hreread.mpr hclear⟩⟩

/-- A path on disk with repeated slashes and points is read back from its text. -/
theorem dotted_path_reread :
    ofRooted "/r" "/r//src/./x.rs" = .ok ⟨"src/x.rs"⟩ ∧ IsCanonical ⟨"src/x.rs"⟩ ∧
      ofText "src/x.rs" = .ok ⟨"src/x.rs"⟩ := by
  have hread : ofRooted "/r" "/r//src/./x.rs" = .ok ⟨"src/x.rs"⟩ := by decide
  obtain ⟨hcanonical, hreread, -⟩ := isCanonical_and_reread_iff (.rooted _ _ hread)
  exact ⟨hread, hcanonical, hreread.mpr (by decide)⟩

/-- **A backslash in a name on disk is lost**: the text of the path is read as that of another. -/
theorem backslash_name_not_reread :
    ofRooted "/r" "/r/a\\b" = .ok ⟨"a\\b"⟩ ∧ ofText "a\\b" = .ok ⟨"a/b"⟩ ∧
      RepoPath.mk "a/b" ≠ ⟨"a\\b"⟩ := by
  decide

end RepoPath

end Ownership
