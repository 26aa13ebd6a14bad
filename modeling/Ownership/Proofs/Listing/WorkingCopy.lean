/-
# What the listing of a working copy holds

A listing of a working copy is complete and exact.  It holds the path, from the root, of everything
below the root that is no directory, a symbolic link as much as a file, unless a directory of
version control stands on the way; each of these paths once, in the order of their texts.  A file
that has the name of such a directory is listed, and so is what lies below a root of that name: only
a directory below the root is skipped for its name.

The walk comes to each place once.  That carries over to the paths, since a path tells the place
(`RepoPath.toPlace_of_ofPlace`): a name has no slash in it, and the bytes of a text tell the text.
So sorting the paths leaves no two alike.  Nor does it matter that the way to a place is a path on
disk and is read as one (`RepoPath.ofRootedBytes_place`): no name on it leads elsewhere.

* `RepoPath.exists_ofPlace_iff`: which places have a path;
* `Session.isTree_after`: the disk of a session;
* `Listing.exists_ofDisk_iff`, `Listing.exists_exact_ofDisk`: which working copies are listed, and
  how; `Session.exact_of_list`: a step that lists one.
-/
import Ownership.Proofs.Listing
import Ownership.Proofs.Listing.Walk
import Ownership.Proofs.Session

namespace Ownership

open Disk (Name Place Node slash bytesOf IsPlace)
open Ownership.Path (Component Signs encode)

/-! ## 1. The path of a place -/

namespace RepoPath

variable {place : Place} {p : RepoPath}

theorem ofPlace_eq_ok_iff :
    ofPlace place = .ok p ↔
      ∃ segs : List (List Char), segs ≠ [] ∧ place = segs.map encode ∧ p = ofSegments segs := by
  have hsegs : ∀ segs, place.mapM textOfName = .ok segs ↔ place = segs.map encode := fun segs => by
    rw [mapM_eq_ok_iff]
    simp only [Path.textOfName_eq_ok_iff]
    rw [← List.forall₂_map_right_iff, List.forall₂_eq_eq_eq]
  rw [ofPlace, bind_eq_ok_iff]
  refine exists_congr fun segs => ?_
  rw [hsegs, ofSegments?_eq_ok_iff, and_left_comm]

/-- **The text of a path from a walk** is that of the place, with slashes between the names. -/
theorem bytesOf_text_of_ofPlace (h : ofPlace place = .ok p) :
    bytesOf p.text = [slash].intercalate place := by
  obtain ⟨segs, -, rfl, rfl⟩ := ofPlace_eq_ok_iff.mp h
  rw [Path.bytesOf_eq, toList_text_ofSegments]
  exact Path.encode_intercalate segs

/-- A place has a path if it is below the top and the names on the way are texts. -/
theorem exists_ofPlace_iff :
    (∃ p, ofPlace place = .ok p) ↔ place ≠ [] ∧ ∀ x ∈ place, ∃ s : String, x = bytesOf s := by
  constructor
  · rintro ⟨p, hp⟩
    obtain ⟨segs, hne, rfl, -⟩ := ofPlace_eq_ok_iff.mp hp
    refine ⟨by simpa using hne, fun x hx => ?_⟩
    obtain ⟨seg, -, rfl⟩ := List.mem_map.mp hx
    exact ⟨String.ofList seg, by rw [Path.bytesOf_eq, String.toList_ofList]⟩
  · rintro ⟨hne, h⟩
    choose! text htext using h
    refine ⟨_, ofPlace_eq_ok_iff.mpr ⟨place.map fun x => (text x).toList, by simpa, ?_, rfl⟩⟩
    rw [List.map_map]
    refine (List.map_id' place).symm.trans (List.map_congr_left fun x hx => ?_)
    rw [Function.comp_apply, ← Path.bytesOf_eq]
    exact htext x hx

/-- The place of a path below the top. -/
def toPlace (p : RepoPath) : Place := (bytesOf p.text).splitOn slash

/-- **A path from a walk** tells the place that the walk came to. -/
theorem toPlace_of_ofPlace (hplace : IsPlace place) (h : ofPlace place = .ok p) :
    p.toPlace = place := by
  obtain ⟨segs, hne, heq, -⟩ := ofPlace_eq_ok_iff.mp h
  rw [RepoPath.toPlace, bytesOf_text_of_ofPlace h,
    List.splitOn_intercalate slash (fun x hx => (hplace x hx).no_slash)]
  simpa [heq] using hne

theorem eq_of_bytesOf_text {q : RepoPath} (h : bytesOf p.text = bytesOf q.text) : p = q := by
  rw [Path.bytesOf_eq, Path.bytesOf_eq] at h
  exact congrArg RepoPath.mk (String.toList_inj.mp (Path.encode_injective h))

theorem component?_of_isFileName {x : Name} (h : Disk.IsFileName x) :
    Signs.bytes.component? x = some (.name x) := by
  refine Signs.component?_eq_some_name_iff.mpr ⟨h.ne_nil, ?_, ?_⟩ <;> rintro rfl
  · exact absurd h.isHere_eq_false (by decide)
  · exact absurd h.isUp_eq_false (by decide)

theorem components_intercalate (hplace : IsPlace place) :
    Signs.bytes.components ([slash].intercalate place) = place.map .name := by
  by_cases hne : place = []
  · rw [hne]
    rfl
  have hsplit : ([slash].intercalate place).splitOn Signs.bytes.slash = place :=
    List.splitOn_intercalate slash (fun x hx => (hplace x hx).no_slash) hne
  have hfile : ∀ x, place.head? = some x → Disk.IsFileName x := fun x hx =>
    hplace x (List.mem_of_head? hx)
  have habsolute : Signs.bytes.isAbsolute ([slash].intercalate place) = false := by
    rw [← Bool.not_eq_true, Signs.isAbsolute, beq_iff_eq]
    intro hhead
    -- A slash in front would leave an empty name before it.
    obtain ⟨rest, hrest⟩ := List.head?_eq_some_iff.mp hhead
    have hcut := List.splitOn_append_cons_self (a := slash) [] rest
    rw [List.nil_append] at hcut
    rw [hrest] at hsplit
    have hempty : place.head? = some [] := by rw [← hsplit]; exact congrArg List.head? hcut
    exact (hfile [] hempty).ne_nil rfl
  have hhere : place.head? ≠ some [Signs.bytes.point] := fun hhead =>
    absurd (hfile _ hhead).isHere_eq_false (by decide)
  have hnames : place.filterMap Signs.bytes.component? = place.map .name := by
    rw [← List.filterMap_eq_map]
    exact List.filterMap_congr fun x hx => component?_of_isFileName (hplace x hx)
  rw [Signs.components, Signs.leading, habsolute, Signs.inner, hsplit, if_neg hhere, hnames]
  rfl

theorem ofByteComponents_map_name (place : Place) :
    ofByteComponents (place.map .name) = ofPlace place := by
  have hsegments : (place.map Component.name).mapM segmentOfBytes =
      (place.mapM textOfName).map (List.map some) := by
    rw [List.mapM_map]
    induction place with
    | nil => rfl
    | cons x xs ih =>
      rw [List.mapM_cons, ih, List.mapM_cons, Function.comp_apply, segmentOfBytes]
      cases textOfName x with
      | error e => rfl
      | ok seg => cases xs.mapM textOfName <;> rfl
  rw [ofByteComponents, hsegments, ofPlace]
  cases place.mapM textOfName with
  | error e => rfl
  | ok segs =>
    have hnames : (segs.map some).filterMap id = segs := by simp
    exact congrArg ofSegments? hnames

/-- **A place read as a path on disk**, relative to any root, names the path that the walk gives
it. -/
theorem ofRootedBytes_place (root : Disk.Path) (hplace : IsPlace place) :
    ofRootedBytes root ([slash].intercalate place) = ofPlace place := by
  have hrelative : Signs.bytes.isAbsolute ([slash].intercalate place) = false := by
    rw [← Bool.not_eq_true, Signs.isAbsolute_iff, components_intercalate hplace]
    simp
  simp only [ofRootedBytes, hrelative, Bool.false_eq_true, if_false,
    components_intercalate hplace, ofByteComponents_map_name]

end RepoPath

/-! ## 2. The disk of a session -/

namespace Session

/-- The session after some steps. -/
def after (s : Session) (steps : List Step) : Session := steps.foldl (fun s x => (s.step x).1) s

theorem changed_alter {s : Session} {r : Except DiskError Disk}
    (hr : ∀ d, r = .ok d → s.disk.root.Changed d.root) :
    s.disk.root.Changed (s.alter r).1.disk.root := by
  cases r with
  | error e => exact .none
  | ok d => exact hr d rfl

/-- What a step does to the tree on the disk. -/
theorem changed_step (s : Session) (x : Step) : s.disk.root.Changed (s.step x).1.disk.root := by
  cases x with
  | configure change => exact .none
  | operate o => rw [step, disk_operate]; exact .none
  | write path content => exact changed_alter fun _ => Disk.changed_write
  | makeDirectory path => exact changed_alter fun _ => Disk.changed_makeDirectory
  | makeLink path target => exact changed_alter fun _ => Disk.changed_makeLink
  | remove path => exact changed_alter fun _ => Disk.changed_remove
  | list root => exact .none

/-- A step leaves a tree on the disk. -/
theorem isTree_step {s : Session} (h : s.disk.IsTree) (x : Step) : (s.step x).1.disk.IsTree :=
  ⟨isNamed_step h.isNamed x, (changed_step s x).distinct h.distinct⟩

/-- **A session has a tree on its disk** after any steps, if it starts on one. -/
theorem isTree_after {s : Session} (h : s.disk.IsTree) (steps : List Step) :
    (s.after steps).disk.IsTree := by
  induction steps generalizing s with
  | nil => exact h
  | cons x xs ih => exact ih (isTree_step h x)

end Session

/-! ## 3. The listing -/

namespace Listing

/-- A sorted listing of paths that differ ascends strictly. -/
theorem ascending_sort {ps : List RepoPath} (h : ps.Nodup) : Ascending (sort ps) := by
  have hnodup : (sort ps).Nodup := (List.mergeSort_perm ps _).nodup_iff.mpr h
  refine ((pairwise_text_sort ps).and hnodup).imp fun {p q} ⟨hle, hne⟩ => ?_
  exact hle.lt_of_ne fun heq => hne (congrArg RepoPath.mk heq)

/-- A working copy can be read if every directory that the walk opens can be opened by its path, and
every name on the way to what is to be listed is a text. -/
structure Readable (root : String) (top : Node) : Prop where
  near : ∀ place, place ≠ [] → top.Opens place → (pathBelow root place).length ≤ Disk.maxPath
  spelled : ∀ place, top.Lists place → ∀ x ∈ place, ∃ s : String, x = bytesOf s

/-- A listing is exact if it ascends strictly and holds the paths of what is to be listed, each of
which is read below the root as itself. -/
structure Exact (root : String) (top : Node) (ps : List RepoPath) : Prop where
  ascending : Ascending ps
  mem_iff : ∀ p : RepoPath, p ∈ ps ↔
    ∃ place, top.Lists place ∧ bytesOf p.text = [slash].intercalate place
  reread : ∀ p ∈ ps, RepoPath.ofRooted root p.text = .ok p

variable {d : Disk} {root : String} {top : Node} {ps : List RepoPath}

/-- A working copy is listed if the walk meets no fault and every place that it comes to has a
path. -/
theorem ofDisk_eq_ok_iff (htop : walkRoot d root = .ok top) :
    ofDisk d root = .ok ps ↔ farFault? root top = none ∧
      ∃ qs, top.leaves.mapM RepoPath.ofPlace = .ok qs ∧ sort qs = ps := by
  rw [ofDisk, mapError_eq_ok_iff.mpr htop, bind_eq_ok_iff]
  simp only [Except.ok.injEq, exists_eq_left']
  cases hfar : farFault? root top with
  | some fault => exact iff_of_false (fun h => by cases h) fun h => by cases h.1
  | none =>
    refine bind_eq_ok_iff.trans ?_
    simp only [mapError_eq_ok_iff, true_and]
    exact exists_congr fun qs => and_congr_right' (iff_of_eq (Except.ok.injEq _ _))

/-- A walk below a directory comes to places below it. -/
theorem ne_nil_of_lists {es : List (Name × Node)} {place : Place}
    (h : (Node.directory es).Lists place) : place ≠ [] := by
  rintro rfl
  obtain ⟨⟨m, hm, hdirectory⟩, -⟩ := h
  cases hm
  cases hdirectory

/-- A path that is listed is read below the root as itself. -/
theorem ofRooted_text_of_mem_ofDisk (hd : d.IsTree) (h : ofDisk d root = .ok ps) {p : RepoPath}
    (hp : p ∈ ps) : RepoPath.ofRooted root p.text = .ok p := by
  obtain ⟨top, htop, place, hplace, hread⟩ := exists_of_mem_ofDisk h hp
  have hnamed := named_of_walkRoot hd.isNamed.root htop
  rw [← RepoPath.ofRootedBytes_bytesOf, RepoPath.bytesOf_text_of_ofPlace hread,
    RepoPath.ofRootedBytes_place _ (Disk.isPlace_of_mem_leaves hnamed hplace), hread]

section Root

variable {es : List (Name × Node)} (hd : d.IsTree) (hroot : walkRoot d root = .ok (.directory es))

include hd hroot

theorem mem_leaves_root_iff {place : Place} :
    place ∈ (Node.directory es).leaves ↔ (Node.directory es).Lists place :=
  Disk.Node.mem_leaves_iff (Disk.distinct_of_nodeAt hd.distinct (nodeAt_of_walkRoot hroot))

/-- **Which working copies can be listed**: those that can be read. -/
theorem exists_ofDisk_iff : (∃ ps, ofDisk d root = .ok ps) ↔ Readable root (.directory es) := by
  have hnear : farFault? root (.directory es) = none ↔ _ :=
    farFault?_eq_none_iff (named_of_walkRoot hd.isNamed.root hroot)
      (Disk.distinct_of_nodeAt hd.distinct (nodeAt_of_walkRoot hroot))
  have hspelled : (∃ qs, (Node.directory es).leaves.mapM RepoPath.ofPlace = .ok qs) ↔
      ∀ place, (Node.directory es).Lists place → ∀ x ∈ place, ∃ s : String, x = bytesOf s := by
    rw [exists_mapM_eq_ok_iff]
    refine forall_congr' fun place => ?_
    rw [mem_leaves_root_iff hd hroot, RepoPath.exists_ofPlace_iff]
    exact forall_congr' fun hlists => and_iff_right (ne_nil_of_lists hlists)
  constructor
  · rintro ⟨ps, hps⟩
    obtain ⟨hfar, qs, hqs, -⟩ := (ofDisk_eq_ok_iff hroot).mp hps
    exact ⟨hnear.mp hfar, hspelled.mp ⟨qs, hqs⟩⟩
  · intro h
    obtain ⟨qs, hqs⟩ := hspelled.mpr h.spelled
    exact ⟨sort qs, (ofDisk_eq_ok_iff hroot).mpr ⟨hnear.mpr h.near, qs, hqs, rfl⟩⟩

theorem ascending_ofDisk (h : ofDisk d root = .ok ps) : Ascending ps := by
  obtain ⟨-, qs, hqs, rfl⟩ := (ofDisk_eq_ok_iff hroot).mp h
  have hnamed := named_of_walkRoot hd.isNamed.root hroot
  -- The paths tell the places that the walk comes to, and it comes to each of them once.
  have hback : qs.map RepoPath.toPlace = (Node.directory es).leaves :=
    map_eq_of_mapM_eq_ok hqs fun place hplace p hp =>
      RepoPath.toPlace_of_ofPlace (Disk.isPlace_of_mem_leaves hnamed hplace) hp
  have hnodup : (qs.map RepoPath.toPlace).Nodup := by
    rw [hback]
    exact Disk.Node.nodup_leaves (Disk.distinct_of_nodeAt hd.distinct (nodeAt_of_walkRoot hroot))
  exact ascending_sort (List.Nodup.of_map _ hnodup)

theorem mem_ofDisk_iff (h : ofDisk d root = .ok ps) {p : RepoPath} :
    p ∈ ps ↔
      ∃ place, (Node.directory es).Lists place ∧ bytesOf p.text = [slash].intercalate place := by
  obtain ⟨-, qs, hqs, rfl⟩ := (ofDisk_eq_ok_iff hroot).mp h
  rw [mem_sort, mem_iff_of_mapM_eq_ok hqs]
  refine exists_congr fun place => ?_
  rw [mem_leaves_root_iff hd hroot]
  refine and_congr_right fun hlists => ⟨RepoPath.bytesOf_text_of_ofPlace, fun heq => ?_⟩
  obtain ⟨q, hq⟩ := exists_mapM_eq_ok_iff.mp ⟨qs, hqs⟩ place
    ((mem_leaves_root_iff hd hroot).mpr hlists)
  rwa [RepoPath.eq_of_bytesOf_text (heq.trans (RepoPath.bytesOf_text_of_ofPlace hq).symm)]

/-- **A listing of a working copy is exact.** -/
theorem exact_ofDisk (h : ofDisk d root = .ok ps) : Exact root (.directory es) ps where
  ascending := ascending_ofDisk hd hroot h
  mem_iff _ := mem_ofDisk_iff hd hroot h
  reread _ := ofRooted_text_of_mem_ofDisk hd h

/-- **The listing of a working copy is complete and exact.**  Below a root that is a directory and
can be read there is a listing; it ascends strictly, it holds the paths of what stands below the
root, is no directory and is in no directory of version control, and reading them again changes
none. -/
theorem exists_exact_ofDisk (hread : Readable root (.directory es)) :
    ∃ ps, ofDisk d root = .ok ps ∧ Exact root (.directory es) ps := by
  obtain ⟨ps, hps⟩ := (exists_ofDisk_iff hd hroot).mpr hread
  exact ⟨ps, hps, exact_ofDisk hd hroot hps⟩

end Root

/-- A root that has the name of a directory of version control, below it such a directory and a file
of that name, a link, and paths in another order than that of the walk. -/
theorem exact_below_root_of_version_control :
    let d := ((Session.start {} "noon").after
      [.write (bytesOf ".git/s/.git") ⟨#[]⟩, .write (bytesOf ".git/.git/HEAD") ⟨#[]⟩,
        .makeLink (bytesOf ".git/b-x") (bytesOf "nowhere"),
        .write (bytesOf ".git/b/c") ⟨#[]⟩]).disk
    ∃ es ps, walkRoot d ".git" = .ok (.directory es) ∧ ofDisk d ".git" = .ok ps ∧
      Exact ".git" (.directory es) ps ∧ ps = [⟨"b-x"⟩, ⟨"b/c"⟩, ⟨"s/.git"⟩] := by
  intro d
  have hd : d.IsTree := Session.isTree_after Disk.isTree_fresh _
  obtain ⟨es, hroot⟩ : ∃ es, walkRoot d ".git" = .ok (.directory es) := ⟨_, rfl⟩
  have hlisted : ofDisk d ".git" = .ok (sort [⟨"b/c"⟩, ⟨"b-x"⟩, ⟨"s/.git"⟩]) := rfl
  obtain ⟨ps, hps, hexact⟩ :=
    exists_exact_ofDisk hd hroot ((exists_ofDisk_iff hd hroot).mp ⟨_, hlisted⟩)
  refine ⟨es, ps, hroot, hps, hexact, ?_⟩
  rw [Except.ok.inj (hps.symm.trans hlisted)]
  simp [sort, List.mergeSort]

end Listing

/-- **In any session a listing is exact.** -/
theorem Session.exact_of_list {setup : Setup} {now : String} {steps : List Step} {root : String}
    {es : List (Name × Node)} {ps : List RepoPath}
    (hroot : walkRoot ((Session.start setup now).after steps).disk root = .ok (.directory es))
    (h : (((Session.start setup now).after steps).step (.list root)).2.value = .ok (.listed ps)) :
    Listing.Exact root (.directory es) ps := by
  have hd : ((Session.start setup now).after steps).disk.IsTree :=
    Session.isTree_after Disk.isTree_fresh steps
  obtain ⟨ps, hps, heq⟩ := map_eq_ok_iff.mp (mapError_eq_ok_iff.mp h)
  cases heq
  exact Listing.exact_ofDisk hd hroot hps

end Ownership
