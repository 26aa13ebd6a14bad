/-
# The names on a disk

Nothing in the type of a disk keeps a directory from holding a name that leads elsewhere: the empty
one, `.`, `..`, or one with a slash in it.  What keeps it is how a disk is changed.  A path is cut
at its slashes and followed piece by piece; the pieces that lead elsewhere are walked and never
become names, and only the others are put into a tree.

So the property is carried along three walks, each by induction on the pieces that are left: through
a tree (`Node.find?`, `Node.put`, `Node.remove`), along a path up to the next link (`advance`), and
through what is missing (`makeWay`).  Each change to a disk then keeps it.

* `Node.Named`: the property of a tree, `IsNamed` that of a disk;
* `named_put`, `named_remove`: trees;
* `isNamed_lookup`: where a path leads;
* `exists_of_write`, `exists_of_makeDirectory`, `exists_of_makeLink`, `exists_of_remove`: what a
  change of a disk does;
* `isNamed_fresh`, `isNamed_write`, `isNamed_makeDirectory`, `isNamed_makeLink`, `isNamed_remove`:
  disks.
-/
import Ownership.Disk.Change
import Ownership.Proofs.Result
import Ownership.Proofs.Text

namespace Ownership

namespace Disk

/-! ## 1. Names in a tree -/

/-- A name that a directory can hold: it is not empty, it has no slash, and it is neither of the
two names that lead elsewhere. -/
structure IsFileName (x : Name) : Prop where
  isHere_eq_false : isHere x = false
  isUp_eq_false : isUp x = false
  no_slash : slash ∉ x

theorem IsFileName.ne_nil {x : Name} (h : IsFileName x) : x ≠ [] := by
  rintro rfl
  exact absurd h.isHere_eq_false (by decide)

mutual

/-- All names below a node are names that a directory can hold. -/
def Node.Named : Node → Prop
  | .file _ | .link _ => True
  | .directory es => Node.NamedIn es

/-- All names in and below the entries of a directory are. -/
def Node.NamedIn : List (Name × Node) → Prop
  | [] => True
  | (x, n) :: es => IsFileName x ∧ n.Named ∧ Node.NamedIn es

end

theorem namedIn_iff {es : List (Name × Node)} :
    Node.NamedIn es ↔ ∀ e ∈ es, IsFileName e.1 ∧ e.2.Named := by
  induction es with
  | nil => exact iff_of_true trivial fun e he => absurd he List.not_mem_nil
  | cons e es ih => rw [Node.NamedIn, ih, List.forall_mem_cons, and_assoc]

theorem named_directory_iff {es : List (Name × Node)} :
    (Node.directory es).Named ↔ ∀ e ∈ es, IsFileName e.1 ∧ e.2.Named := by
  rw [Node.Named, namedIn_iff]

theorem named_file (content : ByteArray) : (Node.file content).Named := by rw [Node.Named]; trivial

theorem named_link (target : Path) : (Node.link target).Named := by rw [Node.Named]; trivial

theorem named_emptyDirectory : Node.emptyDirectory.Named :=
  named_directory_iff.mpr fun _ he => absurd he List.not_mem_nil

theorem named_of_mem_entries {n : Node} (h : n.Named) {e : Name × Node} (he : e ∈ n.entries) :
    IsFileName e.1 ∧ e.2.Named := by
  cases n with
  | file content => exact absurd he List.not_mem_nil
  | link target => exact absurd he List.not_mem_nil
  | directory es => exact named_directory_iff.mp h e he

theorem mem_entries_of_child? {n c : Node} {x : Name} (h : n.child? x = some c) :
    (x, c) ∈ n.entries := by
  obtain ⟨l₁, l₂, hes, -⟩ := List.lookup_eq_some_iff.mp h
  exact hes ▸ List.mem_append_right l₁ List.mem_cons_self

theorem named_of_child? {n c : Node} {x : Name} (h : n.Named) (hc : n.child? x = some c) :
    c.Named :=
  (named_of_mem_entries h (mem_entries_of_child? hc)).2

/-- What stands at a place below a node has names that stand below the node. -/
theorem named_of_find? {place : Place} :
    ∀ {n m : Node}, n.Named → n.find? place = some m → m.Named := by
  induction place with
  | nil =>
    intro n m h hfind
    cases hfind
    exact h
  | cons x xs ih =>
    intro n m h hfind
    obtain ⟨c, hc, hm⟩ := Option.bind_eq_some_iff.mp hfind
    exact ih (named_of_child? h hc) hm

/-! ## 2. Changes to a tree -/

/-- The names on the way to a place are names that directories can hold. -/
def IsPlace (place : Place) : Prop := ∀ x ∈ place, IsFileName x

/-- The way to what stands below a node goes along such names. -/
theorem isPlace_of_find? {place : Place} :
    ∀ {n m : Node}, n.Named → n.find? place = some m → IsPlace place := by
  induction place with
  | nil => exact fun _ _ => List.forall_mem_nil _
  | cons x xs ih =>
    intro n m h hfind
    obtain ⟨c, hc, hm⟩ := Option.bind_eq_some_iff.mp hfind
    exact List.forall_mem_cons.mpr
      ⟨(named_of_mem_entries h (mem_entries_of_child? hc)).1, ih (named_of_child? h hc) hm⟩

theorem mem_of_mem_dropEntry {es : List (Name × Node)} {x : Name} {e : Name × Node}
    (he : e ∈ Node.dropEntry es x) : e ∈ es :=
  List.mem_of_mem_filter he

theorem named_setEntry {n new : Node} {x : Name} (h : n.Named) (hx : IsFileName x)
    (hnew : new.Named) : (Node.directory (Node.setEntry n.entries x new)).Named := by
  refine named_directory_iff.mpr fun e he => ?_
  rcases List.mem_cons.mp he with rfl | he
  · exact ⟨hx, hnew⟩
  · exact named_of_mem_entries h (mem_of_mem_dropEntry he)

theorem named_put {place : Place} {new : Node} (hnew : new.Named) :
    ∀ {n : Node}, n.Named → IsPlace place → (n.put place new).Named := by
  induction place with
  | nil => exact fun _ _ => by rwa [Node.put]
  | cons x xs ih =>
    intro n h hplace
    obtain ⟨hx, hxs⟩ := List.forall_mem_cons.mp hplace
    rw [Node.put]
    refine named_setEntry h hx (ih ?_ hxs)
    cases hc : n.child? x with
    | none => exact named_emptyDirectory
    | some c => exact named_of_child? h hc

theorem named_remove {place : Place} :
    ∀ {n : Node}, n.Named → IsPlace place → (n.remove place).Named := by
  induction place with
  | nil => exact fun h _ => by rwa [Node.remove]
  | cons x xs ih =>
    intro n h hplace
    obtain ⟨hx, hxs⟩ := List.forall_mem_cons.mp hplace
    rw [Node.remove]
    split
    · exact h
    · rename_i c hc
      split
      · exact named_directory_iff.mpr fun e he => named_of_mem_entries h (mem_of_mem_dropEntry he)
      · exact named_setEntry h hx (ih (named_of_child? h hc) hxs)

/-! ## 3. Looking up a path -/

/-- Pieces of a path: what stands between its slashes. -/
def ArePieces (xs : List Name) : Prop := ∀ x ∈ xs, slash ∉ x

theorem arePieces_pieces (p : Path) : ArePieces (pieces p) :=
  fun _ hx => Text.not_mem_of_mem_splitOn hx

/-- A lookup stands at a place, with pieces left. -/
def Advance.IsNamed : Advance → Prop
  | .done place => IsPlace place
  | .broken place rest | .onto place _ rest => IsPlace place ∧ ArePieces rest
  | .refused _ => True

/-- A path leads to a place, or breaks off at one, with pieces left. -/
def Whereabouts.IsNamed : Whereabouts → Prop
  | .found place => IsPlace place
  | .broken place rest => IsPlace place ∧ ArePieces rest

theorem isPlace_concat {place : Place} {x : Name} (h : IsPlace place) (hx : IsFileName x) :
    IsPlace (place ++ [x]) :=
  List.forall_mem_append.mpr ⟨h, List.forall_mem_singleton.mpr hx⟩

theorem isPlace_dropLast {place : Place} (h : IsPlace place) : IsPlace place.dropLast :=
  fun x hx => h x (List.dropLast_subset _ hx)

/-- **Along a path** only pieces that lead down become names on the way. -/
theorem isNamed_advance (root : Node) (through : Bool) {xs : List Name} :
    ∀ {place : Place}, IsPlace place → ArePieces xs → (advance root through place xs).IsNamed := by
  induction xs with
  | nil => exact fun h _ => h
  | cons x xs ih =>
    intro place h hpieces
    obtain ⟨hx, hxs⟩ := List.forall_mem_cons.mp hpieces
    unfold advance
    split
    · split
      · exact ih h hxs
      · rename_i hhere
        split
        · exact ih (isPlace_dropLast h) hxs
        · rename_i hup
          have hname : IsFileName x :=
            ⟨Bool.eq_false_iff.mpr hhere, Bool.eq_false_iff.mpr hup, hx⟩
          split
          · trivial
          · split
            · exact ⟨h, hpieces⟩
            · split
              · exact isPlace_concat h hname
              · exact ⟨h, hxs⟩
            · exact ih (isPlace_concat h hname) hxs
    · trivial

theorem isPlace_startOf {place : Place} (h : IsPlace place) (p : Path) :
    IsPlace (startOf place p) := by
  unfold startOf
  split
  · exact fun x hx => absurd hx List.not_mem_nil
  · exact h

/-- Links on the way are followed piece by piece too. -/
theorem isNamed_follow {root : Node} {through : Bool} {links : Nat} {place : Place}
    {xs : List Name} {w : Whereabouts} (h : IsPlace place) (hxs : ArePieces xs)
    (hw : follow root through links place xs = .ok w) : w.IsNamed := by
  fun_induction follow root through links place xs with
  | case1 links place xs place' hdone =>
    cases hw
    have h' := isNamed_advance root through h hxs
    rwa [hdone] at h'
  | case2 links place xs place' rest hbroken =>
    cases hw
    have h' := isNamed_advance root through h hxs
    rwa [hbroken] at h'
  | case3 links place xs e hrefused => cases hw
  | case4 place xs place' target rest honto => cases hw
  | case5 place xs place' target rest honto links ih =>
    have h' := isNamed_advance root through h hxs
    rw [honto] at h'
    exact ih (isPlace_startOf h'.1 target)
      (List.forall_mem_append.mpr ⟨arePieces_pieces target, h'.2⟩) hw

/-- A disk is named if its tree is, and the way to its working directory. -/
structure IsNamed (d : Disk) : Prop where
  root : d.root.Named
  current : IsPlace d.current

variable {d d' : Disk} {p target : Path}

/-- **A path leads to a place**, or breaks off at one. -/
theorem isNamed_lookup (h : d.IsNamed) {through : Bool} {w : Whereabouts}
    (hw : d.lookup p through = .ok w) : w.IsNamed := by
  unfold lookup at hw
  split at hw
  · cases hw
  · split at hw
    · cases hw
    · exact isNamed_follow (isPlace_startOf h.current p) (arePieces_pieces p) hw

/-- What a path leads to stands somewhere in the tree. -/
theorem exists_find?_of_nodeAt {through : Bool} {n : Node} (hn : d.nodeAt p through = .ok n) :
    ∃ place, d.root.find? place = some n := by
  obtain ⟨w, -, hw⟩ := bind_eq_ok_iff.mp hn
  cases w with
  | broken place rest => cases hw
  | found place =>
    cases hfind : d.root.find? place with
    | none => simp only [hfind] at hw; cases hw
    | some m =>
      simp only [hfind] at hw
      cases hw
      exact ⟨place, hfind⟩

theorem named_of_nodeAt (h : d.root.Named) {through : Bool} {n : Node}
    (hn : d.nodeAt p through = .ok n) : n.Named := by
  obtain ⟨place, hfind⟩ := exists_find?_of_nodeAt hn
  exact named_of_find? h hfind

/-! ## 4. Changes to a disk -/

/-- The place that a path gets to. -/
def Whereabouts.place : Whereabouts → Place
  | .found place | .broken place _ => place

/-- The pieces that a path has left there. -/
def Whereabouts.rest : Whereabouts → List Name
  | .found _ => []
  | .broken _ rest => rest

theorem Whereabouts.IsNamed.place_rest {w : Whereabouts} (h : w.IsNamed) :
    IsPlace w.place ∧ ArePieces w.rest := by
  cases w with
  | found place => exact ⟨h, List.forall_mem_nil _⟩
  | broken place rest => exact h

theorem exists_of_write {content : ByteArray} (hd : d.write p content = .ok d') :
    ∃ w, d.lookup p true = .ok w ∧ d' = d.putBelow w.place w.rest (.file content) := by
  obtain ⟨w, hw, hd⟩ := bind_eq_ok_iff.mp hd
  refine ⟨w, hw, ?_⟩
  cases w with
  | broken place rest => exact (Except.ok.inj hd).symm
  | found place =>
    simp only at hd
    split at hd
    · cases hd
    · exact (Except.ok.inj hd).symm

theorem exists_of_makeDirectory (hd : d.makeDirectory p = .ok d') :
    d' = d ∨ ∃ place rest, d.lookup p true = .ok (.broken place rest) ∧
      d' = { d with root := (makeWay d.root place rest).1 } := by
  obtain ⟨w, hw, hd⟩ := bind_eq_ok_iff.mp hd
  cases w with
  | broken place rest => exact .inr ⟨place, rest, hw, (Except.ok.inj hd).symm⟩
  | found place =>
    simp only at hd
    split at hd
    · exact .inl (Except.ok.inj hd).symm
    · cases hd

theorem exists_of_makeLink (hd : d.makeLink p target = .ok d') :
    ∃ w, d.lookup p false = .ok w ∧ d' = d.putBelow w.place w.rest (.link target) := by
  obtain ⟨w, hw, hd⟩ := bind_eq_ok_iff.mp hd
  refine ⟨w, hw, ?_⟩
  cases w <;> exact (Except.ok.inj hd).symm

theorem exists_of_remove (hd : d.remove p = .ok d') :
    ∃ place, d.lookup p false = .ok (.found place) ∧ d' = { d with root := d.root.remove place } := by
  obtain ⟨w, hw, hd⟩ := bind_eq_ok_iff.mp hd
  cases w with
  | broken place rest => cases hd
  | found place => exact ⟨place, hw, (Except.ok.inj hd).symm⟩

theorem isNamed_fresh : fresh.IsNamed := by
  have hwork : IsFileName workName := ⟨by decide, by decide, by decide⟩
  refine ⟨named_directory_iff.mpr fun e he => ?_, fun x hx => ?_⟩
  · rw [List.mem_singleton.mp he]
    exact ⟨hwork, named_emptyDirectory⟩
  · rw [List.mem_singleton.mp hx]
    exact hwork

/-- What is missing of a path is made of the pieces that lead down. -/
theorem named_makeWay {rest : List Name} :
    ∀ {root : Node} {place : Place}, root.Named → IsPlace place → ArePieces rest →
      (makeWay root place rest).1.Named ∧ IsPlace (makeWay root place rest).2 := by
  induction rest with
  | nil => exact fun hroot hplace _ => ⟨hroot, hplace⟩
  | cons x xs ih =>
    intro root place hroot hplace hpieces
    obtain ⟨hx, hxs⟩ := List.forall_mem_cons.mp hpieces
    unfold makeWay
    split
    · exact ih hroot hplace hxs
    · rename_i hhere
      split
      · exact ih hroot (isPlace_dropLast hplace) hxs
      · rename_i hup
        have hnext : IsPlace (place ++ [x]) := isPlace_concat hplace
          ⟨Bool.eq_false_iff.mpr hhere, Bool.eq_false_iff.mpr hup, hx⟩
        refine ih ?_ hnext hxs
        split
        · exact hroot
        · exact named_put named_emptyDirectory hroot hnext

theorem isNamed_putBelow (h : d.IsNamed) {place : Place} {rest : List Name}
    (hplace : IsPlace place) (hrest : ArePieces rest) {new : Node} (hnew : new.Named) :
    (d.putBelow place rest new).IsNamed := by
  have hway := named_makeWay h.root hplace hrest
  exact ⟨named_put hnew hway.1 hway.2, h.current⟩

theorem isNamed_write (h : d.IsNamed) {content : ByteArray} (hd : d.write p content = .ok d') :
    d'.IsNamed := by
  obtain ⟨w, hw, rfl⟩ := exists_of_write hd
  obtain ⟨hplace, hrest⟩ := (isNamed_lookup h hw).place_rest
  exact isNamed_putBelow h hplace hrest (named_file content)

theorem isNamed_makeDirectory (h : d.IsNamed) (hd : d.makeDirectory p = .ok d') : d'.IsNamed := by
  obtain rfl | ⟨place, rest, hw, rfl⟩ := exists_of_makeDirectory hd
  · exact h
  · obtain ⟨hplace, hrest⟩ := isNamed_lookup h hw
    exact ⟨(named_makeWay h.root hplace hrest).1, h.current⟩

theorem isNamed_makeLink (h : d.IsNamed) (hd : d.makeLink p target = .ok d') : d'.IsNamed := by
  obtain ⟨w, hw, rfl⟩ := exists_of_makeLink hd
  obtain ⟨hplace, hrest⟩ := (isNamed_lookup h hw).place_rest
  exact isNamed_putBelow h hplace hrest (named_link target)

theorem isNamed_remove (h : d.IsNamed) (hd : d.remove p = .ok d') : d'.IsNamed := by
  obtain ⟨place, hw, rfl⟩ := exists_of_remove hd
  have hplace : IsPlace place := isNamed_lookup h hw
  exact ⟨named_remove h.root hplace, h.current⟩

end Disk

end Ownership
