/-
# The entries of a directory

A directory is a list of entries, and nothing in the type of a disk keeps it from holding two under
one name; a walk along the list would then come to what no path leads to.  What keeps it is how a
disk is changed.  Every change puts something without entries somewhere, or takes something away,
any number of times (`Node.Changed`), and both drop the entry whose name they write.

* `Node.Distinct`: the property of a tree;
* `distinct_put`, `distinct_remove`: one change of a tree;
* `changed_write`, `changed_makeDirectory`, `changed_makeLink`, `changed_remove`: what a change of a
  disk does to its tree;
* `Disk.IsTree`: disks whose names and entries are such as directories can hold.
-/
import Ownership.Proofs.Disk

namespace Ownership.Disk

/-! ## 1. Entries of one name -/

mutual

/-- No directory at or below a node has two entries of one name. -/
def Node.Distinct : Node → Prop
  | .file _ | .link _ => True
  | .directory es => (es.map Prod.fst).Nodup ∧ Node.DistinctIn es

/-- No directory below the entries of a directory has. -/
def Node.DistinctIn : List (Name × Node) → Prop
  | [] => True
  | (_, n) :: es => n.Distinct ∧ Node.DistinctIn es

end

theorem distinctIn_iff {es : List (Name × Node)} :
    Node.DistinctIn es ↔ ∀ e ∈ es, e.2.Distinct := by
  induction es with
  | nil => exact iff_of_true trivial fun e he => absurd he List.not_mem_nil
  | cons e es ih => rw [Node.DistinctIn, ih, List.forall_mem_cons]

theorem distinct_directory_iff {es : List (Name × Node)} :
    (Node.directory es).Distinct ↔ (es.map Prod.fst).Nodup ∧ ∀ e ∈ es, e.2.Distinct := by
  rw [Node.Distinct, distinctIn_iff]

/-- What has no entries has no two of one name. -/
theorem distinct_of_entries_eq_nil {n : Node} (h : n.entries = []) : n.Distinct := by
  cases n with
  | file content | link target => rw [Node.Distinct]; trivial
  | directory es =>
    obtain rfl : es = [] := h
    exact distinct_directory_iff.mpr ⟨List.nodup_nil, List.forall_mem_nil _⟩

theorem distinct_entries {n : Node} (h : n.Distinct) :
    (n.entries.map Prod.fst).Nodup ∧ ∀ e ∈ n.entries, e.2.Distinct := by
  cases n with
  | file content | link target => exact ⟨List.nodup_nil, List.forall_mem_nil _⟩
  | directory es => exact distinct_directory_iff.mp h

/-- **Where names are distinct**, every entry is the one that its name leads to. -/
theorem lookup_eq_some_iff {es : List (Name × Node)} (h : (es.map Prod.fst).Nodup) {x : Name}
    {n : Node} : es.lookup x = some n ↔ (x, n) ∈ es := by
  induction es with
  | nil => simp
  | cons e es ih =>
    obtain ⟨y, m⟩ := e
    rw [List.map_cons, List.nodup_cons] at h
    rw [List.lookup_cons, List.mem_cons, Prod.mk.injEq]
    by_cases hx : x = y
    · subst hx
      have hbehind : (x, n) ∉ es := fun hmem => h.1 (List.mem_map.mpr ⟨_, hmem, rfl⟩)
      simp [hbehind, eq_comm]
    · simp only [beq_eq_false_iff_ne.mpr hx, hx, false_and, false_or]
      exact ih h.2

theorem distinct_of_child? {n c : Node} {x : Name} (h : n.Distinct) (hc : n.child? x = some c) :
    c.Distinct := by
  obtain ⟨hnodup, hentries⟩ := distinct_entries h
  exact hentries _ ((lookup_eq_some_iff hnodup).mp hc)

theorem distinct_of_find? {place : Place} :
    ∀ {n m : Node}, n.Distinct → n.find? place = some m → m.Distinct := by
  induction place with
  | nil =>
    intro n m h hfind
    cases hfind
    exact h
  | cons x xs ih =>
    intro n m h hfind
    obtain ⟨c, hc, hm⟩ := Option.bind_eq_some_iff.mp hfind
    exact ih (distinct_of_child? h hc) hm

/-! ## 2. Changes to a tree -/

theorem distinct_dropEntry {n : Node} (h : n.Distinct) (x : Name) :
    (Node.directory (Node.dropEntry n.entries x)).Distinct := by
  obtain ⟨hnodup, hentries⟩ := distinct_entries h
  refine distinct_directory_iff.mpr ⟨?_, fun e he => hentries e (mem_of_mem_dropEntry he)⟩
  exact hnodup.sublist (List.filter_sublist.map Prod.fst)

/-- An entry that is written comes in place of the one of its name. -/
theorem distinct_setEntry {n new : Node} (h : n.Distinct) (x : Name) (hnew : new.Distinct) :
    (Node.directory (Node.setEntry n.entries x new)).Distinct := by
  obtain ⟨hnodup, hentries⟩ := distinct_directory_iff.mp (distinct_dropEntry h x)
  refine distinct_directory_iff.mpr ⟨List.nodup_cons.mpr ⟨fun hmem => ?_, hnodup⟩,
    List.forall_mem_cons.mpr ⟨hnew, hentries⟩⟩
  obtain ⟨e, he, heq⟩ := List.mem_map.mp hmem
  exact absurd heq (by simpa using (List.mem_filter.mp he).2)

theorem distinct_put {place : Place} {new : Node} (hnew : new.Distinct) :
    ∀ {n : Node}, n.Distinct → (n.put place new).Distinct := by
  induction place with
  | nil => exact fun _ => by rwa [Node.put]
  | cons x xs ih =>
    intro n h
    rw [Node.put]
    refine distinct_setEntry h x (ih ?_)
    cases hc : n.child? x with
    | none => exact distinct_of_entries_eq_nil rfl
    | some c => exact distinct_of_child? h hc

theorem distinct_remove {place : Place} :
    ∀ {n : Node}, n.Distinct → (n.remove place).Distinct := by
  induction place with
  | nil => exact fun h => by rwa [Node.remove]
  | cons x xs ih =>
    intro n h
    rw [Node.remove]
    split
    · exact h
    · rename_i c hc
      split
      · exact distinct_dropEntry h x
      · exact distinct_setEntry h x (ih (distinct_of_child? h hc))

/-! ## 3. Changes to a disk -/

/-- The trees that a tree can be changed into: something without entries is put at a place, or what
stands at a place is taken away, any number of times. -/
inductive Node.Changed (n : Node) : Node → Prop
  | none : Changed n n
  | put {m new : Node} (place : Place) :
    Changed n m → new.entries = [] → Changed n (m.put place new)
  | remove {m : Node} (place : Place) : Changed n m → Changed n (m.remove place)

/-- **Whatever a tree is changed into**, its entries stay distinct. -/
theorem Node.Changed.distinct {n m : Node} (h : n.Changed m) (hn : n.Distinct) : m.Distinct := by
  induction h with
  | none => exact hn
  | put place _ hnew ih => exact distinct_put (distinct_of_entries_eq_nil hnew) ih
  | remove place _ ih => exact distinct_remove ih

theorem changed_makeWay {n : Node} {rest : List Name} :
    ∀ {m : Node} {place : Place}, n.Changed m → n.Changed (makeWay m place rest).1 := by
  induction rest with
  | nil => exact fun h => h
  | cons x xs ih =>
    intro m place h
    unfold makeWay
    split
    · exact ih h
    · split
      · exact ih h
      · refine ih ?_
        split
        · exact h
        · exact .put _ h rfl

variable {d d' : Disk} {p target : Path}

theorem changed_putBelow (place : Place) (rest : List Name) {new : Node} (hnew : new.entries = []) :
    d.root.Changed (d.putBelow place rest new).root :=
  .put _ (changed_makeWay .none) hnew

theorem changed_write {content : ByteArray} (hd : d.write p content = .ok d') :
    d.root.Changed d'.root := by
  obtain ⟨w, -, rfl⟩ := exists_of_write hd
  exact changed_putBelow w.place w.rest rfl

theorem changed_makeDirectory (hd : d.makeDirectory p = .ok d') : d.root.Changed d'.root := by
  obtain rfl | ⟨place, rest, -, rfl⟩ := exists_of_makeDirectory hd
  · exact .none
  · exact changed_makeWay .none

theorem changed_makeLink (hd : d.makeLink p target = .ok d') : d.root.Changed d'.root := by
  obtain ⟨w, -, rfl⟩ := exists_of_makeLink hd
  exact changed_putBelow w.place w.rest rfl

theorem changed_remove (hd : d.remove p = .ok d') : d.root.Changed d'.root := by
  obtain ⟨place, -, rfl⟩ := exists_of_remove hd
  exact .remove place .none

/-! ## 4. Disks -/

/-- **A disk is a tree** if its names are such as directories can hold, and each directory holds one
entry of a name. -/
structure IsTree (d : Disk) : Prop where
  isNamed : d.IsNamed
  distinct : d.root.Distinct

theorem isTree_fresh : fresh.IsTree := by
  refine ⟨isNamed_fresh, distinct_directory_iff.mpr ⟨List.pairwise_singleton _ _, ?_⟩⟩
  exact List.forall_mem_singleton.mpr (distinct_of_entries_eq_nil rfl)

theorem distinct_of_nodeAt (h : d.root.Distinct) {through : Bool} {n : Node}
    (hn : d.nodeAt p through = .ok n) : n.Distinct := by
  obtain ⟨place, hfind⟩ := exists_find?_of_nodeAt hn
  exact distinct_of_find? h hfind

end Ownership.Disk
