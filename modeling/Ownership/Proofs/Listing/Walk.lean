/-
# Where the walk of a working copy comes to

A walk goes down a tree entry by entry.  What it comes to is told by the places that lead there: it
comes to whatever is no directory, unless a directory of version control stands on the way, where no
directory holds two entries of one name; and to each place once, since the names of the entries tell
the places below them apart.

A directory is opened by its path, and one whose path is too long ends the walk.  The walk counts
down the room that is left for names on its way; names take room themselves, so that what it counts
is how long the path is.

* `Node.Lists`: what a listing is to hold; `Node.Opens`: the directories that a walk opens;
* `Node.mem_leaves_iff`, `Node.nodup_leaves`: where a walk comes to;
* `Node.firstFar?_eq_none_iff`, `farFault?_eq_none_iff`: when it goes on everywhere.
-/
import Mathlib.Data.List.Nodup
import Ownership.Listing.WorkingCopy
import Ownership.Proofs.Disk.Distinct

namespace Ownership

open Disk (Name Place Node slash bytesOf IsPlace)

namespace Disk.Node

/-! ## 1. Where a walk comes to -/

/-- **What a listing holds**: at the place stands what is no directory, and no directory on the way
there, below the top, is one of version control. -/
structure Lists (top : Node) (place : Place) : Prop where
  standing : ∃ n, top.find? place = some n ∧ n.isDirectory = false
  clear : ∀ x ∈ place.dropLast, x ≠ bytesOf ".git"

/-- The directories that a walk opens: none of version control, nor one below such a one. -/
structure Opens (top : Node) (place : Place) : Prop where
  standing : ∃ n, top.find? place = some n ∧ n.isDirectory = true
  clear : ∀ x ∈ place, x ≠ bytesOf ".git"

theorem isSkipped_iff {x : Name} {n : Node} :
    isSkipped x n = true ↔ n.isDirectory = true ∧ x = bytesOf ".git" := by
  simp [isSkipped, skippedDirectories]

theorem isDirectory_of_child? {n c : Node} {x : Name} (h : n.child? x = some c) :
    n.isDirectory = true := by
  cases n with
  | file content | link target => cases h
  | directory es => rfl

/-- What a listing holds behind a name: what the listing of the entry does, unless the entry is
skipped. -/
theorem lists_cons_iff {n : Node} {x : Name} {xs : Place} :
    n.Lists (x :: xs) ↔
      ∃ c, n.child? x = some c ∧ isSkipped x c = false ∧ c.Lists xs := by
  have hskip : ∀ c, isSkipped x c = false ↔ c.isDirectory = true → x ≠ bytesOf ".git" := fun c => by
    rw [← Bool.not_eq_true, isSkipped_iff, not_and]
  constructor
  · rintro ⟨⟨m, hm, hdirectory⟩, hclear⟩
    obtain ⟨c, hc, hm⟩ := Option.bind_eq_some_iff.mp hm
    refine ⟨c, hc, (hskip c).mpr fun hdir => ?_, ⟨m, hm, hdirectory⟩, ?_⟩
    · cases xs with
      | nil =>
        cases hm
        exact absurd hdir (Bool.eq_false_iff.mp hdirectory)
      | cons y ys => exact hclear x List.mem_cons_self
    · cases xs with
      | nil => exact List.forall_mem_nil _
      | cons y ys => exact fun z hz => hclear z (List.mem_cons_of_mem _ hz)
  · rintro ⟨c, hc, hskipped, ⟨m, hm, hdirectory⟩, hclear⟩
    refine ⟨⟨m, Option.bind_eq_some_iff.mpr ⟨c, hc, hm⟩, hdirectory⟩, ?_⟩
    cases xs with
    | nil => exact List.forall_mem_nil _
    | cons y ys =>
      obtain ⟨_, hchild, -⟩ := Option.bind_eq_some_iff.mp hm
      exact List.forall_mem_cons.mpr
        ⟨(hskip c).mp hskipped (isDirectory_of_child? hchild), hclear⟩

/-- A walk along entries comes to what it comes to below each of them that is not skipped. -/
theorem mem_leavesIn_iff {es : List (Name × Node)} {place : Place} :
    place ∈ leavesIn es ↔
      ∃ e ∈ es, isSkipped e.1 e.2 = false ∧ ∃ below ∈ e.2.leaves, e.1 :: below = place := by
  induction es with
  | nil => simp [leavesIn]
  | cons e es ih =>
    obtain ⟨x, n⟩ := e
    rw [leavesIn, List.mem_append, ih, List.exists_mem_cons_iff]
    cases isSkipped x n <;> simp

/-- **A walk comes to what a listing is to hold**, and to nothing else. -/
theorem mem_leaves_iff {place : Place} :
    ∀ {n : Node}, n.Distinct → (place ∈ n.leaves ↔ n.Lists place) := by
  induction place with
  | nil =>
    intro n _
    cases n with
    | file content | link target =>
      exact iff_of_true (by rw [leaves]; exact List.mem_singleton_self _)
        ⟨⟨_, rfl, rfl⟩, List.forall_mem_nil _⟩
    | directory es =>
      refine iff_of_false (fun h => ?_) fun ⟨⟨m, hm, hdirectory⟩, _⟩ => ?_
      · rw [leaves, mem_leavesIn_iff] at h
        obtain ⟨_, -, -, _, -, h⟩ := h
        cases h
      · cases hm
        cases hdirectory
  | cons x xs ih =>
    intro n hn
    rw [lists_cons_iff]
    cases n with
    | file content | link target =>
      refine iff_of_false (fun h => ?_) fun ⟨c, hc, _⟩ => by cases hc
      rw [leaves, List.mem_singleton] at h
      cases h
    | directory es =>
      obtain ⟨hnodup, hentries⟩ := distinct_directory_iff.mp hn
      rw [leaves, mem_leavesIn_iff]
      constructor
      · rintro ⟨⟨y, c⟩, hmem, hskipped, below, hbelow, heq⟩
        cases heq
        exact ⟨c, (lookup_eq_some_iff hnodup).mpr hmem, hskipped, (ih (hentries _ hmem)).mp hbelow⟩
      · rintro ⟨c, hc, hskipped, hlists⟩
        have hmem := (lookup_eq_some_iff hnodup).mp hc
        exact ⟨(x, c), hmem, hskipped, xs, (ih (hentries _ hmem)).mpr hlists, rfl⟩

mutual

/-- **A walk comes to each place once.** -/
theorem nodup_leaves : ∀ {n : Node}, n.Distinct → n.leaves.Nodup
  | .file _, _ | .link _, _ => by rw [leaves]; exact List.pairwise_singleton _ _
  | .directory _, h => by
    rw [Distinct] at h
    rw [leaves]
    exact nodup_leavesIn h.1 h.2

theorem nodup_leavesIn : ∀ {es : List (Name × Node)},
    (es.map Prod.fst).Nodup → DistinctIn es → (leavesIn es).Nodup
  | [], _, _ => by rw [leavesIn]; exact List.nodup_nil
  | (x, n) :: es, hnames, hentries => by
    rw [List.map_cons, List.nodup_cons] at hnames
    rw [DistinctIn] at hentries
    rw [leavesIn, List.nodup_append']
    refine ⟨?first, nodup_leavesIn hnames.2 hentries.2, ?apart⟩
    case first =>
      split
      · exact List.nodup_nil
      · exact (nodup_leaves hentries.1).map List.cons_injective
    case apart =>
      -- Places below this entry start with its name, those below the others do not.
      intro place hfirst hrest
      obtain ⟨e, he, -, below, -, rfl⟩ := mem_leavesIn_iff.mp hrest
      split at hfirst
      · exact absurd hfirst List.not_mem_nil
      · obtain ⟨_, -, heq⟩ := List.mem_map.mp hfirst
        exact hnames.1 (List.mem_map.mpr ⟨e, he, (List.cons.inj heq).1.symm⟩)

end

/-! ## 2. How far a walk gets -/

/-- A directory that a walk opens behind a name. -/
theorem opens_cons_iff {n : Node} {x : Name} {xs : Place} :
    n.Opens (x :: xs) ↔
      ∃ c, n.child? x = some c ∧ c.isDirectory = true ∧ isSkipped x c = false ∧ c.Opens xs := by
  constructor
  · rintro ⟨⟨m, hm, hdirectory⟩, hclear⟩
    obtain ⟨c, hc, hm⟩ := Option.bind_eq_some_iff.mp hm
    obtain ⟨hx, hxs⟩ := List.forall_mem_cons.mp hclear
    refine ⟨c, hc, ?_, ?_, ⟨m, hm, hdirectory⟩, hxs⟩
    · cases xs with
      | nil =>
        cases hm
        exact hdirectory
      | cons y ys =>
        obtain ⟨_, hchild, -⟩ := Option.bind_eq_some_iff.mp hm
        exact isDirectory_of_child? hchild
    · rw [← Bool.not_eq_true, isSkipped_iff]
      exact fun h => hx h.2
  · rintro ⟨c, hc, hdir, hskipped, ⟨m, hm, hdirectory⟩, hclear⟩
    refine ⟨⟨m, Option.bind_eq_some_iff.mpr ⟨c, hc, hm⟩, hdirectory⟩,
      List.forall_mem_cons.mpr ⟨fun hx => ?_, hclear⟩⟩
    exact Bool.eq_false_iff.mp hskipped (isSkipped_iff.mpr ⟨hdir, hx⟩)

theorem firstFarIn?_eq_none_iff {room : Nat} {es : List (Name × Node)} :
    firstFarIn? room es = none ↔
      ∀ e ∈ es, e.2.isDirectory = true → isSkipped e.1 e.2 = false →
        e.1.length ≤ room ∧ e.2.firstFar? (room - e.1.length - 1) = none := by
  induction es with
  | nil => simp [firstFarIn?]
  | cons e es ih =>
    obtain ⟨x, n⟩ := e
    rw [firstFarIn?, List.forall_mem_cons, ← ih]
    rcases Nat.lt_or_ge room x.length with hroom | hroom
    · cases n.isDirectory <;> cases isSkipped x n <;> simp [hroom, Nat.not_le_of_lt]
    · cases n.isDirectory <;> cases isSkipped x n <;> simp [hroom, Nat.not_lt_of_le]

theorem length_intercalate_cons (x : Name) {xs : Place} (h : xs ≠ []) :
    ([slash].intercalate (x :: xs)).length = x.length + 1 + ([slash].intercalate xs).length := by
  obtain ⟨y, ys, rfl⟩ := List.exists_cons_of_ne_nil h
  rw [List.intercalate_cons_cons, List.length_append, List.length_append, List.length_singleton]

/-- Names take room. -/
theorem length_intercalate_pos {place : Place} (h : IsPlace place) (hne : place ≠ []) :
    0 < ([slash].intercalate place).length := by
  obtain ⟨x, xs, rfl⟩ := List.exists_cons_of_ne_nil hne
  have hx : x ≠ [] := (h x List.mem_cons_self).ne_nil
  cases xs with
  | nil => simpa using List.length_pos_iff.mpr hx
  | cons y ys =>
    rw [length_intercalate_cons _ (List.cons_ne_nil _ _)]
    omega

mutual

/-- A walk goes on everywhere if every directory that it opens is near enough. -/
theorem firstFar?_eq_none : ∀ {n : Node} {room : Nat}, n.Distinct →
    (∀ place, place ≠ [] → n.Opens place → ([slash].intercalate place).length ≤ room) →
    n.firstFar? room = none
  | .file _, _, _, _ | .link _, _, _, _ => by rw [firstFar?]
  | .directory es, room, h, hnear => by
    rw [firstFar?]
    obtain ⟨hnodup, -⟩ := distinct_directory_iff.mp h
    rw [Distinct] at h
    refine firstFarIn?_eq_none h.2 fun e he hdirectory hskipped => ?_
    have hchild : (Node.directory es).child? e.1 = some e.2 := (lookup_eq_some_iff hnodup).mpr he
    have hopens : ∀ place, e.2.Opens place → (Node.directory es).Opens (e.1 :: place) :=
      fun place hplace => opens_cons_iff.mpr ⟨e.2, hchild, hdirectory, hskipped, hplace⟩
    refine ⟨?_, fun place hne hplace => ?_⟩
    · simpa using hnear [e.1] (List.cons_ne_nil _ _)
        (hopens [] ⟨⟨e.2, rfl, hdirectory⟩, List.forall_mem_nil _⟩)
    · have hlength := hnear _ (List.cons_ne_nil _ _) (hopens place hplace)
      rw [length_intercalate_cons _ hne] at hlength
      omega

theorem firstFarIn?_eq_none : ∀ {es : List (Name × Node)} {room : Nat}, DistinctIn es →
    (∀ e ∈ es, e.2.isDirectory = true → isSkipped e.1 e.2 = false → e.1.length ≤ room ∧
      ∀ place, place ≠ [] → e.2.Opens place →
        ([slash].intercalate place).length ≤ room - e.1.length - 1) →
    firstFarIn? room es = none
  | [], _, _, _ => by rw [firstFarIn?]
  | (x, n) :: es, room, h, hnear => by
    rw [DistinctIn] at h
    obtain ⟨hfirst, hrest⟩ := List.forall_mem_cons.mp hnear
    rw [firstFarIn?_eq_none_iff, List.forall_mem_cons, ← firstFarIn?_eq_none_iff]
    exact ⟨fun hdirectory hskipped => ⟨(hfirst hdirectory hskipped).1,
      firstFar?_eq_none h.1 (hfirst hdirectory hskipped).2⟩, firstFarIn?_eq_none h.2 hrest⟩

end

/-- A walk that goes on everywhere opens no directory that is too far down. -/
theorem length_le_of_firstFar?_eq_none {place : Place} :
    ∀ {n : Node} {room : Nat}, n.Named → n.firstFar? room = none → place ≠ [] → n.Opens place →
      ([slash].intercalate place).length ≤ room := by
  induction place with
  | nil => exact fun _ _ hne => absurd rfl hne
  | cons x xs ih =>
    intro n room hn hnone _ hopens
    obtain ⟨c, hc, hdirectory, hskipped, hbehind⟩ := opens_cons_iff.mp hopens
    have hmem := mem_entries_of_child? hc
    cases n with
    | file content | link target => cases hc
    | directory es =>
      rw [firstFar?, firstFarIn?_eq_none_iff] at hnone
      obtain ⟨hroom, hbelow⟩ : x.length ≤ room ∧ c.firstFar? (room - x.length - 1) = none :=
        hnone _ hmem hdirectory hskipped
      by_cases hxs : xs = []
      · simpa [hxs] using hroom
      · have hchild := named_of_child? hn hc
        have hlength := ih hchild hbelow hxs hbehind
        -- Since a name takes room itself, what is subtracted on the way was there.
        obtain ⟨m, hm, -⟩ := hbehind.standing
        have hpos := length_intercalate_pos (isPlace_of_find? hchild hm) hxs
        rw [length_intercalate_cons _ hxs]
        omega

/-- **When a walk goes on everywhere**: every directory that it opens is near enough. -/
theorem firstFar?_eq_none_iff {n : Node} {room : Nat} (hnamed : n.Named) (hn : n.Distinct) :
    n.firstFar? room = none ↔
      ∀ place, place ≠ [] → n.Opens place → ([slash].intercalate place).length ≤ room :=
  ⟨fun h _ => length_le_of_firstFar?_eq_none hnamed h, firstFar?_eq_none hn⟩

end Disk.Node

/-- The path of a place below a root, in bytes. -/
def pathBelow (root : String) (place : Place) : Disk.Path :=
  bytesOf (rootStem root) ++ [slash].intercalate place

/-- **When a walk meets no fault**: every directory that it opens below the root can be opened by
its path. -/
theorem farFault?_eq_none_iff {root : String} {top : Node} (hnamed : top.Named)
    (h : top.Distinct) :
    farFault? root top = none ↔
      ∀ place, place ≠ [] → top.Opens place → (pathBelow root place).length ≤ Disk.maxPath := by
  have hlength : (bytesOf (rootStem root)).length = (rootStem root).utf8ByteSize := rfl
  rw [farFault?, Option.map_eq_none_iff, Disk.Node.firstFar?_eq_none_iff hnamed h]
  refine forall_congr' fun place => forall_congr' fun hne => forall_congr' fun hopens => ?_
  obtain ⟨m, hm, -⟩ := hopens.standing
  have hpos := Disk.Node.length_intercalate_pos (Disk.isPlace_of_find? hnamed hm) hne
  rw [pathBelow, List.length_append, hlength]
  omega

end Ownership
