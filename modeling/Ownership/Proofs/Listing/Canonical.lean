/-
# Listings of the same paths

A listing that is spelled out ascends strictly and holds the paths that were spelled, so that it is
a function of the set of these alone.  The order of the texts, how often a path is repeated, and
which of its spellings was used are lost in it.

What asks for a repository by the spelling of its paths sees only the listing.  So two sessions
whose setups differ in these spellings do the same at each step, and stay such sessions: the next
step is taken from the same file, disk and time, and from setups that differ in no other way.  So
all that they say is the same, on coverage above all, which is what looks at the listing.

* `Listing.paths_eq_of_spelledIn`: spellings of the same paths;
* `Setup.Alike`, `Session.Alike`: setups and sessions that differ in spellings alone;
* `Session.Alike.step`, `Session.Alike.run`: one step of two such sessions, and any number;
* `Listing.ofTexts_canonical`: listings and what is seen of them.
-/
import Ownership.Proofs.Listing
import Ownership.Proofs.RepoPath.Spelling
import Ownership.Session

namespace Ownership

/-! ## 1. Spellings of the same paths -/

namespace Listing

variable {texts texts' : List String}

/-- The second list spells all that the first does, in the same way or in another. -/
def SpelledIn (texts texts' : List String) : Prop := ∀ t ∈ texts, ∃ u ∈ texts', RepoPath.Alike t u

theorem SpelledIn.paths_subset (h : SpelledIn texts texts') : paths texts ⊆ paths texts' := by
  rintro p ⟨t, ht, hp⟩
  obtain ⟨u, hu, hlike⟩ := h t ht
  exact ⟨u, hu, hlike.ofText_eq ▸ hp⟩

theorem SpelledIn.spelled (h : SpelledIn texts texts') (hspelled : Spelled texts') :
    Spelled texts := by
  intro t ht
  obtain ⟨u, hu, hlike⟩ := h t ht
  rw [hlike.ofText_eq]
  exact hspelled u hu

/-- **Another order, repetitions and other spellings** make no difference to the paths. -/
theorem paths_eq_of_spelledIn (h : SpelledIn texts texts') (h' : SpelledIn texts' texts) :
    paths texts = paths texts' :=
  Set.Subset.antisymm h.paths_subset h'.paths_subset

end Listing

/-! ## 2. Setups and sessions -/

namespace Setup

/-- The setup, for a repository whose paths are spelled thus. -/
def withPaths (s : Setup) (texts : List String) : Setup := { s with tree := some (.paths texts) }

/-- Two setups that ask for the same, but may spell the paths of a repository in other ways. -/
structure Alike (s s' : Setup) : Prop where
  policy_eq : s.policy = s'.policy
  directory_eq : s.directory = s'.directory
  tree?_eq : s.tree? = s'.tree?
  sink_eq : s.sink = s'.sink

theorem Alike.auditor_eq {s s' : Setup} (h : s.Alike s') (now : String) :
    s.auditor now = s'.auditor now := by
  rw [auditor, auditor, h.policy_eq, h.directory_eq, h.tree?_eq]

theorem Alike.change {s s' : Setup} (h : s.Alike s') (c : SetupChange) :
    (s.change c).Alike (s'.change c) := by
  refine ⟨congrArg c.policy.getD h.policy_eq, congrArg c.directory.getD h.directory_eq, ?tree,
    congrArg c.sink.getD h.sink_eq⟩
  case tree =>
    -- A setup that asks for another repository forgets the one before it.
    obtain ⟨policy, directory, tree, sink⟩ := c
    cases tree with
    | none => exact h.tree?_eq
    | some request => rfl

theorem tree?_withPaths (s : Setup) (texts : List String) :
    (s.withPaths texts).tree? = (Listing.ofTexts texts).map (some ∘ Tree.listed) := by
  rw [tree?, withPaths]
  simp only [TreeRequest.tree]
  cases Listing.ofTexts texts <;> rfl

/-- **Setups for the same paths are alike**, if the paths can be listed. -/
theorem alike_withPaths {texts texts' : List String} (h : Listing.Spelled texts)
    (h' : Listing.Spelled texts') (hpaths : Listing.paths texts = Listing.paths texts')
    (s : Setup) : (s.withPaths texts).Alike (s.withPaths texts') := by
  obtain ⟨ps, hps⟩ := Listing.exists_ofTexts_iff.mpr h
  obtain ⟨ps', hps'⟩ := Listing.exists_ofTexts_iff.mpr h'
  refine ⟨rfl, rfl, ?_, rfl⟩
  rw [tree?_withPaths, tree?_withPaths, hps, hps', (Listing.eq_iff_paths_eq hps hps').mpr hpaths]

end Setup

namespace Session

/-- Two sessions in the same state, but for the spelling of paths in their setups. -/
structure Alike (s s' : Session) : Prop where
  setup : s.setup.Alike s'.setup
  file_eq : s.file = s'.file
  disk_eq : s.disk = s'.disk
  now_eq : s.now = s'.now

variable {s s' : Session}

theorem Alike.keep (h : s.Alike s') (r : Except Failure Answer) : (s.keep r).Alike (s'.keep r) := by
  unfold Session.keep
  split
  · exact ⟨h.setup, rfl, h.disk_eq, h.now_eq⟩
  · exact h

theorem Alike.alter (h : s.Alike s') (r : Except DiskError Disk) :
    (s.alter r).1.Alike (s'.alter r).1 ∧ (s.alter r).2 = (s'.alter r).2 := by
  cases r with
  | error e => exact ⟨h, rfl⟩
  | ok d => exact ⟨⟨h.setup, h.file_eq, rfl, h.now_eq⟩, rfl⟩

/-- An operation meets the same auditor, or the same problem with setting one up. -/
theorem Alike.operate (h : s.Alike s') (o : Operation) :
    (s.operate o).1.Alike (s'.operate o).1 ∧ (s.operate o).2 = (s'.operate o).2 := by
  simp only [Session.operate, h.setup.auditor_eq, h.file_eq, h.disk_eq, h.now_eq]
  cases s'.setup.auditor s'.now with
  | error p => exact ⟨h, rfl⟩
  | ok a => exact ⟨h.keep _, rfl⟩

/-- **A step of two such sessions** comes to the same, with the same events, and leaves two such
sessions. -/
theorem Alike.step (h : s.Alike s') (x : Step) :
    (s.step x).1.Alike (s'.step x).1 ∧ (s.step x).2 = (s'.step x).2 := by
  cases x with
  | configure c => exact ⟨⟨h.setup.change c, h.file_eq, h.disk_eq, h.now_eq⟩, rfl⟩
  | operate o => exact h.operate o
  | list root =>
    rw [Session.step, Session.step, h.disk_eq]
    exact ⟨h, rfl⟩
  | write path content | makeDirectory path | makeLink path target | remove path =>
    rw [Session.step, Session.step, h.disk_eq]
    exact h.alter _

theorem run_cons (s : Session) (x : Step) (xs : List Step) :
    s.run (x :: xs) = ((s.step x).2.value, (s.step x).1.setup.sink.keep (s.step x).2.events) ::
      (s.step x).1.run xs := rfl

/-- **Two such sessions say the same**, whatever their steps are. -/
theorem Alike.run (h : s.Alike s') (steps : List Step) : s.run steps = s'.run steps := by
  induction steps generalizing s s' with
  | nil => rfl
  | cons x xs ih =>
    obtain ⟨hnext, hsaid⟩ := h.step x
    rw [run_cons, run_cons, hsaid, hnext.setup.sink_eq, ih hnext]

/-- The session, set up for a repository whose paths are spelled thus. -/
def withPaths (s : Session) (texts : List String) : Session :=
  { s with setup := s.setup.withPaths texts }

theorem alike_withPaths {texts texts' : List String} (h : Listing.Spelled texts)
    (h' : Listing.Spelled texts') (hpaths : Listing.paths texts = Listing.paths texts')
    (s : Session) : (s.withPaths texts).Alike (s.withPaths texts') :=
  ⟨Setup.alike_withPaths h h' hpaths s.setup, rfl, rfl, rfl⟩

end Session

/-! ## 3. All of it -/

namespace Listing

/-- What the listings of two lists of texts are, and what is seen of them. -/
structure Canonical (texts texts' : List String) : Prop where
  /-- Texts that all spell paths are listed: the paths that they spell, strictly ascending. -/
  listed : Spelled texts →
    ∃ ps, ofTexts texts = .ok ps ∧ Ascending ps ∧ {p | p ∈ ps} = paths texts
  /-- Other texts are refused for the first of them that spells none. -/
  refused : ¬ Spelled texts → ∃ e, FirstProblem texts e ∧ ofTexts texts = .error e
  /-- The listings are the same exactly if the paths are. -/
  eq_iff : Spelled texts → Spelled texts' →
    (ofTexts texts = ofTexts texts' ↔ paths texts = paths texts')
  /-- Coverage of the same paths comes to the same, with the same events. -/
  coverage_eq : Spelled texts → Spelled texts' → paths texts = paths texts' → ∀ s : Session,
    ((s.withPaths texts).step (.operate .coverage)).2 =
      ((s.withPaths texts').step (.operate .coverage)).2
  /-- So does a session of any steps, coverage between them or not. -/
  run_eq : Spelled texts → Spelled texts' → paths texts = paths texts' →
    ∀ (s : Session) (steps : List Step),
      (s.withPaths texts).run steps = (s.withPaths texts').run steps
  /-- The paths are the same, and all are spelled in both lists or not, if each text of one list is
  another spelling of one in the other list, whatever the order and however often. -/
  paths_eq : SpelledIn texts texts' → SpelledIn texts' texts →
    (Spelled texts ↔ Spelled texts') ∧ paths texts = paths texts'

/-- **A listing is a function of the set of its paths.** -/
theorem ofTexts_canonical (texts texts' : List String) : Canonical texts texts' := by
  refine
    { listed := fun h => ?listed
      refused := fun h => ?refused
      eq_iff := fun h h' => ?same
      coverage_eq := fun h h' hpaths s => ((Session.alike_withPaths h h' hpaths s).step _).2
      run_eq := fun h h' hpaths s => (Session.alike_withPaths h h' hpaths s).run
      paths_eq := fun h h' => ⟨⟨h'.spelled, h.spelled⟩, paths_eq_of_spelledIn h h'⟩ }
  case listed =>
    obtain ⟨ps, hps⟩ := exists_ofTexts_iff.mpr h
    exact ⟨ps, hps, ascending_ofTexts hps, Set.ext fun p => mem_ofTexts_iff hps⟩
  case refused =>
    cases hlisted : ofTexts texts with
    | ok ps => exact absurd (exists_ofTexts_iff.mp ⟨ps, hlisted⟩) h
    | error e => exact ⟨e, ofTexts_eq_error_iff.mp hlisted, rfl⟩
  case same =>
    obtain ⟨ps, hps⟩ := exists_ofTexts_iff.mpr h
    obtain ⟨ps', hps'⟩ := exists_ofTexts_iff.mpr h'
    rw [hps, hps', Except.ok.injEq, eq_iff_paths_eq hps hps']

/-- One path spelled with either slash and one that is repeated, in two orders; and texts of which
two spell no path, each for another reason. -/
theorem ofTexts_canonical_of_respelled :
    let texts := ["src\\a", "b", "./b"]
    let texts' := ["b", "src/a"]
    Spelled texts ∧ SpelledIn texts texts' ∧ SpelledIn texts' texts ∧
      ofTexts texts = ofTexts texts' ∧
      ((Session.start {} "noon").withPaths texts).run
          [.operate (.loadText "src @a"), .operate .coverage] =
        ((Session.start {} "noon").withPaths texts').run
          [.operate (.loadText "src @a"), .operate .coverage] ∧
      ¬ Spelled ["b", "..", ""] ∧ FirstProblem ["b", "..", ""] .parentSegment := by
  intro texts texts'
  have hbackslash : RepoPath.Alike "src\\a" "src/a" := .rel _ _ (.backslash "src" "a")
  have hpoint : RepoPath.Alike "./b" "b" := .rel _ _ (.here "b")
  have hspelled : Spelled texts := by
    simp only [Spelled, texts, List.forall_mem_cons]
    exact ⟨⟨_, rfl⟩, ⟨_, rfl⟩, ⟨_, rfl⟩, List.forall_mem_nil _⟩
  have hthere : SpelledIn texts texts' := by
    simp only [SpelledIn, texts, texts', List.forall_mem_cons]
    exact ⟨⟨_, by simp, hbackslash⟩, ⟨_, by simp, .refl _⟩, ⟨_, by simp, hpoint⟩,
      List.forall_mem_nil _⟩
  have hback : SpelledIn texts' texts := by
    simp only [SpelledIn, texts, texts', List.forall_mem_cons]
    exact ⟨⟨_, by simp, .refl _⟩, ⟨_, by simp, .symm _ _ hbackslash⟩, List.forall_mem_nil _⟩
  have hcanonical := ofTexts_canonical texts texts'
  obtain ⟨hiff, hpaths⟩ := hcanonical.paths_eq hthere hback
  have hspelled' := hiff.mp hspelled
  have hunspelled : ¬ Spelled ["b", "..", ""] := by
    intro h
    obtain ⟨p, hp⟩ := h ".." (by simp)
    cases hp
  obtain ⟨e, hfirst, he⟩ := (ofTexts_canonical _ texts).refused hunspelled
  obtain rfl : e = .parentSegment := Except.error.inj (he.symm.trans rfl)
  exact ⟨hspelled, hthere, hback, (hcanonical.eq_iff hspelled hspelled').mpr hpaths,
    hcanonical.run_eq hspelled hspelled' hpaths _ _, hunspelled, hfirst⟩

end Listing

end Ownership
