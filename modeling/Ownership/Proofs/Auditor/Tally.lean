/-
# Coverage, file by file

Coverage is defined by what it says of all files at once.  It can also be counted in one pass over
them.  A count under way keeps a mark for each rule of the rule set, in file order: the first file
that a rule matches sets its mark, and from then on the rule is asked no more.  A file that nobody
owns is put behind those found before it, and any other is counted.

The pass can go wrong in two ways: a mark can be lost or set on another rule, and a file can be
counted on both sides or on none.  After any number of files neither has happened
(`Tally.Counts`), so that the pass comes to the coverage of the files.  Ignored files are taken out
before, so that they mark no rule and are counted nowhere.

* `Coverage.Tally`, `Coverage.inPass`: the count and what it comes to;
* `Coverage.Tally.counts_add`, `Coverage.Tally.counts_foldl`: one more file, and all of them;
* `Coverage.IsAccountOf`: what coverage says of the files that count;
* `Coverage.IsToldBy`: what a fact tells of a coverage;
* `Auditor.coverage_counts_files`: coverage of a repository.
-/
import Ownership.Proofs.Auditor.Coverage
import Ownership.Proofs.Fact

namespace Ownership

namespace Coverage

/-! ## 1. One pass over the files -/

/-- A count of files under way: for each rule, in file order, whether one of the files so far
matches it; those of the files that nobody owns; and how many the others are. -/
structure Tally where
  marks : List Bool
  unowned : List RepoPath
  owned : Nat

namespace Tally

/-- The count before the first file: no rule is marked. -/
def start (s : RuleSet) : Tally := ⟨s.rules.map fun _ => false, [], 0⟩

/-- The count after one more file.  A rule that is marked keeps its mark. -/
def add (s : RuleSet) (t : Tally) (p : RepoPath) : Tally where
  marks := List.zipWith (fun r marked => marked || r.glob.covers p.text) s.rules t.marks
  unowned := if (s.resolve p).isUnowned then t.unowned ++ [p] else t.unowned
  owned := if (s.resolve p).isUnowned then t.owned else t.owned + 1

/-- The lines of the rules without a mark. -/
def unmarkedLines (s : RuleSet) (t : Tally) : List Nat :=
  ((s.rules.zip t.marks).filter fun x => !x.2).map fun x => x.1.rule.line

/-- What a count knows after the given files: a rule is marked if it matches one of them, and each
of them is on one side. -/
structure Counts (s : RuleSet) (files : List RepoPath) (t : Tally) : Prop where
  marks_eq : t.marks = s.rules.map fun r => files.any fun p => r.glob.covers p.text
  unowned_eq : t.unowned = files.filter fun p => (s.resolve p).isUnowned
  owned_add_unowned : t.owned + t.unowned.length = files.length

end Tally

/-- The coverage of some files, counted in one pass. -/
def inPass (requireFull : Bool) (s : RuleSet) (files : List RepoPath) : Coverage :=
  let t := files.foldl (Tally.add s) (Tally.start s)
  { ok := !requireFull || t.unowned.isEmpty
    totalFiles := files.length
    ownedFiles := t.owned
    unowned := t.unowned
    unusedRuleLines := t.unmarkedLines s }

namespace Tally

variable {s : RuleSet} {files : List RepoPath} {t : Tally}

theorem counts_start (s : RuleSet) : Counts s [] (start s) := ⟨rfl, rfl, rfl⟩

/-- **One more file** sets the marks of the rules that match it, and falls on one side. -/
theorem counts_add (h : Counts s files t) (p : RepoPath) :
    Counts s (files ++ [p]) (t.add s p) := by
  refine ⟨?marks, ?unowned, ?owned⟩
  case marks =>
    rw [add, h.marks_eq, List.zipWith_map_right, List.zipWith_self]
    refine List.map_congr_left fun r _ => ?_
    simp
  case unowned =>
    rw [add, h.unowned_eq, List.filter_append]
    by_cases hp : (s.resolve p).isUnowned = true
    · simp [hp]
    · simp [hp]
  case owned =>
    have hcount := h.owned_add_unowned
    by_cases hp : (s.resolve p).isUnowned = true
    · simp only [add, hp, if_true, List.length_append, List.length_singleton]
      omega
    · simp only [add, hp, Bool.false_eq_true, if_false, List.length_append,
        List.length_singleton]
      omega

/-- **After all files** the count knows of all of them. -/
theorem counts_foldl (s : RuleSet) (files : List RepoPath) :
    Counts s files (files.foldl (add s) (start s)) := by
  -- The files are counted from the front, so the induction adds one behind the others.
  induction files using List.reverseRecOn with
  | nil => exact counts_start s
  | append_singleton files p ih =>
    rw [List.foldl_concat]
    exact counts_add ih p

theorem unmarkedLines_eq (h : Counts s files t) :
    t.unmarkedLines s = (unused s files).map fun r => r.rule.line := by
  have hzip : s.rules.zip t.marks =
      s.rules.map fun r => (r, files.any fun p => r.glob.covers p.text) := by
    rw [h.marks_eq, List.zip_map_right, List.zip_eq_zipWith, List.zipWith_self, List.map_map]
    rfl
  rw [unmarkedLines, hzip, List.filter_map, List.map_map, unused]
  rfl

end Tally

/-- **The pass comes to the coverage of the files.** -/
theorem ofFiles_eq_inPass (requireFull : Bool) (s : RuleSet) (files : List RepoPath) :
    ofFiles requireFull s files = inPass requireFull s files := by
  have h := Tally.counts_foldl s files
  have hunowned : files.filter (isUnowned s) =
      (files.foldl (Tally.add s) (Tally.start s)).unowned := h.unowned_eq.symm
  have howned : (files.filter fun p => !isUnowned s p).length =
      (files.foldl (Tally.add s) (Tally.start s)).owned := by
    have hlength := List.length_eq_length_filter_add (l := files) (isUnowned s)
    have hcount := h.owned_add_unowned
    rw [← hunowned] at hcount
    omega
  simp only [ofFiles, inPass, hunowned, howned, Tally.unmarkedLines_eq h]

/-! ## 2. What coverage says -/

/-- What coverage says of the files that count, under a policy: how many there are; those that are
resolved to no owner, in their order; how many the others are; the lines, in file order, of the
rules whose pattern is a glob and that match none of the files; and whether that will do. -/
structure IsAccountOf (p : Policy) (f : OwnersFile) (files : List RepoPath) (c : Coverage) :
    Prop where
  totalFiles_eq : c.totalFiles = files.length
  unowned_eq : c.unowned =
    files.filter fun path => ((RuleSet.compile f p.precedence).resolve path).isUnowned
  ownedFiles_add : c.ownedFiles + c.unowned.length = c.totalFiles
  unusedRuleLines_eq : c.unusedRuleLines =
    (f.rules.filter fun r => (Glob.ofText r.pattern).isOk ∧
      ∀ path ∈ files, r.covers path.text = false).map Rule.line
  ok_iff : c.ok = true ↔ p.coverage.requireFull = false ∨ c.unowned = []

/-- What a fact tells of a coverage: its counts and lines, and that all files are owned, or that
some are not and this will do, or that it will not do. -/
structure IsToldBy (c : Coverage) (fact : Fact) : Prop where
  stage_eq : fact.stage = .coverage
  totalFiles_eq : fact.fields.get? "total_files" = some (.nat c.totalFiles)
  ownedFiles_eq : fact.fields.get? "owned_files" = some (.nat c.ownedFiles)
  unowned_eq : fact.fields.get? "unowned" = some (.nat c.unowned.length)
  unusedRuleLines_eq :
    fact.fields.get? "unused_rule_lines" = some (.array (c.unusedRuleLines.map .nat))
  complete : c.unowned = [] → fact.decision = .success ∧ fact.fields.get? "error_id" = none
  tolerated : c.unowned ≠ [] → c.ok = true →
    fact.decision = .warn ∧ fact.fields.get? "error_id" = none
  refused : c.ok = false → fact.decision = .failure ∧
    fact.fields.get? "error_id" = some (.text "E_COVERAGE") ∧
      fact.fields.get? "exit_code" = some (.nat 70)

/-- **Coverage of some files** is an account of them. -/
theorem isAccountOf_ofFiles (p : Policy) (f : OwnersFile) (files : List RepoPath) :
    (ofFiles p.coverage.requireFull (RuleSet.compile f p.precedence) files).IsAccountOf
      p f files := by
  set s := RuleSet.compile f p.precedence
  have h := Tally.counts_foldl s files
  refine ⟨rfl, rfl, ?owned, ?unused, ?ok⟩
  case owned =>
    rw [ofFiles_eq_inPass]
    exact h.owned_add_unowned
  case unused =>
    have hlines : (ofFiles p.coverage.requireFull s files).unusedRuleLines =
        ((unused s files).map ReadRule.rule).map Rule.line := (List.map_map ..).symm
    rw [hlines, map_rule_unused]
    refine congrArg _ (List.filter_congr fun r _ => ?_)
    rw [Bool.eq_iff_iff]
    simp
  case ok =>
    simp only [ofFiles]
    cases p.coverage.requireFull <;> simp

/-- **The fact on a coverage** tells it, if it will do whenever all files are owned. -/
theorem isToldBy_make (x : FactContext) {c : Coverage} (hc : c.unowned = [] → c.ok = true) :
    c.IsToldBy (Fact.make x .coverage (Auditor.coverageDecision c)
      (Auditor.coverageValues c ++ if c.ok then [] else codeValues .coverage)) := by
  have hkeys : ((Auditor.coverageValues c ++
      if c.ok then [] else codeValues .coverage).map Prod.fst).Nodup := by
    cases c.ok <;> simp [Auditor.coverageValues, codeValues]
  have hsaid : ∀ key, key ∉ Fact.envelopeKeys → key ∉ Fact.volatileKeys →
      (Fact.make x .coverage (Auditor.coverageDecision c) (Auditor.coverageValues c ++
        if c.ok then [] else codeValues .coverage)).fields.get? key =
        (Auditor.coverageValues c ++ if c.ok then [] else codeValues .coverage).get? key :=
    fun key => Fact.get?_make_of_not_mem hkeys
  refine
    { stage_eq := rfl
      totalFiles_eq := (hsaid "total_files" (by decide) (by decide)).trans ?total
      ownedFiles_eq := (hsaid "owned_files" (by decide) (by decide)).trans ?owned
      unowned_eq := (hsaid "unowned" (by decide) (by decide)).trans ?unowned
      unusedRuleLines_eq := (hsaid "unused_rule_lines" (by decide) (by decide)).trans ?unused
      complete := fun hnone => ⟨?success, (hsaid "error_id" (by decide) (by decide)).trans ?clean⟩
      tolerated := fun hsome hok =>
        ⟨?warn, (hsaid "error_id" (by decide) (by decide)).trans ?excused⟩
      refused := fun hok => ⟨?failure, (hsaid "error_id" (by decide) (by decide)).trans ?id,
        (hsaid "exit_code" (by decide) (by decide)).trans ?exit⟩ }
  case total | owned | unowned | unused => simp [Auditor.coverageValues, Members.get?_cons]
  case success => simp [Fact.make, Auditor.coverageDecision, hnone, hc hnone]
  case clean => simp [Auditor.coverageValues, hc hnone, Members.get?_cons, Members.get?_nil]
  case warn => simp [Fact.make, Auditor.coverageDecision, hsome, hok]
  case excused => simp [Auditor.coverageValues, hok, Members.get?_cons, Members.get?_nil]
  case failure => simp [Fact.make, Auditor.coverageDecision, hok]
  case id | exit =>
    simp [Auditor.coverageValues, codeValues, Code.name, Code.exitStatus, hok,
      Members.get?_cons]

end Coverage

namespace Auditor

variable {a : Auditor} {d : Disk} {tree : Tree} {globs : List Glob} {paths : List RepoPath}

/-! ## 3. Coverage of a repository -/

/-- Which files count: those that no ignored glob covers. -/
theorem countedFiles_eq (htree : a.tree = some tree) (hpaths : tree.files d = .ok paths)
    (hglobs : List.Forall₂ (fun text g => Glob.ofText text = .ok g) a.policy.coverage.ignore
      globs) :
    a.countedFiles d = .ok (paths.filter fun p => ∀ g ∈ globs, g.covers p.text = false) := by
  have hignored : a.ignored = .ok globs := by
    rw [ignored, mapM_eq_ok_iff.mpr hglobs]
    rfl
  have hcounted : counted globs paths =
      paths.filter fun p => ∀ g ∈ globs, g.covers p.text = false := by
    refine List.filter_congr fun p _ => ?_
    rw [Bool.eq_iff_iff]
    simp
  rw [countedFiles, htree, ← hcounted]
  simp only [hignored, hpaths]
  rfl

/-- **Coverage accounts for the files of a repository that count**: those that no ignored glob
covers, if each ignored text is a glob.  It is what one pass over them counts, and the one fact on
it tells all of it. -/
theorem coverage_counts_files (htree : a.tree = some tree) (hpaths : tree.files d = .ok paths)
    (hglobs : List.Forall₂ (fun text g => Glob.ofText text = .ok g) a.policy.coverage.ignore
      globs) (f : OwnersFile) :
    let files := paths.filter fun p => ∀ g ∈ globs, g.covers p.text = false
    ∃ c fact, (a.coverage d f).value = .ok c ∧ (a.coverage d f).facts = [fact] ∧
      c.IsAccountOf a.policy f files ∧ c.IsToldBy fact ∧
      c = Coverage.inPass a.policy.coverage.requireFull
        (RuleSet.compile f a.policy.precedence) files := by
  intro files
  have hvalue : (a.coverage d f).value = .ok (Coverage.ofFiles a.policy.coverage.requireFull
      (RuleSet.compile f a.policy.precedence) files) := by
    rw [Auditor.coverage, countedFiles_eq htree hpaths hglobs]
  have haccount := Coverage.isAccountOf_ofFiles a.policy f files
  refine ⟨_, _, hvalue, facts_coverage hvalue, haccount, ?_, Coverage.ofFiles_eq_inPass ..⟩
  exact Coverage.isToldBy_make _ fun hnone => haccount.ok_iff.mpr (.inr hnone)

/-- A file that is ignored marks no rule, and one that a rule without owners covers is unowned. -/
theorem coverage_counts_vendored :
    let policy : Policy := { coverage := { requireFull := true, ignore := ["vendor/"] } }
    let paths : List RepoPath := [⟨"docs/a"⟩, ⟨"vendor/x"⟩, ⟨"src/y"⟩]
    let a : Auditor := ⟨policy, none, some (.listed paths), ""⟩
    let f := OwnersFile.ofText "docs @a\nvendor @v\nsrc"
    a.tree = some (.listed paths) ∧ Tree.files .fresh (.listed paths) = .ok paths ∧
      ∃ g, List.Forall₂ (fun text g => Glob.ofText text = .ok g) a.policy.coverage.ignore [g] ∧
      ∃ c fact, (a.coverage .fresh f).value = .ok c ∧ (a.coverage .fresh f).facts = [fact] ∧
        c.totalFiles = 2 ∧ c.unowned = [⟨"src/y"⟩] ∧ c.ownedFiles = 1 ∧
        c.unusedRuleLines = [2] ∧ fact.decision = .failure := by
  intro policy paths a f
  obtain ⟨g, hg⟩ : ∃ g, Glob.ofText "vendor/" = .ok g := ⟨_, rfl⟩
  have hglobs : List.Forall₂ (fun text g => Glob.ofText text = .ok g)
      a.policy.coverage.ignore [g] := .cons hg .nil
  obtain ⟨c, fact, hvalue, hfacts, haccount, htold, -⟩ :=
    coverage_counts_files (a := a) (d := .fresh) rfl rfl hglobs f
  have hfiles : (paths.filter fun p => ∀ g' ∈ [g], g'.covers p.text = false) =
      [⟨"docs/a"⟩, ⟨"src/y"⟩] := by
    obtain rfl := Except.ok.inj hg
    decide +kernel
  rw [hfiles] at haccount
  have hunowned : c.unowned = [⟨"src/y"⟩] := by
    rw [haccount.unowned_eq]
    decide +kernel
  have htotal : c.totalFiles = 2 := haccount.totalFiles_eq
  have howned : c.ownedFiles = 1 := by
    have hadd := haccount.ownedFiles_add
    rw [hunowned, htotal, List.length_singleton] at hadd
    omega
  have hunused : c.unusedRuleLines = [2] := by
    rw [haccount.unusedRuleLines_eq]
    decide +kernel
  have hok : c.ok = false := by
    rw [Bool.eq_false_iff, ne_eq, haccount.ok_iff, hunowned]
    decide
  exact ⟨rfl, rfl, g, hglobs, c, fact, hvalue, hfacts, htotal, hunowned, howned, hunused,
    (htold.refused hok).1⟩

end Auditor

end Ownership
