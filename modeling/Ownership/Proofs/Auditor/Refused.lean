/-
# Rules whose pattern is no glob

The platform skips a rule whose pattern it cannot read, so a rule set sets it aside, and linting
reports it.  The two look at patterns by themselves, once each.  This module says that they agree:
the rules that are set aside are those that are reported, one for one and with the same reason
(`Auditor.ReportsRefused`), and that the rest of the file does not notice them: with any of them
struck out (`OmitsRefused`) every path is resolved as before.

Whatever is made of a refused rule is made of it alone, so each list is compared with the rules it
comes from (`forall₂_filterMap`), and the lists agree without a word on positions.

* `Rule.isGlob`, `RuleSet.IsSplitOf`: the rules that are read, and those that are refused;
* `Finding.TellsRefusal`, `Row.TellsRefusal`: what is reported of a refused rule;
* `OmitsRefused`: some refused rules are struck out;
* `Auditor.filter_findings_ofText`: the findings on patterns;
* `RuleSet.refused_rules_inert`: refused rules are reported and own nothing.
-/
import Mathlib.Data.List.Forall2
import Ownership.Proofs.Auditor.Lint
import Ownership.Proofs.RuleSet

namespace Ownership

/-! ## 1. Rules that are read and rules that are refused -/

/-- Whether the pattern of a rule is a glob. -/
def Rule.isGlob (r : Rule) : Bool := (Glob.ofText r.pattern).isOk

/-- A rule set splits the rules of a file: it has read those whose pattern is a glob and set the
others aside, each with its line and the reason, both in the order of the file. -/
structure RuleSet.IsSplitOf (s : RuleSet) (f : OwnersFile) : Prop where
  rules_read : List.Forall₂ (fun r m => m.rule = r ∧ Glob.ofText r.pattern = .ok m.glob)
    (f.rules.filter Rule.isGlob) s.rules
  rules_refused : List.Forall₂ (fun r x => x.1 = r.line ∧ Glob.ofText r.pattern = .error x.2)
    (f.rules.filter fun r => !r.isGlob) s.skipped
  length_add_length : s.rules.length + s.skipped.length = f.ruleCount

/-- The second list of lines is the first with some refused rules struck out. -/
inductive OmitsRefused : List Line → List Line → Prop where
  | nil : OmitsRefused [] []
  /-- A line of any kind stays. -/
  | keep (l : Line) {ls ms : List Line} : OmitsRefused ls ms → OmitsRefused (l :: ls) (l :: ms)
  /-- A rule goes whose pattern is no glob. -/
  | strike {r : Rule} {ls ms : List Line} :
    r.isGlob = false → OmitsRefused ls ms → OmitsRefused (.rule r :: ls) ms

/-! ## 2. What is reported -/

/-- A finding tells of the rule on a line that its pattern is refused, and why. -/
structure Finding.TellsRefusal (x : Finding) (refused : Nat × GlobError) : Prop where
  eq_badPattern : ∃ r, x = .badPattern r refused.2.refusal
  line_eq : x.line = refused.1
  pattern_eq : x.rule?.map Rule.pattern = some refused.2.pattern
  message_eq : x.message = s!"invalid pattern on line {refused.1}: {refused.2.message}"

/-- A row tells of the rule on a line that its pattern is refused, and why. -/
structure Row.TellsRefusal (row : Row) (refused : Nat × GlobError) : Prop where
  check_eq : row.check = Code.pattern.name
  line_eq : row.line = refused.1
  pattern_eq : row.pattern = some refused.2.pattern
  message_eq : row.message = s!"invalid pattern on line {refused.1}: {refused.2.message}"

/-- Of the patterns of a file, an auditor finds fault with those that are refused and no others, in
the order of the file, and unless its policy lets them pass they are all in the report. -/
structure Auditor.ReportsRefused (a : Auditor) (f : OwnersFile) (refused : List (Nat × GlobError)) :
    Prop where
  findings_tell :
    List.Forall₂ Finding.TellsRefusal ((a.findings f).filter fun x => x.code = .pattern) refused
  rows_tell : a.policy.checks.invalidPattern ≠ .allow →
    List.Forall₂ Row.TellsRefusal
      ((a.report f).rows.filter fun row => row.check = Code.pattern.name) refused

/-! ## 3. Rule sets -/

/-- What two operations make of one list is related if it is for each element. -/
theorem forall₂_filterMap {α β γ : Type} {R : β → γ → Prop} {f : α → Option β} {g : α → Option γ}
    (h : ∀ x, Option.Rel R (f x) (g x)) (xs : List α) :
    List.Forall₂ R (xs.filterMap f) (xs.filterMap g) := by
  have hsame : List.Forall₂ (· = ·) xs xs := List.forall₂_same.mpr fun _ _ => rfl
  refine List.rel_filterMap ?_ hsame
  rintro x _ rfl
  exact h x

namespace RuleSet

/-- **Each rule is read or set aside.** -/
theorem isSplitOf_compile (f : OwnersFile) (p : Precedence) : (compile f p).IsSplitOf f := by
  have hread : List.Forall₂ (fun r m => m.rule = r ∧ Glob.ofText r.pattern = .ok m.glob)
      (f.rules.filter Rule.isGlob) (f.rules.filterMap read?) := by
    rw [← List.filterMap_eq_filter]
    refine forall₂_filterMap (fun r => ?_) f.rules
    rw [Option.guard_apply, Rule.isGlob, read?]
    cases h : Glob.ofText r.pattern with
    | ok g => exact .some ⟨rfl, h⟩
    | error e => exact .none
  have hrefused : List.Forall₂ (fun r x => x.1 = r.line ∧ Glob.ofText r.pattern = .error x.2)
      (f.rules.filter fun r => !r.isGlob) (f.rules.filterMap refused?) := by
    rw [← List.filterMap_eq_filter]
    refine forall₂_filterMap (fun r => ?_) f.rules
    rw [Option.guard_apply, Rule.isGlob, refused?]
    cases h : Glob.ofText r.pattern with
    | ok g => exact .none
    | error e => exact .some ⟨rfl, h⟩
  refine ⟨hread, hrefused, ?_⟩
  have hlength : (compile f p).rules.length + (compile f p).skipped.length =
      (f.rules.filter Rule.isGlob).length + (f.rules.filter fun r => !r.isGlob).length :=
    congrArg₂ (· + ·) hread.length_eq.symm hrefused.length_eq.symm
  rw [hlength, OwnersFile.ruleCount]
  exact (List.length_eq_length_filter_add Rule.isGlob).symm

/-- A refused rule is not read. -/
theorem read?_eq_none {r : Rule} (h : r.isGlob = false) : read? r = none := by
  rw [read?]
  cases hglob : Glob.ofText r.pattern with
  | ok g =>
    rw [Rule.isGlob, hglob] at h
    cases h
  | error e => rfl

/-- **Striking out refused rules** leaves the rules that are read as they are. -/
theorem filterMap_read?_of_omitsRefused {ls ms : List Line} (h : OmitsRefused ls ms) :
    (ms.filterMap Line.rule?).filterMap read? = (ls.filterMap Line.rule?).filterMap read? := by
  simp only [List.filterMap_filterMap]
  induction h with
  | nil => rfl
  | keep l _ ih => rw [List.filterMap_cons, List.filterMap_cons, ih]
  | strike hr _ ih =>
    rw [ih, List.filterMap_cons]
    simp only [Line.rule?, Option.bind_some, read?_eq_none hr]

/-- What becomes of a path depends on the rules that are read. -/
theorem resolve_congr {s t : RuleSet} (hrules : s.rules = t.rules)
    (hprecedence : s.precedence = t.precedence) (path : RepoPath) :
    s.resolve path = t.resolve path := by
  simp only [resolve, ownerRule?, matching, hrules, hprecedence]

end RuleSet

/-! ## 4. Findings -/

namespace Finding

/-- Each check reports under a code of its own. -/
theorem code_of_mem_ofSize {size limit : Nat} : ∀ x ∈ ofSize size limit, x.code = .tooLarge := by
  intro x hx
  rw [List.mem_singleton.mp (List.mem_ite_nil_right.mp hx).2]
  rfl

theorem code_of_mem_ofForms {allowEmail : Bool} {r : Rule} :
    ∀ x ∈ ofForms allowEmail r, x.code = .owner := by
  intro x hx
  obtain ⟨o, -, ho⟩ := List.mem_filterMap.mp hx
  rw [ofForm?] at ho
  cases hkind : o.kind <;> simp only [hkind] at ho
  case invalid => cases ho; rfl
  case email => cases allowEmail <;> cases ho; rfl
  all_goals cases ho

theorem code_of_mem_ofMissingOwners {r : Rule} : ∀ x ∈ ofMissingOwners r, x.code = .noOwners := by
  intro x hx
  rw [List.mem_singleton.mp (List.mem_ite_nil_right.mp hx).2]
  rfl

theorem code_of_mem_ofRepeatedOwners {r : Rule} :
    ∀ x ∈ ofRepeatedOwners r, x.code = .duplicateOwner := by
  rw [ofRepeatedOwners, List.forall_mem_map]
  exact fun _ _ => rfl

theorem code_of_mem_ofUnknownOwners {d : Directory} {r : Rule} :
    ∀ x ∈ ofUnknownOwners d r, x.code = .unknownOwner := by
  rw [ofUnknownOwners, List.forall_mem_map]
  exact fun _ _ => rfl

theorem code_of_mem_repetition {above : List Rule} {r : Rule} :
    ∀ x ∈ repetition above r, x.code = .duplicate := by
  rw [repetition]
  split
  · exact List.forall_mem_nil _
  · exact List.forall_mem_singleton.mpr rfl

/-- Findings under one code are no findings under another. -/
theorem filter_code_eq_nil {xs : List Finding} {c d : Code} (hxs : ∀ x ∈ xs, x.code = c)
    (hne : c ≠ d) : (xs.filter fun x => x.code = d) = [] := by
  refine List.filter_eq_nil_iff.mpr fun x hx => ?_
  rw [hxs x hx, decide_eq_true_iff]
  exact hne

/-- The check of a pattern and the rule set refuse the same rules. -/
theorem ofPattern_eq (r : Rule) :
    ofPattern r = ((RuleSet.refused? r).map fun x => badPattern r x.2.refusal).toList := by
  rw [ofPattern, RuleSet.refused?]
  cases Glob.ofText r.pattern <;> rfl

/-- Both give the same reason. -/
theorem rel_refused? (r : Rule) :
    Option.Rel TellsRefusal ((RuleSet.refused? r).map fun x => badPattern r x.2.refusal)
      (RuleSet.refused? r) := by
  rw [RuleSet.refused?]
  cases h : Glob.ofText r.pattern with
  | ok g => exact .none
  | error e =>
    obtain ⟨-, hpattern⟩ := Glob.ofText_eq_error_iff.mp h
    have hself : GlobError.mk r.pattern e.refusal = e := by rw [← hpattern]
    have hmessage : (badPattern r e.refusal).message =
        s!"invalid pattern on line {r.line}: {e.message}" :=
      congrArg (fun g : GlobError => s!"invalid pattern on line {r.line}: {g.message}") hself
    exact .some ⟨⟨r, rfl⟩, rfl, congrArg some hpattern.symm, hmessage⟩

/-- So the findings on the patterns of some rules are the rules set aside, one for one. -/
theorem forall₂_ofPattern (rs : List Rule) :
    List.Forall₂ TellsRefusal (rs.flatMap ofPattern) (rs.filterMap RuleSet.refused?) := by
  have hfound : rs.flatMap ofPattern =
      rs.filterMap fun r => (RuleSet.refused? r).map fun x => badPattern r x.2.refusal := by
    rw [List.filterMap_eq_flatMap_toList]
    exact List.flatMap_congr fun r _ => ofPattern_eq r
  rw [hfound]
  exact forall₂_filterMap rel_refused? rs

end Finding

namespace Auditor

variable (a : Auditor)

/-- What is found of a file as a whole is not about a pattern. -/
theorem filter_fileFindings (f : OwnersFile) :
    ((a.fileFindings f).filter fun x => x.code = .pattern) = [] := by
  have hsize : ((Finding.ofSize f.sourceBytes a.policy.maxFileBytes).filter
      fun x => x.code = .pattern) = [] :=
    Finding.filter_code_eq_nil Finding.code_of_mem_ofSize (by decide)
  rw [fileFindings, List.filter_append, hsize, List.nil_append]
  split <;> rfl

/-- Of what is found of a rule, the refusal of its pattern alone is about the pattern. -/
theorem filter_findingsOn (above : List Rule) (r : Rule) :
    ((a.findingsOn above r).filter fun x => x.code = .pattern) = Finding.ofPattern r := by
  have hpattern : ((Finding.ofPattern r).filter fun x => x.code = .pattern) =
      Finding.ofPattern r := by
    rw [Finding.ofPattern]
    cases Glob.ofText r.pattern <;> rfl
  have hforms : ((Finding.ofForms a.policy.owners.allowEmail r).filter
      fun x => x.code = .pattern) = [] :=
    Finding.filter_code_eq_nil Finding.code_of_mem_ofForms (by decide)
  have hmissing : ((Finding.ofMissingOwners r).filter fun x => x.code = .pattern) = [] :=
    Finding.filter_code_eq_nil Finding.code_of_mem_ofMissingOwners (by decide)
  have hrepeated : ((Finding.ofRepeatedOwners r).filter fun x => x.code = .pattern) = [] :=
    Finding.filter_code_eq_nil Finding.code_of_mem_ofRepeatedOwners (by decide)
  have hunknown : ∀ d, ((Finding.ofUnknownOwners d r).filter fun x => x.code = .pattern) = [] :=
    fun d => Finding.filter_code_eq_nil Finding.code_of_mem_ofUnknownOwners (by decide)
  have hrepetition : ((Finding.repetition above r).filter fun x => x.code = .pattern) = [] :=
    Finding.filter_code_eq_nil Finding.code_of_mem_repetition (by decide)
  rw [← ruleFindings_append_repetition, ruleFindings]
  cases a.directory <;>
    simp only [List.filter_append, List.append_nil, hpattern, hforms, hmissing, hrepeated, hunknown,
      hrepetition]

/-- **The findings on patterns** are those of the rules, one after the other. -/
theorem filter_findings_ofText (text : String) :
    ((a.findings (OwnersFile.ofText text)).filter fun x => x.code = .pattern) =
      (OwnersFile.ofText text).rules.flatMap Finding.ofPattern := by
  rw [findings_ofText, List.filter_append, filter_fileFindings, List.nil_append,
    List.filter_flatMap, ← flatMap_snd_inTurn Finding.ofPattern]
  simp only [filter_findingsOn]

/-- The row of a refused pattern. -/
theorem rel_row? {ids : List (Nat × Uuid)} (hlevel : a.policy.checks.invalidPattern ≠ .allow)
    {x : Finding} {refused : Nat × GlobError} (h : x.TellsRefusal refused) :
    Option.Rel Row.TellsRefusal (a.row? ids x) (some refused) := by
  obtain ⟨⟨r, rfl⟩, hline, hpattern, hmessage⟩ := h
  have hseverity : a.policy.severityOf (.badPattern r refused.2.refusal) =
      a.policy.checks.invalidPattern.severity? := by
    rw [Policy.severityOf, Policy.levelOf_of_code_ne (by simp [Finding.code])]
    rfl
  rw [row?, hseverity]
  cases hl : a.policy.checks.invalidPattern with
  | allow => exact absurd hl hlevel
  | stop => exact .some ⟨rfl, hline, hpattern, hmessage⟩
  | warn => exact .some ⟨rfl, hline, hpattern, hmessage⟩

/-- The rows of a code are those of the findings of that code. -/
theorem filter_rows_report (f : OwnersFile) (c : Code) :
    ((a.report f).rows.filter fun row => row.check = c.name) =
      ((a.findings f).filter fun x => x.code = c).filterMap (a.row? f.ruleIds) := by
  have hrows : (a.report f).rows = (a.findings f).filterMap (a.row? f.ruleIds) := rfl
  rw [hrows, List.filter_filterMap, ← List.filterMap_eq_filter, List.filterMap_filterMap]
  refine List.filterMap_congr fun x _ => ?_
  rw [Option.guard_apply]
  cases hrow : a.row? f.ruleIds x with
  | none => by_cases hc : x.code = c <;> simp [hc, hrow]
  | some row =>
    have hcheck : row.check = c.name ↔ x.code = c := by
      rw [a.check_of_row? hrow]
      exact ⟨Code.name_injective, congrArg Code.name⟩
    by_cases hc : x.code = c <;> simp [hc, hrow, hcheck]

/-- **What is refused is reported.** -/
theorem reportsRefused_ofText (text : String) :
    a.ReportsRefused (OwnersFile.ofText text)
      ((OwnersFile.ofText text).rules.filterMap RuleSet.refused?) := by
  have hfound : List.Forall₂ Finding.TellsRefusal
      ((a.findings (OwnersFile.ofText text)).filter fun x => x.code = .pattern)
      ((OwnersFile.ofText text).rules.filterMap RuleSet.refused?) := by
    rw [filter_findings_ofText]
    exact Finding.forall₂_ofPattern _
  refine ⟨hfound, fun hlevel => ?_⟩
  rw [filter_rows_report, ← List.filterMap_some (l := List.filterMap RuleSet.refused? _)]
  exact List.rel_filterMap (fun _ _ h => a.rel_row? hlevel h) hfound

end Auditor

/-! ## 5. Refused rules -/

namespace RuleSet

/-- **Refused rules are reported and own nothing.**  A rule set splits the rules of a file into
those that are read and those that are refused.  The refused ones are the ones that linting reports
under the code of patterns, whoever lints.  And striking out any of them from the file changes what
becomes of no path. -/
theorem refused_rules_inert (text : String) (p : Precedence) :
    let f := OwnersFile.ofText text
    (compile f p).IsSplitOf f ∧
      (∀ a : Auditor, a.ReportsRefused f (compile f p).skipped) ∧
      ∀ g : OwnersFile, OmitsRefused f.lines g.lines →
        ∀ path, (compile g p).resolve path = (compile f p).resolve path := by
  intro f
  refine ⟨isSplitOf_compile f p, fun a => a.reportsRefused_ofText text, fun g hg path => ?_⟩
  have hrules : (compile g p).rules = (compile f p).rules := filterMap_read?_of_omitsRefused hg
  exact resolve_congr hrules rfl path

/-- A rule with a negation is refused, and without it the other rule owns what it did. -/
theorem resolve_without_negation :
    let f := OwnersFile.ofText "!*.md @a\n*.md @b\n"
    let g : OwnersFile := ⟨[.rule ⟨2, "*.md", [.ofText "@b"]⟩], 9⟩
    (compile f .lastMatch).skipped = [(1, ⟨"!*.md", .negation⟩)] ∧
      OmitsRefused f.lines g.lines ∧
      (compile g .lastMatch).resolve ⟨"a.md"⟩ = (compile f .lastMatch).resolve ⟨"a.md"⟩ := by
  intro f g
  have hlines : f.lines =
      [.rule ⟨1, "!*.md", [.ofText "@a"]⟩, .rule ⟨2, "*.md", [.ofText "@b"]⟩] := by
    decide +kernel
  have homits : OmitsRefused f.lines g.lines := by
    rw [hlines]
    exact .strike (by decide +kernel) (.keep _ .nil)
  refine ⟨by decide +kernel, homits, ?_⟩
  exact (refused_rules_inert "!*.md @a\n*.md @b\n" .lastMatch).2.2 g homits ⟨"a.md"⟩

end RuleSet

end Ownership
