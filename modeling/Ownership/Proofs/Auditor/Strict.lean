/-
# The files that pass the strict policy

Under the strict policy every finding stops, so a file passes exactly if nothing at all is found.
What each check lets pass is said here without the check, as a property of the file: what is found
of a rule in the pass over the file (`Auditor.findingsOn`) is nothing if and only if the rule is
without that defect, and the two scans for repetitions find nothing if and only if nothing occurs
twice.

No finding can hide another, since a report is empty only if each of its parts is.

* `Rule.Clean`, `OwnersFile.Clean`: a rule and a file without a defect, given the names that are
  known;
* `Auditor.ok_report_iff`: which findings let a file pass;
* `Auditor.findingsOn_eq_nil_iff`: when nothing is found of a rule;
* `Auditor.lint_strict_ok_iff`: which files pass.
-/
import Ownership.Proofs.Auditor.Lint
import Ownership.Proofs.Owner

namespace Ownership

/-! ## 1. Files without a defect -/

/-- A rule without a defect of its own: its pattern is a glob, it has owners and no word among them
twice, and every owner is a user or a team whose handle is known, be it listed with the sign or
without it. -/
structure Rule.Clean (names : List String) (r : Rule) : Prop where
  isGlob : ∃ g, Glob.ofText r.pattern = .ok g
  owned : r.owners ≠ []
  owners_nodup : (r.owners.map Owner.raw).Nodup
  known : ∀ o ∈ r.owners, (o.kind = .user ∨ o.kind = .team) ∧
    ∃ handle, o.raw = "@" ++ handle ∧ (handle ∈ names ∨ "@" ++ handle ∈ names)

/-- A file without a defect: none of its rules has one, and no pattern occurs twice. -/
structure OwnersFile.Clean (names : List String) (f : OwnersFile) : Prop where
  rules_clean : ∀ r ∈ f.rules, r.Clean names
  patterns_nodup : (f.rules.map Rule.pattern).Nodup

namespace Auditor

variable (a : Auditor)

/-! ## 2. Passing -/

/-- A row counts as its finding does. -/
theorem severityOf_of_row? {ids : List (Nat × Uuid)} {x : Finding} {row : Row}
    (h : a.row? ids x = some row) : a.policy.severityOf x = some row.severity := by
  obtain ⟨s, hs, rfl⟩ := Option.map_eq_some_iff.mp h
  exact hs

/-- **A file passes if none of its findings stops.** -/
theorem ok_report_iff (f : OwnersFile) :
    (a.report f).ok = true ↔ ∀ x ∈ a.findings f, a.policy.severityOf x ≠ some .stop := by
  have hok : (a.report f).ok =
      (rowsOf .stop ((a.findings f).filterMap (a.row? f.ruleIds))).isEmpty := rfl
  rw [hok, List.isEmpty_iff, rowsOf, List.filter_eq_nil_iff]
  constructor
  · intro h x hx hstop
    obtain ⟨row, hrow⟩ : ∃ row, a.row? f.ruleIds x = some row := by
      rw [row?, hstop]
      exact ⟨_, rfl⟩
    have hseverity := a.severityOf_of_row? hrow
    rw [hstop, Option.some.injEq] at hseverity
    exact h row (List.mem_filterMap.mpr ⟨x, hx, hrow⟩) (beq_iff_eq.mpr hseverity.symm)
  · intro h row hrow hstop
    obtain ⟨x, hx, hrow⟩ := List.mem_filterMap.mp hrow
    refine h x hx ?_
    rw [a.severityOf_of_row? hrow, eq_of_beq hstop]

/-- The strict policy stops at every finding. -/
theorem severityOf_strict (x : Finding) : Policy.strict.severityOf x = some .stop := by
  have hlevel : Policy.strict.levelOf x = .stop := by
    rw [Policy.levelOf]
    split
    · rfl
    · cases x <;> rfl
  rw [Policy.severityOf, hlevel]
  rfl

/-- So a file passes it only if there is none. -/
theorem ok_report_iff_of_strict (h : a.policy = .strict) (f : OwnersFile) :
    (a.report f).ok = true ↔ a.findings f = [] := by
  simp only [ok_report_iff, h, severityOf_strict, ne_eq, not_true_eq_false, imp_false]
  exact List.eq_nil_iff_forall_not_mem.symm

/-! ## 3. What is found -/

/-- **When nothing is found of a rule** below some others. -/
theorem findingsOn_eq_nil_iff (above : List Rule) (r : Rule) :
    a.findingsOn above r = [] ↔
      (∃ g, Glob.ofText r.pattern = .ok g) ∧
      (∀ o ∈ r.owners, o.kind ≠ .invalid ∧
        (o.kind = .email → a.policy.owners.allowEmail = true)) ∧
      r.owners ≠ [] ∧ (r.owners.map Owner.raw).Nodup ∧
      (∀ d, a.directory = some d → ∀ o ∈ r.owners, o.kind ≠ .invalid → d.knows o.name = true) ∧
      r.pattern ∉ above.map Rule.pattern := by
  simp only [findingsOn, List.append_eq_nil_iff, and_assoc]
  refine and_congr ?pattern (and_congr ?forms (and_congr ?missing (and_congr ?repeated
    (and_congr ?unknown ?repetition))))
  case pattern =>
    cases Glob.ofText r.pattern <;> simp
  case forms =>
    rw [List.flatMap_eq_nil_iff]
    refine forall₂_congr fun o _ => ?_
    split
    · simp [*]
    · split <;> simp_all
  case missing => simp
  case repeated =>
    rw [nodup_map_iff_inTurn, List.flatMap_eq_nil_iff]
    exact forall₂_congr fun b _ => by simp
  case unknown =>
    cases a.directory with
    | none => simp
    | some d =>
      simp only [List.flatMap_eq_nil_iff, Option.some.injEq, forall_eq']
      exact forall₂_congr fun o _ => by simp
  case repetition =>
    have hnone : (above.find? fun s => s.pattern = r.pattern) = none ↔
        r.pattern ∉ above.map Rule.pattern := by simp
    rw [← hnone, Finding.repetition]
    split <;> simp [*]

/-- When nothing is found of a file as a whole. -/
theorem fileFindings_eq_nil_iff (f : OwnersFile) :
    a.fileFindings f = [] ↔ f.sourceBytes ≤ a.policy.maxFileBytes ∧
      (a.policy.owners.strict = true → a.directory.isNone = false) := by
  rw [fileFindings, Finding.ofSize, List.append_eq_nil_iff]
  refine and_congr ?_ ?_
  · split <;> simp_all
  · cases a.policy.owners.strict <;> cases a.directory <;> simp

/-- When nothing is found of a file that is read. -/
theorem findings_eq_nil_iff (text : String) :
    a.findings (OwnersFile.ofText text) = [] ↔
      a.fileFindings (OwnersFile.ofText text) = [] ∧
        ∀ b ∈ inTurn (OwnersFile.ofText text).rules, a.findingsOn b.1 b.2 = [] := by
  rw [findings_ofText, List.append_eq_nil_iff, List.flatMap_eq_nil_iff]

end Auditor

/-! ## 4. Owners that are known -/

/-- An owner that is read is accepted by the strict policy, with a directory of some names, if it is
a user or a team whose handle is listed. -/
theorem Owner.isAccepted_iff {o : Owner} (ho : o = Owner.ofText o.raw) (names : List String) :
    (o.kind ≠ .invalid ∧ o.kind ≠ .email ∧ (Directory.ofNames names).knows o.name = true) ↔
      (o.kind = .user ∨ o.kind = .team) ∧
        ∃ handle, o.raw = "@" ++ handle ∧ (handle ∈ names ∨ "@" ++ handle ∈ names) := by
  have hkinds : (o.kind ≠ .invalid ∧ o.kind ≠ .email) ↔ (o.kind = .user ∨ o.kind = .team) := by
    cases o.kind <;> simp
  rw [← and_assoc, hkinds]
  refine and_congr_right fun hkind => ?_
  rw [ho] at hkind
  obtain ⟨handle, hraw, hsign, hname⟩ := Owner.exists_handle hkind
  rw [← ho] at hname
  have hhead : handle.toList.head? ≠ some handleSign := fun hhead =>
    hsign (List.mem_of_head? hhead)
  rw [hname, Directory.knows_ofNames_iff hhead]
  constructor
  · exact fun hmem => ⟨handle, hraw, hmem⟩
  · rintro ⟨handle', hraw', hmem⟩
    rw [hraw] at hraw'
    rwa [← dropHandleSign_append handle, hraw', dropHandleSign_append]

namespace Auditor

/-! ## 5. The strict policy -/

variable {a : Auditor} {names : List String}

/-- When nothing is found of a rule, under the strict policy and with a directory of some names. -/
theorem findingsOn_eq_nil_iff_clean (hpolicy : a.policy = .strict)
    (hdirectory : a.directory = some (Directory.ofNames names)) (above : List Rule) {r : Rule}
    (howner : ∀ o ∈ r.owners, o = Owner.ofText o.raw) :
    a.findingsOn above r = [] ↔ r.Clean names ∧ r.pattern ∉ above.map Rule.pattern := by
  rw [findingsOn_eq_nil_iff, hpolicy, hdirectory]
  simp only [Option.some.injEq, forall_eq']
  constructor
  · rintro ⟨hglob, hforms, howned, hnodup, hknown, hpattern⟩
    refine ⟨⟨hglob, howned, hnodup, fun o ho => ?_⟩, hpattern⟩
    obtain ⟨hinvalid, hemail⟩ := hforms o ho
    exact (Owner.isAccepted_iff (howner o ho) names).mp
      ⟨hinvalid, fun heq => Bool.false_ne_true (hemail heq), hknown o ho hinvalid⟩
  · rintro ⟨h, hpattern⟩
    have haccepted := fun o ho => (Owner.isAccepted_iff (howner o ho) names).mpr (h.known o ho)
    exact ⟨h.isGlob, fun o ho => ⟨(haccepted o ho).1, fun heq => absurd heq (haccepted o ho).2.1⟩,
      h.owned, h.owners_nodup, fun o ho _ => (haccepted o ho).2.2, hpattern⟩

/-- When nothing is found of the rules of a file. -/
theorem forall_findingsOn_eq_nil_iff_clean (hpolicy : a.policy = .strict)
    (hdirectory : a.directory = some (Directory.ofNames names)) (text : String) :
    (∀ b ∈ inTurn (OwnersFile.ofText text).rules, a.findingsOn b.1 b.2 = []) ↔
      (OwnersFile.ofText text).Clean names := by
  have hrule : ∀ b ∈ inTurn (OwnersFile.ofText text).rules, a.findingsOn b.1 b.2 = [] ↔
      b.2.Clean names ∧ b.2.pattern ∉ b.1.map Rule.pattern := by
    intro b hb
    obtain ⟨n, h⟩ := exists_wellFormed_of_mem_rules (mem_of_mem_inTurn hb)
    exact findingsOn_eq_nil_iff_clean hpolicy hdirectory b.1 h.owner_eq
  have hturn : (∀ b ∈ inTurn (OwnersFile.ofText text).rules, b.2.Clean names) ↔
      ∀ r ∈ (OwnersFile.ofText text).rules, r.Clean names := forall_mem_inTurn_iff
  rw [forall₂_congr hrule, forall₂_and, hturn, ← nodup_map_iff_inTurn]
  exact ⟨fun h => ⟨h.1, h.2⟩, fun h => ⟨h.rules_clean, h.patterns_nodup⟩⟩

/-- **Which files pass the strict policy**, with a directory of some names: those without a defect
that are no larger than the hosting platform takes into account. -/
theorem lint_strict_ok_iff (text : String) (names : List String) (tree : Option Tree)
    (now : String) :
    (lint ⟨.strict, some (Directory.ofNames names), tree, now⟩
        (OwnersFile.ofText text)).value.ok = true ↔
      text.utf8ByteSize ≤ platformMaxBytes ∧ (OwnersFile.ofText text).Clean names := by
  set a : Auditor := ⟨.strict, some (Directory.ofNames names), tree, now⟩
  have hok : (a.lint (OwnersFile.ofText text)).value.ok =
      (a.report (OwnersFile.ofText text)).ok := rfl
  rw [hok, a.ok_report_iff_of_strict rfl, a.findings_eq_nil_iff, a.fileFindings_eq_nil_iff,
    forall_findingsOn_eq_nil_iff_clean rfl rfl]
  refine and_congr_left' (and_iff_left fun _ => rfl)

end Auditor

end Ownership
