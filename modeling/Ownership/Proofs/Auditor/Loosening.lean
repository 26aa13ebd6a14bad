/-
# Looser policies

A policy has four knobs that linting minds, and they act in different places.  The largest size and
the acceptance of email addresses decide which findings there are, the demand for a directory makes
a finding that stops at any level, and the levels say how a finding counts and whether it is in the
report.  Turned the same way, they add up: what stops under the looser policy stops under the other.

Findings are compared first, and how they count after that.  One finding says what the policy is,
namely that a file is larger than the limit, so findings are compared without their limits
(`Finding.limitless`).

* `Policy.LooserThan`: one policy is at most as strict as another;
* `Row.NoGraverThan`: a row reports what another does, and stops only if that does;
* `Auditor.exists_mem_findings_of_looser`: what is found under a looser policy;
* `Policy.severityOf_of_looser`: how it counts;
* `Auditor.lint_under_looser`: a file that passes under a policy passes under a looser one.
-/
import Ownership.Proofs.Auditor.Strict

namespace Ownership

/-! ## 1. Looser policies -/

/-- How grave a level is. -/
def Level.gravity : Level → Nat
  | .allow => 0
  | .warn => 1
  | .stop => 2

/-- The policy `q` is at most as strict as `p`: no check counts for more, a directory is demanded
only where `p` does, email addresses are accepted where `p` does, and no smaller file is too large.
Codes that no check reports stop under every policy. -/
structure Policy.LooserThan (q p : Policy) : Prop where
  gravity_le : ∀ c, (q.checks.levelOf c).gravity ≤ (p.checks.levelOf c).gravity
  strict_of_strict : q.owners.strict = true → p.owners.strict = true
  allowEmail_of_allowEmail : p.owners.allowEmail = true → q.owners.allowEmail = true
  maxFileBytes_le : p.maxFileBytes ≤ q.maxFileBytes

/-- The same auditor under another policy. -/
def Auditor.under (a : Auditor) (p : Policy) : Auditor := { a with policy := p }

/-- A row reports what `row'` does, about the same, and stops only if `row'` does. -/
structure Row.NoGraverThan (row row' : Row) : Prop where
  check_eq : row.check = row'.check
  line_eq : row.line = row'.line
  ruleId_eq : row.ruleId = row'.ruleId
  pattern_eq : row.pattern = row'.pattern
  owner_eq : row.owner = row'.owner
  stop_of_stop : row.severity = .stop → row'.severity = .stop

namespace Policy

/-- The policy that holds where nothing else is said is looser than the strict one. -/
theorem standard_looserThan_strict : standard.LooserThan strict where
  gravity_le c := by cases c <;> decide
  strict_of_strict h := by cases h
  allowEmail_of_allowEmail h := by cases h
  maxFileBytes_le := Nat.le_refl _

/-- What the hosting platform tolerates is looser still. -/
theorem platform_looserThan_standard : platform.LooserThan standard where
  gravity_le c := by cases c <;> decide
  strict_of_strict h := h
  allowEmail_of_allowEmail h := h
  maxFileBytes_le := Nat.le_refl _

end Policy

/-! ## 2. Findings without their limits -/

namespace Finding

/-- A finding that names no limit. -/
def limitless : Finding → Finding
  | fileTooLarge size _ => fileTooLarge size 0
  | x => x

variable (x : Finding)

@[simp] theorem code_limitless : x.limitless.code = x.code := by cases x <;> rfl

@[simp] theorem line_limitless : x.limitless.line = x.line := by cases x <;> rfl

@[simp] theorem rule?_limitless : x.limitless.rule? = x.rule? := by cases x <;> rfl

@[simp] theorem owner?_limitless : x.limitless.owner? = x.owner? := by cases x <;> rfl

@[simp] theorem severityOf_limitless (p : Policy) :
    p.severityOf x.limitless = p.severityOf x := by
  simp only [Policy.severityOf, Policy.levelOf, line_limitless, code_limitless]

variable {x}

/-- Findings that differ in the limit agree in what does not mind it. -/
theorem eq_of_limitless_eq {β : Type} {g : Finding → β} (hg : ∀ z, g z.limitless = g z)
    {y : Finding} (h : y.limitless = x.limitless) : g x = g y := by
  rw [← hg x, ← h, hg y]

end Finding

/-! ## 3. What is found -/

section Looser

variable {p q : Policy} (h : q.LooserThan p)

include h

/-- An owner whose form a looser policy does not want has a form that the other does not want. -/
theorem Finding.mem_ofForms_of_looser {r : Rule} {x : Finding}
    (hx : x ∈ ofForms q.owners.allowEmail r) : x ∈ ofForms p.owners.allowEmail r := by
  obtain ⟨o, ho, hform⟩ := List.mem_filterMap.mp hx
  refine List.mem_filterMap.mpr ⟨o, ho, ?_⟩
  rw [ofForm?] at hform ⊢
  cases hkind : o.kind with
  | invalid => rwa [hkind] at hform
  | user => rwa [hkind] at hform
  | team => rwa [hkind] at hform
  | email =>
    simp only [hkind] at hform
    cases hq : q.owners.allowEmail with
    | true => simp [hq] at hform
    | false =>
      have hp : p.owners.allowEmail = false := by
        by_contra hp
        rw [h.allowEmail_of_allowEmail (by simpa using hp)] at hq
        cases hq
      simpa [hq, hp] using hform

namespace Auditor

variable (a : Auditor)

theorem mem_ruleFindings_of_looser {r : Rule} {x : Finding}
    (hx : x ∈ (a.under q).ruleFindings r) : x ∈ (a.under p).ruleFindings r := by
  simp only [ruleFindings, List.mem_append] at hx ⊢
  rcases hx with (((hpattern | hforms) | hmissing) | hrepeated) | hunknown
  · exact .inl (.inl (.inl (.inl hpattern)))
  · exact .inl (.inl (.inl (.inr (Finding.mem_ofForms_of_looser h hforms))))
  · exact .inl (.inl (.inr hmissing))
  · exact .inl (.inr hrepeated)
  · exact .inr hunknown

/-- A file that is too large for a looser policy is too large for the other, by another limit. -/
theorem exists_mem_fileFindings_of_looser {f : OwnersFile} {x : Finding}
    (hx : x ∈ (a.under q).fileFindings f) :
    ∃ y ∈ (a.under p).fileFindings f, y.limitless = x.limitless := by
  simp only [fileFindings, Finding.ofSize, List.mem_append, List.mem_ite_nil_right,
    List.mem_singleton] at hx ⊢
  rcases hx with ⟨hsize, rfl⟩ | ⟨hmissing, rfl⟩
  · have hlimit : p.maxFileBytes ≤ q.maxFileBytes := h.maxFileBytes_le
    exact ⟨_, .inl ⟨hlimit.trans_lt hsize, rfl⟩, rfl⟩
  · rw [Bool.and_eq_true] at hmissing
    have hstrict : p.owners.strict = true := h.strict_of_strict hmissing.1
    exact ⟨_, .inr ⟨Bool.and_eq_true_iff.mpr ⟨hstrict, hmissing.2⟩, rfl⟩, rfl⟩

/-- **What is found under a looser policy** is found under the other, but for the limit. -/
theorem exists_mem_findings_of_looser {f : OwnersFile} {x : Finding}
    (hx : x ∈ (a.under q).findings f) :
    ∃ y ∈ (a.under p).findings f, y.limitless = x.limitless := by
  simp only [findings, List.mem_mergeSort, List.mem_append, List.mem_flatMap] at hx ⊢
  rcases hx with (hfile | ⟨r, hr, hrule⟩) | hrepeated
  · obtain ⟨y, hy, hyx⟩ := a.exists_mem_fileFindings_of_looser h hfile
    exact ⟨y, .inl (.inl hy), hyx⟩
  · exact ⟨x, .inl (.inr ⟨r, hr, a.mem_ruleFindings_of_looser h hrule⟩), rfl⟩
  · exact ⟨x, .inr hrepeated, rfl⟩

end Auditor

end Looser

/-! ## 4. How it counts -/

/-- What is reported at a level is reported at a graver one, and stops there if it does here. -/
theorem Level.exists_severity?_of_gravity_le {l l' : Level} (h : l.gravity ≤ l'.gravity)
    {s : Severity} (hs : l.severity? = some s) :
    ∃ s', l'.severity? = some s' ∧ (s = .stop → s' = .stop) := by
  cases l' with
  | stop => exact ⟨.stop, rfl, fun _ => rfl⟩
  | warn =>
    cases l with
    | stop => exact absurd h (by decide)
    | warn => exact ⟨.warn, rfl, fun hstop => by cases hs; cases hstop⟩
    | allow => cases hs
  | allow =>
    cases l with
    | stop => exact absurd h (by decide)
    | warn => exact absurd h (by decide)
    | allow => cases hs

/-- **A finding counts for no more under a looser policy.** -/
theorem Policy.severityOf_of_looser {p q : Policy} (h : q.LooserThan p) {x : Finding}
    {s : Severity} (hs : q.severityOf x = some s) :
    ∃ s', p.severityOf x = some s' ∧ (s = .stop → s' = .stop) := by
  refine Level.exists_severity?_of_gravity_le ?_ hs
  -- The gate before the levels is the same under both policies.
  rw [levelOf, levelOf]
  split
  · exact Nat.le_refl _
  · exact h.gravity_le _

namespace Auditor

variable {p q : Policy} (h : q.LooserThan p) (a : Auditor) {f : OwnersFile}

include h

/-- What is found and counts under a looser policy. -/
theorem exists_severityOf_of_looser {x : Finding} {s : Severity}
    (hx : x ∈ (a.under q).findings f) (hs : q.severityOf x = some s) :
    ∃ y ∈ (a.under p).findings f, y.limitless = x.limitless ∧
      ∃ s', p.severityOf y = some s' ∧ (s = .stop → s' = .stop) := by
  obtain ⟨y, hy, hyx⟩ := a.exists_mem_findings_of_looser h hx
  have hsame : p.severityOf x = p.severityOf y :=
    Finding.eq_of_limitless_eq (fun z => z.severityOf_limitless p) hyx
  refine ⟨y, hy, hyx, ?_⟩
  rw [← hsame]
  exact Policy.severityOf_of_looser h hs

/-- **Each row under a looser policy** has one under the other that is as grave. -/
theorem exists_row_of_looser {row : Row} (hrow : row ∈ ((a.under q).report f).rows) :
    ∃ row' ∈ ((a.under p).report f).rows, row.NoGraverThan row' := by
  obtain ⟨x, hx, hrow⟩ := List.mem_filterMap.mp hrow
  obtain ⟨s, hs, rfl⟩ := Option.map_eq_some_iff.mp hrow
  obtain ⟨y, hy, hyx, s', hs', hstop⟩ := a.exists_severityOf_of_looser h hx hs
  have hcode : x.code = y.code := Finding.eq_of_limitless_eq Finding.code_limitless hyx
  have hline : x.line = y.line := Finding.eq_of_limitless_eq Finding.line_limitless hyx
  have hrule : x.rule? = y.rule? := Finding.eq_of_limitless_eq Finding.rule?_limitless hyx
  have howner : x.owner? = y.owner? := Finding.eq_of_limitless_eq Finding.owner?_limitless hyx
  refine ⟨_, List.mem_filterMap.mpr ⟨y, hy, Option.map_eq_some_iff.mpr ⟨s', hs', rfl⟩⟩, ?_⟩
  exact
    { check_eq := congrArg Code.name hcode
      line_eq := hline
      ruleId_eq := by rw [hline]
      pattern_eq := by rw [hrule]
      owner_eq := by rw [howner]
      stop_of_stop := hstop }

/-- **A file that passes under a policy passes under a looser one.** -/
theorem ok_of_looser (hok : ((a.under p).report f).ok = true) :
    ((a.under q).report f).ok = true := by
  rw [ok_report_iff] at hok ⊢
  intro x hx hs
  obtain ⟨y, hy, -, s', hs', hstop⟩ := a.exists_severityOf_of_looser h hx hs
  rw [hstop rfl] at hs'
  exact hok y hy hs'

end Auditor

/-! ## 5. Linting under looser policies -/

namespace Auditor

/-- **Loosening a policy never makes linting fail.**  Each row of the report under the looser policy
has one under the other, with the same check, line, pattern and owner, that stops if it does.  So a
file that passes under a policy passes under a looser one; and of the presets the strict one is the
strictest, and what the hosting platform tolerates the loosest. -/
theorem lint_under_looser (a : Auditor) (f : OwnersFile) :
    (∀ p q : Policy, q.LooserThan p →
      (∀ row ∈ ((a.under q).lint f).value.rows, ∃ row' ∈ ((a.under p).lint f).value.rows,
        row.NoGraverThan row') ∧
      (((a.under p).lint f).value.ok = true → ((a.under q).lint f).value.ok = true)) ∧
    (((a.under .strict).lint f).value.ok = true →
      ((a.under .standard).lint f).value.ok = true) ∧
    (((a.under .standard).lint f).value.ok = true →
      ((a.under .platform).lint f).value.ok = true) := by
  refine ⟨fun p q h => ⟨fun row hrow => ?_, fun hok => ?_⟩, fun hok => ?_, fun hok => ?_⟩
  · exact a.exists_row_of_looser h hrow
  · exact a.ok_of_looser h hok
  · exact a.ok_of_looser Policy.standard_looserThan_strict hok
  · exact a.ok_of_looser Policy.platform_looserThan_standard hok

/-- A pattern that is no glob stops under the presets, and the row of one is that of the other. -/
theorem rows_negation_standard_strict :
    let a : Auditor := ⟨.platform, none, none, ""⟩
    let f := OwnersFile.ofText "!a @x"
    Policy.standard.LooserThan .strict ∧
      ((a.under .standard).lint f).value.rows.map Row.severity = [.stop] ∧
      ∀ row ∈ ((a.under .standard).lint f).value.rows,
        ∃ row' ∈ ((a.under .strict).lint f).value.rows, row.NoGraverThan row' := by
  intro a f
  refine ⟨Policy.standard_looserThan_strict, by decide +kernel, ?_⟩
  exact ((lint_under_looser a f).1 _ _ Policy.standard_looserThan_strict).1

end Auditor

end Ownership
