/-
# What a lint leaves behind

Linting leaves a fact behind for each row of its report, in the order of the rows, and then one fact
on the whole report.  This module says what these facts tell of the report, without the functions
that make them.

The fact on the whole report is made from the texts of the rows.  Two things are found again there.
The codes that occur are told each once, in the order in which they are first seen; and when the
report stops, the exit status is looked up by the name of the first code that stops.  Every row
carries the name of a code, so that this never falls back on the code of the policy while there is
another.  The first code is searched for by itself, apart from the codes that are told, and the two
agree on every report.

* `IsFirstSeen`, `isFirstSeen_eraseDups`: the elements of a list, each once;
* `Row.IsToldBy`, `Report.IsToldBy`: what a fact tells of a row and of a report;
* `Auditor.firstCode_eq`: the first code that stops and the head of those that are told;
* `Auditor.exists_head?_stopCodes`: the first code of a report that stops;
* `Auditor.isToldBy_rowFact`, `Auditor.isToldBy_summary`: the facts by themselves;
* `Auditor.lint_isToldBy`: all facts of a lint.
-/
import Ownership.Proofs.Auditor.Masking

namespace Ownership

/-! ## 1. Elements in the order in which they are first seen -/

section FirstSeen

variable {α : Type} [DecidableEq α] {xs ys : List α}

/-- The list `ys` holds what `xs` holds, each element once, in the order in which they are first
seen in `xs`. -/
structure IsFirstSeen (xs ys : List α) : Prop where
  mem_iff : ∀ x, x ∈ ys ↔ x ∈ xs
  ordered : ys.Pairwise fun x y => xs.idxOf x < xs.idxOf y

/-- Of two elements that are kept, the one that is seen first was seen first before. -/
theorem idxOf_lt_of_filter {p : α → Bool} {x y : α} (hx : p x = true) (hy : p y = true)
    (h : (xs.filter p).idxOf x < (xs.filter p).idxOf y) : xs.idxOf x < xs.idxOf y := by
  induction xs with
  | nil => exact h
  | cons z zs ih =>
    by_cases hz : p z = true
    -- The head is kept, and is one of the two or none of them.
    · rw [List.filter_cons_of_pos hz] at h
      by_cases hzy : z = y
      · rw [hzy, List.idxOf_cons_self] at h
        exact absurd h (Nat.not_lt_zero _)
      · rw [List.idxOf_cons_ne _ hzy] at h ⊢
        by_cases hzx : z = x
        · rw [hzx, List.idxOf_cons_self]
          exact Nat.succ_pos _
        · rw [List.idxOf_cons_ne _ hzx] at h ⊢
          exact Nat.succ_lt_succ (ih (Nat.lt_of_succ_lt_succ h))
    -- The head is dropped, and so is none of them.
    · have hzx : z ≠ x := fun heq => hz (heq ▸ hx)
      have hzy : z ≠ y := fun heq => hz (heq ▸ hy)
      rw [List.filter_cons_of_neg hz] at h
      rw [List.idxOf_cons_ne _ hzx, List.idxOf_cons_ne _ hzy]
      exact Nat.succ_lt_succ (ih h)

/-- **Dropping repetitions keeps the order in which elements are first seen.** -/
theorem isFirstSeen_eraseDups : ∀ xs : List α, IsFirstSeen xs xs.eraseDups
  | [] => ⟨fun _ => Iff.rfl, List.Pairwise.nil⟩
  | x :: xs => by
    refine ⟨fun y => List.mem_eraseDups, ?_⟩
    rw [List.eraseDups_cons]
    have ih := isFirstSeen_eraseDups (xs.filter fun y => !y == x)
    have hne : ∀ y ∈ (xs.filter fun y => !y == x).eraseDups, (!y == x) = true := fun y hy =>
      (List.mem_filter.mp ((ih.mem_iff y).mp hy)).2
    refine List.Pairwise.cons (fun y hy => ?_) (ih.ordered.imp_of_mem fun {y z} hy hz hlt => ?_)
    · have hyx : x ≠ y := fun heq => by simpa [heq] using hne y hy
      rw [List.idxOf_cons_self, List.idxOf_cons_ne _ hyx]
      exact Nat.succ_pos _
    · have hyx : x ≠ y := fun heq => by simpa [heq] using hne y hy
      have hzx : x ≠ z := fun heq => by simpa [heq] using hne z hz
      rw [List.idxOf_cons_ne _ hyx, List.idxOf_cons_ne _ hzx]
      exact Nat.succ_lt_succ (idxOf_lt_of_filter (hne y hy) (hne z hz) hlt)
termination_by xs => xs.length
decreasing_by exact Nat.lt_succ_of_le (List.length_filter_le _ _)

end FirstSeen

/-! ## 2. What facts tell -/

/-- What a fact tells of a row, under the rules on what facts may show: whether it stops or warns,
and all that the row has, but for the address of an owner if addresses are masked. -/
structure Row.IsToldBy (rules : FactRules) (row : Row) (fact : Fact) : Prop where
  stage_eq : fact.stage = .lint
  decision_eq : fact.decision = match row.severity with
    | .stop => .failure
    | .warn => .warn
  check_eq : fact.fields.get? "check" = some (.text row.check)
  line_eq : fact.fields.get? "line" = some (.nat row.line)
  ruleId_eq : fact.fields.get? "rule_id" = row.ruleId.map Json.text
  pattern_eq : fact.fields.get? "pattern" = row.pattern.map Json.text
  unmasked : rules.maskEmails = false →
    fact.fields.get? "owner" = row.owner.map Json.text ∧
      fact.fields.get? "message" = some (.text row.message)
  masked : rules.maskEmails = true → row.IsMaskedIn fact

/-- What a fact tells of a report: its counts and the codes that occur; and if it stops, the codes
that stop, that of the policy behind them, and the exit status of the first of these. -/
structure Report.IsToldBy (report : Report) (fact : Fact) : Prop where
  stage_eq : fact.stage = .lintSummary
  stops_eq : fact.fields.get? "stops" = some (.nat report.stops.length)
  warnings_eq : fact.fields.get? "warnings" = some (.nat report.warnings.length)
  ruleCount_eq : fact.fields.get? "rule_count" = some (.nat report.ruleCount)
  checks_eq : ∃ checks, IsFirstSeen (report.rows.map Row.check) checks ∧
    fact.fields.get? "checks" = some (.texts checks)
  passed : report.ok = true → fact.decision = .success ∧
    fact.fields.get? "summary_error_ids" = none ∧ fact.fields.get? "exit_code" = none
  stopped : report.ok = false → fact.decision = .failure ∧ ∃ checks first,
    IsFirstSeen ((report.rows.filter fun row => row.severity = .stop).map Row.check) checks ∧
      fact.fields.get? "summary_error_ids" = some (.texts (checks ++ ["E_POLICY"])) ∧
      (checks ++ ["E_POLICY"]).head? = some (Code.name first) ∧
      fact.fields.get? "exit_code" = some (.nat first.exitStatus)

namespace Auditor

variable {a : Auditor}

/-! ## 3. The facts on rows -/

/-- **The fact on a row** tells it. -/
theorem isToldBy_rowFact {text : String} {row : Row}
    (hrow : row ∈ (a.report (OwnersFile.ofText text)).rows) :
    row.IsToldBy a.policy.facts (rowFact (a.context (OwnersFile.ofText text)) row) := by
  have hkeys := nodup_keys_rowValues row
  have hsaid : ∀ key, key ∉ Fact.envelopeKeys → key ∉ Fact.volatileKeys →
      (rowFact (a.context (OwnersFile.ofText text)) row).fields.get? key =
        (rowValues row).get? key := fun key => Fact.get?_make_of_not_mem hkeys
  refine
    { stage_eq := rfl
      decision_eq := ?decision
      check_eq := (hsaid "check" (by decide) (by decide)).trans ?check
      line_eq := (hsaid "line" (by decide) (by decide)).trans ?line
      ruleId_eq := (hsaid "rule_id" (by decide) (by decide)).trans ?ruleId
      pattern_eq := (hsaid "pattern" (by decide) (by decide)).trans ?pattern
      unmasked := fun hmask => ⟨?owner, ?message⟩
      masked := fun hmask => isMaskedIn_rowFact hmask hrow }
  case decision =>
    have hdecision : (rowFact (a.context (OwnersFile.ofText text)) row).decision =
        row.severity.decision := rfl
    rw [hdecision]
    cases row.severity <;> rfl
  case check | line => simp [rowValues, Members.get?_cons]
  case ruleId | pattern =>
    simp [rowValues, Members.get?_append, Members.get?_cons, get?_textValue?]
  case owner =>
    rw [rowFact, Fact.get?_make_of_unmasked hmask hkeys (by decide) (by decide),
      get?_rowValues_owner]
  case message =>
    rw [rowFact, Fact.get?_make_of_unmasked hmask hkeys (by decide) (by decide),
      get?_rowValues_message]

/-! ## 4. The fact on a report -/

/-- Every row carries the name of a code. -/
theorem exists_code_of_mem_rows {f : OwnersFile} {row : Row} (hrow : row ∈ (a.report f).rows) :
    ∃ code : Code, row.check = code.name := by
  obtain ⟨x, -, hrow⟩ := List.mem_filterMap.mp hrow
  exact ⟨x.code, a.check_of_row? hrow⟩

/-- The codes of a report that stops begin with that of the first row that stops. -/
theorem head?_stopCodes (r : Report) :
    (stopCodes r).head? =
      some (((r.rows.find? fun row => row.severity == .stop).map Row.check).getD
        Code.policy.name) := by
  rw [← List.head?_filter, stopCodes, checksOf, rowsOf]
  cases r.rows.filter fun row => row.severity == .stop with
  | nil => rfl
  | cons row rows =>
    rw [List.map_cons, List.eraseDups_cons]
    rfl

/-- **The search for the first code agrees with the codes that are told**, on every report. -/
theorem firstCode_eq (r : Report) :
    firstCode r = ((stopCodes r).head?.bind Code.ofName?).getD .policy := by
  rw [head?_stopCodes, firstCode]
  cases r.rows.find? fun row => row.severity == .stop with
  | none => rfl
  | some row => rfl

/-- **The first code of a report that stops** decides the exit status. -/
theorem exists_head?_stopCodes (a : Auditor) (f : OwnersFile) :
    ∃ code : Code, (stopCodes (a.report f)).head? = some code.name ∧
      firstCode (a.report f) = code := by
  obtain ⟨code, hcode⟩ : ∃ code : Code, (stopCodes (a.report f)).head? = some code.name := by
    rw [head?_stopCodes]
    -- If no row stops, the code of the policy stands first; otherwise a row's does.
    cases hfind : (a.report f).rows.find? fun row => row.severity == .stop with
    | none => exact ⟨.policy, rfl⟩
    | some row =>
      obtain ⟨code, hcode⟩ := exists_code_of_mem_rows (List.mem_of_find?_eq_some hfind)
      exact ⟨code, congrArg some hcode⟩
  refine ⟨code, hcode, ?_⟩
  rw [firstCode_eq, hcode, Option.bind_some, Code.ofName?_name, Option.getD_some]

/-- **The fact on a report** tells it. -/
theorem isToldBy_summary (a : Auditor) (f : OwnersFile) (c : FactContext) :
    (a.report f).IsToldBy
      (Fact.make c .lintSummary (if (a.report f).ok then .success else .failure)
        (countValues (a.report f) ++
          if (a.report f).ok then [] else stopValues (a.report f))) := by
  obtain ⟨first, hhead, hfirst⟩ := exists_head?_stopCodes a f
  set report := a.report f
  have hkeys : ((countValues report ++
      if report.ok then [] else stopValues report).map Prod.fst).Nodup := by
    cases report.ok <;> simp [countValues, stopValues]
  have hsaid : ∀ key, key ∉ Fact.envelopeKeys → key ∉ Fact.volatileKeys →
      (Fact.make c .lintSummary (if report.ok then .success else .failure)
        (countValues report ++ if report.ok then [] else stopValues report)).fields.get? key =
        (countValues report ++ if report.ok then [] else stopValues report).get? key :=
    fun key => Fact.get?_make_of_not_mem hkeys
  refine
    { stage_eq := rfl
      stops_eq := (hsaid "stops" (by decide) (by decide)).trans ?stops
      warnings_eq := (hsaid "warnings" (by decide) (by decide)).trans ?warnings
      ruleCount_eq := (hsaid "rule_count" (by decide) (by decide)).trans ?ruleCount
      checks_eq := ⟨report.checks, isFirstSeen_eraseDups _,
        (hsaid "checks" (by decide) (by decide)).trans ?checks⟩
      passed := fun hok => ⟨?success,
        (hsaid "summary_error_ids" (by decide) (by decide)).trans ?noIds,
        (hsaid "exit_code" (by decide) (by decide)).trans ?noExit⟩
      stopped := fun hok => ⟨?failure, checksOf (rowsOf .stop report.rows), first,
        isFirstSeen_eraseDups _,
        (hsaid "summary_error_ids" (by decide) (by decide)).trans ?ids, hhead,
        (hsaid "exit_code" (by decide) (by decide)).trans ?exit⟩ }
  case stops | warnings | ruleCount | checks => simp [countValues, Members.get?_cons]
  case success | failure => simp [Fact.make, hok]
  case noIds | noExit => simp [hok, countValues, Members.get?_cons, Members.get?_nil]
  case ids | exit =>
    simp [hok, hfirst, countValues, stopValues, stopCodes, Code.name, Members.get?_cons]

/-! ## 5. All facts of a lint -/

/-- **The facts of a lint mirror its report**: one for each row, in the order of the rows, and
behind them one for the whole. -/
theorem lint_isToldBy (a : Auditor) (text : String) :
    let f := OwnersFile.ofText text
    let report := (a.lint f).value
    ∃ facts summary, (a.lint f).facts = facts ++ [summary] ∧
      List.Forall₂ (Row.IsToldBy a.policy.facts) report.rows facts ∧ report.IsToldBy summary := by
  intro f report
  refine ⟨_, _, facts_lint f, ?_, a.isToldBy_summary f (a.context f)⟩
  rw [List.forall₂_map_right_iff]
  exact List.forall₂_same.mpr fun row hrow => isToldBy_rowFact hrow

end Auditor

end Ownership
