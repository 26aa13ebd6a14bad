/-
# Linting in one pass

A file is linted in rounds.  The checks of one rule look at each rule in turn; the check for
repeated patterns goes through all rules again; then the findings are sorted by line, and the rule
that a row belongs to is looked up by its line.  This module says what comes out of that as one pass
from the top of the file to the end (`Auditor.onePass`): whatever is reported of a rule depends on
the rule and those above it, and is reported before anything is of the rules below.

A rule is handed over together with those above it (`inTurn`), so that the pass needs no memory, and
what the two scans for repetitions remember is what they have been handed.  Sorting cannot mix the
rules up since they stand on different lines, and for the same reason a line leads back to its rule.

* `inTurn`: the elements of a list, each with those in front of it;
* `Auditor.findingsOn`, `Auditor.onePass`: the pass;
* `Finding.repeated_eq`, `Finding.repeatedPatterns_eq`: what the scans remember;
* `Auditor.mem_findingsOn_iff`: what is found of a rule, check by check;
* `Auditor.findings_ofText`: the findings, in the order of the pass;
* `Policy.levelOf_of_code_ne`, `Policy.levelOf_of_line_ne`: when the level of a finding is that of
  its code;
* `Auditor.lint_eq_onePass`: the report.
-/
import Ownership.Auditor.Lint
import Ownership.Proofs.OwnersFile.Form
import Ownership.Proofs.Sorting

namespace Ownership

/-! ## 1. Elements with those in front of them -/

section InTurn

variable {α β : Type}

/-- The elements of a list, each with those in front of it, when others stand before the list. -/
def inTurnFrom (before : List α) : List α → List (List α × α)
  | [] => []
  | x :: xs => (before, x) :: inTurnFrom (before ++ [x]) xs

/-- The elements of a list, each with those in front of it. -/
def inTurn (xs : List α) : List (List α × α) := inTurnFrom [] xs

theorem exists_of_mem_inTurnFrom {xs : List α} {b : List α × α} :
    ∀ {before : List α}, b ∈ inTurnFrom before xs →
      ∃ later, before ++ xs = b.1 ++ b.2 :: later := by
  induction xs with
  | nil => exact fun h => absurd h List.not_mem_nil
  | cons x xs ih =>
    intro before h
    rcases List.mem_cons.mp h with rfl | h
    · exact ⟨xs, rfl⟩
    · obtain ⟨later, hlater⟩ := ih h
      exact ⟨later, by rw [← hlater, List.append_assoc, List.singleton_append]⟩

/-- An element stands right behind those in front of it. -/
theorem exists_of_mem_inTurn {xs : List α} {b : List α × α} (h : b ∈ inTurn xs) :
    ∃ later, xs = b.1 ++ b.2 :: later :=
  exists_of_mem_inTurnFrom h

theorem mem_of_mem_inTurn {xs : List α} {b : List α × α} (h : b ∈ inTurn xs) : b.2 ∈ xs := by
  obtain ⟨later, rfl⟩ := exists_of_mem_inTurn h
  exact List.mem_append_right _ List.mem_cons_self

theorem map_snd_inTurnFrom (xs : List α) :
    ∀ before : List α, (inTurnFrom before xs).map Prod.snd = xs := by
  induction xs with
  | nil => exact fun _ => rfl
  | cons x xs ih => exact fun before => congrArg (x :: ·) (ih (before ++ [x]))

theorem map_snd_inTurn (xs : List α) : (inTurn xs).map Prod.snd = xs := map_snd_inTurnFrom xs []

/-- Every element has its turn. -/
theorem forall_mem_inTurn_iff {p : α → Prop} {xs : List α} :
    (∀ b ∈ inTurn xs, p b.2) ↔ ∀ x ∈ xs, p x := by
  conv => rhs; rw [← map_snd_inTurn xs, List.forall_mem_map]

/-- What does not look at the elements in front is the same in turn. -/
theorem flatMap_snd_inTurn (f : α → List β) (xs : List α) :
    ((inTurn xs).flatMap fun b => f b.2) = xs.flatMap f := by
  conv => rhs; rw [← map_snd_inTurn xs, List.flatMap_map]

theorem nodup_map_iff_inTurnFrom (f : α → β) (xs : List α) :
    ∀ before : List α, (∀ b ∈ inTurnFrom before xs, f b.2 ∉ b.1.map f) ↔
      (xs.map f).Nodup ∧ ∀ x ∈ xs, f x ∉ before.map f := by
  induction xs with
  | nil =>
    intro before
    exact iff_of_true (List.forall_mem_nil _) ⟨List.nodup_nil, List.forall_mem_nil _⟩
  | cons x xs ih =>
    intro before
    rw [inTurnFrom, List.forall_mem_cons, ih, List.map_cons, List.nodup_cons, List.forall_mem_cons]
    simp only [List.map_append, List.mem_append, List.map_singleton, List.mem_singleton, not_or,
      List.mem_map, not_exists, not_and]
    constructor
    · rintro ⟨hx, hnodup, hxs⟩
      exact ⟨⟨fun y hy => (hxs y hy).2, hnodup⟩, hx, fun y hy => (hxs y hy).1⟩
    · rintro ⟨⟨hx, hnodup⟩, hbefore, hxs⟩
      exact ⟨hbefore, hnodup, fun y hy => ⟨hxs y hy, hx y hy⟩⟩

/-- Nothing occurs twice if nothing stands in front of itself. -/
theorem nodup_map_iff_inTurn (f : α → β) (xs : List α) :
    (xs.map f).Nodup ↔ ∀ b ∈ inTurn xs, f b.2 ∉ b.1.map f := by
  rw [inTurn, nodup_map_iff_inTurnFrom]
  simp

end InTurn

/-! ## 2. The pass -/

/-- The rows that a finding comes to at a level. -/
def Level.rows (l : Level) (row : Severity → Row) : List Row :=
  match l with
  | .stop => [row .stop]
  | .warn => [row .warn]
  | .allow => []

/-- A finding as a row, given the identifier of the rule it is about. -/
def Finding.row (x : Finding) (id : Option Uuid) (s : Severity) : Row where
  check := x.code.name
  severity := s
  line := x.line
  ruleId := id.map Uuid.toText
  pattern := x.rule?.map Rule.pattern
  owner := x.owner?.map Owner.raw
  message := x.message

/-- The finding on a rule whose pattern stands in a rule above it, of which the first is named. -/
def Finding.repetition (above : List Rule) (r : Rule) : List Finding :=
  match above.find? fun s => s.pattern = r.pattern with
  | none => []
  | some first => [.repeatedPattern r first.line]

namespace Auditor

/-- The findings on a rule below some others: its pattern is no glob, an owner has no wanted form,
there are no owners, the word of an owner stands in front of it, a well-formed owner is not known,
or the pattern stands above. -/
def findingsOn (a : Auditor) (above : List Rule) (r : Rule) : List Finding :=
  (match Glob.ofText r.pattern with
    | .ok _ => []
    | .error e => [.badPattern r e.refusal]) ++
  (r.owners.flatMap fun o =>
    if o.kind = .invalid then [.malformedOwner r o]
    else if o.kind = .email ∧ a.policy.owners.allowEmail = false then [.emailOwner r o]
    else []) ++
  (if r.owners = [] then [.noOwners r] else []) ++
  ((inTurn r.owners).flatMap fun b =>
    if b.2.raw ∈ b.1.map Owner.raw then [.repeatedOwner r b.2] else []) ++
  (match a.directory with
    | none => []
    | some d => r.owners.flatMap fun o =>
      if o.kind ≠ .invalid ∧ d.knows o.name = false then [.unknownOwner r o] else []) ++
  Finding.repetition above r

/-- The rows on a file, from its top to its end: those on the file as a whole, of which a missing
directory always stops, and then those on each rule. -/
def onePass (a : Auditor) (f : OwnersFile) : List Row :=
  let level := a.policy.checks.levelOf
  (if f.sourceBytes > a.policy.maxFileBytes then
    (level .tooLarge).rows ((Finding.fileTooLarge f.sourceBytes a.policy.maxFileBytes).row none)
  else []) ++
  (if a.policy.owners.strict ∧ a.directory.isNone then [Finding.directoryMissing.row none .stop]
  else []) ++
  (inTurn f.rules).flatMap fun (above, r) =>
    (a.findingsOn above r).flatMap fun x =>
      (level x.code).rows (x.row (some (ruleId (rulesetId f) r above.length)))

end Auditor

/-! ## 3. Checks of one rule -/

namespace Finding

theorem ofForms_eq (allowEmail : Bool) (r : Rule) :
    ofForms allowEmail r = r.owners.flatMap fun o =>
      if o.kind = .invalid then [malformedOwner r o]
      else if o.kind = .email ∧ allowEmail = false then [emailOwner r o]
      else [] := by
  rw [ofForms, List.filterMap_eq_flatMap_toList]
  refine List.flatMap_congr fun o _ => ?_
  unfold ofForm?
  cases o.kind <;> cases allowEmail <;> rfl

theorem ofMissingOwners_eq (r : Rule) :
    ofMissingOwners r = if r.owners = [] then [noOwners r] else [] := by
  rw [ofMissingOwners]
  cases r.owners <;> rfl

theorem ofUnknownOwners_eq (d : Directory) (r : Rule) :
    ofUnknownOwners d r = r.owners.flatMap fun o =>
      if o.kind ≠ .invalid ∧ d.knows o.name = false then [unknownOwner r o] else [] := by
  have hwanted : ∀ o : Owner, (o.isValid && !d.knows o.name) = true ↔
      o.kind ≠ .invalid ∧ d.knows o.name = false := fun o => by simp [Owner.isValid]
  rw [ofUnknownOwners]
  induction r.owners with
  | nil => rfl
  | cons o os ih =>
    rw [List.flatMap_cons, ← ih, List.filter_cons]
    by_cases ho : o.kind ≠ .invalid ∧ d.knows o.name = false
    · rw [if_pos ((hwanted o).mpr ho), if_pos ho]
      rfl
    · rw [if_neg (mt (hwanted o).mp ho), if_neg ho]
      rfl

/-- **The scan for repeated owners remembers the words of the owners in front.** -/
theorem repeated_eq {os : List Owner} :
    ∀ {seen : List String} {before : List Owner},
      (∀ s, s ∈ seen ↔ s ∈ before.map Owner.raw) →
      repeated seen os = (inTurnFrom before os).flatMap fun b =>
        if b.2.raw ∈ b.1.map Owner.raw then [b.2] else [] := by
  induction os with
  | nil => exact fun _ => rfl
  | cons o os ih =>
    intro seen before h
    rw [inTurnFrom, List.flatMap_cons, repeated]
    by_cases ho : o.raw ∈ seen
    · have hbefore := (h o.raw).mp ho
      have hstep : ∀ s, s ∈ seen ↔ s ∈ (before ++ [o]).map Owner.raw := by
        intro s
        rw [List.map_append, List.mem_append, ← h s]
        exact ⟨Or.inl, fun hs => hs.elim id fun hs => List.mem_singleton.mp hs ▸ ho⟩
      rw [if_pos (List.contains_iff_mem.mpr ho), if_pos hbefore, ih hstep]
      rfl
    · have hbefore : o.raw ∉ before.map Owner.raw := fun hmem => ho ((h o.raw).mpr hmem)
      have hstep : ∀ s, s ∈ o.raw :: seen ↔ s ∈ (before ++ [o]).map Owner.raw := by
        intro s
        rw [List.map_append, List.mem_append, ← h s, List.mem_cons, List.map_singleton,
          List.mem_singleton, or_comm]
      rw [if_neg (by simpa using ho), if_neg hbefore, ih hstep]
      rfl

theorem ofRepeatedOwners_eq (r : Rule) :
    ofRepeatedOwners r = (inTurn r.owners).flatMap fun b =>
      if b.2.raw ∈ b.1.map Owner.raw then [repeatedOwner r b.2] else [] := by
  have hseen : ∀ s, s ∈ ([] : List String) ↔ s ∈ ([] : List Owner).map Owner.raw :=
    fun _ => Iff.rfl
  rw [ofRepeatedOwners, repeated_eq hseen, List.map_flatMap, inTurn]
  refine List.flatMap_congr fun b _ => ?_
  split <;> rfl

/-! ## 4. Repeated patterns -/

/-- **The scan for repeated patterns remembers the first line of each pattern above.** -/
theorem repeatedPatterns_eq {rs : List Rule} :
    ∀ {seen : List (String × Nat)} {above : List Rule},
      (∀ p, seen.lookup p = (above.find? fun s => s.pattern = p).map Rule.line) →
      repeatedPatterns seen rs = (inTurnFrom above rs).flatMap fun b => repetition b.1 b.2 := by
  induction rs with
  | nil => exact fun _ => rfl
  | cons r rs ih =>
    intro seen above h
    rw [inTurnFrom, List.flatMap_cons, repeatedPatterns, repetition]
    have hr := h r.pattern
    have hsnoc : ∀ p, ((above ++ [r]).find? fun s => s.pattern = p) =
        (above.find? fun s => s.pattern = p).or (if r.pattern = p then some r else none) := by
      intro p
      rw [List.find?_append, List.find?_singleton]
      simp
    cases hfind : above.find? fun s => s.pattern = r.pattern with
    | some first =>
      rw [hfind] at hr
      have hstep : ∀ p, seen.lookup p =
          ((above ++ [r]).find? fun s => s.pattern = p).map Rule.line := by
        intro p
        rw [h p, hsnoc p]
        by_cases hp : r.pattern = p
        · subst hp
          rw [hfind]
          rfl
        · rw [if_neg hp, Option.or_none]
      simp only [hr, ih hstep]
      rfl
    | none =>
      rw [hfind] at hr
      have hstep : ∀ p, ((r.pattern, r.line) :: seen).lookup p =
          ((above ++ [r]).find? fun s => s.pattern = p).map Rule.line := by
        intro p
        rw [List.lookup_cons, hsnoc p]
        by_cases hp : r.pattern = p
        · subst hp
          rw [hfind]
          simp
        · rw [if_neg hp, Option.or_none, beq_eq_false_iff_ne.mpr (Ne.symm hp), h p]
      simp only [hr, ih hstep]
      rfl

/-! ## 5. The findings in the order of the pass -/

theorem line_of_rule? {x : Finding} {r : Rule} (h : x.rule? = some r) : x.line = r.line := by
  rw [line, h]
  rfl

end Finding

namespace Auditor

variable (a : Auditor)

/-- What the checks of one rule find, and then the check for repeated patterns. -/
theorem ruleFindings_append_repetition (above : List Rule) (r : Rule) :
    a.ruleFindings r ++ Finding.repetition above r = a.findingsOn above r := by
  rw [ruleFindings, findingsOn, Finding.ofForms_eq, Finding.ofMissingOwners_eq,
    Finding.ofRepeatedOwners_eq]
  cases a.directory with
  | none => rfl
  | some d => simp only [Finding.ofUnknownOwners_eq]; rfl

/-- **What is found of a rule**, check by check. -/
theorem mem_findingsOn_iff {above : List Rule} {r : Rule} {x : Finding} :
    x ∈ a.findingsOn above r ↔
      (∃ e, Glob.ofText r.pattern = .error e ∧ x = .badPattern r e.refusal) ∨
      (∃ o ∈ r.owners, (o.kind = .invalid ∧ x = .malformedOwner r o) ∨
        (o.kind = .email ∧ a.policy.owners.allowEmail = false ∧ x = .emailOwner r o)) ∨
      (r.owners = [] ∧ x = .noOwners r) ∨
      (∃ b ∈ inTurn r.owners, b.2.raw ∈ b.1.map Owner.raw ∧ x = .repeatedOwner r b.2) ∨
      (∃ d : Directory, a.directory = some d ∧
        ∃ o ∈ r.owners, o.kind ≠ .invalid ∧ d.knows o.name = false ∧ x = .unknownOwner r o) ∨
      ∃ first, (above.find? fun s => s.pattern = r.pattern) = some first ∧
        x = .repeatedPattern r first.line := by
  simp only [findingsOn, List.mem_append, or_assoc]
  refine or_congr ?pattern (or_congr ?forms (or_congr ?missing (or_congr ?repeated
    (or_congr ?unknown ?repetition))))
  case pattern =>
    cases Glob.ofText r.pattern <;> simp
  case forms =>
    rw [List.mem_flatMap]
    refine exists_congr fun o => and_congr_right' ?_
    split
    · simp [*]
    · simp [*, and_assoc]
  case missing =>
    rw [List.mem_ite_nil_right, List.mem_singleton]
  case repeated =>
    rw [List.mem_flatMap]
    refine exists_congr fun b => and_congr_right' ?_
    rw [List.mem_ite_nil_right, List.mem_singleton]
  case unknown =>
    cases a.directory with
    | none => simp
    | some d => simp [and_assoc]
  case repetition =>
    rw [Finding.repetition]
    cases above.find? fun s => s.pattern = r.pattern <;> simp

theorem rule?_of_mem_findingsOn {above : List Rule} {r : Rule} {x : Finding}
    (hx : x ∈ a.findingsOn above r) : x.rule? = some r := by
  rcases a.mem_findingsOn_iff.mp hx with ⟨_, -, rfl⟩ | ⟨_, -, ⟨-, rfl⟩ | ⟨-, -, rfl⟩⟩ |
    ⟨-, rfl⟩ | ⟨_, -, -, rfl⟩ | ⟨_, -, _, -, -, -, rfl⟩ | ⟨_, -, rfl⟩
  all_goals rfl

/-- The checks of one rule find problems of that rule. -/
theorem rule?_of_mem_ruleFindings {r : Rule} {x : Finding} (hx : x ∈ a.ruleFindings r) :
    x.rule? = some r := by
  have hfound : x ∈ a.ruleFindings r ++ Finding.repetition [] r := List.mem_append_left _ hx
  rw [ruleFindings_append_repetition] at hfound
  exact a.rule?_of_mem_findingsOn hfound

theorem line_of_mem_fileFindings {f : OwnersFile} {x : Finding} (hx : x ∈ a.fileFindings f) :
    x.line = 0 := by
  rcases List.mem_append.mp hx with hx | hx
  · rw [List.mem_singleton.mp (List.mem_ite_nil_right.mp hx).2]
    rfl
  · rw [List.mem_singleton.mp (List.mem_ite_nil_right.mp hx).2]
    rfl

/-- **The findings on a file that is read, in the order of the pass.** -/
theorem findings_ofText (text : String) :
    a.findings (OwnersFile.ofText text) =
      a.fileFindings (OwnersFile.ofText text) ++
        (inTurn (OwnersFile.ofText text).rules).flatMap fun b => a.findingsOn b.1 b.2 := by
  set f := OwnersFile.ofText text
  have hasc : (inTurn f.rules).Pairwise fun b c => b.2.line < c.2.line := by
    have h : (((inTurn f.rules).map Prod.snd).map Rule.line).Pairwise (· < ·) := by
      rw [map_snd_inTurn]
      exact pairwise_line_lt text
    rwa [List.map_map, List.pairwise_map] at h
  have hseen : ∀ p, ([] : List (String × Nat)).lookup p =
      (([] : List Rule).find? fun s => s.pattern = p).map Rule.line := fun _ => rfl
  rw [findings, ← flatMap_snd_inTurn a.ruleFindings, Finding.ofRepeatedPatterns,
    Finding.repeatedPatterns_eq hseen]
  refine (mergeSort_two_rounds hasc ?_ ?_ ?_ ?_).trans ?_
  · exact fun b x hx => Finding.line_of_rule? (a.rule?_of_mem_ruleFindings hx)
  · exact fun b x hx => Finding.line_of_rule?
      (a.rule?_of_mem_findingsOn (List.mem_append_right _ hx))
  · exact pairwise_of_forall_key_eq fun x hx => a.line_of_mem_fileFindings hx
  · exact fun x hx b _ => (a.line_of_mem_fileFindings hx).trans_le (Nat.zero_le _)
  · simp only [ruleFindings_append_repetition]

end Auditor

/-! ## 6. The rows -/

namespace Policy

variable {p : Policy} {x : Finding}

/-- A finding under another code than that of unknown owners has the level of its code. -/
theorem levelOf_of_code_ne (h : x.code ≠ .unknownOwner) :
    p.levelOf x = p.checks.levelOf x.code :=
  if_neg fun hgate => h hgate.2

/-- So has a finding on a line. -/
theorem levelOf_of_line_ne (h : x.line ≠ 0) : p.levelOf x = p.checks.levelOf x.code :=
  if_neg fun hgate => h hgate.1

end Policy

namespace Auditor

variable (a : Auditor)

/-- A row carries the code of its finding. -/
theorem check_of_row? {ids : List (Nat × Uuid)} {x : Finding} {row : Row}
    (h : a.row? ids x = some row) : row.check = x.code.name := by
  obtain ⟨s, -, rfl⟩ := Option.map_eq_some_iff.mp h
  rfl

theorem toList_map_severity? (l : Level) (row : Severity → Row) :
    (l.severity?.map row).toList = l.rows row := by
  cases l <;> rfl

/-- A finding comes to a row at its level. -/
theorem toList_row? (ids : List (Nat × Uuid)) (x : Finding) :
    (a.row? ids x).toList = (a.policy.levelOf x).rows (x.row (ids.lookup x.line)) :=
  toList_map_severity? _ _

/-- A line leads back to the rule on it. -/
theorem lookup_ruleIds {f : OwnersFile} (hasc : (f.rules.map Rule.line).Pairwise (· < ·))
    {b : List Rule × Rule} (hb : b ∈ inTurn f.rules) :
    f.ruleIds.lookup b.2.line = some (ruleId (rulesetId f) b.2 b.1.length) := by
  obtain ⟨later, hrules⟩ := exists_of_mem_inTurn hb
  simp only [OwnersFile.ruleIds, hrules, List.zipIdx_append, List.zipIdx_cons, List.map_append,
    List.map_cons, Nat.zero_add]
  refine List.lookup_eq_some_iff.mpr ⟨_, _, rfl, fun p hp => ?_⟩
  obtain ⟨q, hq, rfl⟩ := List.mem_map.mp hp
  have hlt : q.1.line < b.2.line := by
    rw [hrules, List.map_append, List.pairwise_append] at hasc
    exact hasc.2.2 _ (List.mem_map_of_mem (List.fst_mem_of_mem_zipIdx hq)) _ (by simp)
  exact bne_iff_ne.mpr (Nat.ne_of_gt hlt)

/-- No rule stands on line zero, where the findings on a whole file do. -/
theorem lookup_ruleIds_zero (text : String) :
    (OwnersFile.ofText text).ruleIds.lookup 0 = none := by
  refine List.lookup_eq_none_iff.mpr fun p hp => ?_
  obtain ⟨q, hq, rfl⟩ := List.mem_map.mp hp
  have hline := (getElem?_lines_of_mem_rules (List.fst_mem_of_mem_zipIdx hq)).1
  exact bne_iff_ne.mpr (Nat.ne_of_lt hline)

/-- The rows on a file as a whole. -/
theorem flatMap_row?_fileFindings {f : OwnersFile} (hzero : f.ruleIds.lookup 0 = none) :
    ((a.fileFindings f).flatMap fun x => (a.row? f.ruleIds x).toList) =
      (if f.sourceBytes > a.policy.maxFileBytes then
        (a.policy.checks.levelOf .tooLarge).rows
          ((Finding.fileTooLarge f.sourceBytes a.policy.maxFileBytes).row none) else []) ++
      if a.policy.owners.strict ∧ a.directory.isNone then [Finding.directoryMissing.row none .stop]
      else [] := by
  have hlarge : ∀ size limit, (a.row? f.ruleIds (.fileTooLarge size limit)).toList =
      (a.policy.checks.levelOf .tooLarge).rows ((Finding.fileTooLarge size limit).row none) := by
    intro size limit
    rw [toList_row?, Policy.levelOf_of_code_ne (by simp [Finding.code]), ← hzero]
    rfl
  have hmissing : (a.row? f.ruleIds .directoryMissing).toList =
      [Finding.directoryMissing.row none .stop] := by
    rw [toList_row?, ← hzero]
    rfl
  rw [fileFindings, List.flatMap_append, Finding.ofSize]
  congr 1
  · split
    · rw [List.flatMap_singleton, hlarge]
    · rfl
  · simp only [Bool.and_eq_true]
    split
    · rw [List.flatMap_singleton, hmissing]
    · rfl

/-- The rows on a rule.  On line zero an unknown owner would be taken for a missing directory, and
so would stop at any level. -/
theorem flatMap_row?_findingsOn {f : OwnersFile}
    (hasc : (f.rules.map Rule.line).Pairwise (· < ·)) {b : List Rule × Rule}
    (hb : b ∈ inTurn f.rules) (hline : b.2.line ≠ 0) :
    ((a.findingsOn b.1 b.2).flatMap fun x => (a.row? f.ruleIds x).toList) =
      (a.findingsOn b.1 b.2).flatMap fun x => (a.policy.checks.levelOf x.code).rows
        (x.row (some (ruleId (rulesetId f) b.2 b.1.length))) := by
  refine List.flatMap_congr fun x hx => ?_
  have hsame : x.line = b.2.line := Finding.line_of_rule? (a.rule?_of_mem_findingsOn hx)
  rw [toList_row?, Policy.levelOf_of_line_ne (hsame ▸ hline), hsame, lookup_ruleIds hasc hb]

/-- **The rows of a report are those of the pass.** -/
theorem rows_report_ofText (text : String) :
    (a.report (OwnersFile.ofText text)).rows = a.onePass (OwnersFile.ofText text) := by
  have hrows : (a.report (OwnersFile.ofText text)).rows =
      (a.findings (OwnersFile.ofText text)).filterMap (a.row? (OwnersFile.ofText text).ruleIds) :=
    rfl
  rw [hrows, List.filterMap_eq_flatMap_toList, findings_ofText, List.flatMap_append,
    flatMap_row?_fileFindings a (lookup_ruleIds_zero text), List.flatMap_assoc]
  refine congrArg _ (List.flatMap_congr fun b hb => ?_)
  have hline := (getElem?_lines_of_mem_rules (mem_of_mem_inTurn hb)).1
  exact a.flatMap_row?_findingsOn (pairwise_line_lt text) hb (Nat.ne_of_gt hline)

/-! ## 7. Rows and rules -/

theorem exists_of_mem_rows {l : Level} {row : Severity → Row} {x : Row} (hx : x ∈ l.rows row) :
    ∃ s, x = row s := by
  cases l with
  | stop => exact ⟨.stop, List.mem_singleton.mp hx⟩
  | warn => exact ⟨.warn, List.mem_singleton.mp hx⟩
  | allow => exact absurd hx List.not_mem_nil

/-- A row is on the file as a whole, or it is on a rule and carries its line and its identifier. -/
theorem line_ruleId_of_mem_onePass {f : OwnersFile} {row : Row} (hrow : row ∈ a.onePass f) :
    (row.line = 0 ∧ row.ruleId = none) ∨
      ∃ b ∈ inTurn f.rules, row.line = b.2.line ∧
        row.ruleId = some (ruleId (rulesetId f) b.2 b.1.length).toText := by
  rcases List.mem_append.mp hrow with hfile | hrule
  · left
    rcases List.mem_append.mp hfile with hfile | hfile
    · obtain ⟨s, rfl⟩ := exists_of_mem_rows (List.mem_ite_nil_right.mp hfile).2
      exact ⟨rfl, rfl⟩
    · rw [List.mem_singleton.mp (List.mem_ite_nil_right.mp hfile).2]
      exact ⟨rfl, rfl⟩
  · right
    obtain ⟨b, hb, hrule⟩ := List.mem_flatMap.mp hrule
    obtain ⟨x, hx, hrule⟩ := List.mem_flatMap.mp hrule
    obtain ⟨s, rfl⟩ := exists_of_mem_rows hrule
    exact ⟨b, hb, Finding.line_of_rule? (a.rule?_of_mem_findingsOn hx), rfl⟩

/-- **Linting is one pass.**  The rows on a file that is read are those of the pass; one on line
zero belongs to no rule, and one on any other line to the rule on that line, whose identifier it
carries with the number of rules above; and a file is in order if no row stops. -/
theorem lint_eq_onePass (text : String) :
    let f := OwnersFile.ofText text
    let report := (a.lint f).value
    report.rows = a.onePass f ∧
      (∀ row ∈ report.rows, row.line = 0 → row.ruleId = none) ∧
      (∀ row ∈ report.rows, 0 < row.line → ∃ above r below,
        f.rules = above ++ r :: below ∧ f.lines[row.line - 1]? = some (.rule r) ∧
          row.ruleId = some (ruleId (rulesetId f) r above.length).toText) ∧
      (report.ok = true ↔ ∀ row ∈ report.rows, row.severity ≠ .stop) := by
  intro f report
  have hrows : report.rows = a.onePass f := a.rows_report_ofText text
  have hstands : ∀ b ∈ inTurn f.rules, 1 ≤ b.2.line ∧ f.lines[b.2.line - 1]? = some (.rule b.2) :=
    fun _ hb => getElem?_lines_of_mem_rules (mem_of_mem_inTurn hb)
  refine ⟨hrows, fun row hrow hline => ?_, fun row hrow hline => ?_, ?_⟩
  · rcases a.line_ruleId_of_mem_onePass (hrows ▸ hrow) with ⟨-, hid⟩ | ⟨b, hb, hlineb, -⟩
    · exact hid
    · have hpos := (hstands b hb).1
      omega
  · rcases a.line_ruleId_of_mem_onePass (hrows ▸ hrow) with ⟨hzero, -⟩ | ⟨b, hb, hlineb, hid⟩
    · omega
    · obtain ⟨below, hrules⟩ := exists_of_mem_inTurn hb
      exact ⟨b.1, b.2, below, hrules, hlineb ▸ (hstands b hb).2, hid⟩
  · have hok : report.ok = (rowsOf .stop report.rows).isEmpty := rfl
    rw [hok, List.isEmpty_iff, rowsOf, List.filter_eq_nil_iff]
    simp

/-- What is reported of a rule stands together, a repeated pattern behind all else. -/
example : (onePass ⟨.standard, none, none, ""⟩ (OwnersFile.ofText "a @x @x\n\na\n")).map
    (fun row => (row.line, row.check)) =
      [(1, "E_DUPLICATE_OWNER"), (3, "E_NO_OWNERS"), (3, "E_DUPLICATE")] := by
  decide

end Auditor

end Ownership
