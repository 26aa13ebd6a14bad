/-
# The envelope of a fact

Whoever reads facts finds in each of them, whatever its stage, what was decided and about which
rules, at which time, about which path.  An operation gives its own values first, and the envelope
is filled in around them; so an operation could set a key of the envelope itself.  The one that any
of them sets is the path.  Redaction comes last and rewrites the time alone of all this, masking
nothing.

A fact with the code of an error says the exit status of that code as well, and is never one of
success.

* `Fact.HasEnvelope`: what a fact says besides the values of its stage;
* `Fact.hasEnvelope_make`: when the values of a stage leave the envelope as it is;
* `Operation.subjectFile`, `Operation.subjectPath`: the file and the path that the facts of an
  operation are about;
* `Operation.hasEnvelope_of_mem_facts`: the facts of all operations.
-/
import Ownership.Proofs.Session.Facts

namespace Ownership

/-! ## 1. One fact -/

namespace Fact

/-- **The envelope of a fact** on a set of rules: it says its stage and its decision, the version,
the time, the rules and a path; if it says a code, then also the exit status of that code, and it is
no success.  It is emitted under the label of the program, with which it opens as a line of a
log. -/
structure HasEnvelope (ruleset : Uuid) (time path : String) (x : Fact) : Prop where
  stage_eq : x.fields.get? "stage" = some (.text x.stage.name)
  decision_eq : x.fields.get? "decision" = some (.text x.decision.name)
  version_eq : x.fields.get? "schema_version" = some (.nat factSchemaVersion)
  time_eq : x.fields.get? "ts" = some (.text time)
  ruleset_eq : x.fields.get? "ruleset_id" = some (.text ruleset.toText)
  path_eq : x.fields.get? "path" = some (.text path)
  code_eq : ∀ v, x.fields.get? "error_id" = some v →
    ∃ code : Code, v = .text code.name ∧
      x.fields.get? "exit_code" = some (.nat code.exitStatus) ∧ x.decision ≠ .success
  subsystem_eq : x.subsystem = "ownerlint"
  label_eq : (Event.fact x).record.text =
    "ownerlint " ++ x.stage.name ++ " " ++ x.decision.name ++ " " ++
      (Json.object x.fields).compact

/-- The keys of the envelope that no stage sets. -/
def reservedKeys : List String := ["stage", "decision", "schema_version", "ts", "ruleset_id"]

variable {c : FactContext} {s : Stage} {d : Decision} {values : Members}

/-- The time is zeroed or left as it is. -/
theorem get?_redact_ts (r : FactRules) (ms : Members) :
    (redact r ms).get? "ts" =
      if r.redact then some (.text Redaction.zeroTime) else ms.get? "ts" := by
  have htimed : (if r.redact then Redaction.zeroTimesIn ms else ms).get? "ts" =
      if r.redact then some (.text Redaction.zeroTime) else ms.get? "ts" := by
    split
    · rw [Redaction.zeroTimesIn, Members.get?_erase, if_neg (by decide), Members.get?_set,
        if_pos rfl]
    · rfl
  rw [redact]
  split
  · rw [Redaction.get?_maskEmailsIn_of_ne (by decide) (by decide) (by decide), htimed]
  · exact htimed

/-- **Values that set none of the reserved keys** leave the envelope as it is, up to the path. -/
theorem hasEnvelope_make {path : String} (h : (reservedKeys ++ values.map Prod.fst).Nodup)
    (htime : c.rules.redact = true → c.time = Redaction.zeroTime)
    (hpath : (values.get? "path").getD (.text "") = .text path)
    (hcode : ∀ v, values.get? "error_id" = some v →
      ∃ code : Code, v = .text code.name ∧
        values.get? "exit_code" = some (.nat code.exitStatus) ∧ d ≠ .success) :
    (make c s d values).HasEnvelope c.ruleset c.time path := by
  obtain ⟨-, hkeys, hdisjoint⟩ := List.nodup_append'.mp h
  have hfilled : ∀ key ∈ reservedKeys,
      (enclose c s d values).get? key = (envelope c s d).get? key := fun key hkey => by
    rw [get?_enclose_eq hkeys, Members.get?_eq_none_of_not_mem (hdisjoint hkey), Option.none_or]
  have hsteady : ∀ key, key ∉ volatileKeys →
      (make c s d values).fields.get? key = (enclose c s d values).get? key :=
    fun key hkey => get?_redact_of_not_mem _ hkey
  have hsaid : ∀ key, key ∉ envelopeKeys → key ∉ volatileKeys →
      (make c s d values).fields.get? key = values.get? key :=
    fun key => get?_make_of_not_mem hkeys
  refine ⟨?stage, ?decision, ?version, ?time, ?ruleset, ?path, ?code, rfl, rfl⟩
  case stage | decision | version | ruleset =>
    exact (hsteady _ (by decide)).trans (hfilled _ (by decide))
  case time =>
    have hts : (make c s d values).fields.get? "ts" = _ := get?_redact_ts _ _
    rw [hts]
    split
    · rw [htime ‹_›]
    · exact hfilled _ (by decide)
  case path =>
    rw [hsteady _ (by decide), get?_enclose_eq hkeys, ← hpath]
    cases values.get? "path" <;> rfl
  case code =>
    intro v hv
    rw [hsaid _ (by decide) (by decide)] at hv
    rw [hsaid _ (by decide) (by decide)]
    exact hcode v hv

/-- A fact without a code. -/
theorem hasEnvelope_make_plain {path : String} (h : (reservedKeys ++ values.map Prod.fst).Nodup)
    (htime : c.rules.redact = true → c.time = Redaction.zeroTime)
    (hpath : (values.get? "path").getD (.text "") = .text path)
    (hcode : values.get? "error_id" = none) :
    (make c s d values).HasEnvelope c.ruleset c.time path :=
  hasEnvelope_make h htime hpath fun v hv => by
    rw [hcode] at hv
    cases hv

/-- A fact with a code behind its other values. -/
theorem hasEnvelope_make_code {path : String} {code : Code}
    (h : (reservedKeys ++ (values ++ codeValues code).map Prod.fst).Nodup)
    (htime : c.rules.redact = true → c.time = Redaction.zeroTime)
    (hpath : (values.get? "path").getD (.text "") = .text path) (hd : d ≠ .success) :
    (make c s d (values ++ codeValues code)).HasEnvelope c.ruleset c.time path := by
  -- Neither of the two keys of a code stands in front of it.
  have hbehind : ∀ key ∈ (codeValues code).map Prod.fst,
      (values ++ codeValues code).get? key = (codeValues code).get? key := by
    rw [List.map_append] at h
    intro key hkey
    rw [Members.get?_append, Members.get?_eq_none_of_not_mem, Option.none_or]
    exact fun hmem => (List.nodup_append'.mp (List.nodup_append'.mp h).2.1).2.2 hmem hkey
  refine hasEnvelope_make h htime ?_ fun v hv => ⟨code, ?_, ?_, hd⟩
  · rw [Members.get?_append]
    cases hvalue : values.get? "path" with
    | none => rwa [hvalue] at hpath
    | some v => rwa [hvalue] at hpath
  · rw [hbehind _ List.mem_cons_self] at hv
    exact (Option.some.inj hv).symm
  · rw [hbehind _ (List.mem_cons_of_mem _ List.mem_cons_self)]
    rfl

end Fact

/-! ## 2. The facts of each operation -/

namespace Auditor

variable {a : Auditor} {d : Disk} {f : OwnersFile}

/-- The time of an auditor is zeroed wherever its facts are. -/
theorem time_of_redact (h : (a.context f).rules.redact = true) :
    (a.context f).time = Redaction.zeroTime := if_pos h

/-- The values on a size that exceeds the limit end in a code. -/
theorem append_excessValues (values : Members) (finding : Finding) :
    values ++ excessValues finding =
      values ++ [("error", .text finding.message)] ++ codeValues .tooLarge :=
  (List.append_assoc _ [_] _).symm

/-- **Reading a file**, from a path or without one. -/
theorem hasEnvelope_of_readEvents {path : Option String} {x : Fact}
    (hx : x ∈ (a.readEvents f path).filterMap Event.fact?) :
    x.HasEnvelope (rulesetId f) a.time (path.getD "") := by
  have hpath : ∀ values : Members, values.get? "path" = none →
      ((sizeValues f ++ pathValues path ++ values).get? "path").getD (.text "") =
        .text (path.getD "") := by
    intro values hvalues
    rw [Members.get?_append, hvalues]
    cases path <;> simp [sizeValues, pathValues, Members.get?_cons, Members.get?_nil]
  rw [facts_readEvents, List.mem_singleton] at hx
  subst hx
  cases hexcess : a.policy.excess? f.sourceBytes with
  | none =>
    refine Fact.hasEnvelope_make_plain (c := a.context f) ?_ time_of_redact (hpath _ rfl) ?_
    · cases path <;> simp [Fact.reservedKeys, sizeValues, pathValues]
    · cases path <;> simp [sizeValues, pathValues, Members.get?_cons, Members.get?_nil]
  | some e =>
    have hdecision : e.2.decision ≠ .success := by cases e.2 <;> exact Decision.noConfusion
    rw [Option.map_some, Option.map_some, Option.getD_some, Option.getD_some,
      append_excessValues]
    refine Fact.hasEnvelope_make_code (c := a.context f) ?_ time_of_redact (hpath _ ?_) hdecision
    · cases path <;> simp [Fact.reservedKeys, sizeValues, pathValues, codeValues]
    · simp [Members.get?_cons, Members.get?_nil]

/-- **Refusing a file unread**, as one without lines. -/
theorem hasEnvelope_of_refusalEvents {finding : Finding} {path : String} {x : Fact}
    (hx : x ∈ (a.refusalEvents finding path).filterMap Event.fact?) :
    x.HasEnvelope (rulesetId OwnersFile.empty) a.time path := by
  have hfacts : (a.refusalEvents finding path).filterMap Event.fact? =
      [Fact.make (a.context OwnersFile.empty) .parse .failure
        (pathValues path ++ excessValues finding)] := rfl
  rw [hfacts, append_excessValues, List.mem_singleton] at hx
  subst hx
  refine Fact.hasEnvelope_make_code (c := a.context OwnersFile.empty) ?_ time_of_redact ?_
    Decision.noConfusion
  · simp [Fact.reservedKeys, pathValues, codeValues]
  · simp [pathValues, Members.get?_cons]

/-- **Linting a file**: each row, and the whole report. -/
theorem hasEnvelope_of_lint {x : Fact} (hx : x ∈ (a.lint f).facts) :
    x.HasEnvelope (rulesetId f) a.time "" := by
  rw [facts_lint, List.mem_append, List.mem_singleton] at hx
  rcases hx with hx | rfl
  · obtain ⟨row, -, rfl⟩ := List.mem_map.mp hx
    refine Fact.hasEnvelope_make_plain (c := a.context f) ?_ time_of_redact ?_ ?_
    · cases hid : row.ruleId <;> cases hpattern : row.pattern <;> cases howner : row.owner <;>
        simp [Fact.reservedKeys, rowValues, textValue?, hid, hpattern, howner]
    · simp [rowValues, Members.get?_append, Members.get?_cons, get?_textValue?]
    · simp [rowValues, Members.get?_append, Members.get?_cons, get?_textValue?]
  · refine Fact.hasEnvelope_make_plain (c := a.context f) ?_ time_of_redact ?_ ?_ <;>
      cases (a.report f).ok <;>
      simp [Fact.reservedKeys, countValues, stopValues, Members.get?_cons, Members.get?_nil]

/-- **Resolving a path**, under the path as it is read. -/
theorem hasEnvelope_of_resolve {text : String} {r : Resolution}
    (h : (a.resolve f text).value = .ok r) {x : Fact} (hx : x ∈ (a.resolve f text).facts) :
    x.HasEnvelope (rulesetId f) a.time r.path.text := by
  rw [facts_resolve h, List.mem_singleton] at hx
  subst hx
  refine Fact.hasEnvelope_make_plain (c := a.context f) ?_ time_of_redact ?_ ?_ <;>
    simp [Fact.reservedKeys, resolutionValues, Members.get?_cons, Members.get?_nil]

/-- **Reviewing several paths.** -/
theorem hasEnvelope_of_review {texts : List String} {review : Review}
    (h : (a.review f texts).value = .ok review) {x : Fact} (hx : x ∈ (a.review f texts).facts) :
    x.HasEnvelope (rulesetId f) a.time "" := by
  rw [facts_review h, List.mem_singleton] at hx
  subst hx
  refine Fact.hasEnvelope_make_plain (c := a.context f) ?_ time_of_redact ?_ ?_ <;>
    simp [Fact.reservedKeys, reviewValues, Members.get?_cons, Members.get?_nil]

/-- **Measuring coverage**, which fails with a code of its own. -/
theorem hasEnvelope_of_coverage {c : Coverage} (h : (a.coverage d f).value = .ok c) {x : Fact}
    (hx : x ∈ (a.coverage d f).facts) : x.HasEnvelope (rulesetId f) a.time "" := by
  rw [facts_coverage h, List.mem_singleton] at hx
  subst hx
  cases hok : c.ok with
  | true =>
    refine Fact.hasEnvelope_make_plain (c := a.context f) ?_ time_of_redact ?_ ?_ <;>
      simp [Fact.reservedKeys, coverageValues, Members.get?_cons, Members.get?_nil]
  | false =>
    have hdecision : coverageDecision c ≠ .success := by
      rw [coverageDecision, hok]
      exact Decision.noConfusion
    refine Fact.hasEnvelope_make_code (c := a.context f) ?_ time_of_redact ?_ hdecision <;>
      simp [Fact.reservedKeys, coverageValues, codeValues, Members.get?_cons, Members.get?_nil]

end Auditor

/-! ## 3. Any operation -/

namespace Operation

/-- The file that the facts of an operation are about, by what the operation comes to: the one that
it loads, none where a file is refused unread, and otherwise the current one. -/
def subjectFile (current : OwnersFile) : Except Failure Answer → OwnersFile
  | .ok (.loaded f) => f
  | .error (.tooLarge ..) => OwnersFile.empty
  | _ => current

/-- The path that the facts of an operation are about: that of the file on the disk which it loads,
or the one that it resolves, as it is read. -/
def subjectPath (d : Disk) : Operation → String
  | loadFile path => path
  | load root => (Ownership.locate d root).toOption.getD ""
  | resolve text => ((RepoPath.ofText text).toOption.map RepoPath.text).getD ""
  | _ => ""

variable {a : Auditor} {d : Disk} {f : OwnersFile}

/-- Loading a file from the disk. -/
theorem hasEnvelope_of_loadFile {path : String} {x : Fact}
    (hx : x ∈ (a.loadFile d path).facts) :
    x.HasEnvelope (rulesetId (subjectFile f ((a.loadFile d path).value.map .loaded))) a.time
      path := by
  rcases a.loadFile_cases d path with ⟨e, h⟩ | ⟨size, finding, h⟩ | ⟨text, h⟩
  · rw [h] at hx
    exact absurd hx List.not_mem_nil
  · rw [h] at hx ⊢
    exact Auditor.hasEnvelope_of_refusalEvents hx
  · rw [h] at hx ⊢
    exact Auditor.hasEnvelope_of_readEvents hx

/-- An operation that leaves nothing behind where it fails, and loads no file. -/
theorem hasEnvelope_of_answer {α : Type} {t : Traced (Except Failure α)} {answer : α → Answer}
    {time path : String} {x : Fact} (hx : x ∈ t.facts)
    (hanswer : ∀ r, subjectFile f (.ok (answer r)) = f)
    (hfail : ∀ e, t.value = .error e → t.facts = [])
    (hok : ∀ r, t.value = .ok r → x.HasEnvelope (rulesetId f) time path) :
    x.HasEnvelope (rulesetId (subjectFile f (t.value.map answer))) time path := by
  cases hvalue : t.value with
  | error e =>
    rw [hfail e hvalue] at hx
    exact absurd hx List.not_mem_nil
  | ok r =>
    rw [Except.map, hanswer]
    exact hok r hvalue

/-- **Every fact of every operation is in its envelope**, under any policy, on any disk and file:
it says its stage and decision, the version, the time, which is zeroed where times are, the rules of
the file that the operation is about and the path that it is about; and a code never without its
exit status, nor in a fact of success. -/
theorem hasEnvelope_of_mem_facts (o : Operation) (a : Auditor) (d : Disk) (f : OwnersFile) :
    ∀ x ∈ (o.run a d f).facts,
      x.HasEnvelope (rulesetId (subjectFile f (o.run a d f).value))
        (if a.policy.facts.redact then Redaction.zeroTime else a.now) (o.subjectPath d) := by
  intro x hx
  cases o with
  | loadText text | reload => exact Auditor.hasEnvelope_of_readEvents hx
  | loadFile path => exact hasEnvelope_of_loadFile hx
  | load root =>
    have hrun : (load root).run a d f = (a.load d root).map fun r => r.map .loaded := rfl
    rw [hrun, Auditor.load] at hx ⊢
    rw [subjectPath]
    cases hlocate : Ownership.locate d root with
    | error e =>
      rw [hlocate] at hx
      exact absurd hx List.not_mem_nil
    | ok path =>
      rw [hlocate] at hx
      exact hasEnvelope_of_loadFile hx
  | lint => exact Auditor.hasEnvelope_of_lint hx
  | resolve text =>
    refine hasEnvelope_of_answer hx (fun _ => rfl) (fun e he => (Auditor.resolve_eq_error he).1)
      fun r hr => ?_
    obtain ⟨path, hpath, rfl⟩ := Auditor.resolve_eq_ok_iff.mp hr
    rw [subjectPath, hpath]
    exact Auditor.hasEnvelope_of_resolve hr hx
  | review texts =>
    exact hasEnvelope_of_answer hx (fun _ => rfl) (fun e he => (Auditor.review_eq_error he).1)
      fun r hr => Auditor.hasEnvelope_of_review hr hx
  | coverage =>
    exact hasEnvelope_of_answer hx (fun _ => rfl) (fun e he => (Auditor.coverage_eq_error he).1)
      fun c hc => Auditor.hasEnvelope_of_coverage hc hx
  | locate root | render | policy | compile => exact absurd hx List.not_mem_nil

/-- A file that is refused unread as too large, under a policy that neither zeroes times nor masks
addresses, and a path that is resolved under another spelling. -/
theorem hasEnvelope_of_refused_file :
    let d : Disk := ⟨.directory [(Disk.bytesOf "f", .file "docs @a\n".toUTF8)], []⟩
    let a : Auditor := ⟨{ maxFileBytes := 7, facts := ⟨false, false⟩ }, none, none, "noon"⟩
    let f := OwnersFile.ofText "docs @a"
    (∃ x ∈ ((loadFile "f").run a d f).facts,
      x.HasEnvelope (rulesetId OwnersFile.empty) "noon" "f" ∧ x.decision = .failure) ∧
      ∃ x ∈ ((resolve "./docs//x").run a d f).facts,
        x.HasEnvelope (rulesetId f) "noon" "docs/x" ∧ x.decision = .success := by
  intro d a f
  have hrefused : ((loadFile "f").run a d f).facts = [_] := rfl
  have hresolved : ((resolve "./docs//x").run a d f).facts = [_] := rfl
  refine ⟨⟨_, hrefused ▸ List.mem_singleton_self _, ?_, rfl⟩,
    ⟨_, hresolved ▸ List.mem_singleton_self _, ?_, rfl⟩⟩
  · exact hasEnvelope_of_mem_facts (loadFile "f") a d f _ (hrefused ▸ List.mem_singleton_self _)
  · exact hasEnvelope_of_mem_facts (resolve "./docs//x") a d f _
      (hresolved ▸ List.mem_singleton_self _)

end Operation

end Ownership
