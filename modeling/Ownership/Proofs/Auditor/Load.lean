/-
# A file and its text

A file on disk is measured twice, by its size on the disk before it is read and by its text when it
is; a text is measured once.  Where the policy stops at a file that is too large, the first measure
refuses it unread.  In every other case the file is loaded as its text is, and what is left behind
differs in the path alone.

Linting takes the second measure again, from the file that was loaded.  Both measures of one file
are its number of bytes, a byte order mark included, so that linting never stops at the size of a
file that the same policy has let through.

* `Policy.excess?_eq_some_iff`: when a size exceeds the limit of a policy;
* `Auditor.loadFile_cases`, `Auditor.load_cases`: what loading from a disk can come to;
* `Auditor.facts_readEvents`, `Auditor.exists_facts_readEvents`: the one fact on reading a file,
  and on reading it twice;
* `Auditor.loadFile_of_file`: loading a file that can be read;
* `Auditor.exists_row_tooLarge_iff`: when linting reports that a file is too large;
* `Auditor.loadFile_agrees_loadText`: the three together.
-/
import Ownership.Auditor.Load
import Ownership.Proofs.Auditor.Strict
import Ownership.Proofs.Event

namespace Ownership

/-! ## 1. The limit of a policy -/

theorem Level.severity?_eq_stop_iff {l : Level} : l.severity? = some .stop ↔ l = .stop := by
  cases l <;> simp [severity?]

theorem Level.severity?_isSome_iff {l : Level} : (∃ s, l.severity? = some s) ↔ l ≠ .allow := by
  cases l <;> simp [severity?]

/-- How a file that is too large counts. -/
theorem Policy.severityOf_fileTooLarge (p : Policy) (size limit : Nat) :
    p.severityOf (.fileTooLarge size limit) = p.checks.fileTooLarge.severity? := by
  rw [severityOf, levelOf_of_code_ne (by simp [Finding.code])]
  rfl

/-- **When a size exceeds the limit of a policy** that does not let it pass. -/
theorem Policy.excess?_eq_some_iff {p : Policy} {size : Nat} {x : Finding} {s : Severity} :
    p.excess? size = some (x, s) ↔ size > p.maxFileBytes ∧
      x = .fileTooLarge size p.maxFileBytes ∧ p.checks.fileTooLarge.severity? = some s := by
  rw [excess?, Finding.ofSize]
  split
  · rename_i hsize
    cases hlevel : p.checks.fileTooLarge.severity? <;>
      simp [severityOf_fileTooLarge, hlevel, hsize, eq_comm]
  · rename_i hsize
    simp [hsize]

/-- When a policy stops at a size. -/
theorem Policy.excess?_eq_stop_iff {p : Policy} {size : Nat} :
    (∃ x, p.excess? size = some (x, .stop)) ↔
      size > p.maxFileBytes ∧ p.checks.fileTooLarge = .stop := by
  simp only [excess?_eq_some_iff, Level.severity?_eq_stop_iff]
  exact ⟨fun ⟨_, hsize, _, hstop⟩ => ⟨hsize, hstop⟩, fun ⟨hsize, hstop⟩ => ⟨_, hsize, rfl, hstop⟩⟩

namespace Auditor

variable {a : Auditor} {d : Disk} {path : String}

/-! ## 2. What loading can come to -/

/-- **Loading a file** fails on the disk, leaving nothing behind; or it is refused as too large; or
its text is read. -/
theorem loadFile_cases (a : Auditor) (d : Disk) (path : String) :
    (∃ e, a.loadFile d path = ⟨.error (diskFailure path e), []⟩) ∨
    (∃ size finding, a.loadFile d path =
      ⟨.error (.tooLarge size a.policy.maxFileBytes), a.refusalEvents finding path⟩) ∨
    ∃ text, a.loadFile d path =
      ⟨.ok (OwnersFile.ofText text), a.readEvents (OwnersFile.ofText text) path⟩ := by
  have hread : (∃ e, a.readFile d path = ⟨.error (diskFailure path e), []⟩) ∨
      ∃ text, a.readFile d path =
        ⟨.ok (OwnersFile.ofText text), a.readEvents (OwnersFile.ofText text) path⟩ := by
    unfold readFile
    split
    · rename_i e _
      exact .inl ⟨e, rfl⟩
    · rename_i text _
      exact .inr ⟨text, rfl⟩
  unfold loadFile
  split
  · rename_i e _
    exact .inl ⟨e, rfl⟩
  · rename_i size _
    split
    · rename_i finding _
      exact .inr (.inl ⟨size, finding, rfl⟩)
    · rcases hread with herror | htext
      · exact .inl herror
      · exact .inr (.inr htext)

/-- **Loading the owners file of a repository** is loading the file that is found, if one is. -/
theorem load_cases (a : Auditor) (d : Disk) (root : String) :
    (a.load d root = ⟨.error (.notFound root),
      [.line .error "load: no CODEOWNERS file (E_NOT_FOUND)"]⟩) ∨
    ∃ path, a.load d root = a.loadFile d path := by
  unfold load locate
  split
  · rename_i e he
    split at he
    · cases he
    · cases he
      exact .inl rfl
  · rename_i path _
    exact .inr ⟨path, rfl⟩

/-! ## 3. Facts -/

/-- **Reading a file leaves one fact behind**, which says besides if the file is too large. -/
theorem facts_readEvents (f : OwnersFile) (path : Option String) :
    (a.readEvents f path).filterMap Event.fact? =
      [Fact.make (a.context f) .parse
        (((a.policy.excess? f.sourceBytes).map fun e => e.2.decision).getD .success)
        (sizeValues f ++ pathValues path ++
          ((a.policy.excess? f.sourceBytes).map fun e => excessValues e.1).getD [])] := by
  unfold readEvents
  cases a.policy.excess? f.sourceBytes with
  | none => exact congrArg (fun values => [Fact.make _ _ _ values]) (List.append_nil _).symm
  | some e => rfl

/-- **A path is all that two readings of one file differ in.** -/
theorem agreeOff_readEvents (a : Auditor) (f : OwnersFile) (p q : Option String) :
    List.Forall₂ (Event.AgreeOff ["path"]) (a.readEvents f p) (a.readEvents f q) := by
  have hvalues : ∀ values : Members, ∀ key ∉ ["path"],
      (sizeValues f ++ pathValues p ++ values).get? key =
        (sizeValues f ++ pathValues q ++ values).get? key := by
    intro values key hkey
    have hpath : ∀ o : Option String, Members.get? (pathValues o) key = none := by
      intro o
      refine Members.get?_eq_none_of_not_mem fun hmem => hkey ?_
      cases o with
      | none => exact absurd hmem List.not_mem_nil
      | some _ => exact hmem
    simp only [Members.get?_append, hpath]
  have hnodup : ∀ (o : Option String) (finding : Finding),
      ((sizeValues f ++ pathValues o ++ excessValues finding).map Prod.fst).Nodup := by
    intro o finding
    cases o <;> simp [sizeValues, pathValues, excessValues, codeValues]
  have hplain : ∀ o : Option String, ((sizeValues f ++ pathValues o).map Prod.fst).Nodup := by
    intro o
    cases o <;> simp [sizeValues, pathValues]
  unfold readEvents
  refine List.rel_append ?_ (.cons (.line _ _) .nil)
  cases a.policy.excess? f.sourceBytes with
  | none =>
    have hsame : ∀ key ∉ ["path"], (sizeValues f ++ pathValues p).get? key =
        (sizeValues f ++ pathValues q).get? key := by simpa using hvalues []
    exact .cons (.fact (Fact.agreeOff_make_of_values (hplain p) (hplain q) hsame (by decide))) .nil
  | some e =>
    exact .cons (.line _ _) (.cons (.fact (Fact.agreeOff_make_of_values (hnodup p e.1)
      (hnodup q e.1) (hvalues (excessValues e.1)) (by decide))) .nil)

/-- The one fact on each of two readings, and how far they agree. -/
theorem exists_facts_readEvents (a : Auditor) (f : OwnersFile) (p q : Option String) :
    ∃ x y, (a.readEvents f p).filterMap Event.fact? = [x] ∧
      (a.readEvents f q).filterMap Event.fact? = [y] ∧ x.stage = .parse ∧
        x.AgreeOff ["path"] y := by
  have hagree := Event.facts_agreeOff (a.agreeOff_readEvents f p q)
  rw [facts_readEvents, facts_readEvents] at hagree
  exact ⟨_, _, facts_readEvents f p, facts_readEvents f q, rfl, (List.forall₂_cons.mp hagree).1⟩

/-! ## 4. A file that can be read -/

theorem size_of_file {p : Disk.Path} {content : ByteArray}
    (h : d.nodeAt p true = .ok (.file content)) : d.size p = .ok content.size := by
  rw [Disk.size, h]
  rfl

theorem readText_of_file {p : Disk.Path} {text : String}
    (h : d.nodeAt p true = .ok (.file text.toUTF8)) : d.readText p = .ok text := by
  have htext : String.fromUTF8? text.toUTF8 = some text := dif_pos text.isValidUTF8
  simp only [Disk.readText, h, bind, Except.bind, htext]
  rfl

/-- **Loading a file that can be read**: it is refused if the policy stops at its size, and
otherwise its text is read. -/
theorem loadFile_of_file {text : String}
    (h : d.nodeAt (Disk.bytesOf path) true = .ok (.file text.toUTF8)) :
    a.loadFile d path =
      if text.utf8ByteSize > a.policy.maxFileBytes ∧ a.policy.checks.fileTooLarge = .stop then
        ⟨.error (.tooLarge text.utf8ByteSize a.policy.maxFileBytes),
          a.refusalEvents (.fileTooLarge text.utf8ByteSize a.policy.maxFileBytes) path⟩
      else ⟨.ok (OwnersFile.ofText text), a.readEvents (OwnersFile.ofText text) path⟩ := by
  have hsize : d.size (Disk.bytesOf path) = .ok text.utf8ByteSize := size_of_file h
  have hread : a.readFile d path =
      ⟨.ok (OwnersFile.ofText text), a.readEvents (OwnersFile.ofText text) path⟩ := by
    rw [readFile, readText_of_file h]
  rw [loadFile, hsize]
  simp only [hread]
  split
  · rename_i finding hstop
    obtain ⟨-, rfl, -⟩ := Policy.excess?_eq_some_iff.mp hstop
    rw [if_pos (Policy.excess?_eq_stop_iff.mp ⟨_, hstop⟩)]
  · rename_i hnone
    rw [if_neg fun hrefused => ?_]
    obtain ⟨finding, hstop⟩ := Policy.excess?_eq_stop_iff.mpr hrefused
    exact hnone finding hstop

/-! ## 5. What linting reports -/

/-- Only one finding has the code of a file that is too large, and it is about the whole file. -/
theorem mem_findings_tooLarge_iff {text : String} {x : Finding} (hx : x.code = .tooLarge) :
    x ∈ a.findings (OwnersFile.ofText text) ↔
      text.utf8ByteSize > a.policy.maxFileBytes ∧
        x = .fileTooLarge text.utf8ByteSize a.policy.maxFileBytes := by
  have hrule : x.rule? = none := by
    cases x with
    | fileTooLarge _ _ | directoryMissing => rfl
    | _ => cases hx
  have hmissing : x ≠ .directoryMissing := by
    rintro rfl
    cases hx
  -- What is found on a rule names that rule.
  have hfound : x ∉ (inTurn (OwnersFile.ofText text).rules).flatMap
      fun b => a.findingsOn b.1 b.2 := by
    intro hmem
    obtain ⟨b, -, hmem⟩ := List.mem_flatMap.mp hmem
    rw [a.rule?_of_mem_findingsOn hmem] at hrule
    cases hrule
  rw [findings_ofText, List.mem_append, or_iff_left hfound, fileFindings, List.mem_append,
    or_iff_left fun hmem => hmissing (List.mem_singleton.mp (List.mem_ite_nil_right.mp hmem).2),
    Finding.ofSize, List.mem_ite_nil_right, List.mem_singleton]
  rfl

/-- **When linting reports that a file is too large.** -/
theorem exists_row_tooLarge_iff (a : Auditor) (text : String) :
    (∃ row ∈ (a.report (OwnersFile.ofText text)).rows, row.check = "E_TOO_LARGE") ↔
      text.utf8ByteSize > a.policy.maxFileBytes ∧ a.policy.checks.fileTooLarge ≠ .allow := by
  rw [← Level.severity?_isSome_iff,
    ← Policy.severityOf_fileTooLarge _ text.utf8ByteSize a.policy.maxFileBytes]
  constructor
  · rintro ⟨row, hrow, hcheck⟩
    obtain ⟨x, hx, hrow⟩ := List.mem_filterMap.mp hrow
    have hcode : x.code = .tooLarge := by
      rw [a.check_of_row? hrow] at hcheck
      exact Code.name_injective hcheck
    obtain ⟨hsize, rfl⟩ := (mem_findings_tooLarge_iff hcode).mp hx
    exact ⟨hsize, row.severity, a.severityOf_of_row? hrow⟩
  · rintro ⟨hsize, s, hs⟩
    obtain ⟨row, hrow⟩ : ∃ row, a.row? (OwnersFile.ofText text).ruleIds
        (.fileTooLarge text.utf8ByteSize a.policy.maxFileBytes) = some row := by
      rw [row?, hs]
      exact ⟨_, rfl⟩
    exact ⟨row, List.mem_filterMap.mpr ⟨_, (mem_findings_tooLarge_iff rfl).mpr ⟨hsize, rfl⟩, hrow⟩,
      a.check_of_row? hrow⟩

/-! ## 6. The file, its text and its report -/

/-- **The size gate, the fact on a load and linting agree.**  Linting a text that was loaded reports
that it is too large exactly if it is larger than the limit and the policy does not let that pass.
A file on disk that holds the text is refused exactly if it is larger and the policy stops at that;
otherwise loading it gives what loading its text gives, with the same lines and one fact that agrees
but for the path.  So a file that was loaded under a policy that stops is never reported. -/
theorem loadFile_agrees_loadText (a : Auditor) (text : String) :
    let exceeds := text.utf8ByteSize > a.policy.maxFileBytes
    let level := a.policy.checks.fileTooLarge
    let plain := a.loadText text
    ((∃ row ∈ (a.lint plain.value).value.rows, row.check = "E_TOO_LARGE") ↔
        exceeds ∧ level ≠ .allow) ∧
      ∀ d path, d.nodeAt (Disk.bytesOf path) true = .ok (.file text.toUTF8) →
        let file := a.loadFile d path
        (file.value = .error (.tooLarge text.utf8ByteSize a.policy.maxFileBytes) ↔
            exceeds ∧ level = .stop) ∧
          (¬ (exceeds ∧ level = .stop) → file.value = .ok plain.value ∧
            file.lines = plain.lines ∧ ∃ x y, file.facts = [x] ∧ plain.facts = [y] ∧
              x.stage = .parse ∧ x.AgreeOff ["path"] y) ∧
          (level = .stop → ∀ f, file.value = .ok f →
            ∀ row ∈ (a.lint f).value.rows, row.check ≠ "E_TOO_LARGE") := by
  intro exceeds level plain
  have hreport : (∃ row ∈ (a.lint plain.value).value.rows, row.check = "E_TOO_LARGE") ↔
      exceeds ∧ level ≠ .allow := a.exists_row_tooLarge_iff text
  refine ⟨hreport, fun d path h => ?_⟩
  intro file
  have hfile : file = if exceeds ∧ level = .stop then _ else _ := loadFile_of_file h
  by_cases hrefused : exceeds ∧ level = .stop
  · rw [if_pos hrefused] at hfile
    refine ⟨iff_of_true (by rw [hfile]) hrefused, fun hnot => absurd hrefused hnot, ?_⟩
    intro _ f hf
    rw [hfile] at hf
    cases hf
  · rw [if_neg hrefused] at hfile
    refine ⟨iff_of_false (by rw [hfile]; exact fun hf => by cases hf) hrefused, fun _ => ?_, ?_⟩
    · rw [hfile]
      exact ⟨rfl, Event.lines_eq_of_agreeOff (a.agreeOff_readEvents _ (some path) none),
        a.exists_facts_readEvents _ (some path) none⟩
    · rintro hstop f hf row hrow hcheck
      rw [hfile] at hf
      cases hf
      exact hrefused ⟨(hreport.mp ⟨row, hrow, hcheck⟩).1, hstop⟩

/-- A file of eight bytes is refused under a limit of seven, and loaded under a limit of eight. -/
theorem loadFile_of_eight_bytes :
    let d : Disk := ⟨.directory [(Disk.bytesOf "f", .file "docs @a\n".toUTF8)], []⟩
    let a : Auditor := ⟨{ maxFileBytes := 7 }, none, none, ""⟩
    let b : Auditor := ⟨{ maxFileBytes := 8 }, none, none, ""⟩
    d.nodeAt (Disk.bytesOf "f") true = .ok (.file "docs @a\n".toUTF8) ∧
      (a.loadFile d "f").value = .error (.tooLarge 8 7) ∧
      (b.loadFile d "f").value = .ok (OwnersFile.ofText "docs @a\n") := by
  intro d a b
  have hfile : d.nodeAt (Disk.bytesOf "f") true = .ok (.file "docs @a\n".toUTF8) := rfl
  refine ⟨hfile, ((loadFile_agrees_loadText a _).2 d "f" hfile).1.mpr (by decide), ?_⟩
  exact (((loadFile_agrees_loadText b _).2 d "f" hfile).2.1 (by decide)).1

end Auditor

end Ownership
