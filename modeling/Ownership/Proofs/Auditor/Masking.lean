/-
# Email addresses in facts

With masking on, a fact shows `***` where it would show the email address of an owner: under the
owner of a row, in the message on it, and in the lists of owners of a resolution and of a review.
Nothing else is hidden.

Masking works on the fact, where an owner is no more than a text that is read again.  Three things
make that safe.  The word of an owner in a file is read as what it was; the name of an owner is read
as an address exactly if the owner is one (`Owner.kind_ofText_name_eq_email_iff`); and of all
messages that name an owner, only the one on a word without a known form holds a sign of its own
(`Finding.namesOnce_message`), so that an address is found in a message once and in its place.

* `Row.IsMaskedIn`, `Owner.shown`: what is shown of a row and of an owner;
* `Finding.namesOnce_message`: the messages on owners;
* `Auditor.isMaskedIn_rowFact`: one row of a report;
* `Auditor.facts_mask_addresses`: the facts of all operations that name owners.
-/
import Ownership.Proofs.Auditor.Lint
import Ownership.Proofs.Auditor.Review
import Ownership.Proofs.Fact
import Ownership.Proofs.RuleSet

namespace Ownership

open Redaction

/-! ## 1. What is shown -/

/-- A fact on a row of a report.  If the owner of the row is an email address, the fact shows `***`
for it and in its place in the message, where no sign is left; otherwise it shows the owner, if
there is one, and the message as they are. -/
structure Row.IsMaskedIn (row : Row) (fact : Fact) : Prop where
  masked : ∀ address, row.owner = some address → (Owner.ofText address).kind = .email →
    fact.fields.get? "owner" = some (.text "***") ∧
      ∃ before after, row.message = before ++ address ++ after ∧
        fact.fields.get? "message" = some (.text (before ++ "***" ++ after)) ∧
        '@' ∉ (before ++ "***" ++ after).toList
  unmasked : (∀ address, row.owner = some address → (Owner.ofText address).kind ≠ .email) →
    fact.fields.get? "owner" = row.owner.map Json.text ∧
      fact.fields.get? "message" = some (.text row.message)

/-- What is shown of an owner under a text of its own: `***` for an email address. -/
def Owner.shown (o : Owner) (text : String) : Json :=
  .text (if o.kind = .email then "***" else text)

/-- The owners that a review is about, path by path. -/
def Review.owners (review : Review) : List Owner :=
  review.resolutions.flatMap fun r => (r.rule.map Rule.owners).getD []

/-! ## 2. Messages -/

/-- The text holds another once, and besides it no sign. -/
def NamesOnce (raw text : String) : Prop :=
  ∃ before after, text = before ++ raw ++ after ∧
    handleSign ∉ before.toList ∧ handleSign ∉ after.toList

namespace NamesOnce

variable {raw text more : String}

theorem quoted (raw : String) : NamesOnce raw (quoted raw) :=
  ⟨"\x60", "\x60", rfl, by decide, by decide⟩

theorem append_left (h : NamesOnce raw text) (hmore : handleSign ∉ more.toList) :
    NamesOnce raw (more ++ text) := by
  obtain ⟨before, after, rfl, hbefore, hafter⟩ := h
  refine ⟨more ++ before, after, by simp only [String.append_assoc], ?_, hafter⟩
  rw [String.toList_append, List.mem_append, not_or]
  exact ⟨hmore, hbefore⟩

theorem append_right (h : NamesOnce raw text) (hmore : handleSign ∉ more.toList) :
    NamesOnce raw (text ++ more) := by
  obtain ⟨before, after, rfl, hbefore, hafter⟩ := h
  refine ⟨before, after ++ more, by simp only [String.append_assoc], hbefore, ?_⟩
  rw [String.toList_append, List.mem_append, not_or]
  exact ⟨hafter, hmore⟩

end NamesOnce

theorem handleSign_not_mem_toString (n : Nat) : handleSign ∉ (toString n).toList := by
  have hdigits : (toString n).toList = Nat.toDigits 10 n := Nat.toList_repr
  rw [hdigits]
  intro h
  exact absurd (Nat.isDigit_of_mem_toDigits (by decide) (by decide) h) (by decide)

/-- **The message on an owner names it once**, without another sign, unless it says which forms are
wanted. -/
theorem Finding.namesOnce_message {x : Finding} {o : Owner} (ho : x.owner? = some o)
    (hx : ∀ r, x ≠ malformedOwner r o) : NamesOnce o.raw x.message := by
  have hquoted := NamesOnce.quoted o.raw
  cases x with
  | malformedOwner r _ =>
    cases ho
    exact absurd rfl (hx r)
  | emailOwner r _ =>
    cases ho
    have h : NamesOnce o.raw ("malformed owner " ++ Ownership.quoted o.raw ++ " on line " ++
        toString r.line ++ ": email owners are not allowed") :=
      (((hquoted.append_left (by decide)).append_right (by decide)).append_right
        (handleSign_not_mem_toString r.line)).append_right (by decide)
    exact h
  | repeatedOwner r _ =>
    cases ho
    have h : NamesOnce o.raw ("owner " ++ Ownership.quoted o.raw ++ " listed twice on line " ++
        toString r.line) :=
      ((hquoted.append_left (by decide)).append_right (by decide)).append_right
        (handleSign_not_mem_toString r.line)
    exact h
  | unknownOwner r _ =>
    cases ho
    have h : NamesOnce o.raw ("unknown owner " ++ Ownership.quoted o.raw ++ " on line " ++
        toString r.line) :=
      ((hquoted.append_left (by decide)).append_right (by decide)).append_right
        (handleSign_not_mem_toString r.line)
    exact h
  | _ => cases ho

namespace Auditor

variable {a : Auditor}

/-! ## 3. The rows on owners -/

/-- A finding on an owner is on one that stands in the rule, and a malformed one has no known
form. -/
theorem mem_owners_of_mem_findingsOn {above : List Rule} {r : Rule} {x : Finding} {o : Owner}
    (hx : x ∈ a.findingsOn above r) (ho : x.owner? = some o) :
    o ∈ r.owners ∧ ∀ r', x = .malformedOwner r' o → o.kind = .invalid := by
  rcases a.mem_findingsOn_iff.mp hx with ⟨_, -, rfl⟩ | ⟨_, hmem, ⟨hkind, rfl⟩ | ⟨-, -, rfl⟩⟩ |
    ⟨-, rfl⟩ | ⟨_, hmem, -, rfl⟩ | ⟨_, -, _, hmem, -, -, rfl⟩ | ⟨_, -, rfl⟩
  · cases ho
  · cases ho
    exact ⟨hmem, fun _ _ => hkind⟩
  · cases ho
    exact ⟨hmem, fun _ h => by cases h⟩
  · cases ho
  · cases ho
    exact ⟨mem_of_mem_inTurn hmem, fun _ h => by cases h⟩
  · cases ho
    exact ⟨hmem, fun _ h => by cases h⟩
  · cases ho

/-- **The message of a row on an email address** names it once, without another sign. -/
theorem namesOnce_message_of_mem_rows {text : String} {row : Row}
    (hrow : row ∈ (a.report (OwnersFile.ofText text)).rows) {address : String}
    (howner : row.owner = some address) (haddress : isAddress address = true) :
    NamesOnce address row.message := by
  obtain ⟨x, hx, hrow⟩ := List.mem_filterMap.mp hrow
  obtain ⟨s, -, rfl⟩ := Option.map_eq_some_iff.mp hrow
  obtain ⟨o, ho, rfl⟩ := Option.map_eq_some_iff.mp howner
  rw [findings_ofText] at hx
  rcases List.mem_append.mp hx with hx | hx
  · rcases List.mem_append.mp hx with hx | hx
    all_goals
      rw [List.mem_singleton.mp (List.mem_ite_nil_right.mp hx).2] at ho
      cases ho
  · obtain ⟨b, hb, hx⟩ := List.mem_flatMap.mp hx
    obtain ⟨hmem, hform⟩ := mem_owners_of_mem_findingsOn hx ho
    obtain ⟨n, hwell⟩ := exists_wellFormed_of_mem_rules (mem_of_mem_inTurn hb)
    refine Finding.namesOnce_message ho fun r hmalformed => ?_
    have hinvalid := hform r hmalformed
    rw [hwell.owner_eq o hmem, isAddress_iff.mp haddress] at hinvalid
    cases hinvalid

/-! ## 4. The facts on rows -/

theorem get?_textValue? (k key : String) (v : Option String) :
    Members.get? (textValue? k v) key = if k = key then v.map Json.text else none := by
  cases v with
  | none => exact (ite_self none).symm
  | some v =>
    have hone : textValue? k (some v) = [(k, Json.text v)] := rfl
    rw [hone, Members.get?_cons]
    rfl

theorem nodup_keys_rowValues (row : Row) : ((rowValues row).map Prod.fst).Nodup := by
  cases hid : row.ruleId <;> cases hpattern : row.pattern <;> cases howner : row.owner <;>
    simp [rowValues, textValue?, hid, hpattern, howner]

theorem get?_rowValues_owner (row : Row) :
    (rowValues row).get? "owner" = row.owner.map Json.text := by
  simp [rowValues, Members.get?_append, Members.get?_cons, get?_textValue?]

theorem get?_rowValues_message (row : Row) :
    (rowValues row).get? "message" = some (.text row.message) := by
  simp [rowValues, Members.get?_cons]

/-- **The fact on a row** masks the address in it, if there is one. -/
theorem isMaskedIn_rowFact (hmask : a.policy.facts.maskEmails = true) {text : String} {row : Row}
    (hrow : row ∈ (a.report (OwnersFile.ofText text)).rows) :
    row.IsMaskedIn (rowFact (a.context (OwnersFile.ofText text)) row) := by
  have hkeys := nodup_keys_rowValues row
  refine ⟨fun address howner hemail => ?_, fun hnone => ?_⟩
  · have haddress : isAddress address = true := isAddress_iff.mpr hemail
    have hvalue : address? (rowValues row) = some address := by
      rw [address?_eq_some_iff, get?_rowValues_owner, howner]
      exact ⟨rfl, haddress⟩
    obtain ⟨before, after, hmessage, hbefore, hafter⟩ :=
      namesOnce_message_of_mem_rows hrow howner haddress
    refine ⟨?_, before, after, hmessage, ?_, ?_⟩
    · rw [rowFact, Fact.get?_make_owner hmask hkeys, get?_rowValues_owner, howner, Option.map_some,
        Option.map_some, maskText_text_eq_mask haddress]
      rfl
    · rw [rowFact, Fact.get?_make_message hmask hkeys, hvalue, Option.elim_some,
        get?_rowValues_message, Option.map_some, maskWithin, hmessage,
        replace_address haddress hbefore hafter]
      rfl
    · simp only [String.toList_append, List.mem_append, not_or]
      exact ⟨⟨hbefore, by decide⟩, hafter⟩
  · have hvalue : address? (rowValues row) = none := by
      rw [Option.eq_none_iff_forall_ne_some]
      intro address haddress
      rw [address?_eq_some_iff, get?_rowValues_owner] at haddress
      obtain ⟨howner, haddress⟩ := haddress
      obtain ⟨s, hs, heq⟩ := Option.map_eq_some_iff.mp howner
      cases heq
      exact hnone address hs (isAddress_iff.mp haddress)
    refine ⟨?_, ?_⟩
    · rw [rowFact, Fact.get?_make_owner hmask hkeys, get?_rowValues_owner]
      cases howner : row.owner with
      | none => rfl
      | some s =>
        have hs : isAddress s = false := by
          rw [← Bool.not_eq_true, isAddress_iff]
          exact hnone s howner
        rw [Option.map_some, Option.map_some, maskText_text_eq_self hs]
    · rw [rowFact, Fact.get?_make_message hmask hkeys, hvalue, Option.elim_none,
        get?_rowValues_message]

/-- Linting leaves one fact behind for each row, and one for the whole report. -/
theorem facts_lint (f : OwnersFile) :
    (a.lint f).facts = (a.report f).rows.map (rowFact (a.context f)) ++
      [Fact.make (a.context f) .lintSummary (if (a.report f).ok then .success else .failure)
        (countValues (a.report f) ++ if (a.report f).ok then [] else stopValues (a.report f))] := by
  rw [Traced.facts, lint, List.filterMap_append, List.filterMap_map]
  refine congrArg₂ _ (List.filterMap_eq_map_iff_forall_eq_some.mpr fun _ _ => rfl) ?_
  rw [summaryEvents]
  cases (a.report f).ok <;> rfl

theorem filter_facts_lint (f : OwnersFile) :
    (a.lint f).facts.filter (fun x => x.stage = .lint) =
      (a.report f).rows.map (rowFact (a.context f)) := by
  have hrows : ((a.report f).rows.map (rowFact (a.context f))).filter (fun x => x.stage = .lint) =
      (a.report f).rows.map (rowFact (a.context f)) :=
    List.filter_eq_self.mpr (List.forall_mem_map.mpr fun _ _ => rfl)
  rw [facts_lint, List.filter_append, hrows]
  exact List.append_nil _

/-! ## 5. The owners of paths -/

/-- An owner is masked as it is shown, under any text that is an address exactly if the owner is
one. -/
theorem maskText_eq_shown {o : Owner} {text : String}
    (h : (Owner.ofText text).kind = .email ↔ o.kind = .email) :
    maskText (.text text) = o.shown text := by
  rw [Owner.shown]
  split
  · exact maskText_text_eq_mask (isAddress_iff.mpr (h.mpr ‹_›))
  · rename_i hkind
    refine maskText_text_eq_self ?_
    rw [← Bool.not_eq_true, isAddress_iff, h]
    exact hkind

/-- **The fact on a path** shows the owners of its rule. -/
theorem masked_owners_of_resolve (hmask : a.policy.facts.maskEmails = true) {text path : String}
    {r : Resolution} (hr : (a.resolve (OwnersFile.ofText text) path).value = .ok r) :
    ∃ fact, (a.resolve (OwnersFile.ofText text) path).facts = [fact] ∧ fact.stage = .resolve ∧
      fact.fields.get? "owners" = some ((r.rule.map fun rule =>
        Json.array (rule.owners.map fun o => o.shown o.raw)).getD .null) := by
  refine ⟨_, facts_resolve hr, rfl, ?_⟩
  have hvalue : (resolutionValues r).get? "owners" =
      some ((r.rule.map fun rule => Json.texts (rule.owners.map Owner.raw)).getD .null) := by
    simp [resolutionValues, Members.get?_cons]
  rw [Fact.get?_make_owners hmask (by simp [resolutionValues]), hvalue, Option.map_some]
  obtain ⟨p, -, rfl⟩ := resolve_eq_ok_iff.mp hr
  cases hrule : ((a.compile (OwnersFile.ofText text)).resolve p).rule with
  | none => rfl
  | some rule =>
    obtain ⟨n, hwell⟩ := exists_wellFormed_of_mem_rules (RuleSet.mem_rules_of_resolve hrule)
    have hitems : ((rule.owners.map Owner.raw).map Json.text).map maskText =
        rule.owners.map fun o => o.shown o.raw := by
      simp only [List.map_map]
      refine List.map_congr_left fun o ho => maskText_eq_shown ?_
      rw [← hwell.owner_eq o ho]
    exact congrArg (some ∘ Json.array) hitems

theorem reviewers_ofResolutions (rs : List Resolution) :
    (Review.ofResolutions rs).reviewers =
      ((Review.ofResolutions rs).owners.map Owner.name).eraseDups := by
  rw [Review.owners, List.map_flatMap]
  refine congrArg List.eraseDups (List.flatMap_congr fun r _ => ?_)
  rw [Resolution.ownerNames]
  cases r.rule <;> rfl

/-- The owners that a review is about are read from their words. -/
theorem eq_ofText_of_mem_owners {text : String} {paths : List String} {review : Review}
    (h : (a.review (OwnersFile.ofText text) paths).value = .ok review) {o : Owner}
    (ho : o ∈ review.owners) : o = Owner.ofText o.raw := by
  obtain ⟨ps, -, rfl⟩ := review_eq_ok_iff.mp h
  obtain ⟨r, hr, ho⟩ := List.mem_flatMap.mp ho
  obtain ⟨p, -, rfl⟩ := List.mem_map.mp hr
  cases hrule : ((a.compile (OwnersFile.ofText text)).resolve p).rule with
  | none =>
    rw [hrule] at ho
    exact absurd ho List.not_mem_nil
  | some rule =>
    rw [hrule] at ho
    obtain ⟨n, hwell⟩ := exists_wellFormed_of_mem_rules (RuleSet.mem_rules_of_resolve hrule)
    exact hwell.owner_eq o ho

/-- **The fact on a review** shows the reviewers, each as the owners of that name. -/
theorem masked_owners_of_review (hmask : a.policy.facts.maskEmails = true) {text : String}
    {paths : List String} {review : Review}
    (h : (a.review (OwnersFile.ofText text) paths).value = .ok review) :
    ∃ fact items, (a.review (OwnersFile.ofText text) paths).facts = [fact] ∧
      fact.stage = .review ∧ fact.fields.get? "owners" = some (.array items) ∧
        List.Forall₂ (fun name item => name ∈ review.owners.map Owner.name ∧
          ∀ o ∈ review.owners, o.name = name → item = o.shown name) review.reviewers items := by
  have hvalue : (reviewValues review).get? "owners" = some (Json.texts review.reviewers) := by
    simp [reviewValues, Members.get?_cons]
  refine ⟨_, (review.reviewers.map Json.text).map maskText, facts_review h, rfl, ?_, ?_⟩
  · rw [Fact.get?_make_owners hmask (by simp [reviewValues]), hvalue]
    rfl
  · rw [List.map_map, List.forall₂_map_right_iff, List.forall₂_same]
    intro name hname
    refine ⟨?_, fun o ho honame => ?_⟩
    · obtain ⟨ps, -, rfl⟩ := review_eq_ok_iff.mp h
      rwa [reviewers_ofResolutions, List.mem_eraseDups] at hname
    · refine maskText_eq_shown ?_
      rw [← honame, eq_ofText_of_mem_owners h ho]
      exact Owner.kind_ofText_name_eq_email_iff o.raw

/-! ## 6. The facts of all operations -/

/-- **Email addresses are masked in facts, and nothing else is.**  The facts on rows follow the rows
of the report one by one; the fact on a path shows the owners of its rule as they are written, and
that on a review the names of the reviewers, each masked if it is that of an email address. -/
theorem facts_mask_addresses (hmask : a.policy.facts.maskEmails = true) (text : String) :
    let f := OwnersFile.ofText text
    List.Forall₂ Row.IsMaskedIn (a.lint f).value.rows
        ((a.lint f).facts.filter fun fact => fact.stage = .lint) ∧
      (∀ path r, (a.resolve f path).value = .ok r → ∃ fact,
        (a.resolve f path).facts = [fact] ∧ fact.stage = .resolve ∧
          fact.fields.get? "owners" = some ((r.rule.map fun rule =>
            Json.array (rule.owners.map fun o => o.shown o.raw)).getD .null)) ∧
      ∀ paths review, (a.review f paths).value = .ok review → ∃ fact items,
        (a.review f paths).facts = [fact] ∧ fact.stage = .review ∧
          fact.fields.get? "owners" = some (.array items) ∧
            List.Forall₂ (fun name item => name ∈ review.owners.map Owner.name ∧
              ∀ o ∈ review.owners, o.name = name → item = o.shown name) review.reviewers items := by
  intro f
  refine ⟨?_, fun path r => masked_owners_of_resolve hmask,
    fun paths review => masked_owners_of_review hmask⟩
  rw [filter_facts_lint, List.forall₂_map_right_iff]
  exact List.forall₂_same.mpr fun row hrow => isMaskedIn_rowFact hmask hrow

/-- A team is shown beside an address that is not. -/
theorem masked_address_of_docs :
    (Auditor.mk .standard none none "").policy.facts.maskEmails = true ∧ ∃ fact,
      ((Auditor.mk .standard none none "").resolve (OwnersFile.ofText "docs x@y.z @o/t")
        "docs").facts = [fact] ∧
      fact.fields.get? "owners" = some (.array [.text "***", .text "@o/t"]) := by
  refine ⟨rfl, ?_⟩
  obtain ⟨-, hresolve, -⟩ :=
    facts_mask_addresses (a := ⟨.standard, none, none, ""⟩) rfl "docs x@y.z @o/t"
  have hvalue : ((Auditor.mk .standard none none "").resolve
      (OwnersFile.ofText "docs x@y.z @o/t") "docs").value =
        .ok ⟨⟨"docs"⟩, some ⟨1, "docs", [.ofText "x@y.z", .ofText "@o/t"]⟩, [1]⟩ := by
    decide +kernel
  obtain ⟨fact, hfacts, -, howners⟩ := hresolve _ _ hvalue
  exact ⟨fact, hfacts, howners⟩

end Auditor

end Ownership
