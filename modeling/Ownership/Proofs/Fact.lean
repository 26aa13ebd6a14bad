/-
# What a fact says

A fact holds the values of its stage in an envelope, with what its rules forbid taken out.  The
envelope has keys of its own, so that under any other key the fact says what the stage said of it,
but for the redaction.

* `Fact.get?_enclose_eq`, `Fact.get?_enclose`: the values in their envelope;
* `Fact.get?_make_owner`, `Fact.get?_make_message`, `Fact.get?_make_owners`: a fact whose addresses
  are masked;
* `Fact.get?_make_of_not_mem`, `Fact.get?_redact_congr`: which values redaction leaves alone, and
  what the others depend on;
* `Fact.AgreeOff`: two facts that agree but for some keys, `Fact.agreeOff_make` and
  `Fact.agreeOff_make_of_values` when they do.
-/
import Ownership.Fact
import Ownership.Proofs.Fact.Redaction

namespace Ownership.Fact

open Redaction

variable {c : FactContext} {s : Stage} {d : Decision} {values : Members}

/-! ## 1. The envelope -/

/-- The keys of the envelope. -/
def envelopeKeys : List String :=
  ["stage", "decision", "schema_version", "ts", "ruleset_id", "path"]

/-- The envelope by itself, under these keys. -/
def envelope (c : FactContext) (s : Stage) (d : Decision) : Members :=
  [("stage", .text s.name), ("decision", .text d.name), ("schema_version", .nat factSchemaVersion),
    ("ts", .text c.time), ("ruleset_id", .text c.ruleset.toText), ("path", .text "")]

/-- **The values of a stage in their envelope**: what a stage has set comes first. -/
theorem get?_enclose_eq (h : (values.map Prod.fst).Nodup) (key : String) :
    (enclose c s d values).get? key = (values.get? key).or ((envelope c s d).get? key) := by
  have hkeys : ∀ (ms : Members) (k : String) (v : Json),
      (ms.setNew k v).get? key = (ms.get? key).or (if k = key then some v else none) := by
    intro ms k v
    rw [Members.get?_setNew]
    split
    · cases ms.get? key <;> rfl
    · rw [Option.or_none]
  simp only [enclose, hkeys, Members.get?_setAll h, Members.get?_set, Members.get?_nil, envelope,
    Members.get?_cons, Option.or_assoc]
  -- The envelope is asked key by key, in the order in which it is filled in.
  refine congrArg _ ?_
  split_ifs <;> rfl

/-- **The envelope changes no value** under a key that is not its own. -/
theorem get?_enclose {key : String} (h : (values.map Prod.fst).Nodup)
    (hkey : key ∉ envelopeKeys) : (enclose c s d values).get? key = values.get? key := by
  have hnone : (envelope c s d).get? key = none := Members.get?_eq_none_of_not_mem hkey
  rw [get?_enclose_eq h, hnone, Option.or_none]

/-! ## 2. Facts whose addresses are masked -/

/-- Masking meets the values as the stage gave them. -/
theorem exists_fields_make (hmask : c.rules.maskEmails = true) (h : (values.map Prod.fst).Nodup) :
    ∃ ms, (make c s d values).fields = maskEmailsIn ms ∧
      ∀ key, key ∉ envelopeKeys → key ≠ "duration_ms" → ms.get? key = values.get? key := by
  refine ⟨if c.rules.redact then zeroTimesIn (enclose c s d values) else enclose c s d values,
    by rw [make, redact, if_pos hmask], fun key hkey hduration => ?_⟩
  have hts : key ≠ "ts" := by
    rintro rfl
    exact hkey (by decide)
  split
  · rw [get?_zeroTimesIn hts hduration, get?_enclose h hkey]
  · rw [get?_enclose h hkey]

theorem get?_make_owner (hmask : c.rules.maskEmails = true) (h : (values.map Prod.fst).Nodup) :
    (make c s d values).fields.get? "owner" = (values.get? "owner").map maskText := by
  obtain ⟨ms, hms, hget⟩ := exists_fields_make hmask h
  rw [hms, get?_maskEmailsIn_owner, hget "owner" (by decide) (by decide)]

theorem get?_make_message (hmask : c.rules.maskEmails = true)
    (h : (values.map Prod.fst).Nodup) :
    (make c s d values).fields.get? "message" =
      (address? values).elim (values.get? "message") fun a =>
        (values.get? "message").map (maskWithin a) := by
  obtain ⟨ms, hms, hget⟩ := exists_fields_make hmask h
  rw [hms, get?_maskEmailsIn_message, hget "message" (by decide) (by decide),
    address?_congr (hget "owner" (by decide) (by decide))]

theorem get?_make_owners (hmask : c.rules.maskEmails = true)
    (h : (values.map Prod.fst).Nodup) :
    (make c s d values).fields.get? "owners" = (values.get? "owners").map maskItems := by
  obtain ⟨ms, hms, hget⟩ := exists_fields_make hmask h
  rw [hms, get?_maskEmailsIn_owners, hget "owners" (by decide) (by decide)]

/-! ## 3. What redaction may change -/

variable {ms ms' : Members} {key : String}

/-- The keys whose values depend on what facts may show, or on the time. -/
def volatileKeys : List String := ["ts", "duration_ms", "owner", "owners", "message"]

theorem get?_timed (r : FactRules) (hts : key ≠ "ts") (hduration : key ≠ "duration_ms") :
    (if r.redact then zeroTimesIn ms else ms).get? key = ms.get? key := by
  split
  · exact get?_zeroTimesIn hts hduration
  · rfl

/-- **Redaction changes no value** but those under the volatile keys. -/
theorem get?_redact_of_not_mem (r : FactRules) (hkey : key ∉ volatileKeys) :
    (redact r ms).get? key = ms.get? key := by
  simp only [volatileKeys, List.mem_cons, List.not_mem_nil, or_false, not_or] at hkey
  obtain ⟨hts, hduration, howner, howners, hmessage⟩ := hkey
  rw [redact]
  split
  · rw [get?_maskEmailsIn_of_ne howner howners hmessage, get?_timed r hts hduration]
  · exact get?_timed r hts hduration

/-- Without masking it changes none but the times. -/
theorem get?_redact_of_unmasked {r : FactRules} (h : r.maskEmails = false) (hts : key ≠ "ts")
    (hduration : key ≠ "duration_ms") : (redact r ms).get? key = ms.get? key := by
  simp only [redact, h, Bool.false_eq_true, if_false]
  exact get?_timed r hts hduration

/-- **A fact says what its stage said** under any key that is neither the envelope's nor
volatile. -/
theorem get?_make_of_not_mem (h : (values.map Prod.fst).Nodup) (hkey : key ∉ envelopeKeys)
    (hvolatile : key ∉ volatileKeys) :
    (make c s d values).fields.get? key = values.get? key := by
  rw [make, get?_redact_of_not_mem _ hvolatile, get?_enclose h hkey]

theorem get?_make_of_unmasked (hmask : c.rules.maskEmails = false)
    (h : (values.map Prod.fst).Nodup) (hkey : key ∉ envelopeKeys)
    (hduration : key ≠ "duration_ms") :
    (make c s d values).fields.get? key = values.get? key := by
  have hts : key ≠ "ts" := by
    rintro rfl
    exact hkey (by decide)
  rw [make, get?_redact_of_unmasked hmask hts hduration, get?_enclose h hkey]

/-- What becomes of a value depends on the value itself and on the owner. -/
theorem get?_redact_congr (r : FactRules) (hkey : ms.get? key = ms'.get? key)
    (howner : ms.get? "owner" = ms'.get? "owner") :
    (redact r ms).get? key = (redact r ms').get? key := by
  have htimed : ∀ k : String, ms.get? k = ms'.get? k →
      (if r.redact then zeroTimesIn ms else ms).get? k =
        (if r.redact then zeroTimesIn ms' else ms').get? k := by
    intro k hk
    split
    · simp only [zeroTimesIn, Members.get?_erase, Members.get?_set, hk]
    · exact hk
  rw [redact, redact]
  split
  · exact get?_maskEmailsIn_congr (htimed key hkey) (htimed "owner" howner)
  · exact htimed key hkey

/-! ## 4. Facts that agree -/

/-- Two facts of one program and one stage, with one decision, that say the same but for what they
say under some keys. -/
structure AgreeOff (keys : List String) (x y : Fact) : Prop where
  subsystem_eq : x.subsystem = y.subsystem
  stage_eq : x.stage = y.stage
  decision_eq : x.decision = y.decision
  get?_eq : ∀ key ∉ keys, x.fields.get? key = y.fields.get? key

/-- **What facts may show, and when, reaches no value** but those under the volatile keys. -/
theorem agreeOff_make {c c' : FactContext} (h : c.ruleset = c'.ruleset) :
    AgreeOff volatileKeys (make c s d values) (make c' s d values) := by
  refine ⟨rfl, rfl, rfl, fun key hkey => ?_⟩
  have hts : "ts" ≠ key := by
    rintro rfl
    exact hkey (by decide)
  rw [make, make, get?_redact_of_not_mem _ hkey, get?_redact_of_not_mem _ hkey]
  simp only [enclose, Members.get?_setNew, if_neg hts, h]

/-- **Values that agree make facts that agree**, if the owner is among what they agree on. -/
theorem agreeOff_make_of_values {keys : List String} {values' : Members}
    (h : (values.map Prod.fst).Nodup) (h' : (values'.map Prod.fst).Nodup)
    (hvalues : ∀ key ∉ keys, values.get? key = values'.get? key) (howner : "owner" ∉ keys) :
    AgreeOff keys (make c s d values) (make c s d values') := by
  have henclosed : ∀ key ∉ keys,
      (enclose c s d values).get? key = (enclose c s d values').get? key := by
    intro key hkey
    simp only [enclose, Members.get?_setNew, Members.get?_setAll h, Members.get?_setAll h',
      hvalues key hkey]
  exact ⟨rfl, rfl, rfl, fun key hkey =>
    get?_redact_congr c.rules (henclosed key hkey) (henclosed "owner" howner)⟩

end Ownership.Fact
