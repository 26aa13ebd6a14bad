/-
# How far redaction reaches

Times are taken out of a value, and addresses are masked in it, among the members of the outermost
object alone.  Whatever stands in an object inside that one is left as it is, also where its keys
are those of a time or of an owner, and what is no object has no members to look at.

The two can be applied in any order and any number of times.  They look under different keys, so
that neither meets what the other has done.  And neither finds anything to do where it has been: the
mask is no address, so that a second masking finds no owner to mask, and without one it looks at no
message.

* `Redaction.maskEmails_maskEmails`, `Redaction.zeroTimes_zeroTimes`: applied again;
* `Redaction.maskEmails_zeroTimes`: applied one after the other;
* `Redaction.MaskReaches`, `Redaction.TimesReach`: the places at which a value may change;
* `Redaction.Masked`, `Redaction.Timeless`: what becomes of a value;
* `Redaction.masked_and_timeless`: all of it together;
* `Fact.redact_redact`: a fact that is redacted again.
-/
import Mathlib.Tactic.MkIffOfInductiveProp
import Ownership.Fact
import Ownership.Proofs.Fact.Redaction

namespace Ownership.Redaction

open Json (Selector)

variable {ms : Members} {place : List Selector}

/-! ## 1. Masking again -/

theorem isAddress_maskOwner (raw : String) : isAddress (maskOwner raw) = false := by
  rw [maskOwner]
  split
  · decide
  · rwa [← Bool.not_eq_true]

/-- What has been masked is no address. -/
theorem kind_ne_email_of_maskText {v : Json} {raw : String} (h : maskText v = .text raw) :
    (Owner.ofText raw).kind ≠ .email := by
  cases v with
  | text s =>
    cases h
    rw [ne_eq, ← isAddress_iff, isAddress_maskOwner]
    exact Bool.false_ne_true
  | _ => cases h

theorem maskText_maskText (v : Json) : maskText (maskText v) = maskText v := by
  cases v with
  | text s => exact maskText_text_eq_self (isAddress_maskOwner s)
  | _ => rfl

theorem maskItems_maskItems (v : Json) : maskItems (maskItems v) = maskItems v := by
  cases v with
  | array items =>
    simp only [maskItems, List.map_map]
    exact congrArg Json.array (List.map_congr_left fun item _ => maskText_maskText item)
  | _ => rfl

/-- A masked owner is no address. -/
theorem kind_ne_email_of_owner {raw : String}
    (h : (maskEmailsIn ms).get? "owner" = some (.text raw)) : (Owner.ofText raw).kind ≠ .email := by
  rw [get?_maskEmailsIn_owner, Option.map_eq_some_iff] at h
  obtain ⟨v, -, hv⟩ := h
  exact kind_ne_email_of_maskText hv

theorem address?_maskEmailsIn : address? (maskEmailsIn ms) = none := by
  rw [Option.eq_none_iff_forall_not_mem]
  intro a ha
  obtain ⟨howner, haddress⟩ := address?_eq_some_iff.mp ha
  exact kind_ne_email_of_owner howner (isAddress_iff.mp haddress)

/-- **Masking again changes nothing.** -/
theorem maskEmailsIn_maskEmailsIn : maskEmailsIn (maskEmailsIn ms) = maskEmailsIn ms := by
  have hitems : maskItems ∘ maskItems = maskItems := funext maskItems_maskItems
  -- Only the list of owners is looked at a second time.
  rw [maskEmailsIn, address?_maskEmailsIn]
  simp only [maskEmailsIn, Members.update_update, hitems]

theorem maskEmails_maskEmails (v : Json) : maskEmails (maskEmails v) = maskEmails v := by
  cases v with
  | object ms => exact congrArg Json.object maskEmailsIn_maskEmailsIn
  | _ => rfl

/-! ## 2. Taking times out again, and masking after it -/

theorem zeroTimesIn_zeroTimesIn : zeroTimesIn (zeroTimesIn ms) = zeroTimesIn ms := by
  rw [zeroTimesIn, zeroTimesIn, ← Members.erase_set (by decide), Members.set_set,
    Members.erase_erase]

/-- **Taking times out again changes nothing.** -/
theorem zeroTimes_zeroTimes (v : Json) : zeroTimes (zeroTimes v) = zeroTimes v := by
  cases v with
  | object ms => exact congrArg Json.object zeroTimesIn_zeroTimesIn
  | _ => rfl

theorem update_zeroTimesIn {key : String} (h : key ≠ "ts") (f : Json → Json) :
    (zeroTimesIn ms).update key f = zeroTimesIn (ms.update key f) := by
  rw [zeroTimesIn, zeroTimesIn, Members.update_erase, Members.update_set h.symm]

theorem maskEmailsIn_zeroTimesIn :
    maskEmailsIn (zeroTimesIn ms) = zeroTimesIn (maskEmailsIn ms) := by
  have haddress : address? (zeroTimesIn ms) = address? ms :=
    address?_congr (get?_zeroTimesIn (by decide) (by decide))
  rw [maskEmailsIn, maskEmailsIn, haddress]
  cases address? ms with
  | none => exact update_zeroTimesIn (by decide) _
  | some a => simp only [update_zeroTimesIn, ne_eq, String.reduceEq, not_false_eq_true]

/-- **Masking and taking times out** can be done in either order. -/
theorem maskEmails_zeroTimes (v : Json) : maskEmails (zeroTimes v) = zeroTimes (maskEmails v) := by
  cases v with
  | object ms => exact congrArg Json.object maskEmailsIn_zeroTimesIn
  | _ => rfl

/-! ## 3. The places that are reached -/

/-- The places at which masking may change a value: the value itself, its owner, its list of owners
and each of these, and its message. -/
@[mk_iff]
inductive MaskReaches : List Selector → Prop
  | whole : MaskReaches []
  | owner : MaskReaches [.key "owner"]
  | owners : MaskReaches [.key "owners"]
  | item (i : Nat) : MaskReaches [.key "owners", .item i]
  | message : MaskReaches [.key "message"]

/-- The places at which taking times out may change a value: the value itself, and the time and the
duration with all that stands in them. -/
@[mk_iff]
inductive TimesReach : List Selector → Prop
  | whole : TimesReach []
  | time (place : List Selector) : TimesReach (.key "ts" :: place)
  | duration (place : List Selector) : TimesReach (.key "duration_ms" :: place)

theorem maskText_eq_mapText : maskText = Json.mapText maskOwner := by
  funext v
  cases v <;> rfl

theorem maskWithin_eq_mapText (a : String) : maskWithin a = Json.mapText (replace a mask) := by
  funext v
  cases v <;> rfl

theorem at?_maskItems_item (v : Json) (i : Nat) :
    (maskItems v).at? [.item i] = (v.at? [.item i]).map maskText := by
  cases v with
  | array items =>
    rw [maskItems, Json.at?_array_item, Json.at?_array_item, List.getElem?_map]
    cases items[i]? <;> rfl
  | _ => rfl

/-- Of a list of owners each is masked by itself. -/
theorem at?_maskItems (h : place ≠ []) (hitem : ∀ i, place ≠ [.item i]) (v : Json) :
    (maskItems v).at? place = v.at? place := by
  obtain ⟨s, inner, rfl⟩ := List.exists_cons_of_ne_nil h
  cases v with
  | array items =>
    cases s with
    | key k => rfl
    | item i =>
      have hinner : inner ≠ [] := fun hnil => hitem i (hnil ▸ rfl)
      rw [maskItems, Json.at?_array_item, Json.at?_array_item, List.getElem?_map,
        maskText_eq_mapText]
      exact Json.bind_at?_map (Json.at?_mapText hinner maskOwner) _
  | _ => rfl

/-- What stands under a key is reached at its end, or at an item of the owners, if it is reached at
all. -/
theorem bind_get?_maskEmailsIn {k : String} {inner : List Selector}
    (h : ¬ MaskReaches (.key k :: inner)) :
    ((maskEmailsIn ms).get? k).bind (fun v => v.at? inner) =
      (ms.get? k).bind fun v => v.at? inner := by
  by_cases howner : k = "owner"
  · subst howner
    have hinner : inner ≠ [] := fun hnil => h (hnil ▸ .owner)
    rw [get?_maskEmailsIn_owner, maskText_eq_mapText]
    exact Json.bind_at?_map (Json.at?_mapText hinner maskOwner) _
  by_cases howners : k = "owners"
  · subst howners
    have hinner : inner ≠ [] := fun hnil => h (hnil ▸ .owners)
    have hitem : ∀ i, inner ≠ [.item i] := fun i heq => h (heq ▸ .item i)
    rw [get?_maskEmailsIn_owners]
    exact Json.bind_at?_map (at?_maskItems hinner hitem) _
  by_cases hmessage : k = "message"
  · subst hmessage
    have hinner : inner ≠ [] := fun hnil => h (hnil ▸ .message)
    rw [get?_maskEmailsIn_message]
    cases address? ms with
    | none => rfl
    | some a =>
      rw [Option.elim_some, maskWithin_eq_mapText]
      exact Json.bind_at?_map (Json.at?_mapText hinner _) _
  rw [get?_maskEmailsIn_of_ne howner howners hmessage]

/-- **Masking changes a value at no other place.** -/
theorem at?_maskEmails (v : Json) (h : ¬ MaskReaches place) :
    (maskEmails v).at? place = v.at? place := by
  cases v with
  | object ms =>
    match place with
    | [] => exact absurd .whole h
    | .item _ :: _ => rfl
    | .key _ :: _ => exact bind_get?_maskEmailsIn h
  | _ => rfl

/-- **Taking times out changes a value at no other place.** -/
theorem at?_zeroTimes (v : Json) (h : ¬ TimesReach place) :
    (zeroTimes v).at? place = v.at? place := by
  cases v with
  | object ms =>
    match place with
    | [] => exact absurd .whole h
    | .item _ :: _ => rfl
    | .key k :: inner =>
      have hts : k ≠ "ts" := fun heq => h (heq ▸ .time inner)
      have hduration : k ≠ "duration_ms" := fun heq => h (heq ▸ .duration inner)
      rw [zeroTimes, Json.at?_object_key, Json.at?_object_key, get?_zeroTimesIn hts hduration]
  | _ => rfl

/-! ## 4. What becomes of a value -/

/-- What masking makes of the value `v`. -/
structure Masked (v w : Json) : Prop where
  /-- Nothing changes elsewhere, nor in any object inside. -/
  at?_eq : ∀ place, ¬ MaskReaches place → w.at? place = v.at? place
  /-- The owner is masked as a text by itself. -/
  owner_eq : w.at? [.key "owner"] = (v.at? [.key "owner"]).map maskText
  /-- So is each text in the list of owners, and what else is in it is left there. -/
  owners_eq : w.at? [.key "owners"] = (v.at? [.key "owners"]).map maskItems
  /-- The message changes only if the owner does. -/
  message_eq_of_owner_eq : w.at? [.key "owner"] = v.at? [.key "owner"] →
    w.at? [.key "message"] = v.at? [.key "message"]
  /-- If the owner is an address, that address is masked in the message. -/
  message_eq_of_address : ∀ a, v.at? [.key "owner"] = some (.text a) →
    (Owner.ofText a).kind = .email →
    w.at? [.key "message"] = (v.at? [.key "message"]).map (maskWithin a)
  /-- No owner is left that is an address. -/
  owner_kind_ne : ∀ raw, w.at? [.key "owner"] = some (.text raw) →
    (Owner.ofText raw).kind ≠ .email
  /-- Nor is one left in the list. -/
  item_kind_ne : ∀ i raw, w.at? [.key "owners", .item i] = some (.text raw) →
    (Owner.ofText raw).kind ≠ .email

/-- What taking times out makes of the value `v`. -/
structure Timeless (v w : Json) : Prop where
  /-- Nothing changes elsewhere, nor in any object inside. -/
  at?_eq : ∀ place, ¬ TimesReach place → w.at? place = v.at? place
  /-- An object has the time that stands for none. -/
  time_eq : ∀ ms, v = .object ms → w.at? [.key "ts"] = some (.text zeroTime)
  /-- There is no duration. -/
  duration_eq : w.at? [.key "duration_ms"] = none

theorem at?_key (ms : Members) (k : String) : (Json.object ms).at? [.key k] = ms.get? k := by
  rw [Json.at?_object_key]
  cases ms.get? k with
  | none => rfl
  | some v => exact Json.at?_nil v

theorem masked_object (ms : Members) : Masked (.object ms) (.object (maskEmailsIn ms)) := by
  refine
    { at?_eq := fun place => at?_maskEmails (.object ms)
      owner_eq := ?owner
      owners_eq := ?owners
      message_eq_of_owner_eq := fun hkept => ?kept
      message_eq_of_address := fun a ha hkind => ?message
      owner_kind_ne := fun raw hraw => ?clean
      item_kind_ne := fun i raw hraw => ?items }
  case owner => rw [at?_key, at?_key, get?_maskEmailsIn_owner]
  case owners => rw [at?_key, at?_key, get?_maskEmailsIn_owners]
  case kept =>
    -- An owner that is still the same was no address, because an address is not.
    have hnone : address? ms = none := by
      rw [at?_key, at?_key] at hkept
      rw [← address?_congr hkept, address?_maskEmailsIn]
    rw [at?_key, at?_key, get?_maskEmailsIn_message, hnone]
    rfl
  case message =>
    rw [at?_key] at ha
    have haddress : address? ms = some a := address?_eq_some_iff.mpr ⟨ha, isAddress_iff.mpr hkind⟩
    rw [at?_key, at?_key, get?_maskEmailsIn_message, haddress]
    rfl
  case clean => exact kind_ne_email_of_owner ((at?_key _ _).symm.trans hraw)
  case items =>
    rw [Json.at?_object_key, get?_maskEmailsIn_owners, Option.bind_map,
      Option.bind_eq_some_iff] at hraw
    obtain ⟨list, -, hlist⟩ := hraw
    rw [Function.comp_apply, at?_maskItems_item, Option.map_eq_some_iff] at hlist
    obtain ⟨v, -, hv⟩ := hlist
    exact kind_ne_email_of_maskText hv

/-- **What masking makes of a value.** -/
theorem masked_maskEmails (v : Json) : Masked v (maskEmails v) := by
  cases v with
  | object ms => exact masked_object ms
  | _ =>
    -- What is no object has nothing under any key.
    exact ⟨fun _ _ => rfl, rfl, rfl, fun _ => rfl, fun _ _ _ => rfl, nofun, nofun⟩

/-- **What taking times out makes of a value.** -/
theorem timeless_zeroTimes (v : Json) : Timeless v (zeroTimes v) := by
  refine ⟨fun place => at?_zeroTimes v, ?time, ?duration⟩
  case time =>
    rintro ms rfl
    rw [zeroTimes, at?_key, zeroTimesIn, Members.get?_erase, if_neg (by decide),
      Members.get?_set, if_pos rfl]
  case duration =>
    cases v with
    | object ms => rw [zeroTimes, at?_key, zeroTimesIn, Members.get?_erase, if_pos rfl]
    | _ => rfl

/-- **Masking and taking times out**, of any value.  Each changes nothing when it is applied again,
they can be applied in either order, and what is no object is left as it is by both.  What they do
to an object is done among its own members, by masking to texts under three keys, so that no owner
is left that is an address. -/
theorem masked_and_timeless (v : Json) :
    (maskEmails (maskEmails v) = maskEmails v ∧ zeroTimes (zeroTimes v) = zeroTimes v ∧
      maskEmails (zeroTimes v) = zeroTimes (maskEmails v)) ∧
    ((∀ ms, v ≠ .object ms) → maskEmails v = v ∧ zeroTimes v = v) ∧
    Masked v (maskEmails v) ∧ Timeless v (zeroTimes v) := by
  refine ⟨⟨maskEmails_maskEmails v, zeroTimes_zeroTimes v, maskEmails_zeroTimes v⟩, fun h => ?_,
    masked_maskEmails v, timeless_zeroTimes v⟩
  cases v with
  | object ms => exact absurd rfl (h ms)
  | _ => exact ⟨rfl, rfl⟩

/-- An address that is masked as the owner and in the message, and stays in an object among the
owners; there is a time in another object, and both are left alone in a list. -/
theorem masked_and_timeless_of_nested :
    let details : Json := .object [("owner", .text "a@b.c"), ("ts", .text "noon")]
    let v : Json := .object [("owner", .text "a@b.c"), ("message", .text "who is a@b.c?"),
      ("owners", .array [.text "d@e.f", details]), ("rule", details), ("duration_ms", .nat 12)]
    (maskEmails v).at? [.key "owner"] = some (.text "***") ∧
      (maskEmails v).at? [.key "message"] = some (.text "who is ***?") ∧
      (maskEmails v).at? [.key "owners", .item 0] ≠ some (.text "d@e.f") ∧
      (maskEmails v).at? [.key "owners", .item 1, .key "owner"] = some (.text "a@b.c") ∧
      (zeroTimes v).at? [.key "ts"] = some (.text zeroTime) ∧
      (zeroTimes v).at? [.key "rule", .key "ts"] = some (.text "noon") ∧
      maskEmails (.array [v]) = .array [v] ∧ zeroTimes (.array [v]) = .array [v] := by
  intro details v
  obtain ⟨-, -, hmasked, htimeless⟩ := masked_and_timeless v
  obtain ⟨-, hlist, -, -⟩ := masked_and_timeless (.array [v])
  refine ⟨?owner, ?message, ?item, ?inner, htimeless.time_eq _ rfl, ?time, hlist fun _ => nofun⟩
  case owner =>
    exact hmasked.owner_eq.trans (congrArg some (maskText_text_eq_mask (by decide)))
  case message =>
    have hmessage := hmasked.message_eq_of_address "a@b.c" rfl (by decide)
    exact hmessage.trans (congrArg (some ∘ Json.text) (by decide))
  case item => exact fun hitem => hmasked.item_kind_ne 0 "d@e.f" hitem (by decide)
  case inner =>
    exact hmasked.at?_eq [.key "owners", .item 1, .key "owner"] (by simp [maskReaches_iff])
  case time => exact htimeless.at?_eq [.key "rule", .key "ts"] (by simp [timesReach_iff])

end Ownership.Redaction

namespace Ownership.Fact

open Redaction

/-! ## 5. Facts -/

/-- **A fact that is redacted again**, by the same rules or by others, is without all that
either of them forbids, and it does not matter which came first. -/
theorem redact_redact (r s : FactRules) (ms : Members) :
    redact s (redact r ms) = redact ⟨r.redact || s.redact, r.maskEmails || s.maskEmails⟩ ms := by
  obtain ⟨times, emails⟩ := r
  obtain ⟨times', emails'⟩ := s
  cases times <;> cases emails <;> cases times' <;> cases emails' <;>
    simp [redact, maskEmailsIn_maskEmailsIn, zeroTimesIn_zeroTimesIn, maskEmailsIn_zeroTimesIn]

end Ownership.Fact
