/-
# Masking email addresses

An email address holds the sign `@` once.  In a text that holds no other, the address can stand in
one place only, the one where the signs meet; so replacing it there changes nothing else, and no
sign is left.

What masking does to a fact is said key by key: the owner and the list of owners each become what
they are on their own, and the message is touched only if the owner was an address.

* `Redaction.replace_address`: an address in a text without another sign;
* `Redaction.get?_maskEmailsIn_owner`, `Redaction.get?_maskEmailsIn_message` and
  `Redaction.get?_maskEmailsIn_owners`: what masking does under each key;
* `Redaction.get?_maskEmailsIn_of_ne`, `Redaction.get?_maskEmailsIn_congr`: what it leaves alone,
  and what it depends on.
-/
import Ownership.Fact.Redaction
import Ownership.Proofs.Json
import Ownership.Proofs.Owner

namespace Ownership.Redaction

/-! ## 1. Replacing a text -/

section Replacing

variable {old new user domain pre post : List Char}

theorem replaceFrom_eq_drop (n : Nat) (cs : List Char) :
    replaceFrom old new n cs = replaceFrom old new 0 (cs.drop n) := by
  induction cs generalizing n with
  | nil => rw [List.drop_nil, replaceFrom, replaceFrom]
  | cons c cs ih =>
    cases n with
    | zero => rfl
    | succ n => rw [replaceFrom, ih, List.drop_succ_cons]

/-- Where the text to be replaced begins, it is replaced, and the rest comes behind. -/
theorem replaceFrom_append (hold : old ≠ []) :
    replaceFrom old new 0 (old ++ post) = new ++ replaceFrom old new 0 post := by
  obtain ⟨c, cs, rfl⟩ := List.exists_cons_of_ne_nil hold
  have hprefix : (c :: cs).isPrefixOf (c :: (cs ++ post)) = true :=
    List.isPrefixOf_iff_prefix.mpr (List.prefix_append (c :: cs) post)
  rw [List.cons_append, replaceFrom, if_pos hprefix, replaceFrom_eq_drop]
  simp

/-- Where it does not begin, one character is left as it is. -/
theorem replaceFrom_cons {c : Char} {cs : List Char} (h : ¬ old <+: c :: cs) :
    replaceFrom old new 0 (c :: cs) = c :: replaceFrom old new 0 cs := by
  rw [replaceFrom, if_neg (mt List.isPrefixOf_iff_prefix.mp h)]

/-- Two texts that are alike up to their first signs begin together. -/
theorem eq_nil_of_starts_together (huser : handleSign ∉ user) (hpre : handleSign ∉ pre)
    (h : user ++ handleSign :: domain <+: pre ++ (user ++ handleSign :: post)) : pre = [] := by
  obtain ⟨rest, h⟩ := h
  have hleft : Text.cutAt handleSign (pre ++ (user ++ handleSign :: post)) =
      some (user, domain ++ rest) :=
    Text.cutAt_eq_some_iff.mpr ⟨by rw [← h, List.append_assoc, List.cons_append], huser⟩
  have hright : Text.cutAt handleSign (pre ++ (user ++ handleSign :: post)) =
      some (pre ++ user, post) :=
    Text.cutAt_eq_some_iff.mpr ⟨(List.append_assoc ..).symm, by simp [hpre, huser]⟩
  rw [hleft, Option.some.injEq, Prod.mk.injEq] at hright
  exact List.self_eq_append_left.mp hright.1

/-- A text without the sign holds no text with it. -/
theorem replaceFrom_eq_self (hold : handleSign ∈ old) (hpost : handleSign ∉ post) :
    replaceFrom old new 0 post = post := by
  induction post with
  | nil => rfl
  | cons c cs ih =>
    rw [replaceFrom_cons fun h => hpost (h.subset hold),
      ih fun hmem => hpost (List.mem_cons_of_mem c hmem)]

/-- **A text with a sign is replaced in one place**, if around it there is no other. -/
theorem replaceFrom_around (huser : handleSign ∉ user) (hpre : handleSign ∉ pre)
    (hpost : handleSign ∉ post) :
    replaceFrom (user ++ handleSign :: domain) new 0
        (pre ++ (user ++ handleSign :: domain ++ post)) = pre ++ (new ++ post) := by
  -- What stands in front is passed over character by character, since the text cannot begin there.
  induction pre with
  | nil =>
    rw [List.nil_append, replaceFrom_append (by simp), replaceFrom_eq_self (by simp) hpost]
    rfl
  | cons c pre ih =>
    have hstep : ¬ user ++ handleSign :: domain <+:
        c :: (pre ++ (user ++ handleSign :: domain ++ post)) := by
      intro h
      rw [← List.cons_append, List.append_assoc, List.cons_append] at h
      exact absurd (eq_nil_of_starts_together huser hpre h) (List.cons_ne_nil c pre)
    rw [List.cons_append, replaceFrom_cons hstep,
      ih fun hmem => hpre (List.mem_cons_of_mem c hmem)]
    rfl

end Replacing

theorem isAddress_iff {raw : String} : isAddress raw = true ↔ (Owner.ofText raw).kind = .email :=
  beq_iff_eq

/-- **An address is replaced in one place**, in a text that holds no other sign. -/
theorem replace_address {address new before after : String} (h : isAddress address = true)
    (hbefore : handleSign ∉ before.toList) (hafter : handleSign ∉ after.toList) :
    replace address new (before ++ address ++ after) = before ++ new ++ after := by
  obtain ⟨user, domain, haddress, huser, -⟩ := exists_of_classify_eq_email (isAddress_iff.mp h)
  have hreplaced : replaceFrom (user ++ handleSign :: domain) new.toList 0
      (before.toList ++ (user ++ handleSign :: domain ++ after.toList)) =
        before.toList ++ (new.toList ++ after.toList) :=
    replaceFrom_around huser hbefore hafter
  rw [← String.toList_inj, replace]
  simpa only [String.toList_ofList, String.toList_append, haddress, List.append_assoc]
    using hreplaced

/-! ## 2. Masking -/

variable {ms : Members}

/-- When there is an address under the owner. -/
theorem address?_eq_some_iff {s : String} :
    address? ms = some s ↔ ms.get? "owner" = some (.text s) ∧ isAddress s = true := by
  unfold address?
  split
  · rename_i t ht
    rw [ht, Option.ite_none_right_eq_some]
    constructor
    · rintro ⟨haddress, ⟨⟩⟩
      exact ⟨rfl, haddress⟩
    · rintro ⟨⟨⟩, haddress⟩
      exact ⟨haddress, rfl⟩
  · rename_i hnotext
    exact iff_of_false (fun h => by cases h) fun h => hnotext s h.1

theorem isAddress_eq_false_of_address?_eq_none {s : String} (h : address? ms = none)
    (hs : ms.get? "owner" = some (.text s)) : isAddress s = false := by
  rw [← Bool.not_eq_true]
  intro haddress
  rw [address?_eq_some_iff.mpr ⟨hs, haddress⟩] at h
  cases h

/-- It depends on nothing else. -/
theorem address?_congr {ms' : Members} (h : ms.get? "owner" = ms'.get? "owner") :
    address? ms = address? ms' := by
  rw [address?, h, address?]

/-- A text that is no address is not masked. -/
theorem maskText_text_eq_self {s : String} (h : isAddress s = false) :
    maskText (.text s) = .text s := by
  rw [maskText, maskOwner, h]
  rfl

theorem maskText_text_eq_mask {s : String} (h : isAddress s = true) :
    maskText (.text s) = .text mask := by
  rw [maskText, maskOwner, if_pos h]

/-- **The owner** is masked as a text by itself. -/
theorem get?_maskEmailsIn_owner :
    (maskEmailsIn ms).get? "owner" = (ms.get? "owner").map maskText := by
  rw [maskEmailsIn]
  cases haddress : address? ms with
  | some s => simp [Members.get?_update]
  | none =>
    have hsame : (ms.get? "owner").map maskText = ms.get? "owner" := by
      cases howner : ms.get? "owner" with
      | none => rfl
      | some v =>
        cases v with
        | text s =>
          rw [Option.map_some,
            maskText_text_eq_self (isAddress_eq_false_of_address?_eq_none haddress howner)]
        | _ => rfl
    simp [Members.get?_update, hsame]

/-- **The message** is masked if the owner is an address, and for that address. -/
theorem get?_maskEmailsIn_message :
    (maskEmailsIn ms).get? "message" =
      (address? ms).elim (ms.get? "message") fun s => (ms.get? "message").map (maskWithin s) := by
  rw [maskEmailsIn]
  cases address? ms <;> simp [Members.get?_update]

/-- **The list of owners** is masked owner by owner. -/
theorem get?_maskEmailsIn_owners :
    (maskEmailsIn ms).get? "owners" = (ms.get? "owners").map maskItems := by
  rw [maskEmailsIn]
  cases address? ms <;> simp [Members.get?_update]

/-- No other value is masked. -/
theorem get?_maskEmailsIn_of_ne {key : String} (howner : key ≠ "owner") (howners : key ≠ "owners")
    (hmessage : key ≠ "message") : (maskEmailsIn ms).get? key = ms.get? key := by
  rw [maskEmailsIn]
  cases address? ms <;>
    simp only [Members.get?_update, if_neg howner.symm, if_neg howners.symm, if_neg hmessage.symm]

/-- What becomes of a value depends on the value itself and on the owner. -/
theorem get?_maskEmailsIn_congr {ms' : Members} {key : String} (hkey : ms.get? key = ms'.get? key)
    (howner : ms.get? "owner" = ms'.get? "owner") :
    (maskEmailsIn ms).get? key = (maskEmailsIn ms').get? key := by
  rw [maskEmailsIn, maskEmailsIn, address?_congr howner]
  cases address? ms' <;> simp only [Members.get?_update, hkey]

/-! ## 3. Times -/

/-- Taking times out of a fact leaves all else as it is. -/
theorem get?_zeroTimesIn {key : String} (hts : key ≠ "ts") (hduration : key ≠ "duration_ms") :
    (zeroTimesIn ms).get? key = ms.get? key := by
  rw [zeroTimesIn, Members.get?_erase, if_neg hduration.symm, Members.get?_set, if_neg hts.symm]

end Ownership.Redaction
