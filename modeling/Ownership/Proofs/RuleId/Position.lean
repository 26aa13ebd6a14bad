/-
# What the identifier of a rule tells apart

The identifier of a rule is a hash over the text of the rule, a number sign and the position of the
rule among the others.  The text is not escaped and may itself hold number signs with digits behind
them.  But the digits of the position hold no number sign, so it is the last one of all that stands
in front of them, and the text and the position are told from the whole, whatever they are.

Two rules of one file stand at two positions.  So no two of them are hashed alike, even where they
have the same words, and that their identifiers differ is then a matter of the hash alone: it must
not have a collision among these few byte strings.

* `Rule.serializeAt_eq_iff`: what the hashed text tells;
* `OwnersFile.nodup_hashedRules`: no two rules of a file are hashed alike;
* `OwnersFile.nodup_ruleIds_iff`: when their identifiers differ;
* `Rule.hashed_at_position`: all of it together.
-/
import Mathlib.Data.List.Sigma
import Ownership.Auditor.Lint
import Ownership.Proofs.RuleId

namespace Ownership

/-! ## 1. One rule at a position -/

namespace Rule

theorem toList_serializeAt (r : Rule) (index : Nat) :
    (r.serializeAt index).toList = r.serialize.toList ++ '#' :: Nat.toDigits 10 index := by
  have hdigits : (toString index).toList = Nat.toDigits 10 index := by
    rw [Nat.toString_eq_ofList_toDigits, String.toList_ofList]
  rw [serializeAt, String.toList_append, String.toList_append, hdigits, List.append_assoc]
  rfl

/-- **The hashed text tells the text of the rule and the position**, which it is cut into at its last
number sign. -/
theorem serializeAt_eq_iff {r s : Rule} {i j : Nat} :
    r.serializeAt i = s.serializeAt j ↔ r.serialize = s.serialize ∧ i = j := by
  refine ⟨fun h => ?_, fun ⟨hrule, hindex⟩ => by rw [serializeAt, serializeAt, hrule, hindex]⟩
  have hsign := Text.not_mem_toDigits (c := '#') (by decide)
  rw [← String.toList_inj, toList_serializeAt, toList_serializeAt] at h
  obtain ⟨hrule, hindex⟩ := Text.append_cons_inj_last (hsign i) (hsign j) h
  exact ⟨String.toList_inj.mp hrule, Text.toDigits_injective hindex⟩

/-- A digit behind a number sign may belong to the pattern or to the position. -/
example : (Rule.mk 1 "a" []).serializeAt 12 = "a#12" ∧
    (Rule.mk 1 "a#1" []).serializeAt 2 = "a#1#2" := by decide

end Rule

/-! ## 2. The rules of a file -/

namespace Uuid

/-- The identifier that is made from the bytes of a name space and a name. -/
def ofHashed (bytes : ByteArray) : Uuid := ⟨stamp ((Sha1.digest bytes).take 16)⟩

/-- The hash has no collision among these byte strings: no two of them make the same identifier. -/
def CollisionFree (strings : List ByteArray) : Prop :=
  ∀ b ∈ strings, ∀ c ∈ strings, ofHashed b = ofHashed c → b = c

end Uuid

namespace OwnersFile

/-- The bytes that the identifiers of the rules of a file are hashes of. -/
def hashedRules (f : OwnersFile) : List ByteArray :=
  f.rules.zipIdx.map fun r => (rulesetId f).hashed (r.1.serializeAt r.2)

/-- The identifiers follow from these bytes alone. -/
theorem map_snd_ruleIds (f : OwnersFile) :
    f.ruleIds.map Prod.snd = f.hashedRules.map Uuid.ofHashed := by
  rw [ruleIds, hashedRules, List.map_map, List.map_map]
  rfl

/-- **No two rules of a file are hashed alike**, since no two stand at one position. -/
theorem nodup_hashedRules (f : OwnersFile) : f.hashedRules.Nodup := by
  have hindex : f.rules.zipIdx.Pairwise fun r s => r.2 ≠ s.2 :=
    List.pairwise_map.mp (List.nodup_zipIdx_map_snd f.rules)
  refine List.pairwise_map.mpr (hindex.imp fun hne heq => hne ?_)
  exact (Rule.serializeAt_eq_iff.mp (Uuid.hashed_eq_iff.mp heq)).2

/-- **When the identifiers of the rules differ.** -/
theorem nodup_ruleIds_iff (f : OwnersFile) :
    (f.ruleIds.map Prod.snd).Nodup ↔ Uuid.CollisionFree f.hashedRules := by
  rw [map_snd_ruleIds, List.nodup_map_iff_inj_on f.nodup_hashedRules]
  rfl

end OwnersFile

/-! ## 3. All of it -/

/-- **A rule and its position are told from what is hashed**, in any name space.  So the rules of a
file are hashed as so many different byte strings, and their identifiers are as many if the hash has
no collision among these, and only then. -/
theorem Rule.hashed_at_position :
    (∀ (ruleset : Uuid) (r s : Rule) (i j : Nat),
      ruleset.hashed (r.serializeAt i) = ruleset.hashed (s.serializeAt j) ↔
        r.serialize = s.serialize ∧ i = j) ∧
    ∀ f : OwnersFile, f.hashedRules.Nodup ∧
      ((f.ruleIds.map Prod.snd).Nodup ↔ Uuid.CollisionFree f.hashedRules) :=
  ⟨fun _ _ _ _ _ => Uuid.hashed_eq_iff.trans Rule.serializeAt_eq_iff,
    fun f => ⟨f.nodup_hashedRules, f.nodup_ruleIds_iff⟩⟩

end Ownership
