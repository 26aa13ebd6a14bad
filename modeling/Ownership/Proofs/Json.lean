/-
# The members of an object

What is found under a key after the members have been changed.  Each change is described by one
equation on `Members.get?`, so that no later proof looks into the list of members.

Where two changes follow one another, the members themselves are compared, with their order: a
change that is repeated, and changes under two keys.

* `Members.get?_set`, `Members.get?_setNew`, `Members.get?_setAll`: members that are set;
* `Members.get?_erase`, `Members.get?_update`: members that are taken out or changed;
* `Members.set_set`, `Members.erase_erase`, `Members.update_update`: the same key again;
* `Members.erase_set`, `Members.update_set`, `Members.update_erase`: another key;
* `Json.at?`: what stands at a place inside a value, `Json.mapText` and `Json.at?_mapText`: where a
  change of texts is seen.
-/
import Mathlib.Data.List.Basic
import Ownership.Json

namespace Ownership.Members

variable {ms more : Members} {key k k' : String} {v w : Json} {f g : Json → Json}

theorem get?_nil : get? [] key = none := rfl

theorem get?_cons : get? ((k, v) :: ms) key = if k = key then some v else ms.get? key := by
  rw [get?, List.lookup_cons]
  by_cases h : k = key
  · rw [if_pos h, h, beq_self_eq_true]
  · rw [if_neg h, beq_eq_false_iff_ne.mpr (Ne.symm h)]
    rfl

theorem get?_append : get? (ms ++ more) key = (ms.get? key).or (more.get? key) := by
  induction ms with
  | nil => rw [List.nil_append, get?_nil, Option.none_or]
  | cons m ms ih =>
    obtain ⟨k, v⟩ := m
    rw [List.cons_append, get?_cons, get?_cons, ih]
    split <;> rfl

theorem get?_eq_none_of_not_mem (h : key ∉ ms.map Prod.fst) : ms.get? key = none := by
  induction ms with
  | nil => rfl
  | cons m ms ih =>
    obtain ⟨k, v⟩ := m
    rw [List.map_cons, List.mem_cons, not_or] at h
    rw [get?_cons, if_neg (Ne.symm h.1), ih h.2]

/-! ## 1. Setting members -/

theorem set_cons :
    set ((k', w) :: ms) k v = if k' = k then (k', v) :: ms else (k', w) :: ms.set k v := rfl

theorem get?_set : (ms.set k v).get? key = if k = key then some v else ms.get? key := by
  induction ms with
  | nil => rw [set, get?_cons]
  | cons m ms ih =>
    obtain ⟨k', w⟩ := m
    rw [set_cons]
    split
    · rename_i hk
      rw [get?_cons, get?_cons, hk]
      split <;> rfl
    · rename_i hk
      rw [get?_cons, get?_cons, ih]
      split
      · rename_i hk'
        rw [if_neg fun h => hk (hk'.trans h.symm)]
      · rfl

theorem get?_setNew :
    (ms.setNew k v).get? key = if k = key then some ((ms.get? key).getD v) else ms.get? key := by
  rw [setNew]
  split
  · rename_i hk
    obtain ⟨w, hw⟩ := Option.isSome_iff_exists.mp hk
    split
    · rename_i heq
      rw [← heq, hw]
      rfl
    · rfl
  · rename_i hk
    rw [get?_set]
    split
    · rename_i heq
      rw [← heq, Option.not_isSome_iff_eq_none.mp hk]
      rfl
    · rfl

/-- **Setting several members**, no two of them under one key. -/
theorem get?_setAll (h : (more.map Prod.fst).Nodup) :
    (ms.setAll more).get? key = (more.get? key).or (ms.get? key) := by
  induction more generalizing ms with
  | nil => rfl
  | cons m more ih =>
    obtain ⟨k, v⟩ := m
    rw [List.map_cons, List.nodup_cons] at h
    have hstep : ms.setAll ((k, v) :: more) = (ms.set k v).setAll more := rfl
    rw [hstep, ih h.2, get?_set, get?_cons]
    split
    · rename_i hk
      rw [get?_eq_none_of_not_mem (hk ▸ h.1)]
      rfl
    · rfl

/-! ## 2. Taking members out and changing them -/

theorem erase_cons :
    erase ((k', w) :: ms) k = if k' = k then ms.erase k else (k', w) :: ms.erase k := by
  rw [erase, List.filter_cons]
  by_cases h : k' = k <;> simp [h, erase]

theorem get?_erase : (ms.erase k).get? key = if k = key then none else ms.get? key := by
  induction ms with
  | nil => exact (ite_self none).symm
  | cons m ms ih =>
    obtain ⟨k', w⟩ := m
    rw [erase_cons, get?_cons]
    split
    · rename_i hk
      rw [ih, hk]
      split <;> rfl
    · rename_i hk
      rw [get?_cons, ih]
      split
      · rename_i heq
        rw [if_neg fun h => hk (heq.trans h.symm)]
      · rfl

theorem update_cons :
    update ((k', w) :: ms) k f = (k', if k' = k then f w else w) :: ms.update k f := by
  rw [update, List.map_cons]
  by_cases h : k' = k <;> simp [h, update]

theorem get?_update : (ms.update k f).get? key =
    if k = key then (ms.get? key).map f else ms.get? key := by
  induction ms with
  | nil => exact (ite_self none).symm
  | cons m ms ih =>
    obtain ⟨k', w⟩ := m
    rw [update_cons, get?_cons, get?_cons, ih]
    by_cases hkey : k' = key
    · subst hkey
      by_cases hk : k = k'
      · simp [hk]
      · simp [hk, Ne.symm hk]
    · simp only [if_neg hkey]

/-! ## 3. One change after another -/

theorem set_set : (ms.set k v).set k w = ms.set k w := by
  induction ms with
  | nil => exact set_cons.trans (if_pos rfl)
  | cons m ms ih =>
    obtain ⟨k', w'⟩ := m
    rw [set_cons, set_cons]
    split
    · rename_i hk
      rw [set_cons, if_pos hk]
    · rename_i hk
      rw [set_cons, if_neg hk, ih]

theorem erase_erase : (ms.erase k).erase k = ms.erase k := by
  simp only [erase, List.filter_filter, Bool.and_self]

theorem update_update : (ms.update k f).update k g = ms.update k (g ∘ f) := by
  induction ms with
  | nil => rfl
  | cons m ms ih =>
    obtain ⟨k', w⟩ := m
    rw [update_cons, update_cons, update_cons, ih]
    split <;> rfl

theorem erase_set (h : k ≠ k') : (ms.set k v).erase k' = (ms.erase k').set k v := by
  induction ms with
  | nil => exact erase_cons.trans (if_neg h)
  | cons m ms ih =>
    obtain ⟨k₀, w⟩ := m
    rw [set_cons, erase_cons]
    by_cases hk : k₀ = k
    · have hk' : ¬ k₀ = k' := hk ▸ h
      rw [if_pos hk, erase_cons, if_neg hk', if_neg hk', set_cons, if_pos hk]
    · rw [if_neg hk, erase_cons, ih]
      split
      · rfl
      · rw [set_cons, if_neg hk]

theorem update_set (h : k ≠ k') : (ms.set k v).update k' f = (ms.update k' f).set k v := by
  induction ms with
  | nil => exact update_cons.trans (by rw [if_neg h]; rfl)
  | cons m ms ih =>
    obtain ⟨k₀, w⟩ := m
    rw [set_cons, update_cons, set_cons]
    by_cases hk : k₀ = k
    · have hk' : ¬ k₀ = k' := hk ▸ h
      rw [if_pos hk, update_cons, if_neg hk', if_pos hk]
    · rw [if_neg hk, if_neg hk, update_cons, ih]

theorem update_erase : (ms.erase k).update k' f = (ms.update k' f).erase k := by
  induction ms with
  | nil => rfl
  | cons m ms ih =>
    obtain ⟨k₀, w⟩ := m
    rw [erase_cons, update_cons, erase_cons, ← ih]
    split
    · rfl
    · rw [update_cons]

end Ownership.Members

namespace Ownership.Json

/-! ## 4. Places -/

/-- One step down into a value: to what an object holds under a key, or to an item of a list. -/
inductive Selector where
  | key (k : String)
  | item (i : Nat)
  deriving DecidableEq, Repr

/-- What stands at a place inside a value, if there is such a place. -/
def at? : Json → List Selector → Option Json
  | v, [] => some v
  | .object ms, .key k :: place => (Members.get? ms k).bind fun v => v.at? place
  | .array vs, .item i :: place => vs[i]?.bind fun v => v.at? place
  | _, _ :: _ => none

/-- A change of texts, which leaves all other values as they are. -/
def mapText (g : String → String) : Json → Json
  | .text s => .text (g s)
  | v => v

variable {f : Json → Json} {place : List Selector}

theorem at?_nil (v : Json) : v.at? [] = some v := by
  unfold at?
  rfl

theorem at?_object_key (ms : Members) (k : String) :
    (object ms).at? (.key k :: place) = (ms.get? k).bind fun v => v.at? place := rfl

theorem at?_array_item (vs : List Json) (i : Nat) :
    (array vs).at? (.item i :: place) = vs[i]?.bind fun v => v.at? place := rfl

/-- A change of texts is seen nowhere inside a value, since nothing stands inside a text. -/
theorem at?_mapText (h : place ≠ []) (g : String → String) (v : Json) :
    (mapText g v).at? place = v.at? place := by
  obtain ⟨s, place, rfl⟩ := List.exists_cons_of_ne_nil h
  cases v with
  | text t =>
    rw [mapText]
    cases s <;> rfl
  | _ => rfl

/-- A change of a value is not seen at a place at which it is not seen in any value. -/
theorem bind_at?_map (h : ∀ v, (f v).at? place = v.at? place) (o : Option Json) :
    ((o.map f).bind fun v => v.at? place) = o.bind fun v => v.at? place := by
  cases o with
  | none => rfl
  | some v => exact h v

end Ownership.Json
