/-
# The names of owners

A user or a team is a handle behind one sign, and no handle holds that sign.  So what is left when
the sign is dropped is a name without it: a directory that drops one sign from each name on its list
knows the owner if the list has the name, with the sign or without.  An email address has the sign
inside, once, and is its own name.  So a name is an address exactly if the owner is one.

* `exists_of_isEmail`: an email address holds the sign once;
* `Owner.exists_handle`: users and teams are the sign and a handle;
* `Owner.kind_ofText_name_eq_email_iff`: a name is an address if the owner is one;
* `Directory.knows_ofNames_iff`: what a directory knows.
-/
import Ownership.Directory
import Ownership.Proofs.Text

namespace Ownership

open Text

/-! ## 1. Email addresses -/

/-- An email address holds the sign once. -/
theorem exists_of_isEmail {cs : List Char} (h : isEmail cs = true) :
    ∃ user domain, cs = user ++ handleSign :: domain ∧ handleSign ∉ user ∧
      handleSign ∉ domain := by
  unfold isEmail at h
  split at h
  · cases h
  · rename_i user domain hcut
    obtain ⟨rfl, huser⟩ := cutAt_eq_some_iff.mp hcut
    simp only [Bool.and_eq_true, Bool.not_eq_true', List.contains_eq_mem,
      decide_eq_false_iff_not] at h
    exact ⟨user, domain, rfl, huser, h.1.1.1.1.2⟩

/-! ## 2. Handles -/

/-- No handle holds the sign. -/
theorem handleSign_not_mem_of_isHandle {cs : List Char} (h : isHandle cs = true) :
    handleSign ∉ cs := by
  rw [isHandle, Bool.and_eq_true, List.all_eq_true] at h
  exact fun hmem => absurd (h.2 _ hmem) (by decide)

/-- What stands behind the sign of a user or a team holds no other sign. -/
theorem handleSign_not_mem_of_classifyHandle {cs : List Char}
    (h : classifyHandle cs ≠ .invalid) : handleSign ∉ cs := by
  unfold classifyHandle at h
  split at h
  · rename_i org team hcut
    obtain ⟨rfl, -⟩ := cutAt_eq_some_iff.mp hcut
    split at h
    · rename_i hboth
      obtain ⟨horg, hteam⟩ := Bool.and_eq_true_iff.mp hboth
      intro hmem
      rcases List.mem_append.mp hmem with hmem | hmem
      · exact handleSign_not_mem_of_isHandle horg hmem
      · rcases List.mem_cons.mp hmem with hslash | hmem
        · exact absurd hslash (by decide)
        · exact handleSign_not_mem_of_isHandle hteam hmem
    · exact absurd rfl h
  · split at h
    · rename_i hhandle
      exact handleSign_not_mem_of_isHandle hhandle
    · exact absurd rfl h

theorem classifyHandle_ne_email (cs : List Char) : classifyHandle cs ≠ .email := by
  unfold classifyHandle
  split <;> split <;> exact OwnerKind.noConfusion

/-! ## 3. The forms of words -/

theorem classify_handleSign_cons (cs : List Char) :
    classify (handleSign :: cs) = classifyHandle cs := by
  rw [classify, if_pos rfl]

theorem classify_cons_of_ne {c : Char} (h : c ≠ handleSign) (cs : List Char) :
    classify (c :: cs) = if isEmail (c :: cs) then .email else .invalid := by
  rw [classify, if_neg h]

/-- **A word that is an email address holds the sign once.** -/
theorem exists_of_classify_eq_email {cs : List Char} (h : classify cs = .email) :
    ∃ user domain, cs = user ++ handleSign :: domain ∧ handleSign ∉ user ∧
      handleSign ∉ domain := by
  cases cs with
  | nil => cases h
  | cons c cs =>
    by_cases hc : c = handleSign
    · rw [hc, classify_handleSign_cons] at h
      exact absurd h (classifyHandle_ne_email cs)
    · rw [classify_cons_of_ne hc] at h
      split at h
      · exact exists_of_isEmail ‹_›
      · cases h

/-- **A word that is a user or a team** is the sign, and behind it no other. -/
theorem exists_of_classify_eq_handle {cs : List Char}
    (h : classify cs = .user ∨ classify cs = .team) :
    ∃ handle, cs = handleSign :: handle ∧ handleSign ∉ handle := by
  cases cs with
  | nil => rcases h with h | h <;> cases h
  | cons c cs =>
    by_cases hc : c = handleSign
    · rw [hc, classify_handleSign_cons] at h
      refine ⟨cs, by rw [hc], handleSign_not_mem_of_classifyHandle fun hinvalid => ?_⟩
      rw [hinvalid] at h
      rcases h with h | h <;> cases h
    · rw [classify_cons_of_ne hc] at h
      split at h <;> rcases h with h | h <;> cases h

theorem classify_ne_email {cs : List Char} (h : handleSign ∉ cs) : classify cs ≠ .email := by
  intro hemail
  obtain ⟨user, domain, rfl, -, -⟩ := exists_of_classify_eq_email hemail
  exact h (by simp)

/-! ## 4. Names -/

theorem eq_append_of_toList_eq_cons {s : String} {cs : List Char}
    (h : s.toList = handleSign :: cs) : s = "@" ++ String.ofList cs := by
  rw [← String.toList_inj, h]
  simp only [String.toList_append, String.toList_ofList]
  rfl

/-- Dropping the sign undoes putting it in front. -/
theorem dropHandleSign_append (s : String) : dropHandleSign ("@" ++ s) = s := by
  have hcons : ("@" ++ s).toList = handleSign :: s.toList := by
    rw [String.toList_append]
    rfl
  simp only [dropHandleSign, hcons, if_true, String.ofList_toList]

theorem dropHandleSign_eq_self {s : String} (h : s.toList.head? ≠ some handleSign) :
    dropHandleSign s = s := by
  unfold dropHandleSign
  split
  · rfl
  · rename_i c cs hcs
    rw [hcs, List.head?_cons, ne_eq, Option.some.injEq] at h
    exact if_neg h

/-- A text is left as it is, or the sign stood in front of what is left. -/
theorem eq_or_eq_append_of_dropHandleSign {s name : String} (h : dropHandleSign s = name) :
    s = name ∨ s = "@" ++ name := by
  by_cases hhead : s.toList.head? = some handleSign
  · right
    obtain ⟨cs, hcs⟩ := List.head?_eq_some_iff.mp hhead
    have hs := eq_append_of_toList_eq_cons hcs
    rw [hs, dropHandleSign_append] at h
    rw [hs, h]
  · exact Or.inl (by rw [← h, dropHandleSign_eq_self hhead])

namespace Owner

theorem name_of_handle {o : Owner} (h : o.kind = .user ∨ o.kind = .team) :
    o.name = dropHandleSign o.raw := by
  unfold name
  rcases h with h | h <;> rw [h]

theorem name_of_not_handle {o : Owner} (h : ¬ (o.kind = .user ∨ o.kind = .team)) :
    o.name = o.raw := by
  unfold name
  split
  · exact absurd (Or.inl ‹_›) h
  · exact absurd (Or.inr ‹_›) h
  all_goals rfl

/-- **The name of a user or a team** is what stands behind the sign, and holds no other. -/
theorem exists_handle {raw : String}
    (h : (ofText raw).kind = .user ∨ (ofText raw).kind = .team) :
    ∃ handle, raw = "@" ++ handle ∧ handleSign ∉ handle.toList ∧ (ofText raw).name = handle := by
  obtain ⟨cs, hcs, hsign⟩ := exists_of_classify_eq_handle h
  have hraw := eq_append_of_toList_eq_cons hcs
  refine ⟨String.ofList cs, hraw, by rwa [String.toList_ofList], ?_⟩
  rw [name_of_handle h, ofText, hraw, dropHandleSign_append]

/-- **A name is an address exactly if the owner is one.** -/
theorem kind_ofText_name_eq_email_iff (raw : String) :
    (ofText (ofText raw).name).kind = .email ↔ (ofText raw).kind = .email := by
  by_cases h : (ofText raw).kind = .user ∨ (ofText raw).kind = .team
  · obtain ⟨handle, -, hsign, hname⟩ := exists_handle h
    refine iff_of_false (hname ▸ classify_ne_email hsign) fun hemail => ?_
    rw [hemail] at h
    rcases h with h | h <;> cases h
  · rw [name_of_not_handle h]
    rfl

end Owner

/-! ## 5. Directories -/

/-- **What a directory knows**: the names on its list, with the sign or without it. -/
theorem Directory.knows_ofNames_iff {names : List String} {name : String}
    (h : name.toList.head? ≠ some handleSign) :
    (ofNames names).knows name = true ↔ name ∈ names ∨ "@" ++ name ∈ names := by
  have hknows : (ofNames names).knows name = true ↔ ∃ s ∈ names, dropHandleSign s = name :=
    List.contains_iff_mem.trans List.mem_map
  rw [hknows]
  constructor
  · rintro ⟨s, hs, hname⟩
    rcases eq_or_eq_append_of_dropHandleSign hname with rfl | rfl
    · exact Or.inl hs
    · exact Or.inr hs
  · rintro (hmem | hmem)
    · exact ⟨name, hmem, dropHandleSign_eq_self h⟩
    · exact ⟨"@" ++ name, hmem, dropHandleSign_append name⟩

end Ownership
