/-
# Owners are told apart by their names

A review names each reviewer once, and a directory knows names; neither looks at the words that
stand in the file.  That loses nothing of a well-formed owner, because the word can be made from the
name again (`Owner.spelling`).  A name that holds the sign is an email address and is the word
itself; any other is what stands behind the sign of a user or a team.

A word of no known form is its own name and may look like a handle without the sign, so that it
shares the name of a user.  It is for well-formed owners alone that names tell owners apart.

* `Owner.spelling_name`: the word of a well-formed owner from its name;
* `Owner.name_eq_name_iff`: so the name tells the owner;
* `Directory.knows_name_iff`: which names a directory must list to know an owner;
* `Owner.told_by_name`: both, with what they mean for checks and reviews.
-/
import Mathlib.Data.List.Nodup
import Mathlib.Data.List.Perm.Subperm
import Ownership.Proofs.Auditor.Masking
import Ownership.Proofs.Listing

namespace Ownership

namespace Owner

/-! ## 1. From the name back to the word -/

theorem isValid_iff {o : Owner} :
    o.isValid = true ↔ (o.kind = .user ∨ o.kind = .team) ∨ o.kind = .email := by
  rw [isValid]
  cases o.kind <;> decide

/-- The word of the well-formed owner of a name. -/
def spelling (name : String) : String :=
  if handleSign ∈ name.toList then name else "@" ++ name

/-- An email address is its own name. -/
theorem name_of_email {raw : String} (h : (ofText raw).kind = .email) : (ofText raw).name = raw :=
  name_of_not_handle fun hhandle => by
    rw [h] at hhandle
    rcases hhandle with hkind | hkind <;> cases hkind

/-- **The word of a well-formed owner follows from its name.** -/
theorem spelling_name {raw : String} (h : (ofText raw).isValid = true) :
    spelling (ofText raw).name = raw := by
  rcases isValid_iff.mp h with hhandle | hemail
  · obtain ⟨handle, hraw, hsign, hname⟩ := exists_handle hhandle
    rw [hname, spelling, if_neg hsign, hraw]
  · obtain ⟨user, domain, hcs, -, -⟩ := exists_of_classify_eq_email hemail
    have hsign : handleSign ∈ raw.toList := by
      rw [hcs]
      exact List.mem_append_right user List.mem_cons_self
    rw [name_of_email hemail, spelling, if_pos hsign]

/-- **The name of a well-formed owner tells the owner.** -/
theorem name_eq_name_iff {x y : String} (hx : (ofText x).isValid = true)
    (hy : (ofText y).isValid = true) : (ofText x).name = (ofText y).name ↔ x = y := by
  refine ⟨fun h => ?_, fun h => by rw [h]⟩
  rw [← spelling_name hx, h, spelling_name hy]

/-- The name of a well-formed owner does not start with the sign, also where it holds one. -/
theorem head?_name_ne {raw : String} (h : (ofText raw).isValid = true) :
    (ofText raw).name.toList.head? ≠ some handleSign := by
  rcases isValid_iff.mp h with hhandle | hemail
  · obtain ⟨handle, -, hsign, hname⟩ := exists_handle hhandle
    rw [hname]
    exact fun hhead => hsign (List.mem_of_head? hhead)
  · rw [name_of_email hemail]
    intro hhead
    obtain ⟨cs, hcs⟩ := List.head?_eq_some_iff.mp hhead
    have hkind : classify raw.toList = .email := hemail
    rw [hcs, classify_handleSign_cons] at hkind
    exact classifyHandle_ne_email cs hkind

end Owner

/-! ## 2. Directories -/

namespace Directory

variable {names : List String} {raw : String}

/-- **When a directory knows a well-formed owner**: its name is listed, with the sign or without. -/
theorem knows_name_iff (h : (Owner.ofText raw).isValid = true) :
    (ofNames names).knows (Owner.ofText raw).name = true ↔
      (Owner.ofText raw).name ∈ names ∨ "@" ++ (Owner.ofText raw).name ∈ names :=
  knows_ofNames_iff (Owner.head?_name_ne h)

/-- A directory that lists the word of a well-formed owner knows the owner. -/
theorem knows_name_of_mem (h : (Owner.ofText raw).isValid = true) (hmem : raw ∈ names) :
    (ofNames names).knows (Owner.ofText raw).name = true := by
  rw [knows_name_iff h]
  have hraw := Owner.spelling_name h
  unfold Owner.spelling at hraw
  split at hraw
  · exact Or.inl (by rwa [hraw])
  · exact Or.inr (by rwa [hraw])

end Directory

/-- The owners of a file as they are written. -/
def OwnersFile.rawOwners (f : OwnersFile) : List String :=
  f.rules.flatMap fun r => r.owners.map Owner.raw

/-- With the words of all its owners listed, no owner of a rule that is read is unknown. -/
theorem Finding.ofUnknownOwners_eq_nil {names : List String} {r : Rule}
    (hread : ∀ o ∈ r.owners, o = Owner.ofText o.raw) (hmem : ∀ o ∈ r.owners, o.raw ∈ names) :
    ofUnknownOwners (.ofNames names) r = [] := by
  rw [ofUnknownOwners, List.map_eq_nil_iff, List.filter_eq_nil_iff]
  intro o ho hunknown
  rw [Bool.and_eq_true, Bool.not_eq_true', hread o ho] at hunknown
  obtain ⟨hvalid, hunknown⟩ := hunknown
  exact Bool.false_ne_true (hunknown.symm.trans (Directory.knows_name_of_mem hvalid (hmem o ho)))

/-! ## 3. Reviews -/

/-- **No two well-formed owners are merged into one reviewer.** -/
theorem Auditor.subperm_reviewers {a : Auditor} {text : String} {paths : List String}
    {review : Review} (h : (a.review (OwnersFile.ofText text) paths).value = .ok review) :
    ((review.owners.filter Owner.isValid).eraseDups.map Owner.name).Subperm review.reviewers := by
  have hmem : ∀ o ∈ (review.owners.filter Owner.isValid).eraseDups,
      o ∈ review.owners ∧ o.isValid = true := fun o ho =>
    List.mem_filter.mp (List.mem_eraseDups.mp ho)
  have hread : ∀ o ∈ review.owners, o = Owner.ofText o.raw := fun o => eq_ofText_of_mem_owners h
  refine List.Nodup.subperm (List.Nodup.map_on (fun o ho p hp heq => ?_) (nodup_eraseDups _)) ?_
  · obtain ⟨ho, hovalid⟩ := hmem o ho
    obtain ⟨hp, hpvalid⟩ := hmem p hp
    rw [hread o ho] at hovalid heq
    rw [hread p hp] at hpvalid heq
    rw [hread o ho, hread p hp, (Owner.name_eq_name_iff hovalid hpvalid).mp heq]
  · intro name hname
    obtain ⟨o, ho, rfl⟩ := List.mem_map.mp hname
    obtain ⟨rs, -, rfl⟩ := review_eq_ok_iff.mp h
    rw [reviewers_ofResolutions, List.mem_eraseDups]
    exact List.mem_map_of_mem (hmem o ho).1

namespace Owner

/-! ## 4. All of it -/

/-- **Names tell well-formed owners apart.**  A directory knows such an owner exactly if it lists the
name, with the sign or without it.  So nothing in a file is unknown to the directory of its own
owners, and the different well-formed owners that a review is about are as many reviewers. -/
theorem told_by_name :
    (∀ x y : String, (ofText x).isValid = true → (ofText y).isValid = true →
      ((ofText x).name = (ofText y).name ↔ x = y)) ∧
    (∀ (names : List String) (x : String), (ofText x).isValid = true →
      ((Directory.ofNames names).knows (ofText x).name = true ↔
        (ofText x).name ∈ names ∨ "@" ++ (ofText x).name ∈ names)) ∧
    (∀ text : String, ∀ r ∈ (OwnersFile.ofText text).rules,
      Finding.ofUnknownOwners (.ofNames (OwnersFile.ofText text).rawOwners) r = []) ∧
    ∀ (a : Auditor) (text : String) (paths : List String) (review : Review),
      (a.review (OwnersFile.ofText text) paths).value = .ok review →
        ((review.owners.filter isValid).eraseDups.map name).Subperm review.reviewers := by
  refine ⟨fun x y => name_eq_name_iff, fun names x => Directory.knows_name_iff,
    fun text r hr => ?_, fun a text paths review => Auditor.subperm_reviewers⟩
  obtain ⟨n, hform⟩ := exists_wellFormed_of_mem_rules hr
  refine Finding.ofUnknownOwners_eq_nil hform.owner_eq fun o ho => ?_
  exact List.mem_flatMap.mpr ⟨r, hr, List.mem_map_of_mem ho⟩

/-- A team and an email address, behind a word of no known form that has the name of the team: three
owners, of which the two that are well formed are two reviewers. -/
theorem told_by_name_of_team_and_address :
    (ofText "@o/t").name ≠ (ofText "o@t.u").name ∧
      (Directory.ofNames ["@o/t", "o@t.u"]).knows (ofText "o@t.u").name = true ∧
      Finding.ofUnknownOwners (.ofNames (OwnersFile.ofText "docs o/t @o/t o@t.u").rawOwners)
        ⟨1, "docs", [ofText "o/t", ofText "@o/t", ofText "o@t.u"]⟩ = [] ∧
      ∃ review, ((Auditor.mk .standard none none "").review
          (OwnersFile.ofText "docs o/t @o/t o@t.u") ["docs"]).value = .ok review ∧
        review.owners.length = 3 ∧ ["o/t", "o@t.u"].Subperm review.reviewers := by
  obtain ⟨hname, hknows, hunknown, hreview⟩ := told_by_name
  have hteam : (ofText "@o/t").isValid = true := by decide
  have haddress : (ofText "o@t.u").isValid = true := by decide
  have hvalue : ((Auditor.mk .standard none none "").review
      (OwnersFile.ofText "docs o/t @o/t o@t.u") ["docs"]).value =
        .ok ⟨["o/t", "o@t.u"], [], [⟨⟨"docs"⟩,
          some ⟨1, "docs", [ofText "o/t", ofText "@o/t", ofText "o@t.u"]⟩, [1]⟩]⟩ := by
    decide +kernel
  refine ⟨fun heq => absurd ((hname _ _ hteam haddress).mp heq) (by decide),
    (hknows _ _ haddress).mpr (by decide), hunknown _ _ (by decide), _, hvalue, rfl, ?_⟩
  exact hreview _ _ _ _ hvalue

end Owner

end Ownership
