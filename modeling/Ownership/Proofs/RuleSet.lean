/-
# Which rule owns a path

Of the rules that match a path, one owns it: the one of greatest weight, and of several of that
weight the last in the file.  By last match no rule weighs anything, so the position alone decides;
by specificity a rule weighs as much as its pattern has literal characters.  A rule set keeps one
rule while it goes through the matching ones, and this module says where that ends.

The proof goes through the matching rules from the front: with one more rule behind them, the kept
rule stays unless the new one weighs at least as much (`winner_concat`), and the new one has the
greatest position of all.  Both precedences are one case of it.

* `Foremost`: the element of greatest weight, and of several the last;
* `winner_spec`: the rule that is kept is the foremost one;
* `Resolution.IsOutcome`: what a resolution says when certain rules match;
* `resolve_compile`: resolving a path says that of the rules that match it.
-/
import Mathlib.Data.Prod.Lex
import Ownership.RuleSet
import Ownership.Proofs.OwnersFile.Form

namespace Ownership

/-! ## 1. The foremost element of a list -/

/-- `x` has the greatest weight in the list `xs`, and of several that have it, it is the last. -/
def Foremost {α : Type} (weight : α → Nat) (xs : List α) (x : α) : Prop :=
  ∃ i : Nat, xs[i]? = some x ∧
    ∀ (j : Nat) (y : α), xs[j]? = some y → toLex (weight y, j) ≤ toLex (weight x, i)

namespace Foremost

variable {α β : Type} {weight : α → Nat} {xs : List α} {x y : α}

theorem mem (h : Foremost weight xs x) : x ∈ xs := by
  obtain ⟨i, hi, -⟩ := h
  exact List.mem_of_getElem? hi

theorem ne_nil (h : Foremost weight xs x) : xs ≠ [] := List.ne_nil_of_mem h.mem

/-- A list has one foremost element at most, since no two share a position. -/
theorem unique (hx : Foremost weight xs x) (hy : Foremost weight xs y) : x = y := by
  obtain ⟨i, hi, hxle⟩ := hx
  obtain ⟨j, hj, hyle⟩ := hy
  have heq : (weight x, i) = (weight y, j) :=
    toLex.injective (le_antisymm (hyle i x hi) (hxle j y hj))
  have hij : i = j := (Prod.mk.inj heq).2
  subst hij
  exact Option.some.inj (hi.symm.trans hj)

/-- What stands behind the others is foremost if none of them weighs more. -/
theorem concat (h : ∀ y ∈ xs, weight y ≤ weight x) : Foremost weight (xs ++ [x]) x := by
  refine ⟨xs.length, List.getElem?_concat_length, fun j y hy => ?_⟩
  rw [Prod.Lex.toLex_le_toLex']
  rcases Nat.lt_trichotomy j xs.length with hj | rfl | hj
  · rw [List.getElem?_append_left hj] at hy
    exact ⟨h y (List.mem_of_getElem? hy), fun _ => hj.le⟩
  · rw [List.getElem?_concat_length, Option.some.injEq] at hy
    subst hy
    exact ⟨le_rfl, fun _ => le_rfl⟩
  · have hlen : (xs ++ [x]).length ≤ j := by
      rw [List.length_append, List.length_singleton]
      omega
    rw [List.getElem?_eq_none hlen] at hy
    exact absurd hy (Option.some_ne_none y).symm

/-- What was foremost stays so if the one that comes behind weighs less. -/
theorem concat_of_lt (hx : Foremost weight xs x) (h : weight y < weight x) :
    Foremost weight (xs ++ [y]) x := by
  obtain ⟨i, hi, hle⟩ := hx
  have hlt : i < xs.length := (List.getElem?_eq_some_iff.mp hi).1
  refine ⟨i, by rw [List.getElem?_append_left hlt, hi], fun j z hz => ?_⟩
  rcases Nat.lt_or_ge j xs.length with hj | hj
  · rw [List.getElem?_append_left hj] at hz
    exact hle j z hz
  · rw [List.getElem?_append_right hj] at hz
    have hzy : z = y := List.mem_singleton.mp (List.mem_of_getElem? hz)
    rw [hzy, Prod.Lex.toLex_le_toLex]
    exact Or.inl h

/-- Nothing weighs more than the foremost element. -/
theorem weight_le (hx : Foremost weight xs x) (hy : y ∈ xs) : weight y ≤ weight x := by
  obtain ⟨i, -, hle⟩ := hx
  obtain ⟨j, hj⟩ := List.mem_iff_getElem?.mp hy
  exact (Prod.Lex.toLex_le_toLex'.mp (hle j y hj)).1

/-- The image of the foremost element is foremost among the images. -/
theorem map {f : α → β} {weight' : β → Nat} (hw : ∀ z ∈ xs, weight' (f z) = weight z)
    (hx : Foremost weight xs x) : Foremost weight' (xs.map f) (f x) := by
  obtain ⟨i, hi, hle⟩ := hx
  refine ⟨i, by rw [List.getElem?_map, hi, Option.map_some], fun j z hz => ?_⟩
  rw [List.getElem?_map, Option.map_eq_some_iff] at hz
  obtain ⟨y, hy, rfl⟩ := hz
  rw [hw y (List.mem_of_getElem? hy), hw x (List.mem_of_getElem? hi)]
  exact hle j y hy

end Foremost

/-! ## 2. What a resolution says -/

/-- Whether a rule matches a path: its pattern is a glob that covers it. -/
def Rule.covers (r : Rule) (path : String) : Bool :=
  match Glob.ofText r.pattern with
  | .ok g => g.covers path
  | .error _ => false

/-- The rules of a file that match a path, in file order. -/
def OwnersFile.matchingRules (f : OwnersFile) (path : String) : List Rule :=
  f.rules.filter fun r => r.covers path

/-- What counts before the position: by last match nothing, by specificity the number of characters
of the pattern that are no star, question mark or slash. -/
def Precedence.weight : Precedence → Rule → Nat
  | .lastMatch, _ => 0
  | .mostSpecific, r => r.pattern.toList.countP fun c => c ≠ '*' ∧ c ≠ '?' ∧ c ≠ '/'

/-- What a resolution says when `ms` are the rules that match: their lines, which ascend, the
foremost of them, and no owner if there is none or the foremost names none. -/
structure Resolution.IsOutcome (p : Precedence) (ms : List Rule) (res : Resolution) : Prop where
  matchedLines_eq : res.matchedLines = ms.map Rule.line
  ascending : res.matchedLines.Pairwise (· < ·)
  rule_eq_none_iff : res.rule = none ↔ ms = []
  rule_eq_some_iff : ∀ r, res.rule = some r ↔ Foremost p.weight ms r
  isUnowned_iff : res.isUnowned = true ↔ ms = [] ∨ ∃ r, res.rule = some r ∧ r.owners = []

namespace RuleSet

/-! ## 3. The rule that is kept -/

/-- The weight of a rule whose pattern has been read. -/
def readWeight : Precedence → ReadRule → Nat
  | .lastMatch, _ => 0
  | .mostSpecific, m => m.glob.specificity

/-- **One more rule**: it is kept if it weighs at least as much as the one kept so far. -/
theorem winner_concat (p : Precedence) (ms : List ReadRule) (m : ReadRule) :
    winner p (ms ++ [m]) =
      match winner p ms with
      | none => some m
      | some b => if readWeight p b ≤ readWeight p m then some m else some b := by
  cases p with
  | lastMatch =>
    rw [winner, List.getLast?_concat]
    cases winner .lastMatch ms <;> rfl
  | mostSpecific =>
    rw [winner, List.foldl_concat]
    rfl

/-- **The rule that is kept is the foremost one**, and one is kept if there is any. -/
theorem winner_spec (p : Precedence) (ms : List ReadRule) :
    (winner p ms = none ∧ ms = []) ∨
      ∃ m, winner p ms = some m ∧ Foremost (readWeight p) ms m := by
  -- The rules are gone through from the front, so the induction adds one behind the others.
  induction ms using List.reverseRecOn with
  | nil => cases p <;> exact Or.inl ⟨rfl, rfl⟩
  | append_singleton ms m ih =>
    right
    rw [winner_concat]
    rcases ih with ⟨hnone, rfl⟩ | ⟨b, hb, hbest⟩
    · exact ⟨m, by rw [hnone], Foremost.concat (by simp)⟩
    · simp only [hb]
      by_cases hle : readWeight p b ≤ readWeight p m
      · refine ⟨m, if_pos hle, Foremost.concat fun y hy => ?_⟩
        exact (hbest.weight_le hy).trans hle
      · exact ⟨b, if_neg hle, hbest.concat_of_lt (not_le.mp hle)⟩

/-! ## 4. The rules that match -/

theorem read?_eq_some_iff {r : Rule} {m : ReadRule} :
    read? r = some m ↔ m.rule = r ∧ Glob.ofText r.pattern = .ok m.glob := by
  obtain ⟨r', g⟩ := m
  rw [read?]
  cases h : Glob.ofText r.pattern with
  | error e => simp [Except.toOption]
  | ok g' =>
    simp only [Except.toOption, Option.map_some, Option.some.injEq, ReadRule.mk.injEq,
      Except.ok.injEq]
    exact and_congr_left' eq_comm

/-- A matching rule has been read from its own pattern. -/
theorem ofText_of_mem_matching {f : OwnersFile} {p : Precedence} {path : String} {m : ReadRule}
    (h : m ∈ (compile f p).matching path) : Glob.ofText m.rule.pattern = .ok m.glob := by
  have hmem : m ∈ f.rules.filterMap read? := List.mem_of_mem_filter h
  obtain ⟨r, -, hr⟩ := List.mem_filterMap.mp hmem
  obtain ⟨rfl, hg⟩ := read?_eq_some_iff.mp hr
  exact hg

/-- So it weighs as much as its pattern says. -/
theorem weight_rule {p : Precedence} {m : ReadRule}
    (h : Glob.ofText m.rule.pattern = .ok m.glob) : p.weight m.rule = readWeight p m := by
  obtain ⟨-, hglob⟩ := Glob.ofText_eq_ok_iff.mp h
  cases p with
  | lastMatch => rfl
  | mostSpecific =>
    rw [Precedence.weight, readWeight, Glob.specificity, hglob]
    refine List.countP_congr fun c _ => ?_
    simp [Glob.isLiteral, and_assoc]

/-- **Choosing among the rules that are read** is choosing among all of them, if the others are left
out. -/
theorem map_rule_filter {rs : List Rule} {keep : ReadRule → Bool} {keepRule : Rule → Bool}
    (hnone : ∀ r ∈ rs, read? r = none → keepRule r = false)
    (hsome : ∀ r ∈ rs, ∀ m, read? r = some m → keepRule r = keep m) :
    ((rs.filterMap read?).filter keep).map ReadRule.rule = rs.filter keepRule := by
  rw [List.filter_filterMap, List.map_filterMap, ← List.filterMap_eq_filter]
  refine List.filterMap_congr fun r hr => ?_
  rw [Option.guard_apply]
  cases hread : read? r with
  | none =>
    rw [hnone r hr hread]
    rfl
  | some m =>
    obtain ⟨rfl, -⟩ := read?_eq_some_iff.mp hread
    rw [hsome m.rule hr m hread]
    cases hkeep : keep m <;> simp [hkeep]

theorem ofText_of_read?_eq_none {r : Rule} (h : read? r = none) :
    ∃ e, Glob.ofText r.pattern = .error e := by
  rw [read?] at h
  cases hglob : Glob.ofText r.pattern with
  | error e => exact ⟨e, rfl⟩
  | ok g => simp [hglob, Except.toOption] at h

/-- **The matching rules of a rule set** are those of the file, whatever the precedence. -/
theorem map_rule_matching (f : OwnersFile) (p : Precedence) (path : String) :
    ((compile f p).matching path).map ReadRule.rule = f.matchingRules path := by
  refine map_rule_filter (fun r _ hread => ?_) fun r _ m hread => ?_
  · obtain ⟨e, he⟩ := ofText_of_read?_eq_none hread
    rw [Rule.covers, he]
  · obtain ⟨-, hglob⟩ := read?_eq_some_iff.mp hread
    rw [Rule.covers, hglob]

/-! ## 5. Resolving a path -/

/-- The rule that owns a path is the foremost of those that match it. -/
theorem ownerRule?_spec (f : OwnersFile) (p : Precedence) (path : String) :
    ((compile f p).ownerRule? path = none ∧ f.matchingRules path = []) ∨
      ∃ r, (compile f p).ownerRule? path = some r ∧
        Foremost p.weight (f.matchingRules path) r := by
  have howner : (compile f p).ownerRule? path =
      (winner p ((compile f p).matching path)).map ReadRule.rule := rfl
  rw [howner, ← map_rule_matching f p path]
  rcases winner_spec p ((compile f p).matching path) with ⟨hnone, hnil⟩ | ⟨m, hm, hbest⟩
  · exact Or.inl ⟨by rw [hnone, Option.map_none], by rw [hnil, List.map_nil]⟩
  · refine Or.inr ⟨m.rule, by rw [hm, Option.map_some], hbest.map fun z hz => ?_⟩
    exact weight_rule (ofText_of_mem_matching hz)

theorem ownerRule?_eq_none_iff {f : OwnersFile} {p : Precedence} {path : String} :
    (compile f p).ownerRule? path = none ↔ f.matchingRules path = [] := by
  rcases ownerRule?_spec f p path with ⟨hnone, hnil⟩ | ⟨r, hr, hbest⟩
  · exact iff_of_true hnone hnil
  · exact iff_of_false (by simp [hr]) (hbest.ne_nil)

theorem ownerRule?_eq_some_iff {f : OwnersFile} {p : Precedence} {path : String} {r : Rule} :
    (compile f p).ownerRule? path = some r ↔ Foremost p.weight (f.matchingRules path) r := by
  rcases ownerRule?_spec f p path with ⟨hnone, hnil⟩ | ⟨b, hb, hbest⟩
  · refine iff_of_false (by simp [hnone]) fun h => ?_
    exact h.ne_nil hnil
  · rw [hb, Option.some.injEq]
    constructor
    · rintro rfl
      exact hbest
    · exact fun h => hbest.unique h

/-- The rule that owns a path stands in the file. -/
theorem mem_rules_of_resolve {f : OwnersFile} {p : Precedence} {path : RepoPath} {r : Rule}
    (h : ((compile f p).resolve path).rule = some r) : r ∈ f.rules :=
  List.mem_of_mem_filter (ownerRule?_eq_some_iff.mp h).mem

theorem matchedLines_resolve (f : OwnersFile) (p : Precedence) (path : RepoPath) :
    ((compile f p).resolve path).matchedLines = (f.matchingRules path.text).map Rule.line := by
  rw [← map_rule_matching f p path.text, List.map_map]
  rfl

theorem isUnowned_iff {res : Resolution} :
    res.isUnowned = true ↔ res.rule = none ∨ ∃ r, res.rule = some r ∧ r.owners = [] := by
  rw [Resolution.isUnowned]
  cases res.rule with
  | none => simp
  | some r => simp

/-- **A path is resolved to the foremost of the rules that match it**, and which rules match does
not depend on the precedence. -/
theorem resolve_compile (text : String) (path : RepoPath) :
    (∀ p : Precedence, ((compile (OwnersFile.ofText text) p).resolve path).IsOutcome p
      ((OwnersFile.ofText text).matchingRules path.text)) ∧
    ∀ p q : Precedence,
      ((compile (OwnersFile.ofText text) p).resolve path).matchedLines =
        ((compile (OwnersFile.ofText text) q).resolve path).matchedLines ∧
      ((compile (OwnersFile.ofText text) p).resolve path).rule.isSome =
        ((compile (OwnersFile.ofText text) q).resolve path).rule.isSome := by
  have hrule : ∀ p : Precedence, ((compile (OwnersFile.ofText text) p).resolve path).rule =
      (compile (OwnersFile.ofText text) p).ownerRule? path.text := fun _ => rfl
  refine ⟨fun p => ⟨matchedLines_resolve _ p path, ?_, ?_, fun r => ?_, ?_⟩, fun p q => ⟨?_, ?_⟩⟩
  · rw [matchedLines_resolve]
    exact (pairwise_line_lt text).sublist (List.filter_sublist.map Rule.line)
  · rw [hrule, ownerRule?_eq_none_iff]
  · rw [hrule, ownerRule?_eq_some_iff]
  · rw [isUnowned_iff, hrule, ownerRule?_eq_none_iff]
  · rw [matchedLines_resolve, matchedLines_resolve]
  · rw [Bool.eq_iff_iff, Option.isSome_iff_ne_none, Option.isSome_iff_ne_none, hrule, hrule, ne_eq,
      ne_eq, ownerRule?_eq_none_iff, ownerRule?_eq_none_iff]

end RuleSet

end Ownership
