/-
# Reports that are written alike

A report in YAML loses nothing of its rows: two reports are written alike only if their rows are the
same, whatever texts stand in them.  A text that looks like a key, like another row or like a value
of another type is quoted or indented so that it stays a text (`Yaml.tells_written`), and where a
row lacks a value, the key is not written at all, which an empty text does not look like.

A row is told by its entries.  A key is told from its value by the colon, which no key holds, and
says whether the value is a number or a text; the value is told as such.  Behind a row either the
next one starts, with a dash, or nothing stands.

* `tells_digits`: numbers;
* `tells_entryToYaml`, `Row.tells_toYaml`: entries and rows;
* `Row.entries_injective`: the entries of a row;
* `Report.toYaml_eq_iff`: whole reports.
-/
import Ownership.Proofs.Yaml.Written
import Ownership.Report.Yaml

namespace Ownership

open Yaml (Below)

/-! ## 1. Entries -/

/-- **A number is told by its digits**, up to the end of the line. -/
theorem tells_digits : Tells (fun _ _ => True) fun n => Nat.toDigits 10 n ++ ['\n'] := by
  intro n rest _ m rest' _ h
  rw [List.append_assoc, List.append_assoc] at h
  have hnewline := Text.not_mem_toDigits (c := '\n') (by decide)
  obtain ⟨hdigits, hrest⟩ := Text.append_cons_inj (hnewline n) (hnewline m) h
  exact ⟨Text.toDigits_injective hdigits, hrest⟩

/-- The key of an entry of a row has no colon and does not start with a space, and says whether the
value is a number. -/
structure IsRowEntry (e : String × RowValue) : Prop where
  no_colon : ':' ∉ e.1.toList
  starts : e.1.toList.head?.any (· != ' ') = true
  number_iff : (∃ n, e.2 = .number n) ↔ e.1 = "line"

theorem isRowEntry_of_mem_entries {r : Row} {e : String × RowValue} (h : e ∈ r.entries) :
    IsRowEntry e := by
  have htext : ∀ {key : String} (s : String), ':' ∉ key.toList →
      key.toList.head?.any (· != ' ') = true → key ≠ "line" → IsRowEntry (key, .text s) :=
    fun s hcolon hstarts hline =>
      ⟨hcolon, hstarts, iff_of_false (fun ⟨_, hn⟩ => by cases hn) hline⟩
  have hline : IsRowEntry ("line", .number r.line) := by
    have hkey : ':' ∉ "line".toList ∧ "line".toList.head?.any (· != ' ') = true := by decide
    exact ⟨hkey.1, hkey.2, iff_of_true ⟨_, rfl⟩ rfl⟩
  simp only [Row.entries, List.mem_append, List.mem_cons, List.not_mem_nil, or_false,
    Option.mem_toList, Option.map_eq_some_iff] at h
  obtain (((((rfl | rfl | rfl) | ⟨s, -, rfl⟩) | ⟨s, -, rfl⟩) | ⟨s, -, rfl⟩) | rfl) := h
  case inl.inl.inl.inl.inr.inr => exact hline
  all_goals exact htext _ (by decide) (by decide) (by decide)

/-- **A value is told** among the values of one key. -/
theorem RowValue.eq_of_toYaml_append_eq {v w : RowValue} {rest rest' : List Char}
    (hkind : (∃ n, v = .number n) ↔ ∃ n, w = .number n) (hrest : Below rowValueIndent rest)
    (hrest' : Below rowValueIndent rest') (h : v.toYaml ++ rest = w.toYaml ++ rest') :
    v = w ∧ rest = rest' := by
  cases v with
  | text s =>
    cases w with
    | text t =>
      obtain ⟨htext, hrest⟩ := Yaml.tells_written hrest hrest' h
      exact ⟨congrArg RowValue.text (String.toList_inj.mp htext), hrest⟩
    | number m =>
      obtain ⟨n, hn⟩ := hkind.mpr ⟨m, rfl⟩
      cases hn
  | number n =>
    obtain ⟨m, rfl⟩ := hkind.mp ⟨n, rfl⟩
    obtain ⟨rfl, hrest⟩ := tells_digits trivial trivial h
    exact ⟨rfl, hrest⟩

/-- **An entry is told**, if no indented line follows. -/
theorem tells_entryToYaml :
    Tells (fun e rest => IsRowEntry e ∧ Below rowValueIndent rest) entryToYaml := by
  rintro ⟨key, v⟩ rest ⟨he, hrest⟩ ⟨key', w⟩ rest' ⟨he', hrest'⟩ h
  have hentry : ∀ e rest,
      entryToYaml e ++ rest = e.1.toList ++ ':' :: ' ' :: (e.2.toYaml ++ rest) :=
    fun e rest => by simp [entryToYaml]
  rw [hentry, hentry] at h
  obtain ⟨hkey, hvalue⟩ := Text.append_cons_inj he.no_colon he'.no_colon h
  obtain rfl := String.toList_inj.mp hkey
  obtain ⟨rfl, hrest⟩ := RowValue.eq_of_toYaml_append_eq (he.number_iff.trans he'.number_iff.symm)
    hrest hrest' (List.cons.inj hvalue).2
  exact ⟨rfl, hrest⟩

/-! ## 2. Rows -/

/-- What follows a row: the next one, or nothing. -/
def FollowsRow (rest : List Char) : Prop := rest = [] ∨ rest.head? = some '-'

theorem FollowsRow.below {rest : List Char} (h : FollowsRow rest) : Below rowValueIndent rest := by
  rcases h with rfl | h
  · exact ⟨fun _ hc => absurd hc (Option.some_ne_none _).symm, by decide⟩
  · obtain ⟨behind, rfl⟩ := List.head?_eq_some_iff.mp h
    refine ⟨fun c hc => ?_, fun hindented => ?_⟩
    · cases hc
      decide
    · exact absurd (List.cons_prefix_cons.mp hindented).1 (by decide)

/-- A further entry of a row, below the first one. -/
def furtherEntry (e : String × RowValue) : List Char := ' ' :: ' ' :: entryToYaml e

theorem below_furtherEntry {e : String × RowValue} (he : IsRowEntry e) (rest : List Char) :
    Below rowValueIndent (furtherEntry e ++ rest) := by
  refine ⟨fun c hc => ?_, fun hindented => ?_⟩
  · cases hc
    decide
  · have hstarts := he.starts
    rw [furtherEntry, entryToYaml] at hindented
    cases hkey : e.1.toList with
    | nil => rw [hkey] at hstarts; cases hstarts
    | cons c key =>
      rw [hkey] at hstarts hindented
      -- The third character of the line is that of the key.
      have hthird := (List.cons_prefix_cons.mp
        (List.cons_prefix_cons.mp (List.cons_prefix_cons.mp hindented).2).2).1
      exact bne_iff_ne.mp hstarts hthird.symm

theorem below_furtherEntries {es : List (String × RowValue)} (hes : ∀ e ∈ es, IsRowEntry e)
    {rest : List Char} (h : FollowsRow rest) :
    Below rowValueIndent (es.flatMap furtherEntry ++ rest) := by
  cases es with
  | nil => exact h.below
  | cons e es =>
    rw [List.flatMap_cons, List.append_assoc]
    exact below_furtherEntry (List.forall_mem_cons.mp hes).1 _

/-- **Further entries are told** up to the end of the row. -/
theorem tells_furtherEntries :
    Tells (fun es rest => (∀ e ∈ es, IsRowEntry e) ∧ FollowsRow rest)
      (List.flatMap furtherEntry) := by
  have hentry : Tells (fun e rest => IsRowEntry e ∧ Below rowValueIndent rest) furtherEntry :=
    fun e rest h e' rest' h' heq => tells_entryToYaml h h' (by simpa [furtherEntry] using heq)
  refine hentry.flatMap (fun {e es rest} h => ?_) fun {e rest rest'} h _ heq => ?_
  · obtain ⟨he, hes⟩ := List.forall_mem_cons.mp h.1
    exact ⟨⟨he, below_furtherEntries hes h.2⟩, hes, h.2⟩
  · rw [heq] at h
    rcases h.2 with hend | hend <;> cases hend

/-- A row is its first entry, behind a dash, and its further ones. -/
theorem Row.toYaml_eq (r : Row) :
    ∃ e es, r.entries = e :: es ∧
      r.toYaml = '-' :: ' ' :: (entryToYaml e ++ es.flatMap furtherEntry) := by
  refine ⟨("check", .text r.check), r.entries.tail, rfl, ?_⟩
  have hentries : r.entries = ("check", .text r.check) :: r.entries.tail := rfl
  rw [Row.toYaml, hentries, List.map_cons, Text.intercalate_cons_eq, List.flatMap_map]
  rfl

/-- Each value of a row stands under its key, if it is there. -/
theorem Row.lookup_entries (r : Row) :
    r.entries.lookup "check" = some (.text r.check) ∧
      r.entries.lookup "severity" = some (.text r.severity.name) ∧
      r.entries.lookup "line" = some (.number r.line) ∧
      r.entries.lookup "rule_id" = r.ruleId.map .text ∧
      r.entries.lookup "pattern" = r.pattern.map .text ∧
      r.entries.lookup "owner" = r.owner.map .text ∧
      r.entries.lookup "message" = some (.text r.message) := by
  cases hid : r.ruleId <;> cases hpattern : r.pattern <;> cases howner : r.owner <;>
    simp [Row.entries, List.lookup_cons, hid, hpattern, howner]

theorem Severity.name_injective : Function.Injective Severity.name := by
  rintro (_ | _) (_ | _) h <;> first | rfl | exact absurd h (by decide)

/-- The entries of a row tell the row. -/
theorem Row.entries_injective : Function.Injective Row.entries := by
  intro r r' h
  have htext : Function.Injective RowValue.text := fun s t hst => RowValue.text.inj hst
  obtain ⟨hcheck, hseverity, hline, hid, hpattern, howner, hmessage⟩ := r.lookup_entries
  obtain ⟨hcheck', hseverity', hline', hid', hpattern', howner', hmessage'⟩ := r'.lookup_entries
  rw [h] at hcheck hseverity hline hid hpattern howner hmessage
  cases r with
  | mk check severity line ruleId pattern owner message =>
    cases r' with
    | mk check' severity' line' ruleId' pattern' owner' message' =>
      rw [Row.mk.injEq]
      refine ⟨?_, ?_, ?_, ?_, ?_, ?_, ?_⟩
      · exact htext (Option.some.inj (hcheck.symm.trans hcheck'))
      · exact Severity.name_injective (htext (Option.some.inj (hseverity.symm.trans hseverity')))
      · exact RowValue.number.inj (Option.some.inj (hline.symm.trans hline'))
      · exact Option.map_injective htext (hid.symm.trans hid')
      · exact Option.map_injective htext (hpattern.symm.trans hpattern')
      · exact Option.map_injective htext (howner.symm.trans howner')
      · exact htext (Option.some.inj (hmessage.symm.trans hmessage'))

/-- **A row is told** by what it is written as. -/
theorem Row.tells_toYaml : Tells (fun _ rest => FollowsRow rest) Row.toYaml := by
  intro r rest hrest r' rest' hrest' h
  obtain ⟨e, es, hentries, hr⟩ := r.toYaml_eq
  obtain ⟨e', es', hentries', hr'⟩ := r'.toYaml_eq
  rw [hr, hr'] at h
  simp only [List.cons_append, List.append_assoc, List.cons.injEq, true_and] at h
  obtain ⟨hfirst, hes⟩ := List.forall_mem_cons.mp
    (hentries ▸ fun e (he : e ∈ r.entries) => isRowEntry_of_mem_entries he)
  obtain ⟨hfirst', hes'⟩ := List.forall_mem_cons.mp
    (hentries' ▸ fun e (he : e ∈ r'.entries) => isRowEntry_of_mem_entries he)
  obtain ⟨rfl, hfurther⟩ := tells_entryToYaml ⟨hfirst, below_furtherEntries hes hrest⟩
    ⟨hfirst', below_furtherEntries hes' hrest'⟩ h
  obtain ⟨rfl, hbehind⟩ := tells_furtherEntries ⟨hes, hrest⟩ ⟨hes', hrest'⟩ hfurther
  exact ⟨Row.entries_injective (hentries.trans hentries'.symm), hbehind⟩

/-! ## 3. Reports -/

/-- The rows of a report start with a dash. -/
theorem followsRow_flatMap_toYaml (rows : List Row) : FollowsRow (rows.flatMap Row.toYaml) := by
  cases rows with
  | nil => exact .inl rfl
  | cons r rows =>
    obtain ⟨e, es, -, hr⟩ := r.toYaml_eq
    rw [List.flatMap_cons, hr]
    exact .inr rfl

/-- Rows that are written one after another are told. -/
theorem Row.flatMap_toYaml_injective : Function.Injective (List.flatMap Row.toYaml) := by
  have htells : Tells (fun _ rest => rest = []) (List.flatMap Row.toYaml) := by
    refine Row.tells_toYaml.flatMap (fun {r rows rest} h => ?_) fun {r rest rest'} h _ heq => ?_
    · subst h
      rw [List.append_nil]
      exact ⟨followsRow_flatMap_toYaml rows, rfl⟩
    · obtain ⟨e, es, -, hr⟩ := r.toYaml_eq
      rw [h, hr] at heq
      cases heq
  exact fun rows rows' h => (htells rfl rfl (congrArg (· ++ []) h)).1

/-- **Reports are written alike if and only if they have the same rows**, whatever texts stand in
them. -/
theorem Report.toYaml_eq_iff {a b : Report} : a.toYaml = b.toYaml ↔ a.rows = b.rows := by
  refine ⟨fun h => ?_, fun h => by rw [Report.toYaml, h, Report.toYaml]⟩
  have hempty : ∀ r rows, rowsToYaml [] ≠ rowsToYaml (r :: rows) := fun r rows h => by
    obtain ⟨e, es, -, hr⟩ := r.toYaml_eq
    have hlists := congrArg String.toList h
    simp [rowsToYaml, hr] at hlists
  rw [Report.toYaml, Report.toYaml] at h
  cases ha : a.rows with
  | nil =>
    cases hb : b.rows with
    | nil => rfl
    | cons r rows => exact absurd (ha ▸ hb ▸ h) (hempty r rows)
  | cons r rows =>
    cases hb : b.rows with
    | nil => exact absurd (ha ▸ hb ▸ h).symm (hempty r rows)
    | cons r' rows' =>
      rw [ha, hb] at h
      exact Row.flatMap_toYaml_injective (String.ofList_inj.mp h)

end Ownership
