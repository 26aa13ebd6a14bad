/-
# Texts among the paths of bytes

A path on a disk is a list of bytes, and a text is such a path when it is written in UTF-8.  There a
character of ASCII is one byte, and that byte occurs in no other character.  So a text and its bytes
are cut at the same slashes, and the pieces of one are those of the other: a text has the same
components whether it is read as characters or as bytes (`components_encode`), and a name is put
behind it in the same way (`join_encode`).

* `encode`: a text in bytes; `bytesOf_eq`, `textOfName_eq_ok_iff` for the bytes on a disk;
* `Signs.bytes`: the signs of a path of bytes;
* `splitOn_encode`: the pieces of a text;
* `components_encode`, `join_encode`: components, and names behind a text.
-/
import Ownership.Listing.WorkingCopy
import Ownership.Proofs.Text
import Ownership.Proofs.Path.Component

namespace Ownership.Path

/-! ## 1. Characters in bytes -/

/-- A text in bytes. -/
def encode (cs : List Char) : List UInt8 := cs.flatMap String.utf8EncodeChar

@[simp] theorem encode_nil : encode [] = [] := rfl

theorem encode_cons (c : Char) (cs : List Char) :
    encode (c :: cs) = String.utf8EncodeChar c ++ encode cs := List.flatMap_cons

theorem encode_append (cs ds : List Char) : encode (cs ++ ds) = encode cs ++ encode ds :=
  List.flatMap_append

theorem toByteArray_encode (cs : List Char) : (encode cs).toByteArray = cs.utf8Encode := rfl

/-- The bytes of a text tell which it is. -/
theorem encode_injective : Function.Injective encode := fun cs ds h => by
  have harray : cs.utf8Encode = ds.utf8Encode := by
    rw [← toByteArray_encode, h, toByteArray_encode]
  rw [← String.toByteArray_ofList, ← String.toByteArray_ofList, String.toByteArray_inj,
    String.ofList_inj] at harray
  exact harray

/-- A character beyond ASCII is written without bytes of ASCII. -/
theorem le_toNat_of_mem_utf8EncodeChar {c : Char} (hc : ¬ c.toNat ≤ 127) {b : UInt8}
    (hb : b ∈ String.utf8EncodeChar c) : 128 ≤ b.toNat := by
  have hbyte : ∃ n, 128 ≤ n ∧ n < 256 ∧ b = UInt8.ofNat n := by
    unfold String.utf8EncodeChar at hb
    simp only [show ¬ c.val.toNat ≤ 127 from hc, if_false] at hb
    split at hb
    · rcases List.mem_pair.mp hb with rfl | rfl <;> exact ⟨_, by omega, by omega, rfl⟩
    · split at hb <;>
      · simp only [List.mem_cons, List.not_mem_nil, or_false] at hb
        obtain rfl | rfl | rfl | rfl := hb <;> exact ⟨_, by omega, by omega, rfl⟩
  obtain ⟨n, hn, hn', rfl⟩ := hbyte
  rw [UInt8.toNat_ofNat', Nat.mod_eq_of_lt hn']
  exact hn

/-- **A byte of ASCII** stands for its own character alone. -/
theorem mem_utf8EncodeChar_iff {a : Char} (ha : a.toNat < 128) {c : Char} :
    UInt8.ofNat a.toNat ∈ String.utf8EncodeChar c ↔ c = a := by
  have hbyte : (UInt8.ofNat a.toNat).toNat = a.toNat := by
    rw [UInt8.toNat_ofNat']
    omega
  by_cases hc : c.toNat ≤ 127
  · have hone : String.utf8EncodeChar c = [UInt8.ofNat c.toNat] := if_pos hc
    rw [hone, List.mem_singleton, ← UInt8.toNat_inj, hbyte, UInt8.toNat_ofNat', eq_comm,
      Nat.mod_eq_of_lt (by omega), Char.toNat_inj]
  · constructor
    · intro h
      have hle := le_toNat_of_mem_utf8EncodeChar hc h
      omega
    · rintro rfl
      omega

/-! ## 2. Texts on a disk -/

theorem bytesOf_eq (s : String) : Disk.bytesOf s = encode s.toList := by
  have hbytes : s.toUTF8 = (encode s.toList).toByteArray := String.utf8Encode_toList.symm
  rw [Disk.bytesOf, hbytes, List.toList_data_toByteArray]

theorem fromUTF8?_eq_some_iff {b : ByteArray} {s : String} :
    String.fromUTF8? b = some s ↔ b = s.toByteArray := by
  rw [String.fromUTF8?]
  constructor
  · intro h
    split at h
    · cases h
      rfl
    · cases h
  · rintro rfl
    exact dif_pos s.isValidUTF8

/-- **A name on disk is a text** if it is the bytes of one. -/
theorem textOfName_eq_ok_iff {x : Disk.Name} {cs : List Char} :
    textOfName x = .ok cs ↔ x = encode cs := by
  have harray : (⟨x.toArray⟩ : ByteArray) = x.toByteArray := ByteArray.ext (by simp)
  have hread : textOfName x = .ok cs ↔ String.fromUTF8? x.toByteArray = some (.ofList cs) := by
    rw [textOfName, harray]
    cases String.fromUTF8? x.toByteArray with
    | none => simp
    | some s => simp [← String.toList_inj]
  rw [hread, fromUTF8?_eq_some_iff, String.toByteArray_ofList, ← toByteArray_encode]
  constructor
  · intro h
    rw [← List.toList_data_toByteArray (l := x), h, List.toList_data_toByteArray]
  · rintro rfl
    rfl

/-! ## 3. The pieces of a text -/

/-- The signs of a path of bytes. -/
def Signs.bytes : Signs UInt8 := ⟨47, 46⟩

theorem slash_mem_utf8EncodeChar_iff {c : Char} : 47 ∈ String.utf8EncodeChar c ↔ c = '/' :=
  mem_utf8EncodeChar_iff (a := '/') (by decide)

theorem slash_mem_encode_iff {cs : List Char} : 47 ∈ encode cs ↔ '/' ∈ cs := by
  simp only [encode, List.mem_flatMap, slash_mem_utf8EncodeChar_iff, exists_eq_right]

theorem encode_intercalate (pieces : List (List Char)) :
    encode (['/'].intercalate pieces) = [47].intercalate (pieces.map encode) := by
  induction pieces with
  | nil => rfl
  | cons piece pieces ih =>
    cases pieces with
    | nil => simp
    | cons next pieces =>
      rw [List.map_cons, List.map_cons, List.intercalate_cons_cons, List.intercalate_cons_cons,
        encode_append, encode_append, ih, List.map_cons]
      rfl

/-- **A text and its bytes are cut at the same slashes.** -/
theorem splitOn_encode (cs : List Char) :
    (encode cs).splitOn 47 = (cs.splitOn '/').map encode := by
  have hslash : ∀ bs ∈ (cs.splitOn '/').map encode, 47 ∉ bs := by
    intro bs hbs
    obtain ⟨piece, hpiece, rfl⟩ := List.mem_map.mp hbs
    exact mt slash_mem_encode_iff.mp (Text.not_mem_of_mem_splitOn hpiece)
  have hne : (cs.splitOn '/').map encode ≠ [] :=
    mt List.map_eq_nil_iff.mp (List.splitOn_ne_nil _ _)
  calc (encode cs).splitOn 47
      = (encode (['/'].intercalate (cs.splitOn '/'))).splitOn 47 := by rw [List.intercalate_splitOn]
    _ = ([47].intercalate ((cs.splitOn '/').map encode)).splitOn 47 := by rw [encode_intercalate]
    _ = (cs.splitOn '/').map encode := List.splitOn_intercalate 47 hslash hne

theorem head?_encode_iff {cs : List Char} : (encode cs).head? = some 47 ↔ cs.head? = some '/' := by
  cases cs with
  | nil => simp
  | cons c cs =>
    rw [encode_cons, List.head?_append_of_ne_nil _ String.utf8EncodeChar_ne_nil, List.head?_cons,
      Option.some_inj]
    constructor
    · exact fun h => slash_mem_utf8EncodeChar_iff.mp (List.mem_of_head? h)
    · rintro rfl
      rfl

theorem getLast?_encode_iff {cs : List Char} :
    (encode cs).getLast? = some 47 ↔ cs.getLast? = some '/' := by
  induction cs using List.reverseRecOn with
  | nil => simp
  | append_singleton cs c =>
    have hc : encode [c] = String.utf8EncodeChar c := List.append_nil _
    rw [encode_append, hc, List.getLast?_append_of_ne_nil _ String.utf8EncodeChar_ne_nil,
      List.getLast?_concat, Option.some_inj]
    constructor
    · exact fun h => slash_mem_utf8EncodeChar_iff.mp (List.mem_of_getLast? h)
    · rintro rfl
      rfl

/-! ## 4. The components of a text -/

/-- The component with its name changed. -/
def Component.map {α β : Type} (f : α → β) : Component α → Component β
  | .root => .root
  | .current => .current
  | .parent => .parent
  | .name n => .name (f n)

/-- The component of a text, too, is told by its bytes. -/
theorem map_encode_injective : Function.Injective (Component.map encode) := by
  rintro (_ | _ | _ | n) (_ | _ | _ | m) h <;> simp_all [Component.map, encode_injective.eq_iff]

theorem isAbsolute_encode (cs : List Char) :
    Signs.bytes.isAbsolute (encode cs) = isAbsolute cs := by
  rw [Bool.eq_iff_iff, Signs.isAbsolute, isAbsolute, beq_iff_eq, beq_iff_eq]
  exact head?_encode_iff

theorem component?_encode (piece : List Char) :
    Signs.bytes.component? (encode piece) = (innerComponent? piece).map (.map encode) := by
  have hnil : encode piece = [] ↔ piece = [] := encode_injective.eq_iff (b := [])
  have hhere : encode piece = [46] ↔ piece = ['.'] := encode_injective.eq_iff (b := ['.'])
  have hup : encode piece = [46, 46] ↔ piece = ['.', '.'] :=
    encode_injective.eq_iff (b := ['.', '.'])
  simp only [Signs.component?, Signs.bytes, innerComponent?, hnil, hhere, hup]
  by_cases hvoid : piece = [] ∨ piece = ['.']
  · rw [if_pos hvoid, if_pos hvoid]
    rfl
  · rw [if_neg hvoid, if_neg hvoid]
    split <;> rfl

theorem leading_encode (cs : List Char) :
    Signs.bytes.leading (encode cs) = (leading cs).map (.map encode) := by
  have hhere : (((cs.splitOn '/').map encode).head? = some [46]) ↔
      (cs.splitOn '/').head? = some ['.'] := by
    rw [List.head?_map]
    exact (Option.map_injective encode_injective).eq_iff (b := some ['.'])
  have hsplit : (encode cs).splitOn Signs.bytes.slash = (cs.splitOn '/').map encode :=
    splitOn_encode cs
  rw [Signs.leading, isAbsolute_encode, hsplit, leading]
  simp only [Signs.bytes, hhere]
  cases isAbsolute cs with
  | true => rfl
  | false =>
    by_cases hpoint : (cs.splitOn '/').head? = some ['.']
    · rw [if_pos hpoint, if_pos hpoint]
      rfl
    · rw [if_neg hpoint, if_neg hpoint]
      rfl

/-- **A text has the same components**, whether it is read as characters or as bytes. -/
theorem components_encode (cs : List Char) :
    Signs.bytes.components (encode cs) = (components cs).map (.map encode) := by
  have hinner : Signs.bytes.inner (encode cs) =
      ((cs.splitOn '/').filterMap innerComponent?).map (.map encode) :=
    calc ((encode cs).splitOn 47).filterMap Signs.bytes.component?
        = (cs.splitOn '/').filterMap (fun piece => Signs.bytes.component? (encode piece)) := by
          rw [splitOn_encode, List.filterMap_map]
          rfl
      _ = ((cs.splitOn '/').filterMap innerComponent?).map (.map encode) := by
          rw [List.map_filterMap]
          exact List.filterMap_congr fun piece _ => component?_encode piece
  rw [Signs.components, leading_encode, hinner, components, List.map_append]

/-- A text as a name behind a text. -/
theorem join_encode (path name : List Char) :
    Signs.bytes.join (encode path) (encode name) = encode (join path name) := by
  have hbehind : encode path = [] ∨ (encode path).getLast? = some Signs.bytes.slash ↔
      path = [] ∨ path.getLast? = some '/' :=
    or_congr (encode_injective.eq_iff (b := [])) getLast?_encode_iff
  rw [Signs.join, join]
  simp only [hbehind]
  split
  · rw [encode_append]
  · rw [encode_append]
    rfl

end Ownership.Path
