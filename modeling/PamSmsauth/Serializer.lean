import PamSmsauth.JsonObject
import PamSmsauth.Lib.Json

/-!
# The texts of the bundled serializer as JSON

`json_escape_str` escapes quotes and control characters and nothing else: a text without a backslash
is spelled as JSON spells it (`spells_jsonEscapeStr`). Objects are printed as JSON objects
(`decodes_object`), so that a decoder finds the members that were put in.
-/

namespace PamSmsauth

open CText Json

/-! ## Strings -/

theorem hexVal_jsonHexChars : ∀ d < 16, hexVal (jsonHexChars.getD d 0) = some d := by decide

theorem utf8_control : ∀ n < 32, utf8 n = [n.toUInt8] := by decide +kernel

/-- A control character that is printed with its number. -/
theorem escape_control {b x y : Byte} (h : b.toNat < 32) (hx : hexVal x = some (b.toNat / 16))
    (hy : hexVal y = some (b.toNat % 16)) (rest : List Byte) :
    escape (117 :: 48 :: 48 :: x :: y :: rest) = some ([b], rest) := by
  have hzero : hexVal 48 = some 0 := by decide
  have hsum : 16 * (b.toNat / 16) + b.toNat % 16 = b.toNat := by omega
  have hbmp : b.toNat < 0xD800 := by omega
  simp [escape, unicode, hex4, hx, hy, hzero, hsum, hbmp, utf8_control b.toNat h]

theorem parseStr_jsonEscapeChar {b : Byte} (h : b ≠ 92) (n : Nat) (rest : List Byte) :
    parseStr (n + 1) (jsonEscapeChar b ++ rest) =
      (parseStr n rest).map fun p => (b :: p.1, p.2) := by
  have hpair : ∀ c s, escape (c :: rest) = some (s, rest) →
      parseStr (n + 1) ([92, c] ++ rest) = (parseStr n rest).map fun p => (s ++ p.1, p.2) :=
    fun c s hc => parseStr_escape hc n
  unfold jsonEscapeChar
  split_ifs with h8 h10 h13 h9 h34 h32
  · subst h8; exact hpair 98 [8] rfl
  · subst h10; exact hpair 110 [10] rfl
  · subst h13; exact hpair 114 [13] rfl
  · subst h9; exact hpair 116 [9] rfl
  · subst h34; exact hpair 34 [34] rfl
  · have hlit : lit "\\u00" = [92, 117, 48, 48] := by decide
    have hlt : b.toNat < 32 := by simpa [UInt8.lt_iff_toNat_lt] using h32
    have hx := hexVal_jsonHexChars (b.toNat / 16) (by omega)
    have hy := hexVal_jsonHexChars (b.toNat % 16) (by omega)
    rw [hlit]
    exact parseStr_escape (escape_control hlt hx hy rest) n
  · exact parseStr_char h34 h h32 n rest

theorem length_jsonEscapeChar_pos (b : Byte) : 0 < (jsonEscapeChar b).length := by
  unfold jsonEscapeChar
  split_ifs <;> simp

/-- A text without a backslash is spelled as JSON spells it. -/
theorem spells_jsonEscapeStr {s : List Byte} (hnul : (0 : Byte) ∉ s) (h : (92 : Byte) ∉ s) :
    Spells (jsonEscapeStr s) s := by
  rw [jsonEscapeStr, cstr_of_nulFree hnul]
  clear hnul
  induction s with
  | nil =>
    intro n rest hn
    obtain ⟨n, rfl⟩ := Nat.exists_eq_succ_of_ne_zero (by omega : n ≠ 0)
    rfl
  | cons b s ih =>
    intro n rest hn
    rw [List.flatMap_cons, List.length_append] at hn
    have hpos := length_jsonEscapeChar_pos b
    obtain ⟨n, rfl⟩ := Nat.exists_eq_succ_of_ne_zero (by omega : n ≠ 0)
    have hb : b ≠ 92 := fun h' => h (by simp [h'])
    have hs : (92 : Byte) ∉ s := fun h' => h (by simp [h'])
    rw [List.flatMap_cons, List.append_assoc, parseStr_jsonEscapeChar hb,
      ih hs n rest (by omega)]
    rfl

/-- Other characters are printed as they are. -/
theorem jsonEscapeChar_of_printable {b : Byte} (h34 : b ≠ 34) (h32 : ¬ b < 32) :
    jsonEscapeChar b = [b] := by
  have hctl : b ≠ 8 ∧ b ≠ 10 ∧ b ≠ 13 ∧ b ≠ 9 := by
    refine ⟨?_, ?_, ?_, ?_⟩ <;> rintro rfl <;> exact h32 (by decide)
  simp [jsonEscapeChar, hctl, h34, h32]

theorem toJsonString_newString {s : List Byte} (h : (0 : Byte) ∉ s) :
    (JsonObject.newString s).toJsonString = 34 :: (s.flatMap jsonEscapeChar ++ [34]) := by
  simp [JsonObject.newString, JsonObject.toJsonString, jsonEscapeStr, cstr_of_nulFree h]

theorem length_jsonEscapeChar_le (b : Byte) : (jsonEscapeChar b).length ≤ 6 := by
  unfold jsonEscapeChar
  split_ifs <;> simp [lit]

theorem length_flatMap_jsonEscapeChar_le (s : List Byte) :
    (s.flatMap jsonEscapeChar).length ≤ 6 * s.length := by
  induction s with
  | nil => simp
  | cons b s ih =>
    have := length_jsonEscapeChar_le b
    rw [List.flatMap_cons, List.length_append, List.length_cons]
    omega

/-- Escapes are ASCII and stand for ASCII. -/
theorem jsonEscapeChar_ascii : ∀ b : Byte, b < 0x80 →
    jsonEscapeChar b ≠ [] ∧ ∀ b' ∈ jsonEscapeChar b, b' < 0x80 := by
  apply byte_cases
  decide +kernel

theorem jsonEscapeChar_other (b : Byte) (h : ¬ b < 0x80) : jsonEscapeChar b = [b] := by
  apply jsonEscapeChar_of_printable
  · rintro rfl
    exact h (by decide)
  · intro h32
    exact h (UInt8.lt_trans h32 (by decide))

theorem valid_flatMap_jsonEscapeChar (s : List Byte) :
    Utf8.valid (s.flatMap jsonEscapeChar) = Utf8.valid s := by
  rw [Utf8.valid, Utf8.run_flatMap Utf8.owes_nil jsonEscapeChar_ascii jsonEscapeChar_other,
    Utf8.valid]

/-! ## Objects -/

/-- A member that is read as its key and a value. -/
structure ReadsAs (e : List Byte × JsonObject) (v : Value) : Prop where
  key : Spells (jsonEscapeStr e.1) e.1
  value : Decodes e.2.toJsonString v

theorem readsAs_newString {key s : List Byte} (hkey : Spells (jsonEscapeStr key) key)
    (hnul : (0 : Byte) ∉ s) (h : (92 : Byte) ∉ s) :
    ReadsAs (key, .newString s) (.str s) := by
  refine ⟨hkey, ?_⟩
  have htext : (JsonObject.newString s).toJsonString = 34 :: (jsonEscapeStr s ++ [34]) := by
    rw [toJsonString_newString hnul, jsonEscapeStr, cstr_of_nulFree hnul]
  show Decodes (JsonObject.newString s).toJsonString (.str s)
  rw [htext]
  exact (spells_jsonEscapeStr hnul h).decodes

theorem readsAs_int {key : List Byte} (hkey : Spells (jsonEscapeStr key) key) (i : Int) :
    ReadsAs (key, .int i) (.int i) := by
  refine ⟨hkey, ?_⟩
  show Decodes (JsonObject.int i).toJsonString (.int i)
  rw [JsonObject.toJsonString]
  exact decodes_decimal i

theorem entriesToJsonString_one (e : List Byte × JsonObject) (text : List Byte) :
    JsonObject.entriesToJsonString 0 [e] ++ text =
      32 :: 34 :: (jsonEscapeStr e.1 ++ 34 :: 58 :: 32 :: (e.2.toJsonString ++ text)) := by
  simp [JsonObject.entriesToJsonString]

theorem entriesToJsonString_cons {i : Nat} (hi : i ≠ 0) (e : List Byte × JsonObject)
    (entries : List (List Byte × JsonObject)) :
    JsonObject.entriesToJsonString i (e :: entries) =
      44 :: (JsonObject.entriesToJsonString 0 [e] ++
        JsonObject.entriesToJsonString (i + 1) entries) := by
  simp [JsonObject.entriesToJsonString, hi]

/-- One member, and what stands behind it. -/
theorem parseMembers_one {e : List Byte × JsonObject} {v : Value} (he : ReadsAs e v)
    {tail : List Byte} (htail : Stops tail) {n : Nat}
    (hn : (JsonObject.entriesToJsonString 0 [e]).length ≤ n + 1) :
    parseMembers (n + 1) (JsonObject.entriesToJsonString 0 [e] ++ tail) =
      match skipWs tail with
      | 44 :: rest => (parseMembers n rest).map fun p => ((e.1, v) :: p.1, p.2)
      | 125 :: rest => some ([(e.1, v)], rest)
      | _ => none := by
  have hone := entriesToJsonString_one e []
  rw [List.append_nil, List.append_nil] at hone
  have hlen : (jsonEscapeStr e.1).length + e.2.toJsonString.length < n := by
    rw [hone] at hn
    simp only [List.length_cons, List.length_append] at hn
    omega
  rw [entriesToJsonString_one]
  exact parseMembers_member he.key he.value htail hlen

/-- The members from one on, with the brace behind them. -/
theorem parseMembers_entries {e : List Byte × JsonObject} {entries : List (List Byte × JsonObject)}
    {v : Value} {values : List Value} (he : ReadsAs e v)
    (hall : List.Forall₂ ReadsAs entries values) {n i : Nat} (hi : i ≠ 0) (rest : List Byte)
    (hn : (JsonObject.entriesToJsonString 0 [e]).length +
      (JsonObject.entriesToJsonString i entries).length ≤ n) :
    parseMembers n (JsonObject.entriesToJsonString 0 [e] ++
        (JsonObject.entriesToJsonString i entries ++ 32 :: 125 :: rest)) =
      some ((e.1, v) :: (entries.map Prod.fst).zip values, rest) := by
  have hpos : ∀ e, 0 < (JsonObject.entriesToJsonString 0 [e]).length := by
    intro e
    simp [JsonObject.entriesToJsonString]
  induction hall generalizing e v n i with
  | nil =>
    obtain ⟨n, rfl⟩ := Nat.exists_eq_succ_of_ne_zero (by have := hpos e; omega : n ≠ 0)
    have hstops : Stops (32 :: 125 :: rest) := by
      rintro b ⟨⟩
      decide
    have hbrace : skipWs (32 :: 125 :: rest) = 125 :: rest := by simp [skipWs, isWs]
    rw [JsonObject.entriesToJsonString, List.nil_append, parseMembers_one he hstops (by omega),
      hbrace]
    rfl
  | @cons e' v' entries values he' hall ih =>
    obtain ⟨n, rfl⟩ := Nat.exists_eq_succ_of_ne_zero (by have := hpos e; omega : n ≠ 0)
    rw [entriesToJsonString_cons hi, List.length_cons, List.length_append] at hn
    rw [entriesToJsonString_cons hi, List.cons_append, List.append_assoc]
    have hstops : ∀ text, Stops (44 :: text) := by
      rintro text b ⟨⟩
      decide
    have hpos := hpos e
    have hrest := ih he' (by omega : i + 1 ≠ 0) (n := n) (by omega)
    rw [parseMembers_one he (hstops _) (by omega), skipWs_cons_of_not (by decide)]
    simp only [hrest]
    rfl

/-- The object that `json_object_to_json_string` prints. -/
theorem decodes_object {e : List Byte × JsonObject} {entries : List (List Byte × JsonObject)}
    {v : Value} {values : List Value} (he : ReadsAs e v)
    (hall : List.Forall₂ ReadsAs entries values) :
    Decodes (JsonObject.object (e :: entries)).toJsonString
      (.obj ((e.1, v) :: (entries.map Prod.fst).zip values)) := by
  intro n rest hn _
  have htext : ∀ rest, (JsonObject.object (e :: entries)).toJsonString ++ rest =
      123 :: (JsonObject.entriesToJsonString 0 [e] ++
        (JsonObject.entriesToJsonString 1 entries ++ 32 :: 125 :: rest)) := by
    intro rest
    simp [JsonObject.toJsonString, JsonObject.entriesToJsonString]
  have hnil := htext []
  rw [List.append_nil] at hnil
  rw [hnil, List.length_cons, List.length_append, List.length_append] at hn
  obtain ⟨n, rfl⟩ := Nat.exists_eq_succ_of_ne_zero (by omega : n ≠ 0)
  have hmembers := parseMembers_entries he hall (n := n) Nat.one_ne_zero rest (by omega)
  have hquote : ∀ text, skipWs (32 :: 34 :: text) = 34 :: text := by
    intro text
    simp [skipWs, isWs]
  rw [entriesToJsonString_one, parseMembers_space] at hmembers
  rw [htext, parseValue, skipWs_cons_of_not (by decide), entriesToJsonString_one]
  simp only [if_true, hquote]
  exact congrArg (Option.map fun p => (Value.obj p.1, p.2)) hmembers

end PamSmsauth
