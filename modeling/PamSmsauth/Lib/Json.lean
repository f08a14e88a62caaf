import PamSmsauth.Lib.Utf8

/-!
# JSON texts

A decoder for the JSON grammar over UTF-8 bytes: the text has to be valid UTF-8 and one value with
white space around it, control characters have to be escaped in strings, and an escaped surrogate
has to come with its other half. Strings are the UTF-8 bytes they stand for; of a number with a
fraction or an exponent the text is kept. Members stay in their order, with repetitions.

The parsers take fuel; `decode` gives them more than the text can use.
-/

namespace Json

open CText

inductive Value where
  | null
  | bool (b : Bool)
  | int (i : Int)
  | real (text : List Byte)
  | str (s : List Byte)
  | arr (elems : List Value)
  | obj (members : List (List Byte × Value))

def isWs (b : Byte) : Bool := b = 32 || b = 9 || b = 10 || b = 13

def skipWs (text : List Byte) : List Byte := text.dropWhile isWs

/-! ## Strings -/

def hexVal (b : Byte) : Option Nat :=
  if isdigit b then some (b.toNat - 48)
  else if 97 ≤ b ∧ b ≤ 102 then some (b.toNat - 87)
  else if 65 ≤ b ∧ b ≤ 70 then some (b.toNat - 55)
  else none

/-- The four digits after `\u`. -/
def hex4 : List Byte → Option (Nat × List Byte)
  | a :: b :: c :: d :: rest => do
    let a ← hexVal a
    let b ← hexVal b
    let c ← hexVal c
    let d ← hexVal d
    return (4096 * a + 256 * b + 16 * c + d, rest)
  | _ => none

/-- The UTF-8 bytes of a code point. -/
def utf8 (n : Nat) : List Byte := String.utf8EncodeChar (Char.ofNat n)

/-- What an escape stands for; the text starts after `\u`. -/
def unicode (text : List Byte) : Option (List Byte × List Byte) := do
  let (u, rest) ← hex4 text
  if u < 0xD800 ∨ 0xE000 ≤ u then return (utf8 u, rest)
  else
    match rest with
    | 92 :: 117 :: rest =>
      let (v, rest) ← hex4 rest
      if u < 0xDC00 ∧ 0xDC00 ≤ v ∧ v < 0xE000 then
        return (utf8 (0x10000 + 0x400 * (u - 0xD800) + (v - 0xDC00)), rest)
      else none
    | _ => none

/-- What an escape stands for; the text starts after the backslash. -/
def escape : List Byte → Option (List Byte × List Byte)
  | 34 :: rest => some ([34], rest)
  | 92 :: rest => some ([92], rest)
  | 47 :: rest => some ([47], rest)
  | 98 :: rest => some ([8], rest)
  | 102 :: rest => some ([12], rest)
  | 110 :: rest => some ([10], rest)
  | 114 :: rest => some ([13], rest)
  | 116 :: rest => some ([9], rest)
  | 117 :: rest => unicode rest
  | _ => none

/-- A string after its opening quote. -/
def parseStr : Nat → List Byte → Option (List Byte × List Byte)
  | 0, _ => none
  | _ + 1, [] => none
  | n + 1, b :: rest =>
    if b = 34 then some ([], rest)
    else if b = 92 then do
      let (s, rest) ← escape rest
      let (t, rest) ← parseStr n rest
      return (s ++ t, rest)
    else if b < 32 then none
    else do
      let (t, rest) ← parseStr n rest
      return (b :: t, rest)

/-! ## Numbers -/

/-- Digits, at least one. -/
def digits (text : List Byte) : Option (List Byte × List Byte) :=
  if text.takeWhile isdigit = [] then none
  else some (text.takeWhile isdigit, text.dropWhile isdigit)

/-- Digits without a leading zero. -/
def intDigits (text : List Byte) : Option (List Byte × List Byte) := do
  let (ds, rest) ← digits text
  if ds.length ≠ 1 ∧ ds.head? = some 48 then none else return (ds, rest)

def frac : List Byte → Option (List Byte × List Byte)
  | 46 :: rest => do
    let (ds, rest) ← digits rest
    return (46 :: ds, rest)
  | text => some ([], text)

def exponent : List Byte → Option (List Byte × List Byte)
  | e :: sign :: rest =>
    if e = 101 ∨ e = 69 then
      if sign = 43 ∨ sign = 45 then do
        let (ds, rest) ← digits rest
        return (e :: sign :: ds, rest)
      else do
        let (ds, rest) ← digits (sign :: rest)
        return (e :: ds, rest)
    else some ([], e :: sign :: rest)
  | [e] => if e = 101 ∨ e = 69 then none else some ([], [e])
  | [] => some ([], [])

def parseNumber (text : List Byte) : Option (Value × List Byte) := do
  let neg := text.head? = some 45
  let (ds, rest) ← intDigits (if neg then text.tail else text)
  let (f, rest) ← frac rest
  let (e, rest) ← exponent rest
  if f = [] ∧ e = [] then
    return (.int (if neg then -(digitsVal ds : Int) else digitsVal ds), rest)
  else return (.real ((if neg then [45] else []) ++ ds ++ f ++ e), rest)

/-! ## Values -/

/-- The text after a literal, if it starts with it. -/
def stripPrefix (word text : List Byte) : Option (List Byte) :=
  if word <+: text then some (text.drop word.length) else none

mutual

def parseValue : Nat → List Byte → Option (Value × List Byte)
  | 0, _ => none
  | n + 1, text =>
    match skipWs text with
    | [] => none
    | b :: rest =>
      if b = 123 then
        match skipWs rest with
        | 125 :: rest => some (.obj [], rest)
        | rest => (parseMembers n rest).map fun p => (.obj p.1, p.2)
      else if b = 91 then
        match skipWs rest with
        | 93 :: rest => some (.arr [], rest)
        | rest => (parseElems n rest).map fun p => (.arr p.1, p.2)
      else if b = 34 then (parseStr n rest).map fun p => (.str p.1, p.2)
      else if b = 110 then (stripPrefix (lit "ull") rest).map fun rest => (.null, rest)
      else if b = 116 then (stripPrefix (lit "rue") rest).map fun rest => (.bool true, rest)
      else if b = 102 then (stripPrefix (lit "alse") rest).map fun rest => (.bool false, rest)
      else parseNumber (b :: rest)

/-- The members of an object after its brace, with the closing one. -/
def parseMembers : Nat → List Byte → Option (List (List Byte × Value) × List Byte)
  | 0, _ => none
  | n + 1, text =>
    match skipWs text with
    | 34 :: rest =>
      match parseStr n rest with
      | none => none
      | some (key, rest) =>
        match skipWs rest with
        | 58 :: rest =>
          match parseValue n rest with
          | none => none
          | some (value, rest) =>
            match skipWs rest with
            | 44 :: rest => (parseMembers n rest).map fun p => ((key, value) :: p.1, p.2)
            | 125 :: rest => some ([(key, value)], rest)
            | _ => none
        | _ => none
    | _ => none

/-- The elements of an array after its bracket, with the closing one. -/
def parseElems : Nat → List Byte → Option (List Value × List Byte)
  | 0, _ => none
  | n + 1, text =>
    match parseValue n text with
    | none => none
    | some (value, rest) =>
      match skipWs rest with
      | 44 :: rest => (parseElems n rest).map fun p => (value :: p.1, p.2)
      | 93 :: rest => some ([value], rest)
      | _ => none

end

/-- The value that a JSON text denotes. -/
def decode (text : List Byte) : Option Value :=
  if Utf8.valid text then
    match parseValue (2 * text.length + 2) text with
    | some (value, rest) => if skipWs rest = [] then some value else none
    | none => none
  else none

theorem valid_of_decode {text : List Byte} {v : Value} (h : decode text = some v) :
    Utf8.valid text = true := by
  unfold decode at h
  split_ifs at h with hvalid
  exact hvalid

/-! ## The characters of a string -/

@[simp] theorem parseStr_quote (n : Nat) (rest : List Byte) :
    parseStr (n + 1) (34 :: rest) = some ([], rest) := rfl

theorem parseStr_escape {text s rest : List Byte} (h : escape text = some (s, rest)) (n : Nat) :
    parseStr (n + 1) (92 :: text) = (parseStr n rest).map fun p => (s ++ p.1, p.2) := by
  have hne : (92 : Byte) ≠ 34 := by decide
  simp only [parseStr, if_neg hne, if_true, h, Option.bind_eq_bind, Option.bind_some]
  cases parseStr n rest <;> rfl

theorem parseStr_char {b : Byte} (h34 : b ≠ 34) (h92 : b ≠ 92) (h32 : ¬ b < 32) (n : Nat)
    (rest : List Byte) :
    parseStr (n + 1) (b :: rest) = (parseStr n rest).map fun p => (b :: p.1, p.2) := by
  simp only [parseStr, if_neg h34, if_neg h92, if_neg h32]
  cases parseStr n rest <;> rfl

/-! ## What a number leaves -/

theorem digits_suffix {text ds rest : List Byte} (h : digits text = some (ds, rest)) :
    rest <:+ text := by
  unfold digits at h
  split_ifs at h
  obtain ⟨-, rfl⟩ := Prod.mk.inj (Option.some.inj h)
  exact List.dropWhile_suffix _

theorem intDigits_suffix {text ds rest : List Byte} (h : intDigits text = some (ds, rest)) :
    rest <:+ text := by
  simp only [intDigits, Option.bind_eq_bind, Option.bind_eq_some_iff] at h
  obtain ⟨⟨ds', rest'⟩, hdigits, h⟩ := h
  split_ifs at h
  obtain ⟨-, rfl⟩ := Prod.mk.inj (Option.some.inj h)
  exact digits_suffix hdigits

theorem frac_suffix {text ds rest : List Byte} (h : frac text = some (ds, rest)) :
    rest <:+ text := by
  unfold frac at h
  split at h
  · simp only [Option.bind_eq_bind, Option.bind_eq_some_iff] at h
    obtain ⟨⟨ds', rest'⟩, hdigits, h⟩ := h
    obtain ⟨-, rfl⟩ := Prod.mk.inj (Option.some.inj h)
    exact (digits_suffix hdigits).trans (List.suffix_cons _ _)
  · obtain ⟨-, rfl⟩ := Prod.mk.inj (Option.some.inj h)
    exact List.suffix_refl _

theorem exponent_suffix {text ds rest : List Byte} (h : exponent text = some (ds, rest)) :
    rest <:+ text := by
  unfold exponent at h
  split at h
  · split_ifs at h
    · simp only [Option.bind_eq_bind, Option.bind_eq_some_iff] at h
      obtain ⟨⟨ds', rest'⟩, hdigits, h⟩ := h
      obtain ⟨-, rfl⟩ := Prod.mk.inj (Option.some.inj h)
      exact ((digits_suffix hdigits).trans (List.suffix_cons _ _)).trans (List.suffix_cons _ _)
    · simp only [Option.bind_eq_bind, Option.bind_eq_some_iff] at h
      obtain ⟨⟨ds', rest'⟩, hdigits, h⟩ := h
      obtain ⟨-, rfl⟩ := Prod.mk.inj (Option.some.inj h)
      exact (digits_suffix hdigits).trans (List.suffix_cons _ _)
    · obtain ⟨-, rfl⟩ := Prod.mk.inj (Option.some.inj h)
      exact List.suffix_refl _
  · split_ifs at h
    obtain ⟨-, rfl⟩ := Prod.mk.inj (Option.some.inj h)
    exact List.suffix_refl _
  · obtain ⟨-, rfl⟩ := Prod.mk.inj (Option.some.inj h)
    exact List.suffix_refl _

theorem parseNumber_suffix {text rest : List Byte} {v : Value}
    (h : parseNumber text = some (v, rest)) :
    rest <:+ text ∧ ((∃ i, v = .int i) ∨ ∃ t, v = .real t) := by
  simp only [parseNumber, Option.bind_eq_bind, Option.bind_eq_some_iff] at h
  obtain ⟨⟨ds, rest₁⟩, hds, ⟨f, rest₂⟩, hf, ⟨e, rest₃⟩, he, h⟩ := h
  have hsign : (if text.head? = some 45 then text.tail else text) <:+ text := by
    split_ifs
    · exact List.tail_suffix _
    · exact List.suffix_refl _
  have hrest : rest₃ <:+ text := by
    refine ((exponent_suffix he).trans (frac_suffix hf)).trans ((intDigits_suffix hds).trans ?_)
    simpa using hsign
  split_ifs at h
  all_goals obtain ⟨rfl, rfl⟩ := Prod.mk.inj (Option.some.inj h)
  · exact ⟨hrest, .inl ⟨_, rfl⟩⟩
  · exact ⟨hrest, .inl ⟨_, rfl⟩⟩
  · exact ⟨hrest, .inr ⟨_, rfl⟩⟩
  · exact ⟨hrest, .inr ⟨_, rfl⟩⟩

/-! ## Printed numbers -/

/-- The character cannot go on with a number. -/
def Stops (rest : List Byte) : Prop :=
  ∀ b ∈ rest.head?, isdigit b = false ∧ b ≠ 46 ∧ b ≠ 101 ∧ b ≠ 69

theorem span_digits {ds rest : List Byte} (hds : ∀ b ∈ ds, isdigit b = true) (h : Stops rest) :
    (ds ++ rest).takeWhile isdigit = ds ∧ (ds ++ rest).dropWhile isdigit = rest := by
  have hrest : rest.takeWhile isdigit = [] ∧ rest.dropWhile isdigit = rest := by
    cases rest with
    | nil => exact ⟨rfl, rfl⟩
    | cons b rest =>
      have hb := (h b rfl).1
      simp [hb]
  rw [List.takeWhile_append_of_pos hds, List.dropWhile_append_of_pos hds, hrest.1, hrest.2,
    List.append_nil]
  exact ⟨rfl, rfl⟩

theorem intDigits_decimalNat (n : Nat) {rest : List Byte} (h : Stops rest) :
    intDigits (decimalNat n ++ rest) = some (decimalNat n, rest) := by
  obtain ⟨htake, hdrop⟩ := span_digits (decimalNat_isdigit n) h
  have hzero : ¬ ((decimalNat n).length ≠ 1 ∧ (decimalNat n).head? = some 48) := by
    rintro ⟨hlen, hhead⟩
    rw [decimalNat_head n hhead] at hlen
    exact hlen rfl
  simp [intDigits, digits, htake, hdrop, decimalNat_ne_nil, hzero]

theorem parseNumber_decimal (i : Int) {rest : List Byte} (h : Stops rest) :
    parseNumber (decimal i ++ rest) = some (.int i, rest) := by
  have hfrac : frac rest = some ([], rest) := by
    cases rest with
    | nil => rfl
    | cons b rest =>
      obtain ⟨-, h46, -⟩ := h b rfl
      unfold frac
      split
      · rename_i heq; exact absurd (List.cons.inj heq).1 h46
      · rfl
  have hexp : exponent rest = some ([], rest) := by
    unfold exponent
    split
    · obtain ⟨-, -, h101, h69⟩ := h _ rfl
      simp [h101, h69]
    · obtain ⟨-, -, h101, h69⟩ := h _ rfl
      simp [h101, h69]
    · rfl
  have hdigits := intDigits_decimalNat i.natAbs h
  obtain ⟨d, ds, hd⟩ := List.exists_cons_of_ne_nil (decimalNat_ne_nil i.natAbs)
  have hd45 : d ≠ 45 := (isdigit_ne (decimalNat_isdigit i.natAbs d (by simp [hd]))).2.1
  have hdigitsVal := digitsVal_decimalNat i.natAbs
  rw [decimal]
  split_ifs with hneg
  · have hval : -(digitsVal (decimalNat i.natAbs) : Int) = i := by omega
    simp [parseNumber, hdigits, hfrac, hexp, hval]
  · have hval : (digitsVal (decimalNat i.natAbs) : Int) = i := by omega
    rw [hd, List.cons_append] at hdigits
    rw [hd] at hval ⊢
    simp [parseNumber, hd45, hdigits, hfrac, hexp, hval]

/-! ## Texts of values -/

/-- A value, whatever follows it. -/
def Decodes (text : List Byte) (v : Value) : Prop :=
  ∀ n rest, text.length ≤ n → Stops rest → parseValue n (text ++ rest) = some (v, rest)

/-- The inside of a string. -/
def Spells (text s : List Byte) : Prop :=
  ∀ n rest, text.length < n → parseStr n (text ++ 34 :: rest) = some (s, rest)

theorem skipWs_cons_of_not {b : Byte} (h : isWs b = false) (rest : List Byte) :
    skipWs (b :: rest) = b :: rest := by
  simp [skipWs, h]

/-- The first character of a number tells it from other values. -/
theorem number_head {d : Byte} (h : isdigit d = true ∨ d = 45) : isWs d = false ∧ d ≠ 123 ∧
    d ≠ 91 ∧ d ≠ 34 ∧ d ≠ 110 ∧ d ≠ 116 ∧ d ≠ 102 := by
  rcases h with h | rfl
  · exact isdigit_cases (P := fun d => isWs d = false ∧ d ≠ 123 ∧ d ≠ 91 ∧ d ≠ 34 ∧ d ≠ 110 ∧
      d ≠ 116 ∧ d ≠ 102) (by decide +kernel) h
  · decide

theorem decodes_decimal (i : Int) : Decodes (decimal i) (.int i) := by
  intro n rest hn h
  have hnum := parseNumber_decimal i h
  obtain ⟨d, ds, hd, hfirst, -⟩ := decimal_cons i
  obtain ⟨hws, hother⟩ := number_head hfirst
  rw [hd] at hn hnum ⊢
  cases n with
  | zero => simp at hn
  | succ n =>
    rw [List.cons_append] at hnum ⊢
    rw [parseValue, skipWs_cons_of_not hws]
    simp [hother, hnum]

theorem Spells.decodes {text s : List Byte} (h : Spells text s) :
    Decodes (34 :: (text ++ [34])) (.str s) := by
  intro n rest hn hrest
  cases n with
  | zero => simp at hn
  | succ n =>
    have hstr := h n rest (by simpa using hn)
    rw [List.cons_append, parseValue, skipWs_cons_of_not (by decide)]
    simp [hstr]

theorem Decodes.decode {text : List Byte} {v : Value} (h : Decodes text v)
    (hvalid : Utf8.valid text = true) : decode text = some v := by
  have hstops : Stops [] := by
    intro b hb
    cases hb
  have hparse := h (2 * text.length + 2) [] (by omega) hstops
  rw [List.append_nil] at hparse
  simp [Json.decode, hvalid, hparse, skipWs]

/-- White space before a value. -/
theorem parseValue_space (n : Nat) (text : List Byte) :
    parseValue n (32 :: text) = parseValue n text := by
  cases n with
  | zero => rfl
  | succ n =>
    have hskip : skipWs (32 :: text) = skipWs text := by simp [skipWs, isWs]
    rw [parseValue, parseValue, hskip]

/-- One member, and what stands behind it. -/
theorem parseMembers_member {k key text tail : List Byte} {v : Value} (hkey : Spells k key)
    (hval : Decodes text v) (htail : Stops tail) {n : Nat} (hn : k.length + text.length < n) :
    parseMembers (n + 1) (32 :: 34 :: (k ++ 34 :: 58 :: 32 :: (text ++ tail))) =
      match skipWs tail with
      | 44 :: rest => (parseMembers n rest).map fun p => ((key, v) :: p.1, p.2)
      | 125 :: rest => some ([(key, v)], rest)
      | _ => none := by
  have hquote : skipWs (32 :: 34 :: (k ++ 34 :: 58 :: 32 :: (text ++ tail))) =
      34 :: (k ++ 34 :: 58 :: 32 :: (text ++ tail)) := by simp [skipWs, isWs]
  have hcolon : skipWs (58 :: 32 :: (text ++ tail)) = 58 :: 32 :: (text ++ tail) :=
    skipWs_cons_of_not (by decide) _
  rw [parseMembers, hquote]
  simp only [hkey n _ (by omega), hcolon, parseValue_space, hval n tail (by omega) htail]

theorem parseMembers_space (n : Nat) (text : List Byte) :
    parseMembers n (32 :: text) = parseMembers n text := by
  cases n with
  | zero => rfl
  | succ n =>
    have hskip : skipWs (32 :: text) = skipWs text := by simp [skipWs, isWs]
    rw [parseMembers, parseMembers, hskip]

end Json
