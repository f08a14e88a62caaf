import Mathlib.Data.List.TakeWhile
import Mathlib.Data.Nat.Digits.Lemmas
import Mathlib.Tactic.IntervalCases

/-!
# C strings, C integers and their decimal texts

A C string is the bytes of a buffer up to its first NUL (`cstr`); a `CString` is a text with no
NUL in it, so that the buffer holding it denotes exactly it. `strncmp`, `strncpy` and `snprintf`
are the libc functions on buffers, the last one after formatting: it keeps what fits. `strtol`
saturates at a 64-bit `long`; `atoi` is its low 32 bits. Printing a number and reading it back
gives the saturated number (`strtol_decimal`).
-/

namespace CText

abbrev Byte := UInt8

/-- The bytes of an ASCII literal. -/
def lit (s : String) : List Byte := s.toList.map fun c => c.toNat.toUInt8

/-- What a reader of the buffer sees: the bytes before the first NUL. -/
def cstr (b : List Byte) : List Byte := b.takeWhile (· ≠ 0)

/-- A text without a NUL: what a `char *` argument can carry. -/
@[ext] structure CString where
  bytes : List Byte
  nulFree : (0 : Byte) ∉ bytes
  deriving DecidableEq

def CString.ofLit (s : String) (h : (0 : Byte) ∉ lit s := by decide) : CString := ⟨lit s, h⟩

theorem cstr_of_nulFree {b : List Byte} (h : (0 : Byte) ∉ b) : cstr b = b := by
  unfold cstr
  rw [List.takeWhile_eq_self_iff]
  intro x hx
  simp only [ne_eq, decide_not, Bool.not_eq_eq_eq_not, Bool.not_true, decide_eq_false_iff_not]
  rintro rfl
  exact h hx

@[simp] theorem CString.cstr_bytes (s : CString) : cstr s.bytes = s.bytes :=
  cstr_of_nulFree s.nulFree

theorem nul_not_mem_cstr (b : List Byte) : (0 : Byte) ∉ cstr b := by
  intro h
  simpa using List.mem_takeWhile_imp h

/-- A NUL-free prefix and what follows its terminator in the buffer. -/
theorem cstr_append_nul {s : List Byte} (h : (0 : Byte) ∉ s) (rest : List Byte) :
    cstr (s ++ 0 :: rest) = s := by
  unfold cstr
  rw [List.takeWhile_append_of_pos, List.takeWhile_cons_of_neg] <;> simp
  rintro x hx rfl
  exact h hx

/-! ## `strncmp`, `strncpy`, `snprintf` -/

/-- `strncmp(a, b, n)`; past its end a buffer reads as its terminator. -/
def strncmp : List Byte → List Byte → Nat → Int
  | _, _, 0 => 0
  | a, b, n + 1 =>
    if a.headD 0 ≠ b.headD 0 then (a.headD 0).toNat - (b.headD 0).toNat
    else if a.headD 0 = 0 then 0
    else strncmp a.tail b.tail n

theorem cstr_cons (x : Byte) (xs : List Byte) :
    cstr (x :: xs) = if x = 0 then [] else x :: cstr xs := by
  by_cases h : x = 0 <;> simp [cstr, h]

theorem strncmp_eq_zero_iff (a b : List Byte) (n : Nat) :
    strncmp a b n = 0 ↔ (cstr a).take n = (cstr b).take n := by
  induction n generalizing a b with
  | zero => simp [strncmp]
  | succ n ih =>
    have hne : ∀ x y : Byte, x ≠ y → (x.toNat : Int) - y.toNat ≠ 0 := by
      intro x y hxy h
      exact hxy (UInt8.toNat_inj.mp (by omega))
    cases a with
    | nil =>
      cases b with
      | nil => simp [strncmp, cstr]
      | cons y ys =>
        by_cases hy : y = 0
        · simp [strncmp, cstr, hy]
        · have := hne 0 y (Ne.symm hy)
          simp [strncmp, hy, Ne.symm hy, cstr] at this ⊢
          exact this
    | cons x xs =>
      cases b with
      | nil =>
        by_cases hx : x = 0
        · simp [strncmp, cstr, hx]
        · have := hne x 0 hx
          simp [strncmp, hx, cstr] at this ⊢
          exact this
      | cons y ys =>
        by_cases hxy : x = y
        · subst hxy
          by_cases hx : x = 0
          · simp [strncmp, cstr_cons, hx]
          · simp [strncmp, cstr_cons, hx, ih]
        · have := hne x y hxy
          simp only [strncmp, List.headD_cons, ne_eq, hxy, not_false_eq_true, if_true, cstr_cons]
          refine iff_of_false this ?_
          by_cases hx : x = 0 <;> by_cases hy : y = 0 <;> simp [hx, hy, hxy]
          exact absurd (hx.trans hy.symm) hxy

/-- `strncpy(dst, src, n)`: the `n` bytes it leaves in `dst`. -/
def strncpy (src : List Byte) (n : Nat) : List Byte :=
  (cstr src).take n ++ List.replicate (n - (cstr src).length) 0

@[simp] theorem length_strncpy (src : List Byte) (n : Nat) : (strncpy src n).length = n := by
  simp [strncpy]; omega

/-- A text that is shorter than the array it is copied to is terminated there. -/
theorem strncpy_eq_append_nul {src : List Byte} {n : Nat} (h0 : (0 : Byte) ∉ src)
    (h : src.length < n) : ∃ pad, strncpy src n = src ++ 0 :: pad := by
  refine ⟨List.replicate (n - src.length - 1) 0, ?_⟩
  rw [strncpy, cstr_of_nulFree h0, List.take_of_length_le (by omega), ← List.replicate_succ]
  congr 2
  omega

theorem nul_mem_strncpy_iff (src : List Byte) (n : Nat) :
    (0 : Byte) ∈ strncpy src n ↔ (cstr src).length < n := by
  have htake : (0 : Byte) ∉ (cstr src).take n := fun h =>
    nul_not_mem_cstr src (List.mem_of_mem_take h)
  rw [strncpy, List.mem_append, or_iff_right htake, List.mem_replicate, and_iff_left rfl]
  omega

/-- An array with a NUL in it is read to the same end whatever lies behind it. -/
theorem nul_mem_iff (b : List Byte) : (0 : Byte) ∈ b ↔ ∀ rest, cstr (b ++ rest) = cstr b := by
  constructor
  · intro h rest
    obtain ⟨s, t, rfl, hs⟩ := List.eq_append_cons_of_mem h
    rw [List.append_assoc, List.cons_append, cstr_append_nul hs, cstr_append_nul hs]
  · intro h
    by_contra hnul
    have hone := h [1]
    rw [cstr_of_nulFree hnul, cstr_of_nulFree (by simp [hnul])] at hone
    simp at hone

/-- What `snprintf` leaves in a buffer of `size` bytes of the formatted text. -/
def snprintf (size : Nat) (text : List Byte) : List Byte := text.take (size - 1)

/-! ## Characters -/

/-- White space of the C locale. -/
def isspace (b : Byte) : Bool := b = 32 || (9 ≤ b && b ≤ 13)

def isdigit (b : Byte) : Bool := 48 ≤ b && b ≤ 57

def isalpha (b : Byte) : Bool := (65 ≤ b && b ≤ 90) || (97 ≤ b && b ≤ 122)

/-! ## Integers -/

/-- Conversion to a 32-bit `int`. -/
def wrap32 (z : Int) : Int := (z + 2 ^ 31) % 2 ^ 32 - 2 ^ 31

/-- The range of `int`. -/
def InInt (z : Int) : Prop := -2 ^ 31 ≤ z ∧ z < 2 ^ 31

instance (z : Int) : Decidable (InInt z) := inferInstanceAs (Decidable (_ ∧ _))

theorem wrap32_inInt (z : Int) : InInt (wrap32 z) := by
  unfold InInt wrap32; omega

theorem wrap32_of_inInt {z : Int} (h : InInt z) : wrap32 z = z := by
  unfold InInt at h; unfold wrap32; omega

/-- Saturation at a 64-bit `long`. -/
def clampLong (z : Int) : Int := max (-2 ^ 63) (min z (2 ^ 63 - 1))

theorem clampLong_of_range {z : Int} (h1 : -2 ^ 63 ≤ z) (h2 : z < 2 ^ 63) : clampLong z = z := by
  unfold clampLong; omega

theorem clampLong_of_inInt {z : Int} (h : InInt z) : clampLong z = z := by
  unfold InInt at h; exact clampLong_of_range (by omega) (by omega)

/-- The number a run of decimal digits denotes. -/
def digitsVal (ds : List Byte) : Nat := ds.foldl (fun v d => 10 * v + (d.toNat - 48)) 0

/-- `strtol(s, NULL, 10)`. -/
def strtol (s : List Byte) : Int :=
  match s.dropWhile isspace with
  | 45 :: r => clampLong (-(digitsVal (r.takeWhile isdigit) : Int))
  | 43 :: r => clampLong (digitsVal (r.takeWhile isdigit))
  | r => clampLong (digitsVal (r.takeWhile isdigit))

def atol (s : List Byte) : Int := strtol s

def atoi (s : List Byte) : Int := wrap32 (strtol s)

theorem atoi_inInt (s : List Byte) : InInt (atoi s) := wrap32_inInt _

/-- The digits of `n`, most significant first. -/
def decimalNat (n : Nat) : List Byte :=
  if n = 0 then [48] else (Nat.digits 10 n).reverse.map fun d => (48 + d).toUInt8

/-- What `%d`, `%ld` and `%lld` print. -/
def decimal (z : Int) : List Byte :=
  if z < 0 then 45 :: decimalNat z.natAbs else decimalNat z.natAbs

theorem toNat_digit {d : Nat} (h : d < 10) : ((48 + d).toUInt8).toNat = 48 + d := by
  simp; omega

theorem decimalNat_isdigit (n : Nat) : ∀ b ∈ decimalNat n, isdigit b = true := by
  intro b hb
  unfold decimalNat at hb
  split at hb
  · simp only [List.mem_singleton] at hb
    subst hb; rfl
  · simp only [List.mem_map, List.mem_reverse] at hb
    obtain ⟨d, hd, rfl⟩ := hb
    have hd : d < 10 := Nat.digits_lt_base (by decide) hd
    have := toNat_digit hd
    simp only [isdigit, Bool.and_eq_true, decide_eq_true_eq, UInt8.le_iff_toNat_le]
    rw [this]
    exact ⟨by simp, by simp; omega⟩

theorem digitsVal_map (l : List Nat) (h : ∀ d ∈ l, d < 10) :
    digitsVal (l.reverse.map fun d => (48 + d).toUInt8) = Nat.ofDigits 10 l := by
  induction l with
  | nil => rfl
  | cons d l ih =>
    have hd := toNat_digit (h d (by simp))
    have hl := ih fun x hx => h x (by simp [hx])
    simp only [digitsVal, List.reverse_cons, List.map_append, List.map_cons, List.map_nil,
      List.foldl_append, List.foldl_cons, List.foldl_nil, Nat.ofDigits_cons] at hl ⊢
    rw [hl, hd]
    omega

theorem digitsVal_decimalNat (n : Nat) : digitsVal (decimalNat n) = n := by
  unfold decimalNat
  split
  · subst n; rfl
  · rw [digitsVal_map _ fun d hd => Nat.digits_lt_base (by decide) hd, Nat.ofDigits_digits]

theorem decimalNat_ne_nil (n : Nat) : decimalNat n ≠ [] := by
  unfold decimalNat
  split
  · simp
  · rename_i hn
    simpa [Nat.digits_eq_nil_iff_eq_zero] using hn

theorem isdigit_ne {b : Byte} (h : isdigit b = true) : isspace b = false ∧ b ≠ 45 ∧ b ≠ 43 := by
  revert h
  simp only [isdigit, isspace, Bool.and_eq_true, decide_eq_true_eq, UInt8.le_iff_toNat_le,
    Bool.or_eq_false_iff, decide_eq_false_iff_not, ← UInt8.toNat_inj, Bool.and_eq_false_iff, ne_eq,
    UInt8.reduceToNat]
  omega

theorem decimalNat_cons (n : Nat) : ∃ d ds, decimalNat n = d :: ds ∧ isdigit d = true ∧
    ∀ b ∈ ds, isdigit b = true := by
  have hdig := decimalNat_isdigit n
  obtain ⟨d, ds, hd⟩ := List.exists_cons_of_ne_nil (decimalNat_ne_nil n)
  rw [hd] at hdig
  exact ⟨d, ds, hd, hdig d (by simp), fun b hb => hdig b (by simp [hb])⟩

theorem decimal_cons (i : Int) : ∃ d ds, decimal i = d :: ds ∧ (isdigit d = true ∨ d = 45) ∧
    ∀ b ∈ ds, isdigit b = true := by
  obtain ⟨d, ds, hnat, hfirst, hdig⟩ := decimalNat_cons i.natAbs
  rw [decimal, hnat]
  split
  · exact ⟨45, d :: ds, rfl, .inr rfl, by simpa [hfirst] using hdig⟩
  · exact ⟨d, ds, rfl, .inl hfirst, hdig⟩

/-- A number is printed without a leading zero. -/
theorem decimalNat_head (n : Nat) (h : (decimalNat n).head? = some 48) : decimalNat n = [48] := by
  by_cases hn : n = 0
  · subst hn; rfl
  · exfalso
    have hne : Nat.digits 10 n ≠ [] := Nat.digits_ne_nil_iff_ne_zero.mpr hn
    have hlast := Nat.getLast_digit_ne_zero 10 hn
    have hlt : (Nat.digits 10 n).getLast hne < 10 :=
      Nat.digits_lt_base (by decide) (List.getLast_mem hne)
    rw [decimalNat, if_neg hn, List.head?_map, List.head?_reverse,
      List.getLast?_eq_some_getLast hne, Option.map_some, Option.some.injEq] at h
    have hval := toNat_digit hlt
    rw [h] at hval
    have : (48 : Byte).toNat = 48 := rfl
    omega

/-- A byte is its number. -/
theorem byte_cases {P : Byte → Prop} (h : ∀ n < 256, P n.toUInt8) (b : Byte) : P b := by
  have := h b.toNat b.toNat_lt
  simpa using this

/-- What holds of the ten digits. -/
theorem isdigit_cases {P : Byte → Prop} (h : ∀ b ∈ lit "0123456789", P b) {b : Byte}
    (hb : isdigit b = true) : P b := by
  apply h
  simp only [isdigit, Bool.and_eq_true, decide_eq_true_eq, UInt8.le_iff_toNat_le,
    UInt8.reduceToNat] at hb
  have hmem : ∀ n, 48 ≤ n → n ≤ 57 → n.toUInt8 ∈ lit "0123456789" := by
    intro n h1 h2
    interval_cases n <;> decide
  have := hmem b.toNat hb.1 hb.2
  simpa using this

theorem decimal_ascii (i : Int) : ∀ b ∈ decimal i, b < 0x80 := by
  obtain ⟨d, ds, hd, hfirst, hrest⟩ := decimal_cons i
  have hdigit : ∀ b : Byte, isdigit b = true → b < 0x80 := fun b hb =>
    isdigit_cases (P := fun b => b < 0x80) (by decide +kernel) hb
  intro b hb
  rw [hd] at hb
  rcases List.mem_cons.mp hb with rfl | hb
  · rcases hfirst with hfirst | rfl
    · exact hdigit b hfirst
    · decide
  · exact hdigit b (hrest b hb)

/-- Printing and reading back saturates at `long`. -/
theorem strtol_decimal (z : Int) : strtol (decimal z) = clampLong z := by
  obtain ⟨d, ds, hd⟩ := List.exists_cons_of_ne_nil (decimalNat_ne_nil z.natAbs)
  have hdig := decimalNat_isdigit z.natAbs
  have htake : (decimalNat z.natAbs).takeWhile isdigit = decimalNat z.natAbs :=
    List.takeWhile_eq_self_iff.mpr hdig
  have hval := digitsVal_decimalNat z.natAbs
  unfold strtol decimal
  split_ifs with hz
  · rw [List.dropWhile_cons_of_neg (by decide)]
    simp only [htake, hval]
    congr 1; omega
  · obtain ⟨hsp, h45, h43⟩ := isdigit_ne (hdig d (by simp [hd]))
    rw [hd] at htake hval ⊢
    rw [List.dropWhile_cons_of_neg (by simp [hsp])]
    split
    · rename_i h; simp at h; exact absurd h.1 h45
    · rename_i h; simp at h; exact absurd h.1 h43
    · rw [htake, hval]
      congr 1; omega

theorem atoi_decimal {z : Int} (h : InInt z) : atoi (decimal z) = z := by
  rw [atoi, strtol_decimal, clampLong_of_inInt h, wrap32_of_inInt h]

theorem length_decimalNat_le {n k : Nat} (hk : 0 < k) (h : n < 10 ^ k) :
    (decimalNat n).length ≤ k := by
  unfold decimalNat
  split
  · simpa using Nat.succ_le_of_lt hk
  · simp only [List.length_map, List.length_reverse]
    exact (Nat.digits_length_le_iff (by decide) n).mpr h

theorem length_decimal_le {z : Int} (h : InInt z) : (decimal z).length ≤ 11 := by
  unfold InInt at h
  have := length_decimalNat_le (n := z.natAbs) (k := 10) (by decide) (by omega)
  unfold decimal
  split
  · simp; omega
  · omega

theorem length_decimal_le_of_nonneg {z : Int} (h0 : 0 ≤ z) (h : InInt z) :
    (decimal z).length ≤ 10 := by
  unfold InInt at h
  rw [decimal, if_neg (by omega)]
  exact length_decimalNat_le (by decide) (by omega)

end CText
