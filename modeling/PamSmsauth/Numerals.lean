import PamSmsauth.Settings

/-!
# Numbers in arguments

The value of `otplen=` and `expir=` goes through three conversions before it is compared with the
bounds: the scan stops after 31 digits, `strtol` saturates at a `long`, and the result is cut to an
`int`. For a numeral (`Numeral`) the value that comes out is `cut % 2 ^ 32` as long as `cut`, the
number of the first 31 digits, fits a `long` (`range_atoi_iff`). The bounds are therefore checked
against the number itself only for numerals that none of the conversions changes
(`numeral_exact_iff`).
-/

namespace PamSmsauth

open CText

theorem foldl_digits (ds : List Byte) (v : Nat) :
    ds.foldl (fun v d => 10 * v + (d.toNat - 48)) v = v * 10 ^ ds.length + digitsVal ds := by
  induction ds generalizing v with
  | nil => simp [digitsVal]
  | cons d ds ih =>
    rw [digitsVal, List.foldl_cons, List.foldl_cons, ih, ih, List.length_cons, pow_succ]
    ring

theorem digitsVal_append (as bs : List Byte) :
    digitsVal (as ++ bs) = digitsVal as * 10 ^ bs.length + digitsVal bs := by
  rw [digitsVal, List.foldl_append, foldl_digits]
  rfl

theorem strtol_digits {ds : List Byte} (h : ∀ b ∈ ds, isdigit b = true) :
    strtol ds = clampLong (digitsVal ds) := by
  cases ds with
  | nil => rfl
  | cons d ds =>
    obtain ⟨hsp, h45, h43⟩ := isdigit_ne (h d List.mem_cons_self)
    have htake := List.takeWhile_eq_self_iff.mpr h
    unfold strtol
    rw [List.dropWhile_cons_of_neg (by simp [hsp])]
    split
    · rename_i heq
      exact absurd (List.cons.inj heq).1 h45
    · rename_i heq
      exact absurd (List.cons.inj heq).1 h43
    · rw [htake]

/-- Which numbers come out of the conversions within small bounds, and as what. -/
theorem range_atoi_iff {n lo hi : Nat} (hlo : 1 ≤ lo) (hhi : hi < 2 ^ 31) :
    ((lo : Int) ≤ wrap32 (clampLong n) ∧ wrap32 (clampLong n) ≤ hi ↔
      n < 2 ^ 63 ∧ lo ≤ n % 2 ^ 32 ∧ n % 2 ^ 32 ≤ hi) ∧
    ((lo : Int) ≤ wrap32 (clampLong n) → (wrap32 (clampLong n)).toNat = n % 2 ^ 32) := by
  unfold wrap32 clampLong
  omega

/-! ## Numerals -/

structure Numeral where
  digits : List Byte
  ne_nil : digits ≠ []
  isdigit : ∀ b ∈ digits, isdigit b = true

namespace Numeral

variable (d : Numeral)

/-- The number denoted. -/
def val : Nat := digitsVal d.digits

/-- The number that the first 31 digits denote. -/
def cut : Nat := digitsVal (d.digits.take 31)

/-- The argument `name=digits`. -/
def arg (o : Opt) : CString where
  bytes := lit o.name ++ 61 :: d.digits
  nulFree := by
    intro h
    rcases List.mem_append.mp h with h | h
    · revert h
      cases o <;> decide
    · rcases List.mem_cons.mp h with h | h
      · cases h
      · exact absurd (d.isdigit 0 h) (by decide)

theorem cut_of_short (h : d.digits.length ≤ 31) : d.cut = d.val := by
  rw [cut, List.take_of_length_le h, val]

theorem ten_mul_cut_le (h : 31 < d.digits.length) : 10 * d.cut ≤ d.val := by
  have hval : d.val = d.cut * 10 ^ (d.digits.drop 31).length + digitsVal (d.digits.drop 31) := by
    rw [cut, ← digitsVal_append, List.take_append_drop, val]
  obtain ⟨m, hm⟩ : ∃ m, (d.digits.drop 31).length = m + 1 :=
    ⟨d.digits.length - 32, by rw [List.length_drop]; omega⟩
  have hpow : 10 ≤ 10 ^ (m + 1) := Nat.le_self_pow (by omega) 10
  rw [hval, hm]
  calc 10 * d.cut = d.cut * 10 := Nat.mul_comm _ _
    _ ≤ d.cut * 10 ^ (m + 1) := Nat.mul_le_mul_left _ hpow
    _ ≤ d.cut * 10 ^ (m + 1) + digitsVal (d.digits.drop 31) := Nat.le_add_right _ _

theorem scannedName_digits : scannedName d.digits = d.digits.take 31 := by
  have hdigit : ∀ b : Byte, CText.isdigit b = true → b ≠ 32 ∧ b ≠ 10 ∧ b ≠ 61 := fun b hb =>
    isdigit_cases (P := fun b => b ≠ 32 ∧ b ≠ 10 ∧ b ≠ 61) (by decide +kernel) hb
  have hskip : scanSet 30 (fun b => b = 32 || b = 61) d.digits = [] := by
    obtain ⟨b, ds, hb⟩ := List.exists_cons_of_ne_nil d.ne_nil
    have hfirst := hdigit b (d.isdigit b (by rw [hb]; exact List.mem_cons_self))
    rw [hb, scanSet_eq_take, List.takeWhile_cons_of_neg (by simp [hfirst])]
    rfl
  rw [scannedName, hskip, List.length_nil, List.drop_zero, scanSet_eq_take,
    List.takeWhile_eq_self_iff.mpr]
  intro b hb
  simp [hdigit b (d.isdigit b hb)]

theorem parseArgs_arg (o : Opt) : parseArgs (d.arg o) = some (d.digits.take 31) := by
  have h := parseArgs_of_name (a := d.arg o) (o := o) rfl
  rw [d.scannedName_digits, if_neg] at h
  · exact h
  · rw [List.take_eq_nil_iff]
    exact fun hnil => hnil.elim (by decide) d.ne_nil

theorem atoi_take : atoi (d.digits.take 31) = wrap32 (clampLong d.cut) := by
  rw [atoi, strtol_digits fun b hb => d.isdigit b (List.mem_of_mem_take hb), cut]

theorem isdigit_headD : CText.isdigit ((d.digits.take 31).headD 0) = true := by
  obtain ⟨b, ds, hb⟩ := List.exists_cons_of_ne_nil d.ne_nil
  rw [hb]
  exact d.isdigit b (by rw [hb]; exact List.mem_cons_self)

theorem numberIn_take {lo hi : Nat} (hlo : 1 ≤ lo) (hhi : hi < 2 ^ 31) :
    (numberIn lo hi (d.digits.take 31)).isSome = true ↔
      d.cut < 2 ^ 63 ∧ lo ≤ d.cut % 2 ^ 32 ∧ d.cut % 2 ^ 32 ≤ hi := by
  rw [← (range_atoi_iff hlo hhi).1, ← d.atoi_take, numberIn]
  simp only [d.isdigit_headD, true_and]
  split
  · rename_i h
    simp [h]
  · rename_i h
    simp [h]

/-! ## The two options with a number -/

/-- The list of the one argument `name=digits` is accepted just when the number is in range, and
then the member is the number. -/
def TakenAtValue (o : Opt) (lo hi : Nat) (get : PamSmsauthArg → Nat) : Prop :=
  ((parse [d.arg o]).result = .ok ↔ lo ≤ d.val ∧ d.val ≤ hi) ∧
    ((parse [d.arg o]).result = .ok → get (parse [d.arg o]).arg = d.val)

/-- The number is in range and has at most 31 digits; or it is out of range, and so is what the
conversions make of its first 31 digits. -/
def Exact (lo hi : Nat) : Prop :=
  (lo ≤ d.val ∧ d.val ≤ hi ∧ d.digits.length ≤ 31) ∨
    (¬ (lo ≤ d.val ∧ d.val ≤ hi) ∧
      (2 ^ 63 ≤ d.cut ∨ ¬ (lo ≤ d.cut % 2 ^ 32 ∧ d.cut % 2 ^ 32 ≤ hi)))

theorem exact_iff {lo hi : Nat} (hlo : 1 ≤ lo) (hhi : hi < 2 ^ 31) : d.Exact lo hi ↔
    (d.cut < 2 ^ 63 ∧ lo ≤ d.cut % 2 ^ 32 ∧ d.cut % 2 ^ 32 ≤ hi ↔ lo ≤ d.val ∧ d.val ≤ hi) ∧
    (d.cut < 2 ^ 63 ∧ lo ≤ d.cut % 2 ^ 32 ∧ d.cut % 2 ^ 32 ≤ hi → d.cut % 2 ^ 32 = d.val) := by
  unfold Exact
  rcases Nat.lt_or_ge 31 d.digits.length with hlong | hshort
  · -- A number in range with more than 31 digits loses its last digit: it is not itself any more.
    have hcut := d.ten_mul_cut_le hlong
    omega
  · have hcut := d.cut_of_short hshort
    omega

variable {d}

theorem parse_arg_result (o : Opt) : (parse [d.arg o]).result = .ok ↔ accepts (d.arg o) = true := by
  rw [(parse_eq_foldl _).2, List.forall_mem_singleton]

theorem accepts_arg {o : Opt} : accepts (d.arg o) = o.checks (d.arg o) := by
  rw [accepts, optOf_of_name (o := o) rfl]
  rfl

theorem lastWins_arg {o : Opt} (h : (parse [d.arg o]).result = .ok) :
    LastWins [d.arg o] (parse [d.arg o]).arg (parse [d.arg o]).flags ∧
      scanned o [d.arg o] = some (d.digits.take 31) := by
  have hlast := lastWins_parse [d.arg o]
  rw [List.takeWhile_cons_of_pos ((parse_arg_result o).mp h)] at hlast
  refine ⟨hlast, ?_⟩
  have hopt : optOf (d.arg o) = some o := optOf_of_name rfl
  rw [scanned, lastOf, List.filter_cons_of_pos (by simp [hopt])]
  exact d.parseArgs_arg o

theorem takenAtValue_iff {o : Opt} {lo hi : Nat} {get : PamSmsauthArg → Nat} (hlo : 1 ≤ lo)
    (hhi : hi < 2 ^ 31)
    (hchecks : ∀ a, o.checks a = ((parseArgs a).bind (numberIn lo hi)).isSome)
    (hget : ∀ l arg flags val, LastWins l arg flags → scanned o l = some val →
      get arg = (atoi val).toNat) :
    d.TakenAtValue o lo hi get ↔ d.Exact lo hi := by
  have hok : (parse [d.arg o]).result = .ok ↔
      d.cut < 2 ^ 63 ∧ lo ≤ d.cut % 2 ^ 32 ∧ d.cut % 2 ^ 32 ≤ hi := by
    rw [parse_arg_result, accepts_arg, hchecks, d.parseArgs_arg, Option.bind_some,
      d.numberIn_take hlo hhi]
  have hvalue : (parse [d.arg o]).result = .ok → get (parse [d.arg o]).arg = d.cut % 2 ^ 32 := by
    intro h
    obtain ⟨hlast, hscanned⟩ := lastWins_arg h
    rw [hget _ _ _ _ hlast hscanned, d.atoi_take]
    exact (range_atoi_iff hlo hhi).2 ((range_atoi_iff hlo hhi).1.mpr (hok.mp h)).1
  rw [d.exact_iff hlo hhi, TakenAtValue, ← hok]
  apply and_congr_right
  intro _
  constructor
  · intro h hacc
    rw [← hvalue hacc, h hacc]
  · intro h hacc
    rw [hvalue hacc, h hacc]

end Numeral

theorem numeral_exact_iff (d : Numeral) :
    (d.TakenAtValue .otplen 4 24 PamSmsauthArg.otpLen ↔ d.Exact 4 24) ∧
    (d.TakenAtValue .expir 1 60 PamSmsauthArg.timeExpir ↔ d.Exact 1 60) := by
  constructor
  · apply Numeral.takenAtValue_iff (by decide) (by decide) (fun a => rfl)
    intro l arg flags val hlast hval
    rw [hlast.otpLen, hval]
    rfl
  · apply Numeral.takenAtValue_iff (by decide) (by decide) (fun a => rfl)
    intro l arg flags val hlast hval
    rw [hlast.timeExpir, hval]
    rfl

/-- `2 ^ 32 + 5`. -/
def overflowing : Numeral where
  digits := lit "4294967301"
  ne_nil := by decide
  isdigit := by decide +kernel

/-- `otplen=4294967301` is accepted as 5. -/
theorem numeral_not_exact :
    ¬ ∀ d : Numeral, d.TakenAtValue .otplen 4 24 PamSmsauthArg.otpLen ∧
      d.TakenAtValue .expir 1 60 PamSmsauthArg.timeExpir := by
  intro h
  have hrange := (h overflowing).1.1.mp (by decide)
  exact absurd hrange (by decide)

end PamSmsauth
