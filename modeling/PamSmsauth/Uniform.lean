import PamSmsauth.Flow
import PamSmsauth.Lib.Spread

/-!
# The generated passwords

A word of `/dev/urandom` becomes a character by its remainder modulo the size `k` of the alphabet.
The alphabets repeat no character, so each of their characters is the image of 2^64 / k words or of
one more (`spreads_otpChar`), and each password over the alphabet the image of between the powers of
these two numbers of word sequences (`otp_gen_near_uniform`).
-/

namespace PamSmsauth

open CText Eff Spread

/-- `strlen(otp_type)`. -/
def alphabetSize : OtpType → Nat
  | .alphanum => 62
  | .alpha => 52
  | .num => 10

theorem length_selectOtpType (type : OtpType) :
    (selectOtpType type).length = alphabetSize type := by
  cases type <;> rfl

theorem alphabetSize_pos (type : OtpType) : 0 < alphabetSize type := by
  cases type <;> decide

theorem selectOtpType_nodup (type : OtpType) : (selectOtpType type).Nodup := by
  cases type <;> decide +kernel

/-! ## One character -/

/-- The character at a position of the alphabet. -/
def charAt (type : OtpType) (r : Nat) : Byte := (selectOtpType type).getD r 0

theorem charAt_eq {type : OtpType} {r : Nat} (hr : r < (selectOtpType type).length) :
    charAt type r = (selectOtpType type)[r] := by
  rw [charAt, List.getD_eq_getElem?_getD, List.getElem?_eq_getElem hr, Option.getD_some]

theorem charAt_injOn (type : OtpType) : Set.InjOn (charAt type) (Set.Iio (alphabetSize type)) := by
  intro r hr s hs h
  rw [Set.mem_Iio, ← length_selectOtpType] at hr hs
  rw [charAt_eq hr, charAt_eq hs] at h
  exact (selectOtpType_nodup type).getElem_inj_iff.mp h

theorem charAt_image (type : OtpType) :
    charAt type '' Set.Iio (alphabetSize type) = {b | b ∈ selectOtpType type} := by
  apply Set.ext
  intro b
  constructor
  · rintro ⟨r, hr, rfl⟩
    rw [Set.mem_Iio, ← length_selectOtpType] at hr
    show charAt type r ∈ selectOtpType type
    rw [charAt_eq hr]
    exact List.getElem_mem hr
  · intro hb
    obtain ⟨r, hr, rfl⟩ := List.getElem_of_mem hb
    exact ⟨r, by rwa [Set.mem_Iio, ← length_selectOtpType], charAt_eq hr⟩

/-- The words as the numbers below 2^64. -/
def wordEquiv : UInt64 ≃ Fin (2 ^ 64) := ⟨UInt64.toFin, UInt64.ofFin, fun _ => rfl, fun _ => rfl⟩

theorem otpChar_eq (type : OtpType) :
    otpChar type = fun number => charAt type ((wordEquiv number).val % alphabetSize type) := by
  funext number
  rw [← length_selectOtpType]
  rfl

theorem spreads_otpChar (type : OtpType) :
    Spreads (otpChar type) {b | b ∈ selectOtpType type} (2 ^ 64 / alphabetSize type)
      (2 ^ 64 / alphabetSize type + 1) := by
  have hwords := (spreads_mod (2 ^ 64) (k := alphabetSize type)).comp_equiv wordEquiv
  rw [otpChar_eq, ← charAt_image]
  exact hwords.comp_left (fun _ => Nat.mod_lt _ (alphabetSize_pos type)) (charAt_injOn type)

theorem otpChar_mem (type : OtpType) (number : UInt64) :
    otpChar type number ∈ selectOtpType type := by
  have hmem : otpChar type number ∈ charAt type '' Set.Iio (alphabetSize type) := by
    rw [otpChar_eq]
    exact Set.mem_image_of_mem _ (Nat.mod_lt _ (alphabetSize_pos type))
  rwa [charAt_image] at hmem

/-! ## A password -/

/-- What `otp_gen` returns in a call whose reads of `/dev/urandom` deliver the words `w`. -/
def generated (c : Call) (T : Table) (len : Nat) (type : OtpType) (w : Fin len → UInt64) :
    Option CString :=
  ((otpGen len type).run
    { c with words := some fun i => if h : i < len then w ⟨i, h⟩ else 0 : Call }.handler T).1

theorem generated_eq_some_iff (c : Call) (T : Table) {len : Nat} {type : OtpType}
    {w : Fin len → UInt64} {s : CString} :
    generated c T len type w = some s ↔ (List.ofFn fun i => otpChar type (w i)) = s.bytes := by
  have hbytes : otpBytes len type (fun i => if h : i < len then w ⟨i, h⟩ else 0) =
      List.ofFn fun i => otpChar type (w i) := by
    rw [otpBytes, List.ofFn_eq_map, ← List.map_coe_finRange_eq_range, List.map_map]
    apply List.map_congr_left
    intro i _
    simp
  rw [generated, Call.otpGen_run, Option.map_some, Option.some_inj, CString.ext_iff, otpText_bytes,
    hbytes]

/-- The passwords of a length, by the word sequences that give them. -/
theorem card_generated (c : Call) (T : Table) (type : OtpType) (s : CString) :
    Nat.card {w : Fin s.bytes.length → UInt64 // generated c T s.bytes.length type w = some s} =
      fiberCard (fun w : Fin s.bytes.length → UInt64 => fun i => otpChar type (w i))
        s.bytes.get := by
  have hiff (w : Fin s.bytes.length → UInt64) :
      generated c T s.bytes.length type w = some s ↔
        (fun i => otpChar type (w i)) = s.bytes.get := by
    rw [generated_eq_some_iff, ← List.ofFn_injective.eq_iff, List.ofFn_get]
  exact Nat.card_congr (Equiv.subtypeEquivRight hiff)

theorem otp_gen_near_uniform (c : Call) (T : Table) (len : Nat) (type : OtpType) :
    (∀ w : Fin len → UInt64, ∃ s, generated c T len type w = some s ∧ s.bytes.length = len ∧
      ∀ b ∈ s.bytes, b ∈ selectOtpType type) ∧
    (selectOtpType type).length = alphabetSize type ∧
    ∀ s : CString, s.bytes.length = len → (∀ b ∈ s.bytes, b ∈ selectOtpType type) →
      (2 ^ 64 / alphabetSize type) ^ len ≤
          Nat.card {w : Fin len → UInt64 // generated c T len type w = some s} ∧
        Nat.card {w : Fin len → UInt64 // generated c T len type w = some s} ≤
          (2 ^ 64 / alphabetSize type + 1) ^ len := by
  refine ⟨fun w => ?_, length_selectOtpType type, ?_⟩
  · refine ⟨_, rfl, length_otpBytes _ _ _, ?_⟩
    intro b hb
    obtain ⟨i, -, rfl⟩ := List.mem_map.mp hb
    exact otpChar_mem type _
  · rintro s rfl hs
    have hspread := (spreads_otpChar type).pi s.bytes.get fun i => hs _ (List.get_mem _ i)
    rw [Fintype.card_fin] at hspread
    rw [card_generated]
    exact hspread

end PamSmsauth
