import PamSmsauth.Args

/-!
# One-time passwords (`otp.c`)

`otpText len type words` is the string `otp_gen` builds from the 64-bit words it reads from
`/dev/urandom`: the `i`-th character is `otp_type[number % strlen(otp_type)]`, the signed word
being converted to the unsigned type of `strlen`. `otpCmp` compares the stored and the typed text
with `strncmp` over `len` bytes.
-/

namespace PamSmsauth

open CText

/-- The return codes of the module. -/
inductive PamRet where
  | success | systemErr | userUnknown | authErr | authinfoUnavail | ignore
  deriving DecidableEq, Repr

def selectOtpType : OtpType → List Byte
  | .alphanum => lit "0123456789abcdefghijklmnopqrstuvwxyzABCDEFGHIJKLMNOPQRSTUVWXYZ"
  | .alpha => lit "abcdefghijklmnopqrstuvwxyzABCDEFGHIJKLMNOPQRSTUVWXYZ"
  | .num => lit "0123456789"

def otpChar (type : OtpType) (number : UInt64) : Byte :=
  (selectOtpType type).getD (number.toNat % (selectOtpType type).length) 0

theorem selectOtpType_isAlnum (type : OtpType) :
    ∀ b ∈ selectOtpType type, (isalpha b || isdigit b) = true := by
  cases type <;> decide +kernel

theorem otpChar_isAlnum (type : OtpType) (number : UInt64) :
    (isalpha (otpChar type number) || isdigit (otpChar type number)) = true := by
  have hlen : number.toNat % (selectOtpType type).length < (selectOtpType type).length :=
    Nat.mod_lt _ (by cases type <;> decide)
  rw [otpChar, List.getD_eq_getElem?_getD, List.getElem?_eq_getElem hlen]
  exact selectOtpType_isAlnum type _ (List.getElem_mem hlen)

/-- The bytes `otp_gen` writes before the terminator. -/
def otpBytes (len : Nat) (type : OtpType) (words : Nat → UInt64) : List Byte :=
  (List.range len).map fun i => otpChar type (words i)

@[simp] theorem length_otpBytes (len : Nat) (type : OtpType) (words : Nat → UInt64) :
    (otpBytes len type words).length = len := by
  simp [otpBytes]

theorem otpBytes_isAlnum (len : Nat) (type : OtpType) (words : Nat → UInt64) :
    ∀ b ∈ otpBytes len type words, (isalpha b || isdigit b) = true := by
  intro b hb
  simp only [otpBytes, List.mem_map] at hb
  obtain ⟨i, -, rfl⟩ := hb
  exact otpChar_isAlnum type _

theorem not_mem_otpBytes {len : Nat} {type : OtpType} {words : Nat → UInt64} {b : Byte}
    (hb : (isalpha b || isdigit b) = false) : b ∉ otpBytes len type words := by
  intro h
  rw [otpBytes_isAlnum len type words b h] at hb
  cases hb

/-- The generated password as a C string. -/
def otpText (len : Nat) (type : OtpType) (words : Nat → UInt64) : CString :=
  ⟨otpBytes len type words, not_mem_otpBytes (by decide)⟩

@[simp] theorem otpText_bytes (len : Nat) (type : OtpType) (words : Nat → UInt64) :
    (otpText len type words).bytes = otpBytes len type words := rfl

/-- `otp_cmp(otp_input, otp_gen, len)`. -/
def otpCmp (otpInput otpGen : List Byte) (len : Nat) : PamRet :=
  if strncmp otpGen otpInput len = 0 then .success else .authErr

theorem otpCmp_eq_success_iff (otpInput otpGen : List Byte) (len : Nat) :
    otpCmp otpInput otpGen len = .success ↔
      (cstr otpInput).take len = (cstr otpGen).take len := by
  unfold otpCmp
  simp only [strncmp_eq_zero_iff]
  split
  · rename_i h
    exact iff_of_true rfl h.symm
  · rename_i h
    exact iff_of_false (by simp) fun h' => h h'.symm

end PamSmsauth
