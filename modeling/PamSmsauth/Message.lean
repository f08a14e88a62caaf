import PamSmsauth.Call

/-!
# The message and the password in it

`sms_send` formats `** otp **` into 24 bytes. Three limits meet here: a password has `otp_len`
characters, up to 24; the buffer keeps 20 of them (`smsText_eq`); and `otp_cmp` asks for `otp_len`.
What the user sees between the asterisks is the first 20 characters (`shown_smsText`), so a sent
password can be used exactly when `otp_len` is at most 20 (`sent_usable_iff`).
-/

namespace PamSmsauth

open CText Eff

/-! ## What the user sees -/

/-- An asterisk or a blank. -/
def isMark (b : Byte) : Bool := b = 42 || b = 32

/-- The characters between the asterisks of a message. -/
def shown (sms : List Byte) : List Byte := (sms.dropWhile isMark).takeWhile fun b => !isMark b

theorem isMark_of_isAlnum {b : Byte} (h : (isalpha b || isdigit b) = true) : isMark b = false := by
  by_contra hm
  rw [Bool.not_eq_false, isMark, Bool.or_eq_true, decide_eq_true_eq, decide_eq_true_eq] at hm
  rcases hm with rfl | rfl <;> revert h <;> decide

theorem smsText_eq (otp : List Byte) :
    smsText otp = lit "** " ++ (otp.take 20 ++ (lit " **").take (20 - otp.length)) := by
  rw [← List.take_append, smsText, snprintf, List.append_assoc]
  rfl

theorem shown_smsText {otp : List Byte} (h : ∀ b ∈ otp, isMark b = false) (hne : otp ≠ []) :
    shown (smsText otp) = otp.take 20 := by
  have htail : ∀ n, ((lit " **").take n).takeWhile (fun b => !isMark b) = [] := by
    intro n
    cases n <;> rfl
  have hdrop : (smsText otp).dropWhile isMark =
      otp.take 20 ++ (lit " **").take (20 - otp.length) := by
    obtain ⟨b, bs, rfl⟩ := List.exists_cons_of_ne_nil hne
    have hb : isMark b = false := h b (by simp)
    have hlit : lit "** " = [42, 42, 32] := rfl
    simp [smsText_eq, hlit, hb, show isMark 42 = true from rfl, show isMark 32 = true from rfl]
  rw [shown, hdrop, List.takeWhile_append_of_pos, htail, List.append_nil]
  intro b hb
  simp [h b (List.mem_of_mem_take hb)]

/-! ## What can be used -/

/-- With these arguments every generated password is complete in the request that `sms_send` makes
of it, and what the request shows, typed in, is accepted by `otp_cmp` against the stored password
(`buf` is what the buffer held that it is read into). -/
def SentUsable (argv : List CString) : Prop :=
  ∀ (words : Nat → UInt64) (user : UserInfo) (sockPath : List Byte) (req : JsonPacketReq)
    (k : Option SendFailure → PamProg SmsResult) (buf : List Byte),
    let arg := (parse argv).arg
    let otp := otpText arg.otpLen arg.otpType words
    smsSend sockPath user otp = .ask (Op.smsRequest sockPath req) k →
      otp.bytes <:+: req.sms ∧
        otpCmp (shown req.sms) (fillBuffer otp.bytes buf) arg.otpLen = .success

/-- A sent password can be used exactly when it fits the message. -/
theorem sent_usable_iff (argv : List CString) : SentUsable argv ↔ (parse argv).arg.otpLen ≤ 20 := by
  obtain ⟨hmin, hmax, -⟩ := parse_inv argv
  have hmark : ∀ len type words, ∀ b ∈ otpBytes len type words, isMark b = false :=
    fun len type words b hb => isMark_of_isAlnum (otpBytes_isAlnum len type words b hb)
  have hne : ∀ type words, otpBytes (parse argv).arg.otpLen type words ≠ [] := by
    intro type words h
    have := congrArg List.length h
    rw [length_otpBytes, List.length_nil] at this
    omega
  have hcmp : ∀ type words buf,
      otpCmp (shown (smsText (otpBytes (parse argv).arg.otpLen type words)))
        (fillBuffer (otpBytes (parse argv).arg.otpLen type words) buf) (parse argv).arg.otpLen =
          .success ↔ (parse argv).arg.otpLen ≤ 20 := by
    intro type words buf
    have hstored := cstr_fillBuffer (otpText (parse argv).arg.otpLen type words) buf
    have hshown : cstr (shown (smsText (otpBytes (parse argv).arg.otpLen type words))) =
        (otpBytes (parse argv).arg.otpLen type words).take 20 := by
      rw [shown_smsText (hmark _ _ _) (hne _ _)]
      exact cstr_of_nulFree fun h => (otpText _ type words).nulFree (List.mem_of_mem_take h)
    rw [otpText_bytes] at hstored
    rw [otpCmp_eq_success_iff, hstored, hshown, List.take_take, List.take_take]
    constructor
    · intro h
      have := congrArg List.length h
      simp only [List.length_take, length_otpBytes, varMaxlen] at this
      omega
    · intro hle
      rw [Nat.min_eq_left hle, Nat.min_eq_left (hmax.trans (by decide))]
  constructor
  · intro h
    obtain ⟨-, hok⟩ := h (fun _ => 0) ⟨[], [], []⟩ [] _ _ [] rfl
    exact (hcmp _ _ _).mp hok
  · intro hle words user sockPath req k buf arg otp hreq
    cases hreq
    refine ⟨?_, (hcmp _ _ _).mpr hle⟩
    have hfull : otp.bytes.take 20 = otp.bytes :=
      List.take_of_length_le (by simpa [otp] using hle)
    exact ⟨lit "** ", (lit " **").take (20 - otp.bytes.length), by
      rw [jsonReqSet, smsText_eq, hfull, List.append_assoc]⟩

/-- With `otplen=21` the message ends one character short. -/
theorem sent_usable_fails :
    (parse [.ofLit "otplen=21"]).result = .ok ∧ ¬ SentUsable [.ofLit "otplen=21"] := by
  refine ⟨by decide, fun h => ?_⟩
  obtain ⟨-, hok⟩ := h (fun _ => 0) ⟨[], [], []⟩ [] _ _ [] rfl
  revert hok
  decide

end PamSmsauth
