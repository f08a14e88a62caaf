import PamSmsauth.History

/-!
# The second factor

In a sequential run whose clocks are in the range where a timestamp is a positive `int`, every row
of a user has its timestamp seen by `pam_is_registered_var`, so the purge at the start of a call
leaves no row of the user that expired before (`Enters.timestamp_ge`). With the origin of the
passwords (`row_origin`) this gives the soundness of the module: a call returns `PAM_SUCCESS` only
for the `relaxed` option after an SMS failure of this very call, or for a token that matches a
password delivered to the user and held by a row that had not expired when the call began.
-/

namespace PamSmsauth

open CText Eff

/-- Timestamps that are positive `int`s. -/
def Table.InClock (T : Table) : Prop := ∀ r ∈ T.rows, 1 ≤ r.timestamp ∧ r.timestamp < 2 ^ 31

/-- The clock of the call leaves room for the longest expiry. -/
def Call.InClock (c : Call) : Prop := 1 ≤ c.time.1 ∧ c.time.1 ≤ 2 ^ 31 - 3601

namespace Call

variable {c : Call} {T T₂ T' : Table} {user : CString} {r : Row}

theorem InClock.timeExpir (h : c.InClock) : c.time.1 ≤ c.timeExpir ∧ c.timeExpir < 2 ^ 31 := by
  have harg := parse_inv c.argv
  have h1 : 1 ≤ c.arg.timeExpir := harg.timeExpir_ge
  have h2 : c.arg.timeExpir ≤ 60 := harg.timeExpir_le
  unfold InClock at h
  unfold Call.timeExpir
  omega

theorem flow_inClock (hT : T.Positive) (hclock : T.InClock) (hc : c.InClock) :
    (c.flow T).2.InClock := by
  have hexp := hc.timeExpir
  have hnew : 1 ≤ c.timeExpir ∧ c.timeExpir < 2 ^ 31 := ⟨hc.1.trans hexp.1, hexp.2⟩
  intro s hs
  rcases flow_mem hT hs with hs | ⟨-, -, hts⟩ | ⟨T₂, r, words, hreg, rfl⟩
  · exact hclock s hs
  · rw [hts]; exact hnew
  · obtain ⟨hT₂, hl⟩ := hreg.toEnters.positive hT
    rcases hreg.toEnters.mem (Table.lookup_mem hl).1 with hr | ⟨-, -, hts⟩
    · exact hclock r hr
    · simp only [hts]; exact hnew

end Call

theorem tableAfter_inClock {cs : List Call} (h : ∀ c ∈ cs, c.Normal)
    (hclock : ∀ c ∈ cs, c.InClock) : (tableAfter cs).InClock := by
  induction cs using List.reverseRecOn with
  | nil => simp [Table.InClock]
  | append_singleton cs c ih =>
    have hcs : ∀ c' ∈ cs, c'.Normal := fun c' hc' => h c' (by simp [hc'])
    rw [tableAfter_append_singleton, run_after hcs (h c (by simp))]
    exact Call.flow_inClock (tableAfter_positive hcs)
      (ih hcs fun c' hc' => hclock c' (by simp [hc'])) (hclock c (by simp))

theorem Table.InClock.timestampRegistered {T : Table} (hT : T.InClock) {user : CString} {r : Row}
    (h : T.lookup user = some r) : T.timestampRegistered user = true := by
  obtain ⟨h1, h2⟩ := hT r (lookup_mem h).1
  have hclamp : clampLong r.timestamp = r.timestamp :=
    clampLong_of_inInt ⟨by omega, h2⟩
  simp only [Table.timestampRegistered, h, hclamp, storeInt, decide_eq_true_eq]
  omega

/-- The row that a call goes on with had not expired when the call began. -/
theorem Call.Enters.timestamp_ge {c : Call} {T T₂ : Table} {user : CString} {r : Row}
    (hT : T.Positive) (hclock : T.InClock) (hc : c.InClock) (h : c.Enters T user T₂ r) :
    c.time.1 ≤ r.timestamp := by
  have hl := (h.positive hT).2
  rcases Table.mem_afterRegister h.register (Table.lookup_mem hl).1
    with hr | ⟨-, -, -, -, hts⟩
  · cases hlT : T.lookup user with
    | none =>
      exact absurd (Table.lookup_mem hl).2
        (Table.lookup_eq_none_iff.mp hlT r (Table.mem_afterPurge hr))
    | some s =>
      rw [Table.afterPurge, if_pos (hclock.timestampRegistered hlT)] at hr
      exact (Table.mem_purge.mp hr).2
  · rw [hts]; exact hc.timeExpir.1

/-- `relaxed` was given and this very call's `sms_send` failed at the server or the gateway. -/
def Call.RelaxedSuccess (c : Call) (T : Table) : Prop :=
  c.ctrl &&& pamSmsauthRelaxed ≠ 0 ∧
    ∃ result, (c.run T).1 = .smsErr result .success ∧
      (result = .conn2serverErr ∨ result = .gatewayErr)

/-- The token that `c` read after the run `cs` agrees, as far as it is compared, with a password
that this or an earlier call generated, sent and registered for the same user, and that a row of
the user holds which had not expired when `c` began. -/
def TokenVouched (cs : List Call) (c : Call) (user : CString) : Prop :=
  ∃ input otp, c.typed = some input ∧ strncmp otp.bytes input.bytes c.arg.otpLen = 0 ∧
    (∃ pre c' post, cs ++ [c] = pre ++ c' :: post ∧ c'.user = some user ∧
      c'.Delivers (tableAfter pre) otp) ∧
    ∃ r ∈ (tableAfter (cs ++ [c])).rows,
      r.user = user ∧ r.otp = some otp ∧ c.time.1 ≤ r.timestamp

/-- Soundness of the second factor over whole runs. -/
theorem second_factor_sound {cs : List Call} {c : Call} {user : CString}
    (hrun : ∀ c' ∈ cs ++ [c], c'.Normal) (hclock : ∀ c' ∈ cs ++ [c], c'.InClock)
    (hu : c.user = some user) (hex : exceptMatch c.arg c.ctrl user = false)
    (hret : (c.run (tableAfter cs)).1.ret = .success) :
    c.RelaxedSuccess (tableAfter cs) ∨ TokenVouched cs c user := by
  have hcs : ∀ c' ∈ cs, c'.Normal := fun c' hc' => hrun c' (by simp [hc'])
  have hc := hrun c (by simp)
  have hT := tableAfter_positive hcs
  have hTc := tableAfter_inClock hcs fun c' hc' => hclock c' (by simp [hc'])
  have heq := run_after hcs hc
  rw [heq] at hret
  rcases Call.flow_success hret with ⟨user', hu', hex'⟩ | ⟨hrel, hsms, hexit⟩ |
    ⟨user', T₂, r, otp, input, hr⟩
  · cases hu.symm.trans hu'
    rw [hex] at hex'; cases hex'
  · exact .inl ⟨hrel, c.smsResult, by rw [heq]; exact hexit, hsms⟩
  · cases hu.symm.trans hr.user_eq
    have hmatch := hr.success_iff.mp hret
    have hts := hr.toEnters.timestamp_ge hT hTc (hclock c (by simp))
    obtain ⟨-, hl⟩ := hr.positive hT
    obtain ⟨hmem, huser⟩ := Table.lookup_mem hl
    rw [← heq, ← tableAfter_append_singleton] at hmem
    -- the row is in the table after `c`, so the call that registered its password may be `c`
    obtain ⟨pre, c', post, T₃, r', words, hsplit, hreg, rfl, -⟩ := row_origin hrun hmem rfl
    have hpre : ∀ d ∈ pre, d.Normal := fun d hd => hrun d (by simp [hsplit, hd])
    refine .inr ⟨input, _, hr.typed, ?_, ⟨pre, c', post, hsplit, ?_, ?_⟩, _, hmem, huser, rfl, hts⟩
    · rw [strncmp_eq_zero_iff, CString.cstr_bytes, CString.cstr_bytes, hmatch]
    · rw [hreg.user_eq, huser]
    · exact hreg.delivers (hrun c' (by simp [hsplit])) (tableAfter_positive hpre)

/-- A password sent by one call, typed wrong there and right in the next one. -/
theorem second_factor_sound_second_try :
    let first := Call.ann ⟨100, by decide⟩ (.ofLit "00000")
    let second := Call.ann ⟨200, by decide⟩ (.ofLit "77777")
    (second.run (tableAfter [first])).1.ret = .success ∧
      (second.RelaxedSuccess (tableAfter [first]) ∨
        TokenVouched [first] second (.ofLit "ann")) := by
  intro first second
  have hret : (second.run (tableAfter [first])).1.ret = .success := by decide +kernel
  refine ⟨hret, @second_factor_sound [first] _ _ ?_ ?_ rfl (by decide) hret⟩
  · intro c hc
    rcases List.mem_pair.mp hc with rfl | rfl <;> exact Call.ann_normal (by decide)
  · intro c hc
    rcases List.mem_pair.mp hc with rfl | rfl <;> exact ⟨by decide, by decide⟩

end PamSmsauth
