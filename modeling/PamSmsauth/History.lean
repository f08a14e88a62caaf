import PamSmsauth.Run
import PamSmsauth.Blocks

/-!
# Where a row comes from

A registered password was made from random words of the call that registered it, sent to the
number in that call's GECOS field, acknowledged, and only then written to the table
(`Call.Delivers`, read off the events of the call; `Registers.delivers`). In a sequential run every
password in the table was registered by some call of the run for the user of its row, the last one
that registered a password for that user (`row_origin`).

Rows of one user are unique in a sequential run (`tableAfter_onePerUser`): a row is only inserted
when a lookup has found none.
-/

namespace PamSmsauth

open CText Eff

/-! ## Delivery -/

/-- The call generated `otp`, had it acknowledged by the SMS server for its user's number, and then
registered it. -/
def Call.Delivers (c : Call) (T : Table) (otp : CString) : Prop :=
  ∃ words info id, otp = c.newOtp words ∧ c.info = some info ∧
    ([⟨.urandom c.arg.otpLen, some words⟩,
      ⟨.smsRequest c.arg.sockPath (jsonReqSet info (smsText otp.bytes)), none⟩,
      ⟨.smsResponse, .ok⟩,
      ⟨.exec .registerOtp (.updateStrData otp id), ⟨[], .ok⟩⟩] : List (Event pamIface)).Sublist
        (c.trace T)

namespace Call

variable {c : Call} {T T₂ : Table} {user : CString} {r : Row} {words : Nat → UInt64}

theorem smsResult_eq_ok_iff : c.smsResult = .ok ↔ c.request = none ∧ c.response = .ok := by
  unfold smsResult
  cases c.request with
  | none => cases c.response <;> simp [Response.result]
  | some failure => cases failure <;> simp [SendFailure.result]

theorem sqliteSetColStr_trace (site : Site) (hc : c.Complete)
    (hu : (Stmt.selectRowid user).Intact) (h : T.lookup user = some r) (hpos : 0 < r.id)
    {value : CString} (hv : (Stmt.updateStrData value r.id).Intact) :
    ([⟨.exec site (.updateStrData value r.id), ⟨[], .ok⟩⟩] : List (Event pamIface)).Sublist
      ((sqliteSetColStr site user value).trace c.handler T) := by
  have hid := sqliteGetRowid_run (T := T) site hc hu
  rw [T.rowid_of_lookup h] at hid
  have hgt : ¬ r.id ≤ 0 := by omega
  have hx := hc.exec site hv T
  simp only [sqliteSetColStr, Prog.perform_bind, Prog.trace_ask, hc.openDb, ne_eq,
    not_true_eq_false, if_false]
  refine .cons _ (Prog.sublist_trace_bind c.handler hid ?_)
  simp [hgt, hx, Stmt.eval]

theorem provideOtp_trace (hc : c.Complete) (hu : (Stmt.selectRowid user).Intact) (hT : T.Positive)
    (h : T.lookup user = some r) (ho : r.otp = none) (hw : c.words = some words)
    (hs : c.smsResult = .ok) (info : UserInfo) :
    ([⟨.urandom c.arg.otpLen, some words⟩,
      ⟨.smsRequest c.arg.sockPath (jsonReqSet info (smsText (c.newOtp words).bytes)), none⟩,
      ⟨.smsResponse, .ok⟩,
      ⟨.exec .registerOtp (.updateStrData (c.newOtp words) r.id), ⟨[], .ok⟩⟩] :
        List (Event pamIface)).Sublist
      ((provideOtp c.arg c.ctrl user info).trace c.handler T) := by
  have hreg := pamIsRegisteredVar_varchar_run (T := T) .isRegisteredOtp hc hu hT .otp
  simp only [h, Option.bind_some, Column.cell, ho, Option.map_none, Option.isSome_none] at hreg
  have hint := Stmt.intact_updateStrData c.arg.otpType words (parse_inv c.argv).otpLen_le
    (T.idsFit r (Table.lookup_mem h).1)
  have hset := sqliteSetColStr_trace .registerOtp hc hu h (hT r (Table.lookup_mem h).1)
    hint
  obtain ⟨hreq, hresp⟩ := smsResult_eq_ok_iff.mp hs
  have hreq' : ∀ req, c.handler (.smsRequest c.arg.sockPath req) T = (none, T) :=
    fun req => by simp only [handler, hreq]
  have hresp' : c.handler .smsResponse T = (.ok, T) := by simp only [handler, hresp]
  have hgen : c.handler (.urandom c.arg.otpLen) T = (some words, T) := by simp only [handler, hw]
  have hok : (smsOnErr .ok c.ctrl).1 = 0 := (smsOnErr_eq_zero_iff _ _).mpr rfl
  refine Prog.sublist_trace_bind c.handler hreg ?_
  simp only [Bool.false_eq_true, if_false, otpGen, Prog.pure_def, Prog.perform_bind, smsSend,
    Response.result, ne_eq, ite_not, Prog.ask_bind, Prog.ret_bind, Prog.trace_ask, hgen,
    Option.map_some, hreq', hresp', hok, if_true]
  refine .cons_cons _ (.cons_cons _ (.cons_cons _ ?_))
  rw [Prog.trace_bind, pamRegisterOtp, Prog.trace_bind, List.append_assoc]
  exact hset.trans (List.sublist_append_left ..)

theorem Registers.delivers (hc : c.Normal) (hT : T.Positive)
    (h : c.Registers T user T₂ r words) : c.Delivers T (c.newOtp words) := by
  obtain ⟨info, hinfo⟩ := Option.ne_none_iff_exists'.mp h.info
  have hfit := hc.fits user h.user_eq
  have hsel := Stmt.intact_selectRowid hfit
  have hT₁ := hT.afterPurge user c.time.1
  obtain ⟨hT₂, hl⟩ := h.toEnters.positive hT
  have htime : c.handler .time T = (c.time, T) := rfl
  have hget : (userGetInfo user).run c.handler T = (some info, T) := by
    rw [← hinfo]; rfl
  have hreg := registerUser_run hc.complete hfit hT₁
  rw [h.register] at hreg
  have hprov := provideOtp_trace hc.complete hsel hT₂ hl h.otp_eq h.words_eq h.sent info
  have hex : ¬ exceptMatch (parse c.argv).arg (parse c.argv).flags user = true :=
    Bool.not_eq_true _ |>.mpr h.notExcept
  refine ⟨words, info, r.id, rfl, hinfo, ?_⟩
  simp only [trace, prog, pamSmAuthenticate, Prog.perform_bind, Prog.trace_ask, htime, h.user_eq]
  refine .cons _ ?_
  rw [if_neg hex]
  refine Prog.sublist_trace_bind c.handler hget ?_
  refine Prog.sublist_trace_bind c.handler (purgeExpired_run hc.complete hsel hT) ?_
  refine Prog.sublist_trace_bind c.handler hreg ?_
  rw [if_pos rfl, Prog.trace_bind]
  exact hprov.trans (List.sublist_append_left ..)

end Call

/-- The call sends and registers a password for the user. -/
def Call.RegistersFor (c : Call) (T : Table) (user : CString) : Prop :=
  ∃ T₂ r words, c.Registers T user T₂ r words

/-- The SMS server has acknowledged, or `pam_register_otp` is at work. -/
def Acked (e : Event pamIface) : Prop := e = ⟨.smsResponse, .ok⟩ ∨ Op.At e.1 .registerOtp

theorem Acked.not_at {e : Event pamIface} (h : Acked e) {site : Site} (hs : site ≠ .registerOtp) :
    ¬ Op.At e.1 site := by
  rcases h with rfl | h
  · simp [Op.At, Op.site]
  · intro h'
    rw [Op.At, h] at h'
    exact hs (Option.some.inj h').symm

theorem Acked.ne_of_outside {e : Event pamIface} (h : Acked e) {op : Op} (hout : op.Outside)
    (hop : op ≠ .smsResponse) : e.1 ≠ op := by
  rcases h with rfl | h
  · exact hop.symm
  · rintro rfl
    cases h.symm.trans hout

namespace Call

variable {c : Call} {T T₂ : Table} {user otp : CString} {r : Row}

/-- Whatever follows `sms_send`, an acknowledgement in the events means that it returned `SMS_OK`.
-/
theorem smsSend_acked {α : Type} {sockPath : List Byte} {info : UserInfo}
    {f : SmsResult → PamProg α} {e : Event pamIface} (h : Acked e)
    (he : e ∈ (smsSend sockPath info otp >>= f).trace c.handler T) :
    c.smsResult = .ok ∨ e ∈ (f c.smsResult).trace c.handler T := by
  have hrun := smsSend_run c T sockPath info otp
  rcases h with rfl | hat
  · rw [Prog.trace_bind, hrun] at he
    refine (List.mem_append.mp he).imp_left fun he => smsResult_eq_ok_iff.mpr ?_
    have hreq : ∀ req, c.handler (.smsRequest sockPath req) T = (c.request, T) := fun _ => rfl
    simp only [smsSend, Prog.perform_bind, Prog.trace_ask, hreq, List.mem_cons] at he
    replace he := he.resolve_left (by simp)
    cases hr : c.request with
    | some failure => simp [hr] at he
    | none =>
      simp only [hr, Prog.trace_ask, Prog.pure_def, Prog.trace_ret, List.mem_singleton] at he
      exact ⟨rfl, (eq_of_heq (Sigma.mk.inj he).2).symm⟩
  · refine .inr ((smsSend_asks _ _ _).mem_trace_of_bind c.handler hrun he ?_)
    rw [Op.Outside, hat]
    simp

theorem provideOtp_registers (hc : c.Complete) (hu : (Stmt.selectRowid user).Intact)
    (hT : T.Positive) (h : T.lookup user = some r) {info : UserInfo} {e : Event pamIface}
    (hack : Acked e) (he : e ∈ (provideOtp c.arg c.ctrl user info).trace c.handler T) :
    r.otp = none ∧ (∃ words, c.words = some words) ∧ c.smsResult = .ok := by
  have hreg := pamIsRegisteredVar_varchar_run (T := T) .isRegisteredOtp hc hu hT .otp
  simp only [h, Option.bind_some, Column.cell, Option.isSome_map] at hreg
  replace he := (pamIsRegisteredVar_asks _ user _ _).mem_trace_of_bind c.handler hreg he
    (hack.not_at (by decide))
  cases ho : r.otp with
  | some otp => simp [ho] at he
  | none =>
    simp only [ho, Option.isSome_none, Bool.false_eq_true, if_false] at he
    replace he := (otpGen_asks _ _).mem_trace_of_bind c.handler (otpGen_run c T _ _) he
      (hack.ne_of_outside rfl (by simp))
    cases hw : c.words with
    | none => simp [hw] at he
    | some words =>
      simp only [hw, Option.map_some] at he
      rcases smsSend_acked hack he with hok | he
      · exact ⟨rfl, ⟨words, rfl⟩, hok⟩
      · by_cases hok : c.smsResult = .ok
        · exact ⟨rfl, ⟨words, rfl⟩, hok⟩
        · rw [if_pos fun h0 => hok ((smsOnErr_eq_zero_iff _ _).mp h0)] at he
          cases he

theorem registersFor_of_mem_trace (hc : c.Normal) (hT : T.Positive) (hu : c.user = some user)
    {e : Event pamIface} (he : e ∈ c.trace T) (hack : Acked e) : c.RegistersFor T user := by
  have hne : ∀ site, site ≠ .registerOtp → ¬ Op.At e.1 site := fun site => hack.not_at
  have hfit := hc.fits user hu
  have hsel := Stmt.intact_selectRowid hfit
  have hT₁ := hT.afterPurge user c.time.1
  have hget : (userGetInfo user).run c.handler T = (c.info, T) := rfl
  have hreg := registerUser_run hc.complete hfit hT₁
  simp only [trace, prog, pamSmAuthenticate, Prog.perform_bind, Prog.trace_ask, hu] at he
  replace he := (List.mem_cons.mp he).resolve_left fun h' =>
    hack.ne_of_outside (rfl : Op.time.Outside) (by simp) (by rw [h'])
  by_cases hex : exceptMatch (parse c.argv).arg (parse c.argv).flags user = true
  · rw [if_pos hex] at he
    cases he
  · rw [if_neg hex] at he
    replace he := (userGetInfo_asks user).mem_trace_of_bind c.handler hget he
      (hack.ne_of_outside rfl (by simp))
    cases hi : c.info with
    | none => simp [hi] at he
    | some info =>
      simp only [hi] at he
      replace he := (purgeExpired_asks user _).mem_trace_of_bind c.handler
        (purgeExpired_run hc.complete hsel hT) he
        (not_or.mpr ⟨hne _ (by decide), hne _ (by decide)⟩)
      cases hr : (T.afterPurge user c.time.1).afterRegister user c.timeExpir with
      | none =>
        rw [hr] at hreg
        replace he := (registerUser_asks user _).mem_trace_of_bind c.handler hreg he
          (not_or.mpr ⟨hne _ (by decide), hne _ (by decide)⟩)
        cases he
      | some p =>
        obtain ⟨T₂, r⟩ := p
        rw [hr] at hreg
        replace he := (registerUser_asks user _).mem_trace_of_bind c.handler hreg he
          (not_or.mpr ⟨hne _ (by decide), hne _ (by decide)⟩)
        have henter : c.Enters T user T₂ r := ⟨hu, Bool.not_eq_true _ |>.mp hex, by simp [hi], hr⟩
        obtain ⟨hT₂, hl⟩ := henter.positive hT
        rw [if_pos rfl, Prog.trace_bind] at he
        rcases List.mem_append.mp he with he | he
        · obtain ⟨ho, ⟨words, hw⟩, hok⟩ :=
            provideOtp_registers hc.complete hsel hT₂ hl hack he
          exact ⟨T₂, r, words, henter, ho, hw, hok⟩
        · cases hp : ((provideOtp (parse c.argv).arg (parse c.argv).flags user info).run
            c.handler T₂).1 with
          | some exit => simp [hp] at he
          | none =>
            simp only [hp] at he
            exact absurd ((checkToken_asks user _).of_mem_trace c.handler he)
              (not_or.mpr ⟨hack.ne_of_outside rfl (by simp), hne _ (by decide)⟩)

/-- Only a registering call delivers a password. -/
theorem Delivers.registersFor (hc : c.Normal) (hT : T.Positive) (hu : c.user = some user)
    (h : c.Delivers T otp) : c.RegistersFor T user := by
  obtain ⟨words, info, id, -, -, hsub⟩ := h
  exact registersFor_of_mem_trace hc hT hu (hsub.subset (List.mem_of_getLast? rfl)) (.inr rfl)

end Call

/-! ## One row for each user -/

def Table.OnePerUser (T : Table) : Prop :=
  ∀ r ∈ T.rows, ∀ s ∈ T.rows, r.user = s.user → r = s

namespace Table

variable {T T' : Table} {user : CString} {r : Row}

theorem OnePerUser.lookup (hT : T.OnePerUser) (hr : r ∈ T.rows) :
    T.lookup r.user = some r := by
  cases h : T.lookup r.user with
  | none => exact absurd rfl (lookup_eq_none_iff.mp h r hr)
  | some s => rw [hT s (lookup_mem h).1 r hr (lookup_mem h).2]

theorem OnePerUser.afterPurge (hT : T.OnePerUser) (user : CString) (time : Int) :
    (T.afterPurge user time).OnePerUser :=
  fun r hr s hs => hT r (mem_afterPurge hr) s (mem_afterPurge hs)

theorem OnePerUser.setOtp (hT : T.OnePerUser) (value : CString) (id : Int) :
    (T.setOtp value id).OnePerUser := by
  intro r hr s hs h
  obtain ⟨r', hr', rfl⟩ := mem_setOtp.mp hr
  obtain ⟨s', hs', rfl⟩ := mem_setOtp.mp hs
  have huser : r'.user = s'.user := by
    split at h <;> split at h <;> exact h
  rw [hT r' hr' s' hs' huser]

theorem OnePerUser.afterRegister (hT : T.OnePerUser) {timestamp : Int}
    (h : T.afterRegister user timestamp = some (T', r)) : T'.OnePerUser := by
  intro s hs t ht hst
  rcases mem_afterRegister h hs with hs | ⟨hl, rfl, hu, -⟩ <;>
    rcases mem_afterRegister h ht with ht | ⟨hl', rfl, hu', -⟩
  · exact hT s hs t ht hst
  · exact absurd (hst.trans hu') (lookup_eq_none_iff.mp hl' s hs)
  · exact absurd (hst.symm.trans hu) (lookup_eq_none_iff.mp hl t ht)
  · rfl

end Table

namespace Call

variable {c : Call} {T T₂ T' : Table} {user otp : CString} {r : Row} {words : Nat → UInt64}

theorem Enters.onePerUser (hone : T.OnePerUser) (h : c.Enters T user T₂ r) : T₂.OnePerUser :=
  (hone.afterPurge user c.time.1).afterRegister h.register

theorem Enters.provide_onePerUser (hone : T.OnePerUser) (h : c.Enters T user T₂ r)
    (hp : c.provide T₂ r = .ok (otp, T')) : T'.OnePerUser := by
  have hone₂ := h.onePerUser hone
  rcases h.provide_cases hp with ⟨-, rfl⟩ | ⟨words, -, -, rfl⟩
  · exact hone₂
  · exact hone₂.setOtp _ _

theorem flow_onePerUser (hone : T.OnePerUser) : (c.flow T).2.OnePerUser := by
  have hp := c.path T
  generalize c.flow T = e at hp ⊢
  cases hp with
  | userUnknown => exact hone
  | exceptUser => exact hone
  | gecosNotFound => exact hone
  | registerInitErr => exact hone.afterPurge _ _
  | otpGenErr he => exact he.onePerUser hone
  | smsErr he => exact he.onePerUser hone
  | otpNotInput he hp => exact he.provide_onePerUser hone hp
  | compared hr => exact hr.toEnters.provide_onePerUser hone hr.provide

theorem Enters.flow_snd (h : c.Enters T user T₂ r) (hp : c.provide T₂ r = .ok (otp, T')) :
    (c.flow T).2 = T' := by
  simp [flow, login, h.user_eq, h.notExcept, h.info, h.register, hp]

theorem Registers.provide (h : c.Registers T user T₂ r words) :
    c.provide T₂ r = .ok (c.newOtp words, T₂.setOtp (c.newOtp words) r.id) := by
  simp [Call.provide, h.otp_eq, h.words_eq, h.sent, newOtp]

/-- Afterwards the user's row holds the new password. -/
theorem Registers.lookup (hT : T.Positive) (h : c.Registers T user T₂ r words) :
    (c.flow T).2.lookup user = some { r with otp := some (c.newOtp words) } := by
  obtain ⟨hT₂, hl⟩ := h.toEnters.positive hT
  rw [h.toEnters.flow_snd h.provide]
  exact (provide_ok hT₂ hl h.provide).2

end Call

theorem Table.empty_onePerUser : Table.empty.OnePerUser := by simp [OnePerUser]

theorem tableAfter_onePerUser {cs : List Call} (h : ∀ c ∈ cs, c.Normal) :
    (tableAfter cs).OnePerUser := by
  induction cs using List.reverseRecOn with
  | nil => exact Table.empty_onePerUser
  | append_singleton cs c ih =>
    have hcs : ∀ c' ∈ cs, c'.Normal := fun c' hc' => h c' (by simp [hc'])
    rw [tableAfter_append_singleton, run_after hcs (h c (by simp))]
    exact Call.flow_onePerUser (ih hcs)

/-! ## The origin of a password -/

/-- The password in a row of the table was registered for its user by a call of the run, and no
later call registered another one for that user. -/
theorem row_origin {cs : List Call} (h : ∀ c ∈ cs, c.Normal) {s : Row} {otp : CString}
    (hs : s ∈ (tableAfter cs).rows) (ho : s.otp = some otp) :
    ∃ pre c post T₂ r words, cs = pre ++ c :: post ∧
      c.Registers (tableAfter pre) s.user T₂ r words ∧ otp = c.newOtp words ∧
      ∀ post₁ c' post₂, post = post₁ ++ c' :: post₂ →
        ¬ c'.RegistersFor (tableAfter (pre ++ c :: post₁)) s.user := by
  induction cs using List.reverseRecOn with
  | nil => simp at hs
  | append_singleton cs c ih =>
    have hcs : ∀ c' ∈ cs, c'.Normal := fun c' hc' => h c' (by simp [hc'])
    have hpos := tableAfter_positive hcs
    rw [tableAfter_append_singleton, run_after hcs (h c (by simp))] at hs
    by_cases hreg : c.RegistersFor (tableAfter cs) s.user
    · obtain ⟨T₂, r, words, hreg⟩ := hreg
      have hl := (Call.flow_onePerUser (tableAfter_onePerUser hcs)).lookup hs
      rw [hreg.lookup hpos] at hl
      cases hl
      cases ho
      exact ⟨cs, c, [], T₂, r, words, rfl, hreg, rfl, by simp⟩
    · rcases Call.flow_mem hpos hs with hs | ⟨-, hn, -⟩ | ⟨T₂, r, words, hreg', -⟩
      · obtain ⟨pre, k, post, T₂, r, words, rfl, hk, rfl, hlast⟩ := ih hcs hs
        refine ⟨pre, k, post ++ [c], T₂, r, words, by simp, hk, rfl, ?_⟩
        intro post₁ c' post₂ hpost
        rcases split_of_snoc hpost with ⟨rfl, rfl, -⟩ | ⟨post₂', -, rfl⟩
        · exact hreg
        · exact hlast post₁ c' post₂' rfl
      · rw [hn] at ho; cases ho
      · exact absurd ⟨T₂, r, words, hreg'⟩ hreg

end PamSmsauth
