import PamSmsauth.SoleRow

/-!
# Which password a user is sent

A session that finds no password for its user makes one, sends it, and registers it when the SMS
exchange is over. A second session that looks in between makes another one, and the `UPDATE` that
comes last wins. Where this does not happen (`AloneAtCheck`), all sessions that send a password to
the user send the same one, and everybody who is asked for it is compared with that one
(`one_code`).

The invariant is `Agreed`. A session is `Sending` from the moment it finds no password until it has
registered its own; at any time all such sessions agree, with each other and with the password
stored, and whoever was told `SMS_OK` has either stored his password or is still `Sending` it.
-/

namespace PamSmsauth

open CText Eff

/-- What a session asks from the moment it found no password to the moment it registers one. -/
def Op.sends : Op → Bool
  | .urandom _ | .smsRequest _ _ | .smsResponse => true
  | .openDb site | .malloc site | .exec site _ => site = .registerOtp
  | .time | .getpwnam _ | .prompt => false

/-- What a session asks once there is a password. -/
def Op.afterPassword : Op → Bool
  | .prompt => true
  | .openDb site | .malloc site | .exec site _ => site = .getOtp
  | .time | .getpwnam _ | .urandom _ | .smsRequest _ _ | .smsResponse => false

theorem Op.sends_at {op : Op} {site : Site} (hat : op.At site) :
    op.sends ↔ site = .registerOtp := by
  cases op <;> cases hat <;> simp [Op.sends]

/-! ## The edges into and out of the exchange -/

namespace Call

variable {c : Call} {user : CString} {es : List PamEvent} {e : PamEvent} {op : Op}

theorem Before.sends (h : c.Before user (es ++ [e]) op) (hop : op.sends) :
    Op.sends e.1 ∨ Registered user .isRegisteredOtp .otp false e := by
  cases op with
  | urandom len => exact .inr (after_append_singleton.mp h)
  | smsRequest sockPath req =>
    obtain ⟨words, rfl⟩ := after_append_singleton.mp h
    exact .inl rfl
  | smsResponse =>
    obtain ⟨sockPath, req, rfl⟩ := after_append_singleton.mp h
    exact .inl rfl
  | openDb site =>
    cases of_decide_eq_true hop
    rw [after_append_singleton.mp h]
    exact .inl rfl
  | malloc site => exact absurd (of_decide_eq_true hop) h.1
  | exec site stmt =>
    cases of_decide_eq_true hop
    left
    cases stmt with
    | selectRowid name => rcases after_append_singleton.mp h.2 with he | he <;> rw [he] <;> rfl
    | updateStrData value id =>
      obtain ⟨reply, rfl, -⟩ := after_append_singleton.mp h.2.1
      rfl
    | selectData col id => exact absurd rfl h.1
    | selectNextRowid => cases h.1
    | insertData id name timestamp => cases h.1
    | updateIntData value id => exact h.elim
    | deleteRow id => exact h.elim
    | purgeTable time => cases h.1
  | time => cases hop
  | getpwnam user => cases hop
  | prompt => cases hop

theorem Before.of_sends (h : c.Before user (es ++ [e]) op) (he : Op.sends e.1) :
    op.sends ∨ ∃ value id reply,
      e = ⟨.exec .registerOtp (.updateStrData value id), reply⟩ := by
  have hat : ∀ {site}, Op.At e.1 site → site = .registerOtp := fun hat => (Op.sends_at hat).mp he
  cases op with
  | time => exact h.elim
  | getpwnam name =>
    rw [after_append_singleton.mp h.2] at he
    cases he
  | openDb site =>
    cases site with
    | isRegisteredTimestamp =>
      rw [after_append_singleton.mp h] at he
      cases he
    | unregisterExpirVars => cases hat (after_append_singleton.mp h)
    | isRegisteredUser => rcases after_append_singleton.mp h with h | h <;> cases hat h
    | registerInit => cases hat (after_append_singleton.mp h).at
    | isRegisteredOtp =>
      rcases after_append_singleton.mp h with h | ⟨id, reply, rfl, -⟩
      · cases hat h.at
      · cases he
    | registerOtp => exact .inl rfl
    | getOtp =>
      obtain ⟨input, rfl⟩ := after_append_singleton.mp h
      cases he
  | malloc site =>
    rw [after_append_singleton.mp h.2] at he
    exact absurd (of_decide_eq_true he) h.1
  | exec site stmt =>
    cases stmt with
    | selectRowid name =>
      rcases after_append_singleton.mp h.2 with h | h <;> rw [h] at he <;> exact .inl he
    | selectData col id =>
      obtain ⟨reply, rfl, -⟩ := after_append_singleton.mp h.2
      exact absurd (of_decide_eq_true he) h.1
    | selectNextRowid =>
      rw [after_append_singleton.mp h.2] at he
      cases he
    | insertData id name timestamp =>
      obtain ⟨reply, rfl, -⟩ := after_append_singleton.mp h.2.2.2.2
      cases he
    | updateStrData value id =>
      rw [h.1]
      exact .inl rfl
    | updateIntData value id => exact h.elim
    | deleteRow id => exact h.elim
    | purgeTable time =>
      rw [after_append_singleton.mp h.2.2] at he
      cases he
  | urandom len => exact .inl rfl
  | smsRequest sockPath req => exact .inl rfl
  | smsResponse => exact .inl rfl
  | prompt =>
    rcases after_append_singleton.mp h with h | ⟨value, id, reply, rfl, -⟩
    · cases hat h.at
    · exact .inr ⟨value, id, reply, rfl⟩

theorem Ended.of_sends {exit : Exit} (h : c.Ended user (es ++ [e]) exit) (he : Op.sends e.1) :
    e = ⟨.urandom c.arg.otpLen, none⟩ ∨
    (∃ sockPath req failure, e = ⟨.smsRequest sockPath req, some failure⟩) ∨
    (∃ response, e = ⟨.smsResponse, response⟩ ∧ response ≠ .ok) ∨ RegisterFailed user e := by
  have hat : ∀ {site}, Op.At e.1 site → site = .registerOtp := fun hat => (Op.sends_at hat).mp he
  cases exit with
  | userUnknown => exact h.elim
  | exceptUser =>
    rw [after_append_singleton.mp h] at he
    cases he
  | gecosNotFound =>
    rw [after_append_singleton.mp h] at he
    cases he
  | registerInitErr => cases hat (after_append_singleton.mp h)
  | otpGenErr =>
    have he := after_append_singleton.mp h
    exact .inl he
  | smsErr result ret => exact .inr ((after_append_singleton.mp h).imp_right .inl)
  | registerOtpErr => exact .inr (.inr (.inr (after_append_singleton.mp h)))
  | otpNotInput =>
    rw [after_append_singleton.mp h] at he
    cases he
  | otpNotFound => cases hat (after_append_singleton.mp h).at
  | compared input otp len => cases hat (after_append_singleton.mp h).at

theorem Before.afterPassword (h : c.Before user (es ++ [e]) op) (hop : op.afterPassword) :
    Op.afterPassword e.1 ∨ Registered user .isRegisteredOtp .otp true e ∨
      ∃ value id reply, e = ⟨.exec .registerOtp (.updateStrData value id), reply⟩ := by
  cases op with
  | prompt =>
    exact .inr ((after_append_singleton.mp h).imp_right
      fun ⟨value, id, reply, he, _⟩ => ⟨value, id, reply, he⟩)
  | openDb site =>
    cases of_decide_eq_true hop
    obtain ⟨input, rfl⟩ := after_append_singleton.mp h
    exact .inl rfl
  | malloc site =>
    rw [after_append_singleton.mp h.2]
    exact .inl hop
  | exec site stmt =>
    cases of_decide_eq_true hop
    left
    cases stmt with
    | selectRowid name => rcases after_append_singleton.mp h.2 with he | he <;> rw [he] <;> rfl
    | selectData col id =>
      obtain ⟨reply, rfl, -⟩ := after_append_singleton.mp h.2
      rfl
    | updateStrData value id => cases h.1
    | selectNextRowid => cases h.1
    | insertData id name timestamp => cases h.1
    | updateIntData value id => exact h.elim
    | deleteRow id => exact h.elim
    | purgeTable time => cases h.1
  | time => cases hop
  | getpwnam user => cases hop
  | urandom len => cases hop
  | smsRequest sockPath req => cases hop
  | smsResponse => cases hop

end Call

/-! ## The invariant -/

/-- The password that the call sends, if it gets that far and the SMS exchange ends with `SMS_OK`.
-/
def Call.sends (c : Call) : Option CString :=
  if c.smsResult = .ok then c.words.map c.newOtp else none

theorem Call.sends_eq_some_iff {c : Call} {otp : CString} :
    c.sends = some otp ↔ c.smsResult = .ok ∧ c.words.map c.newOtp = some otp := by
  simp [sends]

variable {ι : Type}

/-- `sms_send` returned `SMS_OK` to session `j` for the password `otp`. -/
def Sent (c : ι → Call) (p : Sessions ι) (j : ι) (otp : CString) : Prop :=
  (j, ⟨.smsResponse, .ok⟩) ∈ p.world.log ∧ (c j).words.map (c j).newOtp = some otp

def isSmsOk : PamEvent → Bool
  | ⟨.smsResponse, response⟩ => response = .ok
  | _ => false

theorem isSmsOk_iff {e : PamEvent} : isSmsOk e ↔ e = ⟨.smsResponse, .ok⟩ := by
  obtain ⟨op, a⟩ := e
  cases op <;> simp [isSmsOk]

instance [DecidableEq ι] (c : ι → Call) (p : Sessions ι) (j : ι) (otp : CString) :
    Decidable (Sent c p j otp) :=
  decidable_of_iff ((∃ x ∈ p.world.log, x.1 = j ∧ isSmsOk x.2) ∧
      (c j).words.map (c j).newOtp = some otp) <| and_congr_left' <| by
    constructor
    · rintro ⟨⟨k, e⟩, hx, rfl, he⟩
      cases isSmsOk_iff.mp he
      exact hx
    · exact fun hx => ⟨_, hx, rfl, rfl⟩

/-- Session `j` is sending `otp`, or is about to register it. -/
def Sending (c : ι → Call) (p : Sessions ι) (j : ι) (otp : CString) : Prop :=
  (∃ op : Op, p.Waits j op ∧ op.sends) ∧ (c j).sends = some otp

/-- When session `i` is about to find that there is no password, no other session is sending one
that differs from the one that `i` will send. -/
def AloneAtCheck (c : ι → Call) (p : Sessions ι) (i : ι) (op : Op) : Prop :=
  match op with
  | .exec .isRegisteredOtp (.selectData _ id) =>
    (∀ r ∈ p.world.state.rows, r.id = id → r.otp = none) → ∀ j, j ≠ i → ∀ op' ∈ p.next j,
      op'.sends → ∀ otp ∈ (c i).sends, ∀ otp' ∈ (c j).sends, otp = otp'
  | _ => True

instance [Fintype ι] [DecidableEq ι] (c : ι → Call) (p : Sessions ι) (i : ι) (op : Op) :
    Decidable (AloneAtCheck c p i op) := by
  unfold AloneAtCheck
  split <;> infer_instance

/-- The step of `i` overlaps with no other session's registration of the row or of a password. -/
def OneAtATime (c : ι → Call) (p : Sessions ι) (i : ι) : Prop :=
  ∀ op ∈ p.next i, AloneAtInsert c p i op ∧ AloneAtCheck c p i op

instance [Fintype ι] [DecidableEq ι] (c : ι → Call) (p : Sessions ι) (i : ι) :
    Decidable (OneAtATime c p i) :=
  inferInstanceAs (Decidable (∀ op ∈ p.next i, _))

/-- `otp` is stored. -/
def Stored (p : Sessions ι) (otp : CString) : Prop :=
  ∃ r ∈ p.world.state.rows, r.otp = some otp

structure Agreed (c : ι → Call) (user : CString) (p : Sessions ι) : Prop
    extends SoleRow c user p where
  sent_ok : ∀ j, (j, ⟨.smsResponse, .ok⟩) ∈ p.world.log → (c j).smsResult = .ok
  stored_sent : ∀ otp, Stored p otp → ∃ j, Sent c p j otp
  sending_eq : ∀ j k otp otp', Sending c p j otp → Sending c p k otp' → otp = otp'
  stored_sending : ∀ j otp otp', Stored p otp → Sending c p j otp' → otp' = otp
  sent_cases : ∀ j otp, Sent c p j otp → Stored p otp ∨ Sending c p j otp
  stored : ∀ j op, p.Waits j op → op.afterPassword → ∃ otp, Stored p otp
  compared : ∀ j input otp n, p.sess j = .ret (.compared input otp n) →
    ∃ o, Stored p o ∧ cstr otp = o.bytes
  found : ∀ j, p.sess j ≠ .ret .otpNotFound

theorem agreed_start (c : ι → Call) (user : CString) : Agreed c user (start c) where
  toSoleRow := soleRow_start c user
  sent_ok _ h := nomatch h
  stored_sent _ h := by
    obtain ⟨r, hr, -⟩ := h
    cases hr
  sending_eq _ _ _ _ h := by
    obtain ⟨⟨op, hw, hop⟩, -⟩ := h
    cases hw; cases hop
  stored_sending _ _ _ h := by
    obtain ⟨r, hr, -⟩ := h
    cases hr
  sent_cases _ _ h := nomatch h.1
  stored _ _ hw hop := by cases hw; cases hop
  compared _ _ _ _ h := nomatch h
  found _ h := nomatch h

variable {c : ι → Call} {user : CString} {p p' : Sessions ι} {i j : ι} {op : Op} {a : op.Ans}

theorem Agreed.sends_of_sent (h : Agreed c user p) {otp : CString} (hs : Sent c p j otp) :
    (c j).sends = some otp :=
  Call.sends_eq_some_iff.mpr ⟨h.sent_ok j hs.1, hs.2⟩

variable [DecidableEq ι]

namespace Move

theorem sent (hm : Move c p i op a p') {otp : CString} (h : Sent c p j otp) : Sent c p' j otp :=
  ⟨hm.mem_log.mpr (.inl h.1), h.2⟩

/-- Who is sending was so before, or has just found that there is no password. -/
theorem sending_cases (hm : Move c p i op a p') (hu : (c i).user = some user) {otp : CString}
    (h : Sending c p' j otp) :
    Sending c p j otp ∨ j = i ∧ Registered user .isRegisteredOtp .otp false ⟨op, a⟩ := by
  obtain ⟨⟨op', hw, hop⟩, hsends⟩ := h
  rcases hm.waits_cases hw with ⟨-, hw⟩ | ⟨rfl, user', hu', hbefore⟩
  · exact .inl ⟨⟨op', hw, hop⟩, hsends⟩
  · cases hu'.symm.trans hu
    rcases hbefore.sends hop with hop | hnull
    · exact .inl ⟨⟨op, hm.asks, hop⟩, hsends⟩
    · exact .inr ⟨rfl, hnull⟩

end Move

/-! ## What the `otp` column is read as -/

namespace SoleRow

/-- A read that fails after the row is there found the column empty. -/
theorem colStr_none (h : SoleRow c user p) (hc : (c i).Complete) (hf : (c i).Fits)
    (hm : Move c p i op a p') {site : Site}
    (hsite : site = .isRegisteredOtp ∨ site = .getOtp)
    (hcol : ColStr user site .otp none ⟨op, a⟩) :
    p'.world.state = p.world.state ∧ ∃ r ∈ p.world.state.rows,
      op = .exec site (.selectData .otp r.id) ∧ r.otp = none := by
  have hafter : op.afterRow := Op.afterRow_of_at hcol.at (hsite.imp_right .inr)
  rcases hcol with ⟨code, he, hcode⟩ | ⟨reply, he, hid⟩ | ⟨id, buf, reply, he, hdata⟩ <;> cases he
  · have hopen := hm.ans
    rw [hc.openDb] at hopen
    exact absurd hopen hcode
  · have hpos := h.rowid_pos hc hf hm hafter
    omega
  · obtain ⟨r, hr, rfl⟩ := h.aims_row i id (aims_iff.mpr ⟨_, hm.asks, rfl⟩)
    obtain ⟨rfl, hT⟩ := hm.evals hc hf
    refine ⟨hT, r, hr, rfl, ?_⟩
    rw [dataOf_eval hr] at hdata
    simpa [Column.cell] using hdata

/-- A read that succeeds found a password. -/
theorem colStr_some (h : SoleRow c user p) (hc : (c i).Complete) (hf : (c i).Fits)
    (hm : Move c p i op a p') {site : Site} {value : List Byte}
    (hcol : ColStr user site .otp (some value) ⟨op, a⟩) :
    ∃ otp buf, Stored p otp ∧ value = fillBuffer otp.bytes buf := by
  obtain ⟨id, buf, reply, he, hdata⟩ := hcol
  cases he
  obtain ⟨r, hr, rfl⟩ := h.aims_row i id (aims_iff.mpr ⟨_, hm.asks, rfl⟩)
  obtain ⟨otp, ho, hvalue⟩ := hm.read_otp hc hf hr hdata
  exact ⟨otp, buf, ⟨r, hr, ho⟩, hvalue⟩

end SoleRow

namespace Move

/-- What an `UPDATE` registers has been sent. -/
theorem update_sent {site : Site} {value : CString} {id : Int} {a : Reply}
    (hm : Move c p i (.exec site (.updateStrData value id)) a p') :
    site = .registerOtp ∧ Sent c p i value := by
  obtain ⟨user, -, rfl, -, hok, words, hwords, rfl⟩ := hm.edge.before fun h => nomatch h
  obtain ⟨T, hT⟩ := hm.answers i _ (World.mem_own.mp hwords)
  have hT : some words = (c i).words := hT
  exact ⟨rfl, World.mem_own.mp hok, by rw [← hT]; rfl⟩

theorem stored_cases (hm : Move c p i op a p') (hf : (c i).Fits) {otp : CString}
    (h : Stored p' otp) :
    Stored p otp ∨ ∃ id, op = .exec .registerOtp (.updateStrData otp id) := by
  obtain ⟨r, hr, ho⟩ := h
  rcases (hm.change hf).row hr with ⟨s, hs, -, -, -, hotp | ⟨words, hop, hotp⟩⟩ | ⟨-, -, hnone, -⟩
  · exact .inl ⟨s, hs, hotp.symm.trans ho⟩
  · cases hotp.symm.trans ho
    exact .inr ⟨r.id, hop⟩
  · rw [hnone] at ho
    cases ho

end Move

/-! ## What a step preserves -/

namespace Agreed

theorem update_sending (h : Agreed c user p) {site : Site} {value : CString} {id : Int} {a : Reply}
    (hm : Move c p i (.exec site (.updateStrData value id)) a p') : Sending c p i value := by
  obtain ⟨rfl, hsent⟩ := hm.update_sent
  exact ⟨⟨_, hm.asks, rfl⟩, h.sends_of_sent hsent⟩

theorem stored_kept (h : Agreed c user p) (hf : (c i).Fits) (ht : InTime c p i)
    (hm : Move c p i op a p') {otp : CString} (hs : Stored p otp) : Stored p' otp := by
  have hstored := hs
  obtain ⟨s, hs, ho⟩ := hs
  obtain ⟨r, hr, -, hotp | ⟨words, rfl, hotp⟩⟩ := hm.kept hf ht hs
  · exact ⟨r, hr, hotp.trans ho⟩
  · -- overwritten, but with the same password
    rw [h.stored_sending i otp _ hstored (h.update_sending hm)] at hotp
    exact ⟨r, hr, hotp⟩

theorem stored_of_update (h : Agreed c user p) (hc : (c i).Complete) (hf : (c i).Fits)
    {site : Site} {value : CString} {id : Int} {a : Reply}
    (hm : Move c p i (.exec site (.updateStrData value id)) a p') : Stored p' value := by
  obtain ⟨s, hs, rfl⟩ := h.aims_row i id (aims_iff.mpr ⟨_, hm.asks, rfl⟩)
  refine ⟨{ s with otp := some value }, ?_, rfl⟩
  rw [(hm.evals hc hf).2]
  exact Table.mem_setOtp.mpr ⟨s, hs, by rw [if_pos rfl]⟩

theorem sent_ok_step (h : Agreed c user p) (hm : Move c p i op a p')
    (hlog : (j, ⟨.smsResponse, .ok⟩) ∈ p'.world.log) : (c j).smsResult = .ok := by
  rcases hm.mem_log.mp hlog with hlog | he
  · exact h.sent_ok j hlog
  · cases he
    obtain ⟨user, -, e, he, sockPath, req, rfl⟩ := hm.edge.before fun h => nomatch h
    obtain ⟨T, hT⟩ := hm.answers _ _ (World.mem_own.mp (List.mem_of_getLast? he))
    exact Call.smsResult_eq_ok_iff.mpr ⟨Eq.symm hT, hm.ans.symm⟩

theorem stored_sent_step (h : Agreed c user p) (hf : (c i).Fits) (hm : Move c p i op a p')
    {otp : CString} (hs : Stored p' otp) : ∃ j, Sent c p' j otp := by
  rcases hm.stored_cases hf hs with hs | ⟨id, rfl⟩
  · obtain ⟨j, hsent⟩ := h.stored_sent otp hs
    exact ⟨j, hm.sent hsent⟩
  · exact ⟨i, hm.sent hm.update_sent.2⟩

/-- The session that finds no password: the column is empty, and nobody else is sending another
one. -/
theorem check_null (h : Agreed c user p) (hc : (c i).Complete) (hf : (c i).Fits)
    (halone : AloneAtCheck c p i op) (hm : Move c p i op a p')
    (hnull : Registered user .isRegisteredOtp .otp false ⟨op, a⟩) :
    p'.world.state = p.world.state ∧ (∀ otp, ¬ Stored p otp) ∧
      ∀ k otp otp', k ≠ i → (c i).sends = some otp → Sending c p k otp' → otp = otp' := by
  obtain ⟨hT, r, hr, rfl, hnone⟩ := h.colStr_none hc hf hm (.inl rfl) hnull.colStr_none
  refine ⟨hT, ?_, ?_⟩
  · rintro otp ⟨s, hs, ho⟩
    rw [h.unique hs hr, hnone] at ho
    cases ho
  · rintro k otp otp' hk hsends ⟨⟨op', hw, hop'⟩, hsends'⟩
    exact halone (fun s hs _ => by rw [h.unique hs hr, hnone]) k hk op' hw hop' otp hsends otp'
      hsends'

theorem sending_eq_step (h : Agreed c user p) (hu : (c i).user = some user) (hc : (c i).Complete)
    (hf : (c i).Fits) (halone : AloneAtCheck c p i op) (hm : Move c p i op a p') {k : ι}
    {otp otp' : CString} (hj : Sending c p' j otp) (hk : Sending c p' k otp') : otp = otp' := by
  have hsends := hj.2
  have hsends' := hk.2
  rcases hm.sending_cases hu hj with hj | ⟨rfl, hnull⟩ <;>
    rcases hm.sending_cases hu hk with hk | ⟨rfl, hnull'⟩
  · exact h.sending_eq j k otp otp' hj hk
  · by_cases hjk : j = k
    · subst hjk
      exact Option.some.inj (hsends.symm.trans hsends')
    · exact ((h.check_null hc hf halone hm hnull').2.2 j _ _ hjk hsends' hj).symm
  · by_cases hkj : k = j
    · subst hkj
      exact Option.some.inj (hsends.symm.trans hsends')
    · exact (h.check_null hc hf halone hm hnull).2.2 k _ _ hkj hsends hk
  · exact Option.some.inj (hsends.symm.trans hsends')

theorem stored_sending_step (h : Agreed c user p) (hu : (c i).user = some user)
    (hc : (c i).Complete) (hf : (c i).Fits) (halone : AloneAtCheck c p i op)
    (hm : Move c p i op a p') {otp otp' : CString} (hs : Stored p' otp)
    (hj : Sending c p' j otp') : otp' = otp := by
  rcases hm.sending_cases hu hj with hj | ⟨rfl, hnull⟩
  · rcases hm.stored_cases hf hs with hs | ⟨id, rfl⟩
    · exact h.stored_sending j otp otp' hs hj
    · exact h.sending_eq j i otp' otp hj (h.update_sending hm)
  · obtain ⟨hT, hnone, -⟩ := h.check_null hc hf halone hm hnull
    unfold Stored at hs
    rw [hT] at hs
    exact absurd hs (hnone otp)

/-- A session that sends its password successfully goes on until it has stored it. -/
theorem sending_step (h : Agreed c user p) (hu : (c i).user = some user) (hc : (c i).Complete)
    (hf : (c i).Fits) (hm : Move c p i op a p') {otp : CString} (hop : op.sends)
    (hsends : (c i).sends = some otp) : Stored p' otp ∨ Sending c p' i otp := by
  obtain ⟨hresult, hwords⟩ := Call.sends_eq_some_iff.mp hsends
  obtain ⟨hreq, hresp⟩ := Call.smsResult_eq_ok_iff.mp hresult
  cases hnext : p'.sess i with
  | ask op' k =>
    have hw : p'.Waits i op' := Pool.waits_iff.mpr ⟨k, hnext⟩
    rcases hm.waits_cases hw with ⟨hne, -⟩ | ⟨-, user', hu', hbefore⟩
    · exact absurd rfl hne
    · rcases hbefore.of_sends hop with hop' | ⟨value, id, reply, he⟩
      · exact .inr ⟨⟨op', hw, hop'⟩, hsends⟩
      · cases he
        have hvalue := Option.some.inj ((h.update_sending hm).2.symm.trans hsends)
        exact .inl (hvalue ▸ h.stored_of_update hc hf hm)
  | ret exit =>
    -- no operation of the exchange fails
    exfalso
    rcases hm.ended exit hnext with ⟨hnone, -⟩ | ⟨user', hu', hended⟩
    · cases hnone.symm.trans hu
    cases hu'.symm.trans hu
    have ha := hm.ans
    rcases hended.of_sends hop with he | ⟨sockPath, req, failure, he⟩ | ⟨response, he, hne⟩ |
      ⟨code, he, hcode⟩ | ⟨reply, he, hid⟩ | ⟨value, id, reply, he, hcode⟩ <;> cases he
    · rw [show (c i).words = none from ha.symm] at hwords
      cases hwords
    · cases hreq.symm.trans ha.symm
    · exact hne (ha.trans hresp)
    · rw [hc.openDb] at ha
      exact hcode ha
    · have hpos := h.rowid_pos hc hf hm rfl
      omega
    · obtain ⟨rfl, -⟩ := hm.evals hc hf
      exact hcode rfl

theorem sent_cases_step (h : Agreed c user p) (hu : (c i).user = some user) (hc : (c i).Complete)
    (hf : (c i).Fits) (ht : InTime c p i) (hm : Move c p i op a p') {otp : CString}
    (hs : Sent c p' j otp) : Stored p' otp ∨ Sending c p' j otp := by
  obtain ⟨hlog, hotp⟩ := hs
  have hsends : (c j).sends = some otp :=
    Call.sends_eq_some_iff.mpr ⟨h.sent_ok_step hm hlog, hotp⟩
  rcases hm.mem_log.mp hlog with hlog | he
  · rcases h.sent_cases j otp ⟨hlog, hotp⟩ with hs | ⟨⟨op', hw, hop'⟩, -⟩
    · exact .inl (h.stored_kept hf ht hm hs)
    · by_cases hj : j = i
      · subst hj
        cases Option.some.inj (hw.symm.trans hm.asks)
        exact h.sending_step hu hc hf hm hop' hsends
      · refine .inr ⟨⟨op', ?_, hop'⟩, hsends⟩
        obtain ⟨k, hk⟩ := Pool.waits_iff.mp hw
        exact Pool.waits_iff.mpr ⟨k, by rw [hm.others j hj]; exact hk⟩
  · cases he
    exact h.sending_step hu hc hf hm rfl hsends

theorem stored_step (h : Agreed c user p) (hu : (c i).user = some user) (hc : (c i).Complete)
    (hf : (c i).Fits) (ht : InTime c p i) (hm : Move c p i op a p') {op' : Op}
    (hw : p'.Waits j op') (hop : op'.afterPassword) : ∃ otp, Stored p' otp := by
  have hkept : (∃ otp, Stored p otp) → ∃ otp, Stored p' otp :=
    fun ⟨otp, hs⟩ => ⟨otp, h.stored_kept hf ht hm hs⟩
  rcases hm.waits_cases hw with ⟨-, hw⟩ | ⟨rfl, user', hu', hbefore⟩
  · exact hkept (h.stored j op' hw hop)
  cases hu'.symm.trans hu
  rcases hbefore.afterPassword hop with hop | hreg | ⟨value, id, reply, he⟩
  · exact hkept (h.stored j op hm.asks hop)
  · obtain ⟨value, hcol⟩ := hreg.colStr_some
    obtain ⟨otp, buf, hs, -⟩ := h.colStr_some hc hf hm hcol
    exact hkept ⟨otp, hs⟩
  · cases he
    exact ⟨value, h.stored_of_update hc hf hm⟩

theorem compared_step (h : Agreed c user p) (hu : (c i).user = some user) (hc : (c i).Complete)
    (hf : (c i).Fits) (ht : InTime c p i) (hm : Move c p i op a p')
    {input otp : List Byte} {n : Nat}
    (he : p'.sess j = .ret (.compared input otp n)) : ∃ o, Stored p' o ∧ cstr otp = o.bytes := by
  rcases hm.ended_cases he with he | ⟨rfl, ⟨-, hexit⟩ | ⟨user', hu', hended⟩⟩
  · obtain ⟨o, hs, hcstr⟩ := h.compared j input otp n he
    exact ⟨o, h.stored_kept hf ht hm hs, hcstr⟩
  · cases hexit
  · obtain ⟨o, buf, hs, rfl⟩ := h.colStr_some hc hf hm (after_append_singleton.mp hended)
    refine ⟨o, h.stored_kept hf ht hm hs, ?_⟩
    obtain ⟨k, -, hk⟩ := h.stored_sent o hs
    obtain ⟨words, -, rfl⟩ := Option.map_eq_some_iff.mp hk
    exact (c k).cstr_fillBuffer_newOtp words buf

theorem found_step (h : Agreed c user p) (hu : (c i).user = some user) (hc : (c i).Complete)
    (hf : (c i).Fits) (hm : Move c p i op a p') : p'.sess j ≠ .ret .otpNotFound := by
  intro he
  rcases hm.ended_cases he with he | ⟨rfl, ⟨-, hexit⟩ | ⟨user', hu', hended⟩⟩
  · exact h.found j he
  · cases hexit
  · cases hu'.symm.trans hu
    obtain ⟨-, r, hr, hop, hnone⟩ := h.colStr_none hc hf hm (.inr rfl)
      (after_append_singleton.mp hended)
    obtain ⟨otp, s, hs, ho⟩ := h.stored j op hm.asks (by rw [hop]; rfl)
    rw [h.unique hs hr, hnone] at ho
    cases ho

theorem step (h : Agreed c user p) (hu : (c i).user = some user) (hc : (c i).Complete)
    (hf : (c i).Fits) (ht : InTime c p i) (hone : OneAtATime c p i) (hm : Move c p i op a p') :
    Agreed c user p' :=
  have halone := (hone op hm.asks).2
  { toSoleRow := h.toSoleRow.step hu hc hf ht (hone op hm.asks).1 hm
    sent_ok := fun _ hlog => h.sent_ok_step hm hlog
    stored_sent := fun _ hs => h.stored_sent_step hf hm hs
    sending_eq := fun _ _ _ _ hj hk => h.sending_eq_step hu hc hf halone hm hj hk
    stored_sending := fun _ _ _ hs hj => h.stored_sending_step hu hc hf halone hm hs hj
    sent_cases := fun _ _ hs => h.sent_cases_step hu hc hf ht hm hs
    stored := fun _ _ hw hop => h.stored_step hu hc hf ht hm hw hop
    compared := fun _ _ _ _ he => h.compared_step hu hc hf ht hm he
    found := fun _ => h.found_step hu hc hf hm }

end Agreed

theorem agreed_of_reach (hu : ∀ i, (c i).user = some user) (hc : ∀ i, (c i).Complete)
    (hf : ∀ i, (c i).Fits)
    (hp : Pool.Reach (handlers c) (fun p i => InTime c p i ∧ OneAtATime c p i) (start c) p) :
    Agreed c user p :=
  reach_invariant (agreed_start c user)
    (fun _ i _ _ _ h hcond hm => h.step (hu i) (hc i) (hf i) hcond.1 hcond.2 hm) hp

/-! ## One password for one row -/

omit [DecidableEq ι] in
theorem Agreed.sent_eq (h : Agreed c user p) {k : ι} {otp otp' : CString} (hj : Sent c p j otp)
    (hk : Sent c p k otp') : otp = otp' := by
  rcases h.sent_cases j otp hj with hs | hsend <;> rcases h.sent_cases k otp' hk with hs' | hsend'
  · obtain ⟨r, hr, ho⟩ := hs
    obtain ⟨r', hr', ho'⟩ := hs'
    rw [h.unique hr hr'] at ho
    exact Option.some.inj (ho.symm.trans ho')
  · exact (h.stored_sending k otp otp' hs hsend').symm
  · exact h.stored_sending j otp' otp hs' hsend
  · exact h.sending_eq j k otp otp' hsend hsend'

/-- All passwords that were sent are the same, `pam_get_otp` returns it, and never fails. -/
structure OneCode (c : ι → Call) (p : Sessions ι) : Prop where
  sent_eq : ∀ j k otp otp', Sent c p j otp → Sent c p k otp' → otp = otp'
  returned : ∀ i input otp n, p.sess i = .ret (.compared input otp n) →
    ∃ j o, Sent c p j o ∧ cstr otp = o.bytes
  found : ∀ i, p.sess i ≠ .ret .otpNotFound

theorem one_code (hu : ∀ i, (c i).user = some user) (hc : ∀ i, (c i).Complete)
    (hf : ∀ i, (c i).Fits)
    (hp : Pool.Reach (handlers c) (fun p i => InTime c p i ∧ OneAtATime c p i) (start c) p) :
    OneCode c p := by
  have h := agreed_of_reach hu hc hf hp
  refine ⟨fun _ _ _ _ => h.sent_eq, fun i input otp n he => ?_, h.found⟩
  obtain ⟨o, hs, hcstr⟩ := h.compared i input otp n he
  obtain ⟨j, hsent⟩ := h.stored_sent o hs
  exact ⟨j, o, hsent, hcstr⟩

/-- Two sessions of `ann` with different random words. -/
def annSevenEight : Login → Call
  | .first => .annEarly
  | .second => { Call.annLate with words := some fun _ => 8 }

theorem annSevenEight_user : ∀ i, (annSevenEight i).user = some (.ofLit "ann")
  | .first => rfl
  | .second => rfl

theorem annSevenEight_normal : ∀ i, (annSevenEight i).Normal
  | .first => Call.annEarly_normal
  | .second => Call.smooth_normal (by decide : NameFits (.ofLit "ann") 500)

/-- The second session starts while the first is at its SMS exchange, and looks for the password
when it is registered. -/
theorem one_code_in_turn :
    OneCode annSevenEight ((start annSevenEight).exec (handlers annSevenEight)
      (List.replicate 16 .first ++ List.replicate 13 .second ++ List.replicate 9 .first ++
        List.replicate 7 .second)) :=
  one_code annSevenEight_user (fun i => (annSevenEight_normal i).complete)
    (fun i => (annSevenEight_normal i).fits) (.exec _ _ .init (by decide +kernel))

/-- Both sessions find no password, and both send one. -/
def bothSend : List Login :=
  List.replicate 14 .first ++ List.replicate 15 .second ++ List.replicate 3 .first ++
    List.replicate 3 .second

theorem one_code_fails :
    ¬ ∀ c : Login → Call, (∀ i, (c i).user = some (.ofLit "ann")) → (∀ i, (c i).Complete) →
      (∀ i, (c i).Fits) → ∀ p, Pool.Reach (handlers c) (InTime c) (start c) p → OneCode c p := by
  intro h
  have hone := h annSevenEight annSevenEight_user (fun i => (annSevenEight_normal i).complete)
    (fun i => (annSevenEight_normal i).fits) _ (.exec _ bothSend .init (by decide +kernel))
  exact absurd (hone.sent_eq .first .second (.ofLit "77777") (.ofLit "88888") (by decide +kernel)
    (by decide +kernel)) (by decide)

end PamSmsauth
