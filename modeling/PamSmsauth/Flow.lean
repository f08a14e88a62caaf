import PamSmsauth.Call

/-!
# A login in closed form

For a call whose statements all complete and whose user name fits the statement buffer, on a table
with positive ids, `Call.run` is the function `Call.flow` of the call and the table
(`Call.run_eq_flow`): the statements, buffers and callbacks are gone, what is left is the purge
(`Table.afterPurge`), the row of the user (`Table.afterRegister`), the password (`Call.provide`)
and the comparison (`Call.check`). Ids stay positive, so this describes every call of a sequential
run that starts from the empty table.
-/

namespace PamSmsauth

open CText Eff

/-! ## The steps on the table -/

namespace Table

/-- `pam_is_registered_var(user, "timestamp", VARINT)`: the low 32 bits of the timestamp are not
all zero. -/
def timestampRegistered (T : Table) (user : CString) : Bool :=
  match T.lookup user with
  | none => false
  | some r => 0 < storeInt 0 (clampLong r.timestamp)

/-- What `sqlite_get_col_int(user, "timestamp")` returns. -/
def colInt (T : Table) (user : CString) : Int :=
  match T.lookup user with
  | none => -2
  | some r => if r.id ≤ 0 then -2 else storeInt 0 (clampLong r.timestamp)

/-- The table after the purge that starts at `time`. -/
def afterPurge (T : Table) (user : CString) (time : Int) : Table :=
  if T.timestampRegistered user then T.purge time else T

/-- The table with a new row for the user. -/
def add (T : Table) (user : CString) (timestamp : Int) : Table :=
  ((Stmt.insertData T.nextRowid user timestamp).eval T).2

/-- The user's row, created if there is none; `none` when no id is left for it. -/
def afterRegister (T : Table) (user : CString) (timestamp : Int) : Option (Table × Row) :=
  match T.lookup user with
  | some r => some (T, r)
  | none =>
    if T.nextRowid < 0 then none
    else some (T.add user timestamp, ⟨T.nextRowid, user, none, timestamp⟩)

/-- The largest id, 0 for the empty table. -/
def lastId (T : Table) : Int := T.maxId.getD 0

theorem lastId_inInt (T : Table) : InInt T.lastId := by
  unfold lastId
  cases h : T.maxId with
  | none => decide
  | some m =>
    obtain ⟨r, hr, rfl⟩ := maxId_mem h
    exact T.idsFit r hr

theorem le_lastId {T : Table} {r : Row} (hr : r ∈ T.rows) : r.id ≤ T.lastId := by
  unfold lastId
  cases h : T.maxId with
  | none =>
    rw [rows_eq_nil_of_maxId h] at hr
    cases hr
  | some m => exact le_maxId h r hr

theorem Positive.lastId_nonneg {T : Table} (hT : T.Positive) : 0 ≤ T.lastId := by
  unfold lastId
  cases h : T.maxId with
  | none => exact Int.le_refl 0
  | some m =>
    obtain ⟨r, hr, rfl⟩ := maxId_mem h
    exact Int.le_of_lt (hT r hr)

theorem nextRowid_neg_iff (T : Table) :
    T.nextRowid < 0 ↔ T.lastId < -1 ∨ T.lastId = 2 ^ 31 - 1 := by
  have hfit := T.lastId_inInt
  show wrap32 (T.lastId + 1) < 0 ↔ _
  unfold InInt at hfit
  unfold wrap32
  omega

theorem nextRowid_eq {T : Table} (h : 0 ≤ T.nextRowid) : T.nextRowid = T.lastId + 1 := by
  have hneg := mt T.nextRowid_neg_iff.mpr (Int.not_lt.mpr h)
  have hfit := T.lastId_inInt
  show wrap32 (T.lastId + 1) = _
  unfold InInt at hfit
  apply wrap32_of_inInt
  unfold InInt
  omega

theorem lt_nextRowid {T : Table} (h : 0 ≤ T.nextRowid) {s : Row} (hs : s ∈ T.rows) :
    s.id < T.nextRowid := by
  have hle := le_lastId hs
  rw [nextRowid_eq h]
  omega

theorem Positive.nextRowid_pos {T : Table} (hT : T.Positive) (h : 0 ≤ T.nextRowid) :
    0 < T.nextRowid := by
  have hlast := hT.lastId_nonneg
  rw [nextRowid_eq h]
  omega

theorem add_eval {T : Table} (h : 0 ≤ T.nextRowid) (user : CString) (timestamp : Int) :
    (Stmt.insertData T.nextRowid user timestamp).eval T = (⟨[], .ok⟩, T.add user timestamp) ∧
      ∃ hfit hnew, T.add user timestamp =
        T.insert ⟨T.nextRowid, user, none, timestamp⟩ hfit hnew := by
  have hfit : InInt T.nextRowid ∧ ∀ s ∈ T.rows, s.id ≠ T.nextRowid :=
    ⟨wrap32_inInt _, fun s hs => Int.ne_of_lt (lt_nextRowid h hs)⟩
  refine ⟨?_, hfit.1, hfit.2, ?_⟩ <;> simp only [add, Stmt.eval, dif_pos hfit]

theorem mem_add {T : Table} (h : 0 ≤ T.nextRowid) {user : CString} {timestamp : Int} {s : Row} :
    s ∈ (T.add user timestamp).rows ↔ s = ⟨T.nextRowid, user, none, timestamp⟩ ∨ s ∈ T.rows := by
  obtain ⟨-, hfit, hnew, hadd⟩ := add_eval h user timestamp
  rw [hadd, mem_insert]

theorem lookup_add {T : Table} (h : 0 ≤ T.nextRowid) {user : CString} {timestamp : Int}
    (hu : T.lookup user = none) :
    (T.add user timestamp).lookup user = some ⟨T.nextRowid, user, none, timestamp⟩ := by
  obtain ⟨-, hfit, hnew, hadd⟩ := add_eval h user timestamp
  rw [hadd]
  exact lookup_insert_self (r := ⟨T.nextRowid, user, none, timestamp⟩) hu

theorem Positive.keep {T : Table} (hT : T.Positive) (p : Row → Bool) : (T.keep p).Positive :=
  fun r hr => hT r (List.mem_of_mem_filter hr)

theorem Positive.setOtp {T : Table} (hT : T.Positive) (value : CString) (id : Int) :
    (T.setOtp value id).Positive := by
  intro r hr
  obtain ⟨s, hs, rfl⟩ := mem_setOtp.mp hr
  split <;> exact hT s hs

theorem Positive.afterPurge {T : Table} (hT : T.Positive) (user : CString) (time : Int) :
    (T.afterPurge user time).Positive := by
  unfold Table.afterPurge
  split
  · exact hT.keep _
  · exact hT

/-- The row that `afterRegister` names is the one a lookup finds. -/
theorem Positive.afterRegister {T : Table} (hT : T.Positive) {user : CString} {timestamp : Int}
    {T' : Table} {r : Row} (h : T.afterRegister user timestamp = some (T', r)) :
    T'.Positive ∧ T'.lookup user = some r := by
  unfold Table.afterRegister at h
  cases hl : T.lookup user with
  | some s =>
    rw [hl] at h
    cases h
    exact ⟨hT, hl⟩
  | none =>
    rw [hl] at h
    simp only at h
    split_ifs at h with hneg
    cases h
    have hnn : 0 ≤ T.nextRowid := by omega
    refine ⟨fun s hs => ?_, lookup_add hnn hl⟩
    rcases (mem_add hnn).mp hs with rfl | hs
    · exact hT.nextRowid_pos hnn
    · exact hT s hs

end Table

/-! ## The rest of the call -/

namespace Call

/-- What `sms_send` returns in this call. -/
def smsResult (c : Call) : SmsResult :=
  match c.request with
  | some failure => failure.result
  | none => c.response.result

/-- The user's password and the table it is registered in, or the exit path. -/
def provide (c : Call) (T : Table) (r : Row) : Except Exit (CString × Table) :=
  match r.otp, c.words with
  | some otp, _ => .ok (otp, T)
  | none, none => .error .otpGenErr
  | none, some words =>
    if c.smsResult = .ok then
      .ok (otpText c.arg.otpLen c.arg.otpType words,
        T.setOtp (otpText c.arg.otpLen c.arg.otpType words) r.id)
    else .error (.smsErr c.smsResult (smsOnErr c.smsResult c.ctrl).2)

/-- The comparison with the password of the row. -/
def check (c : Call) (otp : CString) : Exit :=
  match c.typed with
  | none => .otpNotInput
  | some otpInput =>
    .compared otpInput.bytes (fillBuffer otp.bytes (c.buffer .getOtp).1) c.arg.otpLen

/-- `user_get_info` of this call. -/
def info (c : Call) : Option UserInfo := c.gecos.bind fun gecos => (userSetInfo gecos).toOption

/-- The flow after the exemption check. -/
def login (c : Call) (user : CString) (T : Table) : Exit × Table :=
  if c.info = none then (.gecosNotFound, T)
  else
    match (T.afterPurge user c.time.1).afterRegister user c.timeExpir with
    | none => (.registerInitErr, T.afterPurge user c.time.1)
    | some (T', r) =>
      match c.provide T' r with
      | .error exit => (exit, T')
      | .ok (otp, T'') => (c.check otp, T'')

def flow (c : Call) (T : Table) : Exit × Table :=
  match c.user with
  | none => (.userUnknown, T)
  | some user =>
    if exceptMatch c.arg c.ctrl user then (.exceptUser, T) else c.login user T

/-! ## The helpers -/

variable {c : Call} {T : Table} {user : CString} {site : Site}

/-- The integer column with whatever ids the table has. -/
theorem sqliteGetColInt_run_any (site : Site) (hc : c.Complete)
    (hu : (Stmt.selectRowid user).Intact) :
    (sqliteGetColInt site user .timestamp).run c.handler T = (T.colInt user, T) := by
  have hid := sqliteGetRowid_run (T := T) site hc hu
  unfold Table.colInt
  cases h : T.lookup user with
  | none =>
    have hle : T.rowid user ≤ 0 := by simp [Table.rowid, h]
    simp [sqliteGetColInt, hc.openDb, Prog.run_bind_of c.handler hid, hle]
  | some r =>
    have hx := hc.exec site
      (Stmt.intact_selectData .timestamp (T.idsFit r (Table.lookup_mem h).1)) T
    rw [T.rowid_of_lookup h] at hid
    by_cases hle : r.id ≤ 0
    · simp [sqliteGetColInt, hc.openDb, Prog.run_bind_of c.handler hid, hle]
    · simp [sqliteGetColInt, hc.openDb, Prog.run_bind_of c.handler hid, hle, sqlite3Exec, hx,
        Stmt.eval, T.filter_id, T.find_of_lookup h, Column.cell, feed, callbackDataInt, atol,
        strtol_decimal]

theorem sqliteGetColInt_run (site : Site) (hc : c.Complete) (hu : (Stmt.selectRowid user).Intact)
    (hT : T.Positive) :
    (sqliteGetColInt site user .timestamp).run c.handler T =
      (match T.lookup user with
        | none => -2
        | some r => storeInt 0 (clampLong r.timestamp), T) := by
  rw [sqliteGetColInt_run_any site hc hu, Table.colInt]
  cases h : T.lookup user with
  | none => rfl
  | some r =>
    have hgt : ¬ r.id ≤ 0 := by have := hT r (Table.lookup_mem h).1; omega
    simp only [if_neg hgt]

theorem sqlitePurgeTable_run (hc : c.Complete) (site : Site) (time : TimeT) (T : Table) :
    (sqlitePurgeTable site time.1).run c.handler T = (0, T.purge time.1) := by
  simp [sqlitePurgeTable, hc.openDb, hc.exec site (Stmt.intact_purgeTable time), Stmt.eval]

theorem sqliteInsertRow_run_neg (site : Site) (hc : c.Complete) {timestamp : Int}
    (h : T.nextRowid < 0) :
    (sqliteInsertRow site user timestamp).run c.handler T = (-2, T) := by
  have hid := sqliteGetNextRowid_run (T := T) site hc
  simp [sqliteInsertRow, hc.openDb, Prog.run_bind_of c.handler hid, h]

theorem sqliteInsertRow_run_add (site : Site) (hc : c.Complete) {timestamp : Int}
    (h : 0 ≤ T.nextRowid) (hint : (Stmt.insertData T.nextRowid user timestamp).Intact) :
    (sqliteInsertRow site user timestamp).run c.handler T = (0, T.add user timestamp) := by
  have hid := sqliteGetNextRowid_run (T := T) site hc
  have hlt : ¬ T.nextRowid < 0 := Int.not_lt.mpr h
  have hx := hc.exec site hint T
  rw [(Table.add_eval h user timestamp).1] at hx
  simp [sqliteInsertRow, hc.openDb, Prog.run_bind_of c.handler hid, hlt, hx]

theorem sqliteSetColStr_run (site : Site) (hc : c.Complete) (hu : (Stmt.selectRowid user).Intact)
    {r : Row} (h : T.lookup user = some r) (hpos : 0 < r.id) {value : CString}
    (hv : (Stmt.updateStrData value r.id).Intact) :
    (sqliteSetColStr site user value).run c.handler T = (0, T.setOtp value r.id) := by
  have hid := sqliteGetRowid_run (T := T) site hc hu
  rw [T.rowid_of_lookup h] at hid
  have hgt : ¬ r.id ≤ 0 := by omega
  simp [sqliteSetColStr, hc.openDb, Prog.run_bind_of c.handler hid, hgt, hc.exec site hv,
    Stmt.eval]

/-! ## The blocks of the flow -/

theorem pamIsRegisteredVar_varchar_run (site : Site) (hc : c.Complete)
    (hu : (Stmt.selectRowid user).Intact) (hT : T.Positive) (col : Column) :
    (pamIsRegisteredVar site user col .varchar).run c.handler T =
      (((T.lookup user).bind fun r => col.cell r).isSome, T) := by
  have hrun := sqliteGetColStr_run (T := T) site hc hu hT col
  simp only [pamIsRegisteredVar, sqliteIsFieldEmpty, Prog.run_bind, hrun, Prog.pure_def,
    Prog.run_ret]
  cases (T.lookup user).bind fun r => col.cell r <;> rfl

theorem pamIsRegisteredVar_varint_run (site : Site) (hc : c.Complete)
    (hu : (Stmt.selectRowid user).Intact) (hT : T.Positive) :
    (pamIsRegisteredVar site user .timestamp .varint).run c.handler T =
      (T.timestampRegistered user, T) := by
  have hrun := sqliteGetColInt_run (T := T) site hc hu hT
  simp only [pamIsRegisteredVar, sqliteIsFieldEmpty, Prog.run_bind, hrun, Prog.pure_def,
    Prog.run_ret, Table.timestampRegistered]
  cases T.lookup user with
  | none => rfl
  | some r => simp only [← decide_not, Int.not_le]

theorem purgeExpired_run (hc : c.Complete) (hu : (Stmt.selectRowid user).Intact)
    (hT : T.Positive) :
    (purgeExpired user c.time.1).run c.handler T = ((), T.afterPurge user c.time.1) := by
  have hreg := pamIsRegisteredVar_varint_run (T := T) .isRegisteredTimestamp hc hu hT
  have hpurge := sqlitePurgeTable_run hc .unregisterExpirVars c.time T
  simp only [purgeExpired, Prog.run_bind_of c.handler hreg, Table.afterPurge]
  cases T.timestampRegistered user
  · simp
  · simp [pamUnregisterExpirVars, Prog.run_bind, hpurge]

theorem registerUser_run (hc : c.Complete) (hu : NameFits user c.timeExpir) (hT : T.Positive) :
    (registerUser user c.timeExpir).run c.handler T =
      match T.afterRegister user c.timeExpir with
      | none => (false, T)
      | some (T', _) => (true, T') := by
  have hreg := pamIsRegisteredVar_varchar_run (T := T) .isRegisteredUser hc
    (Stmt.intact_selectRowid hu) hT .user
  cases h : T.lookup user with
  | some r =>
    simp only [h, Option.bind_some, Column.cell, Option.isSome_some] at hreg
    simp [registerUser, Prog.run_bind_of c.handler hreg, Table.afterRegister, h]
  | none =>
    simp only [h, Option.bind_none, Option.isSome_none] at hreg
    by_cases hneg : T.nextRowid < 0
    · have hins : (sqliteInsertRow .registerInit user c.timeExpir).run c.handler T = (-2, T) :=
        sqliteInsertRow_run_neg .registerInit hc hneg
      simp [registerUser, Prog.run_bind_of c.handler hreg, Table.afterRegister, h, hneg,
        pamRegisterInit, Prog.run_bind_of c.handler hins]
    · have hnn : 0 ≤ T.nextRowid := Int.not_lt.mp hneg
      have hins := sqliteInsertRow_run_add .registerInit hc hnn
        (Stmt.intact_insertData hu hnn (wrap32_inInt _))
      simp [registerUser, Prog.run_bind_of c.handler hreg, Table.afterRegister, h, hneg,
        pamRegisterInit, Prog.run_bind_of c.handler hins]

theorem smsSend_run (c : Call) (T : Table) (sockPath : List Byte) (info : UserInfo)
    (otp : CString) : (smsSend sockPath info otp).run c.handler T = (c.smsResult, T) := by
  have hreq : ∀ req, c.handler (.smsRequest sockPath req) T = (c.request, T) := fun _ => rfl
  have hresp : c.handler .smsResponse T = (c.response, T) := rfl
  simp only [smsSend, Prog.perform_bind, Prog.run_ask, hreq, smsResult]
  cases c.request <;> simp [hresp]

theorem otpGen_run (c : Call) (T : Table) (len : Nat) (type : OtpType) :
    (otpGen len type).run c.handler T = (c.words.map (otpText len type), T) := rfl

theorem provideOtp_run (hc : c.Complete) (hu : (Stmt.selectRowid user).Intact) (hT : T.Positive)
    {r : Row} (h : T.lookup user = some r) (info : UserInfo) :
    (provideOtp c.arg c.ctrl user info).run c.handler T =
      match c.provide T r with
      | .error exit => (some exit, T)
      | .ok (_, T') => (none, T') := by
  have hreg := pamIsRegisteredVar_varchar_run (T := T) .isRegisteredOtp hc hu hT .otp
  have hpos := hT r (Table.lookup_mem h).1
  simp only [h, Option.bind_some, Column.cell, Option.isSome_map] at hreg
  cases ho : r.otp with
  | some otp =>
    rw [ho] at hreg
    simp [provideOtp, Prog.run_bind_of c.handler hreg, provide, ho]
  | none =>
    rw [ho] at hreg
    cases hw : c.words with
    | none =>
      simp [provideOtp, Prog.run_bind_of c.handler hreg, provide, ho, Prog.run_bind, otpGen_run, hw]
    | some words =>
      have hlen : c.arg.otpLen ≤ 24 := (parse_inv c.argv).otpLen_le
      have hint := Stmt.intact_updateStrData c.arg.otpType words hlen
        (T.idsFit r (Table.lookup_mem h).1)
      have hset := sqliteSetColStr_run .registerOtp hc hu h hpos hint
      by_cases hok : c.smsResult = .ok
      · have hzero := (smsOnErr_eq_zero_iff c.smsResult c.ctrl).mpr hok
        simp only [hok] at hzero
        simp [provideOtp, Prog.run_bind_of c.handler hreg, provide, ho, Prog.run_bind, otpGen_run,
          hw, smsSend_run, hok, hzero, pamRegisterOtp, hset]
      · have hne : (smsOnErr c.smsResult c.ctrl).1 ≠ 0 :=
          fun h0 => hok ((smsOnErr_eq_zero_iff _ _).mp h0)
        simp [provideOtp, Prog.run_bind_of c.handler hreg, provide, ho, Prog.run_bind, otpGen_run,
          hw, smsSend_run, hok, hne]

theorem checkToken_run (hc : c.Complete) (hu : (Stmt.selectRowid user).Intact) (hT : T.Positive)
    {r : Row} (h : T.lookup user = some r) {otp : CString} (ho : r.otp = some otp) :
    (checkToken user c.arg.otpLen).run c.handler T = (c.check otp, T) := by
  have hget := sqliteGetColStr_run (T := T) .getOtp hc hu hT .otp
  have hprompt : c.handler .prompt T = (c.typed, T) := rfl
  simp only [h, Option.bind_some, Column.cell, ho, Option.map_some, CString.cstr_bytes] at hget
  simp only [checkToken, Prog.perform_bind, Prog.run_ask, hprompt, check]
  cases c.typed with
  | none => rfl
  | some otpInput => simp [pamGetOtp, Prog.run_bind_of c.handler hget]

/-- What `provide` gives is the password of the row that a lookup finds afterwards. -/
theorem provide_ok {T' : Table} {r : Row} {otp : CString} (hT : T.Positive)
    (h : T.lookup user = some r) (hp : c.provide T r = .ok (otp, T')) :
    T'.Positive ∧ T'.lookup user = some { r with otp := some otp } := by
  unfold provide at hp
  split at hp
  · rename_i ho
    cases hp
    exact ⟨hT, by rw [h, ← ho]⟩
  · cases hp
  · split at hp
    · cases hp
      exact ⟨hT.setOtp _ _, by rw [Table.lookup_setOtp, h]; simp⟩
    · cases hp

theorem loginUser_run (hc : c.Complete) (hu : NameFits user c.timeExpir) (hT : T.Positive) :
    (loginUser c.arg c.ctrl user c.time.1).run c.handler T = c.login user T := by
  have hsel := Stmt.intact_selectRowid hu
  have hinfo : (userGetInfo user).run c.handler T = (c.info, T) := rfl
  have hT₁ := hT.afterPurge user c.time.1
  have hreg := registerUser_run hc hu hT₁
  simp only [loginUser, Prog.run_bind_of c.handler hinfo, login]
  cases hi : c.info with
  | none => simp
  | some info =>
    simp only [Prog.run_bind_of c.handler (purgeExpired_run hc hsel hT), reduceCtorEq, if_false]
    cases hr : (T.afterPurge user c.time.1).afterRegister user c.timeExpir with
    | none =>
      rw [hr] at hreg
      change (registerUser user c.timeExpir >>= _).run c.handler _ = _
      simp [Prog.run_bind_of c.handler hreg]
    | some p =>
      obtain ⟨T', r⟩ := p
      obtain ⟨hT', hl⟩ := hT₁.afterRegister hr
      rw [hr] at hreg
      have hprov := provideOtp_run hc hsel hT' hl info
      change (registerUser user c.timeExpir >>= _).run c.handler _ = _
      simp only [Prog.run_bind_of c.handler hreg, if_true]
      cases hp : c.provide T' r with
      | error exit =>
        rw [hp] at hprov
        simp [Prog.run_bind_of c.handler hprov]
      | ok q =>
        obtain ⟨otp, T''⟩ := q
        rw [hp] at hprov
        obtain ⟨hT'', hl''⟩ := provide_ok hT' hl hp
        simp [Prog.run_bind_of c.handler hprov, checkToken_run hc hsel hT'' hl'' rfl]

/-- A call whose statements complete is its closed form. -/
theorem run_eq_flow (hc : c.Complete) (hf : c.Fits) (hT : T.Positive) : c.run T = c.flow T := by
  have htime : c.handler .time T = (c.time, T) := rfl
  simp only [run, prog, pamSmAuthenticate, Prog.perform_bind, Prog.run_ask, htime, flow]
  cases hu : c.user with
  | none => rfl
  | some user =>
    change (if exceptMatch c.arg c.ctrl user then pure .exceptUser
      else loginUser c.arg c.ctrl user c.time.1 : PamProg Exit).run c.handler T =
        if exceptMatch c.arg c.ctrl user then (.exceptUser, T) else c.login user T
    split
    · rfl
    · exact loginUser_run hc (hf user hu) hT

end Call

end PamSmsauth
