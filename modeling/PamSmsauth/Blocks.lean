import PamSmsauth.Authenticate

/-!
# What the blocks ask and return

A database helper called at `site` asks only operations of that site, and the four blocks of the
login use disjoint sites. So what one operation is answered can only matter in its block, and an
operation of a block that is in the events of a call was asked there.

The login is `beforeToken`, everything up to the prompt, followed by `checkToken` (`loginUser_eq`);
the exit paths of the two parts are apart.
-/

namespace PamSmsauth

open CText Eff

/-- The helper call that a database operation belongs to. -/
def Op.site : Op → Option Site
  | .openDb site | .malloc site | .exec site _ => some site
  | _ => none

def Op.At (op : Op) (site : Site) : Prop := op.site = some site

instance (op : Op) (site : Site) : Decidable (op.At site) := inferInstanceAs (Decidable (_ = _))

/-- The operation is no database operation. -/
def Op.Outside (op : Op) : Prop := op.site = none

section Helpers

variable (site : Site) (user : CString)

theorem sqlite3Exec_asks {β : Type} (stmt : Stmt) (callback : β → List Cell → β × Bool) (arg : β) :
    (sqlite3Exec site stmt callback arg).Asks fun op : Op => op.At site :=
  ⟨rfl, fun _ => trivial⟩

theorem sqliteGetNextRowid_asks : (sqliteGetNextRowid site).Asks fun op : Op => op.At site :=
  (sqlite3Exec_asks site ..).bind fun _ => trivial

theorem sqliteGetRowid_asks : (sqliteGetRowid site user).Asks fun op : Op => op.At site :=
  (sqlite3Exec_asks site ..).bind fun _ => trivial

theorem sqliteInsertRow_asks (timestamp : Int) :
    (sqliteInsertRow site user timestamp).Asks fun op : Op => op.At site :=
  ⟨rfl, fun _ => .ite trivial <| (sqliteGetNextRowid_asks site).bind fun _ =>
    .ite trivial ⟨rfl, fun _ => trivial⟩⟩

theorem sqliteGetColStr_asks (col : Column) :
    (sqliteGetColStr site user col).Asks fun op : Op => op.At site := by
  refine ⟨rfl, fun _ => .ite trivial ⟨rfl, fun value => (sqliteGetRowid_asks site user).bind
    fun rowid => .ite trivial ((sqlite3Exec_asks site ..).bind fun p => ?_)⟩⟩
  obtain ⟨value, result⟩ := p
  cases result <;> trivial

theorem sqliteGetColInt_asks (col : Column) :
    (sqliteGetColInt site user col).Asks fun op : Op => op.At site :=
  ⟨rfl, fun _ => .ite trivial <| (sqliteGetRowid_asks site user).bind fun _ =>
    .ite trivial <| (sqlite3Exec_asks site ..).bind fun _ => trivial⟩

theorem sqliteSetColStr_asks (value : CString) :
    (sqliteSetColStr site user value).Asks fun op : Op => op.At site :=
  ⟨rfl, fun _ => .ite trivial <| (sqliteGetRowid_asks site user).bind fun _ =>
    .ite trivial ⟨rfl, fun _ => trivial⟩⟩

theorem sqlitePurgeTable_asks (time : Int) :
    (sqlitePurgeTable site time).Asks fun op : Op => op.At site :=
  ⟨rfl, fun _ => .ite trivial ⟨rfl, fun _ => trivial⟩⟩

theorem pamIsRegisteredVar_asks (col : Column) (type : DataType) :
    (pamIsRegisteredVar site user col type).Asks fun op : Op => op.At site := by
  refine Prog.Asks.bind ?_ fun _ => trivial
  cases type with
  | varint => exact (sqliteGetColInt_asks site user col).bind fun _ => trivial
  | varchar => exact (sqliteGetColStr_asks site user col).bind fun _ => trivial

end Helpers

/-! ## The blocks -/

theorem userGetInfo_asks (user : CString) :
    (userGetInfo user).Asks fun op : Op => op = .getpwnam user :=
  ⟨rfl, fun _ => trivial⟩

theorem otpGen_asks (len : Nat) (type : OtpType) :
    (otpGen len type).Asks fun op : Op => op = .urandom len :=
  ⟨rfl, fun _ => trivial⟩

theorem smsSend_asks (sockPath : List Byte) (user : UserInfo) (otp : CString) :
    (smsSend sockPath user otp).Asks Op.Outside := by
  refine ⟨rfl, fun failure => ?_⟩
  cases failure with
  | none => exact ⟨rfl, fun _ => trivial⟩
  | some failure => trivial

theorem purgeExpired_asks (user : CString) (time : Int) :
    (purgeExpired user time).Asks fun op : Op =>
      op.At .isRegisteredTimestamp ∨ op.At .unregisterExpirVars := by
  refine ((pamIsRegisteredVar_asks _ user _ _).mono fun _ => .inl).bind fun b => ?_
  cases b with
  | false => trivial
  | true =>
    refine Prog.Asks.bind (Prog.Asks.mono ?_ fun _ => .inr) fun _ => trivial
    exact (sqlitePurgeTable_asks _ time).bind fun _ => trivial

theorem registerUser_asks (user : CString) (timeExpir : Int) :
    (registerUser user timeExpir).Asks fun op : Op =>
      op.At .isRegisteredUser ∨ op.At .registerInit := by
  refine ((pamIsRegisteredVar_asks _ user _ _).mono fun _ => .inl).bind fun b => ?_
  cases b with
  | true => trivial
  | false =>
    refine Prog.Asks.mono ?_ fun _ => .inr
    exact (sqliteInsertRow_asks _ user timeExpir).bind fun _ => trivial

theorem pamRegisterOtp_asks (user value : CString) :
    (pamRegisterOtp user value).Asks fun op : Op => op.At .registerOtp :=
  (sqliteSetColStr_asks _ user value).bind fun _ => trivial

theorem provideOtp_asks (arg : PamSmsauthArg) (ctrl : Flags) (user : CString) (info : UserInfo) :
    (provideOtp arg ctrl user info).Asks fun op : Op =>
      op.Outside ∨ op.At .isRegisteredOtp ∨ op.At .registerOtp := by
  refine ((pamIsRegisteredVar_asks _ user _ _).mono fun _ h => .inr (.inl h)).bind fun b => ?_
  cases b with
  | true => trivial
  | false =>
    refine ((otpGen_asks arg.otpLen arg.otpType).mono fun _ h => .inl (h ▸ rfl)).bind fun otp => ?_
    cases otp with
    | none => trivial
    | some otp =>
      refine ((smsSend_asks arg.sockPath info otp).mono fun _ => .inl).bind fun result => ?_
      refine .ite trivial (((pamRegisterOtp_asks user otp).mono fun _ h => .inr (.inr h)).bind
        fun done => .ite trivial trivial)

theorem pamGetOtp_asks (user : CString) :
    (pamGetOtp user).Asks fun op : Op => op.At .getOtp :=
  sqliteGetColStr_asks _ user _

theorem checkToken_asks (user : CString) (otpLen : Nat) :
    (checkToken user otpLen).Asks fun op : Op => op = .prompt ∨ op.At .getOtp := by
  refine ⟨.inl rfl, fun typed => ?_⟩
  cases typed with
  | none => trivial
  | some otpInput =>
    refine ((pamGetOtp_asks user).mono fun _ => .inr).bind fun otp => ?_
    cases otp <;> trivial

/-! ## The exit paths -/

/-- The exit paths before the prompt. -/
def Exit.beforePrompt : Exit → Bool
  | .gecosNotFound | .registerInitErr | .otpGenErr | .smsErr _ _ | .registerOtpErr => true
  | _ => false

/-- The exit paths after the prompt. -/
def Exit.afterPrompt : Exit → Bool
  | .otpNotInput | .otpNotFound | .compared _ _ _ => true
  | _ => false

theorem provideOtp_gives (arg : PamSmsauthArg) (ctrl : Flags) (user : CString) (info : UserInfo) :
    (provideOtp arg ctrl user info).Gives fun exit => ∀ e, exit = some e → e.beforePrompt := by
  refine Prog.Gives.bind fun registered => ?_
  cases registered with
  | true => exact fun e h => by cases h
  | false =>
    refine Prog.Gives.bind (p := otpGen arg.otpLen arg.otpType) fun otp => ?_
    cases otp with
    | none => exact fun e h => by cases h; rfl
    | some otp =>
      refine Prog.Gives.bind (p := smsSend arg.sockPath info otp) fun result => ?_
      by_cases hsms : (smsOnErr result ctrl).1 ≠ 0
      · simp only [if_pos hsms]
        exact fun e h => by cases h; rfl
      · simp only [if_neg hsms]
        refine Prog.Gives.bind (p := pamRegisterOtp user otp) fun done => ?_
        cases done with
        | true => exact fun e h => by cases h
        | false => exact fun e h => by cases h; rfl

theorem checkToken_gives (user : CString) (otpLen : Nat) :
    (checkToken user otpLen).Gives fun exit => exit.afterPrompt := by
  intro typed
  cases typed with
  | none => rfl
  | some otpInput =>
    refine Prog.Gives.bind (p := pamGetOtp user) fun otp => ?_
    cases otp <;> rfl

/-! ## The login, cut before the prompt -/

/-- The login up to the prompt: the exit path taken before it, or `none`. -/
def beforeToken (arg : PamSmsauthArg) (ctrl : Flags) (user : CString) (timeNow : Int) :
    PamProg (Option Exit) := do
  match ← userGetInfo user with
  | none => return some .gecosNotFound
  | some info =>
    purgeExpired user timeNow
    if ← registerUser user (arg.timeExpir * 60 + timeNow) then provideOtp arg ctrl user info
    else return some .registerInitErr

theorem loginUser_eq (arg : PamSmsauthArg) (ctrl : Flags) (user : CString) (timeNow : Int) :
    loginUser arg ctrl user timeNow = beforeToken arg ctrl user timeNow >>= fun exit =>
      match exit with
      | some exit => .ret exit
      | none => checkToken user arg.otpLen := by
  unfold loginUser beforeToken
  rw [Prog.bind_assoc]
  congr 1
  funext info
  cases info with
  | none => rfl
  | some info =>
    change (purgeExpired user timeNow >>= _) = ((purgeExpired user timeNow >>= _) >>= _)
    rw [Prog.bind_assoc]
    congr 1
    funext _
    change (registerUser user (arg.timeExpir * 60 + timeNow) >>= _) =
      ((registerUser user (arg.timeExpir * 60 + timeNow) >>= _) >>= _)
    rw [Prog.bind_assoc]
    congr 1
    funext done
    cases done with
    | false => rfl
    | true =>
      change (provideOtp arg ctrl user info >>= _) = (provideOtp arg ctrl user info >>= _)
      congr 1

theorem beforeToken_asks (arg : PamSmsauthArg) (ctrl : Flags) (user : CString) (timeNow : Int) :
    (beforeToken arg ctrl user timeNow).Asks fun op : Op => ¬ op.At .getOtp := by
  have hne : ∀ {op : Op} {site : Site}, site ≠ .getOtp → op.At site → ¬ op.At .getOtp :=
    fun hs h h' => hs (Option.some.inj (h.symm.trans h'))
  have hout : ∀ {op : Op}, op.Outside → ¬ op.At .getOtp :=
    fun h h' => by cases h.symm.trans h'
  refine ((userGetInfo_asks user).mono fun _ h => hout (h ▸ rfl)).bind fun info => ?_
  cases info with
  | none => trivial
  | some info =>
    refine ((purgeExpired_asks user timeNow).mono fun _ h =>
      h.elim (hne (by decide)) (hne (by decide))).bind fun _ => ?_
    refine ((registerUser_asks user _).mono fun _ h =>
      h.elim (hne (by decide)) (hne (by decide))).bind fun done => ?_
    exact .ite ((provideOtp_asks arg ctrl user info).mono fun _ h =>
      h.elim hout fun h => h.elim (hne (by decide)) (hne (by decide))) trivial

theorem beforeToken_gives (arg : PamSmsauthArg) (ctrl : Flags) (user : CString) (timeNow : Int) :
    (beforeToken arg ctrl user timeNow).Gives fun exit => ∀ e, exit = some e → e.beforePrompt := by
  refine Prog.Gives.bind fun info => ?_
  cases info with
  | none => exact fun e h => by cases h; rfl
  | some info =>
    refine Prog.Gives.bind (p := purgeExpired user timeNow) fun _ => ?_
    refine Prog.Gives.bind (p := registerUser user (arg.timeExpir * 60 + timeNow)) fun done => ?_
    cases done with
    | false => exact fun e h => by cases h; rfl
    | true => exact provideOtp_gives arg ctrl user info

theorem loginUser_gives (arg : PamSmsauthArg) (ctrl : Flags) (user : CString) (timeNow : Int) :
    (loginUser arg ctrl user timeNow).Gives
      fun exit => exit.beforePrompt || exit.afterPrompt := by
  rw [loginUser_eq]
  refine Prog.Gives.bind_of (beforeToken_gives arg ctrl user timeNow) fun exit hexit => ?_
  cases exit with
  | none => exact (checkToken_gives user arg.otpLen).mono fun e he => by simp [he]
  | some exit => exact by simp [Prog.Gives, hexit exit rfl]

end PamSmsauth
