import PamSmsauth.Blocks
import PamSmsauth.Lib.Pool
import PamSmsauth.Run

/-!
# Where a session is

Among other sessions a login is interrupted between any two operations, and all it knows then is
what it was answered. `Call.Before` says for every operation of the module what a session has just
been answered when it asks it (`After`), and `Call.Ended` the same for every exit path: together
they are the control flow of `pam_sm_authenticate` with its helpers, one edge for each way in which
one operation follows another (`Call.prog_traced`). What other sessions do in between is not
mentioned; an invariant over many sessions is kept when every edge keeps it.
-/

namespace PamSmsauth

open CText Eff

/-! ## What a reply means to the helper that gets it -/

/-- What `sqlite_get_rowid` returns. -/
def rowidOf (reply : Reply) : Int :=
  if (if (feed callbackRowid 0 reply.rows).2 then .abort else reply.code) ≠ Code.ok then -2
  else (feed callbackRowid 0 reply.rows).1

/-- What `sqlite_get_next_rowid` returns. -/
def nextRowidOf (reply : Reply) : Int :=
  let ret := if (feed callbackRowid 0 reply.rows).2 then Code.abort else reply.code
  wrap32 ((if ret ≠ .ok ∧ ret ≠ .empty ∧ ret ≠ .abort then -1
    else (feed callbackRowid 0 reply.rows).1) + 1)

/-- What `sqlite_get_col_str` returns after its `SELECT`, `buf` being its fresh buffer. -/
def dataOf (buf : List Byte) (reply : Reply) : Option (List Byte) :=
  match if (feed callbackDataStr buf reply.rows).2 then Code.abort else reply.code with
  | .abort | .error => none
  | .ok | .busy | .empty => some (feed callbackDataStr buf reply.rows).1

abbrev PamEvent := Event pamIface

/-- The last event satisfies `p`. -/
def After (es : List PamEvent) (p : PamEvent → Prop) : Prop := ∃ e, es.getLast? = some e ∧ p e

@[simp] theorem after_append_singleton {es : List PamEvent} {e : PamEvent}
    {p : PamEvent → Prop} : After (es ++ [e]) p ↔ p e := by
  simp [After]

theorem After.mono {es : List PamEvent} {p q : PamEvent → Prop} (h : After es p)
    (hpq : ∀ e, p e → q e) : After es q :=
  h.imp fun e he => ⟨he.1, hpq e he.2⟩

/-- The lookup at `site` found the id `id`. -/
def Found (user : CString) (site : Site) (id : Int) (e : PamEvent) : Prop :=
  ∃ reply, e = ⟨.exec site (.selectRowid user), reply⟩ ∧ rowidOf reply = id ∧ 0 < id

/-- `sqlite_get_col_str` at `site` ended with this event and returned this value. -/
def ColStr (user : CString) (site : Site) (col : Column) :
    Option (List Byte) → PamEvent → Prop
  | none, e =>
    (∃ code, e = ⟨.openDb site, code⟩ ∧ code ≠ .ok) ∨
    (∃ reply, e = ⟨.exec site (.selectRowid user), reply⟩ ∧ rowidOf reply ≤ 0) ∨
    ∃ id buf reply, e = ⟨.exec site (.selectData col id), reply⟩ ∧ dataOf buf reply = none
  | some value, e =>
    ∃ id buf reply, e = ⟨.exec site (.selectData col id), reply⟩ ∧ dataOf buf reply = some value

/-- `pam_is_registered_var(user, col, VARCHAR)` at `site` ended with this event and this answer. -/
def Registered (user : CString) (site : Site) (col : Column) (b : Bool) (e : PamEvent) : Prop :=
  ∃ value, ColStr user site col value e ∧ value.isSome = b

theorem ColStr.at {user : CString} {site : Site} {col : Column} {value : Option (List Byte)}
    {e : PamEvent} (h : ColStr user site col value e) : Op.At e.1 site := by
  cases value with
  | none => rcases h with ⟨_, rfl, -⟩ | ⟨_, rfl, -⟩ | ⟨_, _, _, rfl, -⟩ <;> rfl
  | some value =>
    obtain ⟨_, _, _, rfl, -⟩ := h
    rfl

theorem Registered.at {user : CString} {site : Site} {col : Column} {b : Bool} {e : PamEvent}
    (h : Registered user site col b e) : Op.At e.1 site := by
  obtain ⟨value, hcol, -⟩ := h
  exact hcol.at

theorem Registered.colStr_none {user : CString} {site : Site} {col : Column} {e : PamEvent}
    (h : Registered user site col false e) : ColStr user site col none e := by
  obtain ⟨value, hcol, hvalue⟩ := h
  rw [Option.isSome_eq_false_iff, Option.isNone_iff_eq_none] at hvalue
  rwa [hvalue] at hcol

theorem Registered.colStr_some {user : CString} {site : Site} {col : Column} {e : PamEvent}
    (h : Registered user site col true e) : ∃ value, ColStr user site col (some value) e := by
  obtain ⟨value, hcol, hvalue⟩ := h
  obtain ⟨value, rfl⟩ := Option.isSome_iff_exists.mp hvalue
  exact ⟨value, hcol⟩

/-- `pam_register_otp` failed with this event. -/
def RegisterFailed (user : CString) (e : PamEvent) : Prop :=
  (∃ code, e = ⟨.openDb .registerOtp, code⟩ ∧ code ≠ .ok) ∨
  (∃ reply, e = ⟨.exec .registerOtp (.selectRowid user), reply⟩ ∧ rowidOf reply ≤ 0) ∨
  ∃ value id reply, e = ⟨.exec .registerOtp (.updateStrData value id), reply⟩ ∧ reply.code ≠ .ok

namespace Call

/-! ## The edges -/

/-- The answers that the call can be given. -/
def Answers (c : Call) (op : pamIface.Op) (a : pamIface.Ans op) : Prop :=
  ∃ T, a = (c.handler op T).1

/-- What the session of `user` has done when it asks an operation after its first, the clock. -/
def Before (c : Call) (user : CString) (es : List PamEvent) : Op → Prop
  | .time => False
  | .getpwnam name => name = user ∧ After es (·.1 = .time)
  | .openDb .isRegisteredTimestamp => After es (·.1 = .getpwnam user)
  | .openDb .unregisterExpirVars => After es (Op.At ·.1 .isRegisteredTimestamp)
  | .openDb .isRegisteredUser =>
    After es fun e => Op.At e.1 .isRegisteredTimestamp ∨ Op.At e.1 .unregisterExpirVars
  | .openDb .registerInit => After es (Registered user .isRegisteredUser .user false)
  | .openDb .isRegisteredOtp => After es fun e =>
    Registered user .isRegisteredUser .user true e ∨
    ∃ id reply, e = ⟨.exec .registerInit (.insertData id user c.timeExpir), reply⟩ ∧
      reply.code = .ok
  | .openDb .registerOtp => After es (· = ⟨.smsResponse, .ok⟩)
  | .openDb .getOtp => After es fun e => ∃ input, e = ⟨.prompt, some input⟩
  | .malloc site => site ≠ .registerOtp ∧ After es (·.1 = .openDb site)
  | .exec site (.selectRowid name) =>
    name = user ∧ After es fun e => e.1 = .openDb site ∨ e.1 = .malloc site
  | .exec site (.selectData _ id) => site ≠ .registerOtp ∧ After es (Found user site id)
  | .exec site .selectNextRowid => site = .registerInit ∧ After es (·.1 = .openDb .registerInit)
  | .exec site (.insertData id name timestamp) =>
    site = .registerInit ∧ name = user ∧ timestamp = c.timeExpir ∧ 0 ≤ id ∧
      After es fun e => ∃ reply, e = ⟨.exec .registerInit .selectNextRowid, reply⟩ ∧
        nextRowidOf reply = id
  | .exec site (.updateStrData value id) =>
    site = .registerOtp ∧ After es (Found user .registerOtp id) ∧
      ⟨.smsResponse, .ok⟩ ∈ es ∧
      ∃ words, (⟨.urandom c.arg.otpLen, some words⟩ : PamEvent) ∈ es ∧ value = c.newOtp words
  | .exec site (.purgeTable time) =>
    site = .unregisterExpirVars ∧ time = c.time.1 ∧ After es (·.1 = .openDb .unregisterExpirVars)
  | .exec _ _ => False
  | .urandom _ => After es (Registered user .isRegisteredOtp .otp false)
  | .smsRequest _ _ => After es fun e => ∃ words, e = ⟨.urandom c.arg.otpLen, some words⟩
  | .smsResponse => After es fun e => ∃ sockPath req, e = ⟨.smsRequest sockPath req, none⟩
  | .prompt => After es fun e => Registered user .isRegisteredOtp .otp true e ∨
    ∃ value id reply, e = ⟨.exec .registerOtp (.updateStrData value id), reply⟩ ∧ reply.code = .ok

/-- What the session has done when it ends. -/
def Ended (c : Call) (user : CString) (es : List PamEvent) : Exit → Prop
  | .userUnknown => False
  | .exceptUser => After es (·.1 = .time)
  | .gecosNotFound => After es (·.1 = .getpwnam user)
  | .registerInitErr => After es (Op.At ·.1 .registerInit)
  | .otpGenErr => After es (· = ⟨.urandom c.arg.otpLen, none⟩)
  | .smsErr _ _ => After es fun e =>
    (∃ sockPath req failure, e = ⟨.smsRequest sockPath req, some failure⟩) ∨
    ∃ response, e = ⟨.smsResponse, response⟩ ∧ response ≠ .ok
  | .registerOtpErr => After es (RegisterFailed user)
  | .otpNotInput => After es (· = ⟨.prompt, none⟩)
  | .otpNotFound => After es (ColStr user .getOtp .otp none)
  | .compared _ otp _ => After es (ColStr user .getOtp .otp (some otp))

/-- The session is where it can ask `op`. -/
def Waiting (c : Call) (es : List PamEvent) (op : Op) : Prop :=
  op = .time ∧ es = [] ∨ ∃ user, c.user = some user ∧ c.Before user es op

theorem Waiting.before {c : Call} {es : List PamEvent} {op : Op} (h : c.Waiting es op)
    (hop : op ≠ .time) : ∃ user, c.user = some user ∧ c.Before user es op :=
  h.resolve_left fun h => hop h.1

/-- The session is where it can end with `exit`. -/
def Done (c : Call) (es : List PamEvent) (exit : Exit) : Prop :=
  c.user = none ∧ exit = .userUnknown ∨ ∃ user, c.user = some user ∧ c.Ended user es exit

/-- From the events `es` on, `p` follows the edges and ends with `Q`. -/
abbrev Follows {α : Type} (c : Call) (user : CString) (es : List PamEvent) (p : PamProg α)
    (Q : List PamEvent → α → Prop) : Prop :=
  p.Traced c.Answers (c.Before user) Q es

/-! ## The helpers follow the edges -/

section Helpers

variable {c : Call} {user : CString} {site : Site} {es : List PamEvent}

theorem sqlite3Exec_bind {α β : Type} (stmt : Stmt) (callback : β → List Cell → β × Bool)
    (arg : β) (f : β × Code → PamProg α) :
    sqlite3Exec site stmt callback arg >>= f = .ask (.exec site stmt) fun reply =>
      f ((feed callback arg reply.rows).1,
        if (feed callback arg reply.rows).2 then .abort else reply.code) := rfl

theorem sqliteGetRowid_follows {Q : List PamEvent → Int → Prop}
    (h : After es fun e => e.1 = .openDb site ∨ e.1 = .malloc site)
    (hQ : ∀ reply, Q (es ++ [⟨.exec site (.selectRowid user), reply⟩]) (rowidOf reply)) :
    c.Follows user es (sqliteGetRowid site user) Q :=
  ⟨⟨rfl, h⟩, fun reply _ => hQ reply⟩

theorem colStr_dataOf (user : CString) (site : Site) (col : Column) (id : Int) (buf : List Byte)
    (reply : Reply) :
    ColStr user site col (dataOf buf reply) ⟨.exec site (.selectData col id), reply⟩ := by
  cases h : dataOf buf reply with
  | none => exact .inr (.inr ⟨id, buf, reply, rfl, h⟩)
  | some value => exact ⟨id, buf, reply, rfl, h⟩

theorem sqliteGetColStr_follows {col : Column} {Q : List PamEvent → Option (List Byte) → Prop}
    (hsite : site ≠ .registerOtp) (hopen : c.Before user es (.openDb site))
    (hQ : ∀ es value, After es (ColStr user site col value) → Q es value) :
    c.Follows user es (sqliteGetColStr site user col) Q := by
  simp only [Follows, sqliteGetColStr, Prog.perform_bind, Prog.traced_ask]
  refine ⟨hopen, fun code _ => ?_⟩
  by_cases hcode : code = .ok
  · simp only [hcode, ne_eq, not_true_eq_false, if_false, Prog.traced_ask]
    refine ⟨⟨hsite, after_append_singleton.mpr rfl⟩, fun buf _ => ?_⟩
    refine Prog.traced_bind.mpr (sqliteGetRowid_follows
      (after_append_singleton.mpr (.inr rfl)) fun reply => ?_)
    by_cases hid : rowidOf reply ≤ 0
    · simp only [hid, if_true]
      exact hQ _ none (after_append_singleton.mpr (.inr (.inl ⟨reply, rfl, hid⟩)))
    · simp only [hid, if_false, sqlite3Exec_bind, Prog.traced_ask]
      refine ⟨⟨hsite, after_append_singleton.mpr ⟨reply, rfl, rfl, by omega⟩⟩, fun data _ => ?_⟩
      have hdata := colStr_dataOf user site col (rowidOf reply) buf.1 data
      unfold dataOf at hdata
      split at hdata <;> rename_i hresult <;> simp only [hresult] <;>
        exact hQ _ _ (after_append_singleton.mpr hdata)
  · simp only [ne_eq, hcode, not_false_eq_true, if_true]
    exact hQ _ none (after_append_singleton.mpr (.inl ⟨code, rfl, hcode⟩))

theorem sqliteGetColInt_follows {col : Column} {Q : List PamEvent → Int → Prop}
    (hsite : site ≠ .registerOtp) (hopen : c.Before user es (.openDb site))
    (hQ : ∀ es value, After es (Op.At ·.1 site) → Q es value) :
    c.Follows user es (sqliteGetColInt site user col) Q := by
  simp only [Follows, sqliteGetColInt, Prog.perform_bind, Prog.traced_ask]
  refine ⟨hopen, fun code _ => ?_⟩
  by_cases hcode : code = .ok
  · simp only [hcode, ne_eq, not_true_eq_false, if_false]
    refine Prog.traced_bind.mpr (sqliteGetRowid_follows
      (after_append_singleton.mpr (.inl rfl)) fun reply => ?_)
    by_cases hid : rowidOf reply ≤ 0
    · simp only [hid, if_true]
      exact hQ _ _ (after_append_singleton.mpr rfl)
    · simp only [hid, if_false, sqlite3Exec_bind, Prog.traced_ask]
      exact ⟨⟨hsite, after_append_singleton.mpr ⟨reply, rfl, rfl, by omega⟩⟩,
        fun data _ => hQ _ _ (after_append_singleton.mpr rfl)⟩
  · simp only [ne_eq, hcode, not_false_eq_true, if_true]
    exact hQ _ _ (after_append_singleton.mpr rfl)

theorem sqliteGetNextRowid_follows {Q : List PamEvent → Int → Prop}
    (h : After es (·.1 = .openDb .registerInit))
    (hQ : ∀ reply, Q (es ++ [⟨.exec .registerInit .selectNextRowid, reply⟩]) (nextRowidOf reply)) :
    c.Follows user es (sqliteGetNextRowid .registerInit) Q :=
  ⟨⟨rfl, h⟩, fun reply _ => hQ reply⟩

theorem sqliteInsertRow_follows {Q : List PamEvent → Int → Prop}
    (hopen : c.Before user es (.openDb .registerInit))
    (hQ : ∀ es value, (value = 0 → After es fun e => ∃ id reply,
        e = ⟨.exec .registerInit (.insertData id user c.timeExpir), reply⟩ ∧ reply.code = .ok) →
      After es (Op.At ·.1 .registerInit) → Q es value) :
    c.Follows user es (sqliteInsertRow .registerInit user c.timeExpir) Q := by
  simp only [Follows, sqliteInsertRow, Prog.perform_bind, Prog.traced_ask]
  refine ⟨hopen, fun code _ => ?_⟩
  by_cases hcode : code = .ok
  · simp only [hcode, ne_eq, not_true_eq_false, if_false]
    refine Prog.traced_bind.mpr (sqliteGetNextRowid_follows
      (after_append_singleton.mpr rfl) fun next => ?_)
    by_cases hneg : nextRowidOf next < 0
    · simp only [hneg, if_true]
      exact hQ _ _ (fun h => absurd h (by decide)) (after_append_singleton.mpr rfl)
    · simp only [hneg, if_false]
      refine ⟨⟨rfl, rfl, rfl, by omega, after_append_singleton.mpr ⟨next, rfl, rfl⟩⟩,
        fun reply _ => hQ _ _ (fun h0 => after_append_singleton.mpr ⟨_, reply, rfl, ?_⟩)
          (after_append_singleton.mpr rfl)⟩
      by_contra hne
      simp [hne] at h0
  · simp only [ne_eq, hcode, not_false_eq_true, if_true]
    exact hQ _ _ (fun h => absurd h (by decide)) (after_append_singleton.mpr rfl)

theorem sqlitePurgeTable_follows {Q : List PamEvent → Int → Prop}
    (hopen : c.Before user es (.openDb .unregisterExpirVars))
    (hQ : ∀ es value, After es (Op.At ·.1 .unregisterExpirVars) → Q es value) :
    c.Follows user es (sqlitePurgeTable .unregisterExpirVars c.time.1) Q := by
  simp only [Follows, sqlitePurgeTable, Prog.perform_bind, Prog.traced_ask]
  refine ⟨hopen, fun code _ => ?_⟩
  by_cases hcode : code = .ok
  · simp only [hcode, ne_eq, not_true_eq_false, if_false, Prog.traced_ask]
    exact ⟨⟨rfl, rfl, after_append_singleton.mpr rfl⟩,
      fun reply _ => hQ _ _ (after_append_singleton.mpr rfl)⟩
  · simp only [ne_eq, hcode, not_false_eq_true, if_true]
    exact hQ _ _ (after_append_singleton.mpr rfl)

theorem sqliteSetColStr_follows {words : Nat → UInt64} {Q : List PamEvent → Int → Prop}
    (hopen : After es (· = ⟨.smsResponse, .ok⟩))
    (hwords : (⟨.urandom c.arg.otpLen, some words⟩ : PamEvent) ∈ es)
    (hQ : ∀ es value, (value = 0 → After es fun e => ∃ value id reply,
        e = ⟨.exec .registerOtp (.updateStrData value id), reply⟩ ∧ reply.code = .ok) →
      (value ≠ 0 → After es (RegisterFailed user)) → Q es value) :
    c.Follows user es (sqliteSetColStr .registerOtp user (c.newOtp words)) Q := by
  have hsent : (⟨.smsResponse, .ok⟩ : PamEvent) ∈ es := by
    obtain ⟨e, he, rfl⟩ := hopen
    exact List.mem_of_getLast? he
  simp only [Follows, sqliteSetColStr, Prog.perform_bind, Prog.traced_ask]
  refine ⟨hopen, fun code _ => ?_⟩
  by_cases hcode : code = .ok
  · simp only [hcode, ne_eq, not_true_eq_false, if_false]
    refine Prog.traced_bind.mpr (sqliteGetRowid_follows
      (after_append_singleton.mpr (.inl rfl)) fun reply => ?_)
    by_cases hid : rowidOf reply ≤ 0
    · simp only [hid, if_true]
      exact hQ _ _ (fun h => absurd h (by decide))
        fun _ => after_append_singleton.mpr (.inr (.inl ⟨reply, rfl, hid⟩))
    · simp only [hid, if_false, Prog.traced_ask]
      refine ⟨⟨rfl, after_append_singleton.mpr ⟨reply, rfl, rfl, by omega⟩, by simp [hsent],
        words, by simp [hwords], rfl⟩, fun done _ => ?_⟩
      by_cases hdone : done.code = .ok
      · exact hQ _ _ (fun _ => after_append_singleton.mpr ⟨_, _, done, rfl, hdone⟩)
          fun h => absurd (by simp [hdone]) h
      · exact hQ _ _ (fun h => absurd h (by simp [hdone]))
          fun _ => after_append_singleton.mpr (.inr (.inr ⟨_, _, done, rfl, hdone⟩))
  · simp only [ne_eq, hcode, not_false_eq_true, if_true]
    exact hQ _ _ (fun h => absurd h (by decide))
      fun _ => after_append_singleton.mpr (.inl ⟨code, rfl, hcode⟩)

theorem pamIsRegisteredVar_follows {col : Column} {Q : List PamEvent → Bool → Prop}
    (hsite : site ≠ .registerOtp) (hopen : c.Before user es (.openDb site))
    (hQ : ∀ es b, After es (Registered user site col b) → Q es b) :
    c.Follows user es (pamIsRegisteredVar site user col .varchar) Q := by
  refine Prog.traced_bind.mpr (Prog.traced_bind.mpr
    (sqliteGetColStr_follows hsite hopen fun es value h => hQ es _ (h.mono fun e he => ?_)))
  exact ⟨value, he, by cases value <;> rfl⟩

end Helpers

/-! ## The blocks -/

section Blocks

variable {c : Call} {user : CString} {es : List PamEvent}

theorem userGetInfo_follows {Q : List PamEvent → Option UserInfo → Prop}
    (hstart : After es (·.1 = .time))
    (hQ : ∀ gecos info, Q (es ++ [⟨.getpwnam user, gecos⟩]) info) :
    c.Follows user es (userGetInfo user) Q :=
  ⟨⟨rfl, hstart⟩, fun gecos _ => hQ gecos _⟩

theorem purgeExpired_follows {Q : List PamEvent → Unit → Prop}
    (hstart : After es (·.1 = .getpwnam user))
    (hQ : ∀ es, After es (fun e => Op.At e.1 .isRegisteredTimestamp ∨
      Op.At e.1 .unregisterExpirVars) → Q es ()) :
    c.Follows user es (purgeExpired user c.time.1) Q := by
  refine Prog.traced_bind.mpr (Prog.traced_bind.mpr (Prog.traced_bind.mpr
    (sqliteGetColInt_follows (by decide) hstart fun es value h => ?_)))
  simp only [Prog.pure_def, Prog.traced_ret]
  split
  · refine Prog.traced_bind.mpr (Prog.traced_bind.mpr (sqlitePurgeTable_follows h
      fun es _ h => ?_))
    exact hQ es (h.mono fun _ => .inr)
  · exact hQ es (h.mono fun _ => .inl)

theorem registerUser_follows {Q : List PamEvent → Bool → Prop}
    (hstart : After es fun e => Op.At e.1 .isRegisteredTimestamp ∨
      Op.At e.1 .unregisterExpirVars)
    (hQ : ∀ es b, (b = true → c.Before user es (.openDb .isRegisteredOtp)) →
      (b = false → c.Ended user es .registerInitErr) → Q es b) :
    c.Follows user es (registerUser user c.timeExpir) Q := by
  refine Prog.traced_bind.mpr (pamIsRegisteredVar_follows (by decide) hstart fun es b h => ?_)
  cases b with
  | true => exact hQ es true (fun _ => h.mono fun _ => .inl) (by simp)
  | false =>
    refine Prog.traced_bind.mpr (sqliteInsertRow_follows h fun es value hok hend => hQ es _ ?_ ?_)
    · exact fun h0 => (hok (of_decide_eq_true h0)).mono fun _ => .inr
    · exact fun _ => hend

theorem otpGen_follows {Q : List PamEvent → Option CString → Prop}
    (hstart : After es (Registered user .isRegisteredOtp .otp false))
    (hQ : ∀ words, Q (es ++ [⟨.urandom c.arg.otpLen, words⟩]) (words.map c.newOtp)) :
    c.Follows user es (otpGen c.arg.otpLen c.arg.otpType) Q :=
  ⟨hstart, fun words _ => hQ words⟩

theorem smsSend_follows {sockPath : List Byte} {info : UserInfo} {otp : CString}
    {Q : List PamEvent → SmsResult → Prop}
    (hstart : After es fun e => ∃ words, e = ⟨.urandom c.arg.otpLen, some words⟩)
    (hQ : ∀ es' result, es <+: es' → (result = .ok → After es' (· = ⟨.smsResponse, .ok⟩)) →
      (result ≠ .ok → ∀ ret, c.Ended user es' (.smsErr result ret)) → Q es' result) :
    c.Follows user es (smsSend sockPath info otp) Q := by
  refine ⟨hstart, fun failure _ => ?_⟩
  cases failure with
  | some failure =>
    refine hQ _ _ (List.prefix_append ..) (fun h => ?_)
      fun _ _ => after_append_singleton.mpr (.inl ⟨_, _, failure, rfl⟩)
    cases failure <;> cases h
  | none =>
    refine ⟨after_append_singleton.mpr ⟨_, _, rfl⟩, fun response _ => hQ _ _ ?_ (fun h => ?_)
      fun h _ => after_append_singleton.mpr (.inr ⟨response, rfl, ?_⟩)⟩
    · rw [List.append_assoc]; exact List.prefix_append ..
    · refine after_append_singleton.mpr ?_
      cases response with
      | ok => rfl
      | readfromsock => cases h
      | gateway => cases h
    · rintro rfl
      exact h rfl

theorem provideOtp_follows {info : UserInfo} {Q : List PamEvent → Option Exit → Prop}
    (hstart : c.Before user es (.openDb .isRegisteredOtp))
    (hQ : ∀ es exit, (exit = none → c.Before user es .prompt) →
      (∀ e, exit = some e → c.Ended user es e) → Q es exit) :
    c.Follows user es (provideOtp c.arg c.ctrl user info) Q := by
  refine Prog.traced_bind.mpr (pamIsRegisteredVar_follows (by decide) hstart fun es b h => ?_)
  cases b with
  | true => exact hQ es none (fun _ => h.mono fun _ => .inl) (by simp)
  | false =>
    refine Prog.traced_bind.mpr (otpGen_follows h fun words => ?_)
    cases words with
    | none =>
      refine hQ _ _ (by simp) fun e he => ?_
      cases he
      exact after_append_singleton.mpr rfl
    | some words =>
      refine Prog.traced_bind.mpr (smsSend_follows (after_append_singleton.mpr ⟨words, rfl⟩)
        fun es' result hpre hsent hfail => ?_)
      by_cases hsms : (smsOnErr result c.ctrl).1 ≠ 0
      · simp only [if_pos hsms]
        refine hQ _ _ (by simp) fun e he => ?_
        cases he
        exact hfail (fun hok => hsms ((smsOnErr_eq_zero_iff _ _).mpr hok)) _
      · simp only [if_neg hsms]
        have hok := (smsOnErr_eq_zero_iff result c.ctrl).mp (by simpa using hsms)
        refine Prog.traced_bind.mpr (Prog.traced_bind.mpr (sqliteSetColStr_follows (hsent hok)
          (hpre.subset (by simp)) fun es value hdone hnot => ?_))
        by_cases h0 : value = 0
        · simp only [h0, Prog.pure_def, Prog.traced_ret, decide_true, if_true]
          exact hQ _ _ (fun _ => (hdone h0).mono fun _ => .inr) (by simp)
        · simp only [h0, Prog.pure_def, Prog.traced_ret, decide_false, Bool.false_eq_true, if_false]
          refine hQ _ _ (by simp) fun e he => ?_
          cases he
          exact hnot h0

theorem checkToken_follows (hstart : c.Before user es .prompt) :
    c.Follows user es (checkToken user c.arg.otpLen) (c.Ended user) := by
  simp only [Follows, checkToken, Prog.perform_bind, Prog.traced_ask]
  refine ⟨hstart, fun typed _ => ?_⟩
  cases typed with
  | none => exact after_append_singleton.mpr rfl
  | some input =>
    have hopen : c.Before user (es ++ [⟨.prompt, some input⟩]) (.openDb .getOtp) :=
      after_append_singleton.mpr ⟨input, rfl⟩
    refine Prog.traced_bind.mpr (sqliteGetColStr_follows (by decide) hopen fun es value h => ?_)
    cases value with
    | none => exact h
    | some otp => exact h

theorem loginUser_follows (hstart : After es (·.1 = .time)) :
    c.Follows user es (loginUser c.arg c.ctrl user c.time.1) (c.Ended user) := by
  refine Prog.traced_bind.mpr (userGetInfo_follows hstart fun gecos info => ?_)
  cases info with
  | none => exact after_append_singleton.mpr rfl
  | some info =>
    refine Prog.traced_bind.mpr (purgeExpired_follows (after_append_singleton.mpr rfl)
      fun es h => Prog.traced_bind.mpr (registerUser_follows h fun es b hok hend => ?_))
    cases b with
    | false => exact hend rfl
    | true =>
      refine Prog.traced_bind.mpr (provideOtp_follows (hok rfl) fun es exit hprompt hexit => ?_)
      cases exit with
      | some exit => exact hexit exit rfl
      | none => exact checkToken_follows (hprompt rfl)

end Blocks

/-- Whatever it is answered, a session of the module is always on one of the edges. -/
theorem prog_traced (c : Call) : c.prog.Traced c.Answers c.Waiting c.Done [] := by
  refine ⟨.inl ⟨rfl, rfl⟩, fun time htime => ?_⟩
  obtain ⟨T, rfl⟩ := htime
  cases hu : c.user with
  | none => exact .inl ⟨hu, rfl⟩
  | some user =>
    refine Prog.Traced.mono ?_ (fun _ _ h => .inr ⟨user, hu, h⟩) (fun _ _ h => .inr ⟨user, hu, h⟩)
    change c.Follows user _ (if exceptMatch c.arg c.ctrl user then .ret .exceptUser
      else loginUser c.arg c.ctrl user c.time.1) _
    split
    · exact after_append_singleton.mpr rfl
    · exact loginUser_follows (after_append_singleton.mpr rfl)

end Call

end PamSmsauth
