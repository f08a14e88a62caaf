import PamSmsauth.Authenticate

/-!
# One call and what it meets

A `Call` is one call of `pam_sm_authenticate` with everything it meets: its arguments, the clock
when it starts, the account database, the random words, what becomes of the SMS, the typed token
and when it arrives, the contents of fresh buffers, and for each single open and statement the
result code SQLite gives. `Call.handler` answers the operations from it: a statement whose code is
`SQLITE_OK` is executed, any other code leaves the table alone and delivers nothing. A statement
text that SQLite does not read as intended does whatever `foreign` says.

For a call whose statements complete and whose user name fits the statement buffer, each database
helper is then one equation on the table (`sqliteGetRowid_run` and the lemmas after it).
-/

namespace PamSmsauth

open CText Eff

structure Call where
  argv : List CString
  user : Option CString
  time : TimeT
  gecos : Option CString
  words : Option (Nat → UInt64)
  request : Option SendFailure
  response : Response
  typed : Option CString
  answered : Int
  buffer : Site → Buffer
  outcome : Op → Code
  foreign : List Byte → Table → Reply × Table

namespace Call

def handler (c : Call) : Handler pamIface Table := fun op T =>
  match op with
  | .time => (c.time, T)
  | .getpwnam _ => (c.gecos, T)
  | .openDb site => (c.outcome (.openDb site), T)
  | .malloc site => (c.buffer site, T)
  | .exec site stmt =>
    match c.outcome (.exec site stmt) with
    | .ok => if stmt.Intact then stmt.eval T else c.foreign (snprintf 256 stmt.text) T
    | code => (⟨[], code⟩, T)
  | .urandom _ => (c.words, T)
  | .smsRequest _ _ => (c.request, T)
  | .smsResponse => (c.response, T)
  | .prompt => (c.typed, T)

def arg (c : Call) : PamSmsauthArg := (parse c.argv).arg

def ctrl (c : Call) : Flags := (parse c.argv).flags

def prog (c : Call) : PamProg Exit := pamSmAuthenticate c.argv c.user

/-- The call alone on a table: its exit and the table it leaves. -/
def run (c : Call) (T : Table) : Exit × Table := c.prog.run c.handler T

def trace (c : Call) (T : Table) : List (Event pamIface) := c.prog.trace c.handler T

/-- The timestamp of a row that the call creates. -/
def timeExpir (c : Call) : Int := c.arg.timeExpir * 60 + c.time.1

/-- Every open and every statement completes. -/
def Complete (c : Call) : Prop := ∀ op, c.outcome op = .ok

end Call

/-- The name has no quote and the statements built from it fit the buffer, whatever the id. -/
def NameFits (user : CString) (timestamp : Int) : Prop :=
  (39 : Byte) ∉ user.bytes ∧
    (Stmt.insertData (2 ^ 31 - 1) user timestamp).text.length < Stmt.sqlStatementMaxsize

instance (user : CString) (timestamp : Int) : Decidable (NameFits user timestamp) :=
  inferInstanceAs (Decidable (_ ∧ _))

/-- The user name of the call fits. -/
def Call.Fits (c : Call) : Prop := ∀ user, c.user = some user → NameFits user c.timeExpir

/-! ## Intact statements -/

theorem length_decimal_timeT (t : TimeT) : (decimal t.1).length ≤ 20 := by
  obtain ⟨t, h1, h2⟩ := t
  have := length_decimalNat_le (n := t.natAbs) (k := 19) (by decide) (by omega)
  unfold decimal
  split
  · simp; omega
  · simp; omega

theorem Stmt.intact_selectNextRowid : Stmt.selectNextRowid.Intact := by decide

/-- The `SELECT` of a name is shorter than its `INSERT`. -/
theorem Stmt.length_selectRowid_lt (id timestamp : Int) (user : CString) :
    (Stmt.selectRowid user).text.length < (Stmt.insertData id user timestamp).text.length := by
  have e1 : (lit "SELECT id FROM pam_status WHERE user='").length = 38 := by decide
  have e2 : (lit "';").length = 2 := by decide
  have e3 : (lit "INSERT INTO pam_status VALUES (").length = 31 := by decide
  have e4 : (lit "',null,").length = 7 := by decide
  have e5 : (lit ",'").length = 2 := by decide
  have e6 : (lit ");").length = 2 := by decide
  simp only [Stmt.text, List.length_append]
  omega

theorem Stmt.intact_selectRowid_of_insertData {id timestamp : Int} {user : CString}
    (h : (Stmt.insertData id user timestamp).Intact) : (Stmt.selectRowid user).Intact :=
  ⟨h.1, Nat.lt_trans (Stmt.length_selectRowid_lt id timestamp user) h.2⟩

theorem Stmt.intact_selectRowid {user : CString} {timestamp : Int} (h : NameFits user timestamp) :
    (Stmt.selectRowid user).Intact :=
  Stmt.intact_selectRowid_of_insertData h

theorem Stmt.intact_selectData (col : Column) {id : Int} (h : InInt id) :
    (Stmt.selectData col id).Intact := by
  refine ⟨by simp [Stmt.literal], ?_⟩
  have hid := length_decimal_le h
  have e1 : (lit "SELECT ").length = 7 := by decide
  have e2 : (lit " FROM pam_status WHERE id=").length = 26 := by decide
  have e3 : (lit ";").length = 1 := by decide
  have e4 : col.name.length ≤ 9 := by cases col <;> decide
  simp only [Stmt.text, List.length_append, Stmt.sqlStatementMaxsize]
  omega

theorem Stmt.intact_insertData {user : CString} {timestamp id : Int}
    (h : NameFits user timestamp) (h0 : 0 ≤ id) (hid : InInt id) :
    (Stmt.insertData id user timestamp).Intact := by
  refine ⟨h.1, ?_⟩
  have hlen := h.2
  have hid' := length_decimal_le_of_nonneg h0 hid
  have e1 : (decimal (2 ^ 31 - 1)).length = 10 := by decide
  simp only [Stmt.text, List.length_append, Stmt.sqlStatementMaxsize] at hlen ⊢
  omega

theorem Stmt.intact_updateStrData {len : Nat} (type : OtpType) (words : Nat → UInt64) {id : Int}
    (hlen : len ≤ 24) (hid : InInt id) :
    (Stmt.updateStrData (otpText len type words) id).Intact := by
  refine ⟨not_mem_otpBytes (by decide), ?_⟩
  have hid' := length_decimal_le hid
  have e1 : (lit "UPDATE pam_status SET otp='").length = 27 := by decide
  have e2 : (lit "' WHERE id=").length = 11 := by decide
  have e3 : (lit ";").length = 1 := by decide
  simp only [Stmt.text, List.length_append, Stmt.sqlStatementMaxsize, otpText_bytes,
    length_otpBytes]
  omega

theorem Stmt.intact_purgeTable (t : TimeT) : (Stmt.purgeTable t.1).Intact := by
  refine ⟨by simp [Stmt.literal], ?_⟩
  have ht := length_decimal_timeT t
  have e1 : (lit "DELETE FROM pam_status WHERE timestamp<").length = 39 := by decide
  have e2 : (lit ";").length = 1 := by decide
  simp only [Stmt.text, List.length_append, Stmt.sqlStatementMaxsize]
  omega

/-! ## The callbacks -/

theorem feed_rowid (rows : List Row) (h : ∀ r ∈ rows, InInt r.id) (id : Int) :
    feed callbackRowid id (rows.map fun r => [some (decimal r.id)]) =
      ((rows.getLast?.map Row.id).getD id, false) := by
  induction rows generalizing id with
  | nil => rfl
  | cons r rows ih =>
    have hr := atoi_decimal (h r (by simp))
    simp only [List.map_cons, feed, callbackRowid, Bool.false_eq_true, if_false, hr,
      ih fun s hs => h s (by simp [hs])]
    cases rows with
    | nil => rfl
    | cons s rows => rw [List.getLast?_cons_cons, List.getLast?_eq_some_getLast (by simp)]; rfl

/-- The buffer after `callback_data_str` stored `data` in it. -/
def fillBuffer (data result : List Byte) : List Byte :=
  data.take (min data.length varMaxlen) ++ 0 :: result.drop (min data.length varMaxlen + 1)

theorem cstr_fillBuffer (data : CString) (result : List Byte) :
    cstr (fillBuffer data.bytes result) = data.bytes.take varMaxlen := by
  have hmin : data.bytes.take (min data.bytes.length varMaxlen) = data.bytes.take varMaxlen := by
    rw [List.take_eq_take_iff]; omega
  rw [fillBuffer, hmin]
  exact cstr_append_nul (fun h => data.nulFree (List.mem_of_mem_take h)) _

/-! ## The helpers, when every statement completes -/

namespace Call

variable {c : Call} {T : Table} {user : CString} {site : Site}

@[simp] theorem handler_malloc (c : Call) (site : Site) (T : Table) :
    c.handler (.malloc site) T = (c.buffer site, T) := rfl

theorem Complete.openDb (hc : c.Complete) (site : Site) (T : Table) :
    c.handler (.openDb site) T = (.ok, T) := by
  simp only [handler, hc (.openDb site)]

theorem exec_ok {stmt : Stmt} (h : c.outcome (.exec site stmt) = .ok) (hs : stmt.Intact) :
    c.handler (.exec site stmt) T = stmt.eval T := by
  simp only [handler, h, if_pos hs]

theorem exec_fail {stmt : Stmt} (h : c.outcome (.exec site stmt) ≠ .ok) :
    c.handler (.exec site stmt) T = (⟨[], c.outcome (.exec site stmt)⟩, T) := by
  simp only [handler]

theorem Complete.exec (hc : c.Complete) (site : Site) {stmt : Stmt} (hs : stmt.Intact)
    (T : Table) : c.handler (.exec site stmt) T = stmt.eval T :=
  exec_ok (hc _) hs

end Call

/-- The id a lookup by name ends up with: 0 when there is no row. -/
def Table.rowid (T : Table) (user : CString) : Int := ((T.lookup user).map Row.id).getD 0

/-- Every row has a positive id. -/
def Table.Positive (T : Table) : Prop := ∀ r ∈ T.rows, 0 < r.id

theorem Table.Positive.rowid_le_zero_iff {T : Table} (hT : T.Positive) (user : CString) :
    T.rowid user ≤ 0 ↔ T.lookup user = none := by
  cases h : T.lookup user with
  | none => simp [rowid, h]
  | some r => simpa [rowid, h] using hT r (lookup_mem h).1

/-- What `sqlite_get_next_rowid` returns: `max(id) + 1` as an `int`. -/
def Table.nextRowid (T : Table) : Int := wrap32 (T.maxId.getD 0 + 1)

theorem Table.rowid_of_lookup {T : Table} {user : CString} {r : Row}
    (h : T.lookup user = some r) : T.rowid user = r.id := by
  simp [rowid, h]

theorem Table.find_of_lookup {T : Table} {user : CString} {r : Row}
    (h : T.lookup user = some r) : T.find r.id = some r :=
  find_eq_some_iff.mpr ⟨(lookup_mem h).1, rfl⟩

namespace Call

variable {c : Call} {T : Table} {user : CString} {site : Site}

theorem sqliteGetRowid_run (site : Site) (hc : c.Complete) (hu : (Stmt.selectRowid user).Intact) :
    (sqliteGetRowid site user).run c.handler T = (T.rowid user, T) := by
  have hfeed := feed_rowid (T.rows.filter (·.user = user))
    (fun r hr => T.idsFit r (List.mem_of_mem_filter hr)) 0
  simp only [sqliteGetRowid, sqlite3Exec, Prog.pure_def, Prog.perform_bind, Prog.ask_bind,
    Prog.ret_bind, Prog.run_ask, Prog.run_ret, hc.exec site hu, Stmt.eval, hfeed]
  rfl

theorem sqliteGetNextRowid_run (site : Site) (hc : c.Complete) :
    (sqliteGetNextRowid site).run c.handler T = (T.nextRowid, T) := by
  have hx := hc.exec site Stmt.intact_selectNextRowid T
  cases h : T.maxId with
  | none =>
    simp [sqliteGetNextRowid, sqlite3Exec, hx, Stmt.eval, h, feed, callbackRowid, Table.nextRowid]
  | some m =>
    obtain ⟨r, hr, rfl⟩ := Table.maxId_mem h
    simp [sqliteGetNextRowid, sqlite3Exec, hx, Stmt.eval, h, feed, callbackRowid, Table.nextRowid,
      atoi_decimal (T.idsFit r hr)]

/-- The column of the user's row, as `sqlite_get_col_str` returns it. -/
theorem sqliteGetColStr_run (site : Site) (hc : c.Complete) (hu : (Stmt.selectRowid user).Intact)
    (hT : T.Positive) (col : Column) :
    (sqliteGetColStr site user col).run c.handler T =
      (((T.lookup user).bind fun r => col.cell r).map
        fun data => fillBuffer (cstr data) (c.buffer site).1, T) := by
  have hid := sqliteGetRowid_run (T := T) site hc hu
  cases h : T.lookup user with
  | none =>
    have hle := (hT.rowid_le_zero_iff user).mpr h
    simp [sqliteGetColStr, hc.openDb, Prog.run_bind_of c.handler hid, hle]
  | some r =>
    have hgt : ¬ r.id ≤ 0 := by have := hT r (Table.lookup_mem h).1; omega
    have hx := hc.exec site (Stmt.intact_selectData col (T.idsFit r (Table.lookup_mem h).1)) T
    rw [T.rowid_of_lookup h] at hid
    simp only [sqliteGetColStr, Prog.perform_bind, Prog.run_ask, hc.openDb, ne_eq,
      not_true_eq_false, if_false, handler_malloc, Prog.run_bind_of c.handler hid, hgt, sqlite3Exec,
      Prog.ask_bind, hx, Stmt.eval, T.filter_id, T.find_of_lookup h, Prog.pure_def, Prog.ret_bind]
    cases hcell : col.cell r with
    | none => simp [feed, callbackDataStr, hcell]
    | some data => simp [feed, callbackDataStr, hcell, fillBuffer]

end Call

end PamSmsauth
