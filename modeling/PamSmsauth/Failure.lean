import PamSmsauth.Run
import PamSmsauth.Blocks

/-!
# When SQLite fails

Here nothing is assumed of the result codes: any open and any statement of the call can fail. Up to
the prompt this only decides which way the call goes (`beforeToken`, whose result does not depend
on the buffer that `pam_get_otp` allocates). At the end `sqlite_get_col_str` turns every code into
`NULL` but `SQLITE_BUSY` and `SQLITE_EMPTY`: for these two it returns the buffer that no callback
filled (`sqliteGetColStr_run_any`). Whoever can make the last `SELECT` wait may then be let in by
what the heap happens to hold, unless his token is too short to be compared to its end and is the
stored password anyway (`db_failure_iff`).
-/

namespace PamSmsauth

open CText Eff

namespace Call

variable {c : Call} {T : Table} {user : CString} {site : Site}

/-- The row whose column `sqlite_get_col_str` selects, if it gets that far. -/
def columnRow (c : Call) (site : Site) (T : Table) (user : CString) : Option Row :=
  if c.outcome (.openDb site) = .ok ∧ c.outcome (.exec site (.selectRowid user)) = .ok then
    (T.lookup user).filter (0 < ·.id)
  else none

theorem sqliteGetRowid_run_any (site : Site) (hu : (Stmt.selectRowid user).Intact) :
    (sqliteGetRowid site user).run c.handler T =
      (if c.outcome (.exec site (.selectRowid user)) = .ok then T.rowid user else -2, T) := by
  have hfeed := feed_rowid (T.rows.filter (·.user = user))
    (fun r hr => T.idsFit r (List.mem_of_mem_filter hr)) 0
  simp only [sqliteGetRowid, sqlite3Exec, Prog.pure_def, Prog.perform_bind, Prog.ask_bind,
    Prog.ret_bind, Prog.run_ask, Prog.run_ret]
  by_cases h : c.outcome (.exec site (.selectRowid user)) = .ok
  · rw [exec_ok h hu, if_pos h]
    simp only [Stmt.eval, hfeed]
    rfl
  · rw [exec_fail h, if_neg h]
    simp [feed, h]

/-- The buffer that the last `SELECT` leaves. -/
def columnResult (c : Call) (site : Site) (col : Column) (r : Row) : Option (List Byte) :=
  match c.outcome (.exec site (.selectData col r.id)) with
  | .ok => (col.cell r).map fun data => fillBuffer (cstr data) (c.buffer site).1
  | .busy | .empty => some (c.buffer site).1
  | .abort | .error => none

theorem sqliteGetColStr_run_any (site : Site) (hu : (Stmt.selectRowid user).Intact) (col : Column) :
    (sqliteGetColStr site user col).run c.handler T =
      ((c.columnRow site T user).bind (c.columnResult site col), T) := by
  have hid := sqliteGetRowid_run_any (c := c) (T := T) site hu
  have hopen : c.handler (.openDb site) T = (c.outcome (.openDb site), T) := rfl
  simp only [sqliteGetColStr, Prog.perform_bind, Prog.run_ask, hopen, columnRow]
  by_cases ho : c.outcome (.openDb site) = .ok
  · simp only [ho, ne_eq, not_true_eq_false, if_false, true_and, Prog.run_ask, handler_malloc,
      Prog.run_bind_of c.handler hid]
    by_cases hr : c.outcome (.exec site (.selectRowid user)) = .ok
    · simp only [if_pos hr]
      cases hl : T.lookup user with
      | none => simp [Table.rowid, hl]
      | some r =>
        rw [T.rowid_of_lookup hl]
        by_cases hle : r.id ≤ 0
        · simp [hle, Option.filter, Int.not_lt.mpr hle]
        · have hint := Stmt.intact_selectData col (T.idsFit r (Table.lookup_mem hl).1)
          have hrow := T.filter_id r.id
          rw [T.find_of_lookup hl] at hrow
          simp only [if_neg hle, Option.filter_some, decide_eq_true (Int.not_le.mp hle), if_true,
            Option.bind_some, sqlite3Exec, Prog.perform_bind, Prog.ask_bind, Prog.run_ask,
            Prog.pure_def, Prog.ret_bind, columnResult]
          cases hcode : c.outcome (.exec site (.selectData col r.id)) with
          | ok =>
            rw [exec_ok hcode hint, Stmt.eval, hrow]
            cases hcell : col.cell r with
            | none => simp [feed, callbackDataStr, hcell]
            | some data => simp [feed, callbackDataStr, hcell, fillBuffer]
          | _ => rw [exec_fail (by simp [hcode]), hcode]; rfl
    · simp only [if_neg hr]
      rfl
  · simp [ho]

/-- The events of the helper: the last `SELECT` is among them when it gets that far. -/
theorem sqliteGetColStr_trace (site : Site) (hu : (Stmt.selectRowid user).Intact) (col : Column) :
    ∃ es : List (Event pamIface), (∀ e ∈ es, ∀ id, e.1 ≠ .exec site (.selectData col id)) ∧
      (sqliteGetColStr site user col).trace c.handler T =
        es ++ ((c.columnRow site T user).map fun r =>
          ⟨.exec site (.selectData col r.id),
            (c.handler (.exec site (.selectData col r.id)) T).1⟩).toList := by
  have hid := sqliteGetRowid_run_any (c := c) (T := T) site hu
  have hopen : c.handler (.openDb site) T = (c.outcome (.openDb site), T) := rfl
  simp only [sqliteGetColStr, Prog.perform_bind, Prog.trace_ask, hopen, columnRow]
  by_cases ho : c.outcome (.openDb site) = .ok
  · simp only [ho, ne_eq, not_true_eq_false, if_false, true_and, Prog.trace_ask, handler_malloc,
      Prog.trace_bind, hid]
    refine ⟨[⟨.openDb site, .ok⟩, ⟨.malloc site, c.buffer site⟩,
      ⟨.exec site (.selectRowid user), (c.handler (.exec site (.selectRowid user)) T).1⟩], ?_, ?_⟩
    · simp
    · have hrowid : (sqliteGetRowid site user).trace c.handler T =
        [⟨.exec site (.selectRowid user), (c.handler (.exec site (.selectRowid user)) T).1⟩] := rfl
      rw [hrowid]
      simp only [List.cons_append, List.nil_append]
      congr 3
      by_cases hr : c.outcome (.exec site (.selectRowid user)) = .ok
      · simp only [if_pos hr]
        cases hl : T.lookup user with
        | none => simp [Table.rowid, hl]
        | some r =>
          rw [T.rowid_of_lookup hl]
          by_cases hle : r.id ≤ 0
          · simp [hle, Option.filter, Int.not_lt.mpr hle]
          · simp only [if_neg hle, Option.filter_some, decide_eq_true (Int.not_le.mp hle), if_true,
              sqlite3Exec, Prog.perform_bind, Prog.ask_bind, Prog.trace_ask, Prog.pure_def,
              Prog.ret_bind, Option.map_some, Option.toList_some, List.cons.injEq, true_and]
            split <;> rfl
      · simp only [if_neg hr]
        rfl
  · refine ⟨[⟨.openDb site, c.outcome (.openDb site)⟩], by simp, ?_⟩
    simp [ho]

/-- The last `SELECT` is asked when a row was found for it. -/
theorem selectData_mem_trace (site : Site) (hu : (Stmt.selectRowid user).Intact) (col : Column)
    (id : Int) (reply : Reply) :
    (⟨.exec site (.selectData col id), reply⟩ : Event pamIface) ∈
        (sqliteGetColStr site user col).trace c.handler T ↔
      ∃ r, c.columnRow site T user = some r ∧ id = r.id ∧
        reply = (c.handler (.exec site (.selectData col r.id)) T).1 := by
  obtain ⟨es, hes, htrace⟩ := sqliteGetColStr_trace (c := c) (T := T) site hu col
  have hne : (⟨.exec site (.selectData col id), reply⟩ : Event pamIface) ∉ es :=
    fun h => hes _ h id rfl
  rw [htrace]
  cases c.columnRow site T user with
  | none => simp [hne]
  | some r => simp [hne]

theorem mem_of_columnRow {r : Row} (h : c.columnRow site T user = some r) :
    r ∈ T.rows ∧ r.user = user := by
  unfold columnRow at h
  split at h
  · exact Table.lookup_mem (Option.filter_eq_some_iff.mp h).1
  · cases h

theorem selectData_code (site : Site) (col : Column) {r : Row} (hr : r ∈ T.rows) :
    (c.handler (.exec site (.selectData col r.id)) T).1.code =
      c.outcome (.exec site (.selectData col r.id)) := by
  by_cases hok : c.outcome (.exec site (.selectData col r.id)) = .ok
  · rw [exec_ok hok (Stmt.intact_selectData _ (T.idsFit r hr)), hok]; rfl
  · rw [exec_fail hok]

end Call

namespace Call

variable {c : Call} {T : Table} {user : CString}

/-- The call up to the prompt. -/
def before (c : Call) (user : CString) (T : Table) : Option Exit × Table :=
  (beforeToken c.arg c.ctrl user c.time.1).run c.handler T

theorem run_eq_before (hu : c.user = some user) (hex : exceptMatch c.arg c.ctrl user = false) :
    c.run T = match c.before user T with
      | (some exit, T') => (exit, T')
      | (none, T') => (checkToken user c.arg.otpLen).run c.handler T' := by
  have hlogin : c.run T = (loginUser c.arg c.ctrl user c.time.1).run c.handler T := by
    have hif : (if exceptMatch c.arg c.ctrl user = true then pure .exceptUser
        else loginUser c.arg c.ctrl user c.time.1 : PamProg Exit) =
          loginUser c.arg c.ctrl user c.time.1 := if_neg (by simp [hex])
    simp only [run, prog, pamSmAuthenticate, Prog.perform_bind, Prog.run_ask, hu]
    exact congrArg (fun p : PamProg Exit => p.run c.handler T) hif
  rw [hlogin, loginUser_eq, Prog.run_bind, before]
  cases (beforeToken c.arg c.ctrl user c.time.1).run c.handler T with
  | mk exit T' => cases exit <;> rfl

/-- An operation of `pam_get_otp` is asked after the prompt. -/
theorem mem_trace_iff_before (hu : c.user = some user)
    (hex : exceptMatch c.arg c.ctrl user = false) {e : Event pamIface} (he : Op.At e.1 .getOtp) :
    e ∈ c.trace T ↔ (c.before user T).1 = none ∧
      e ∈ (checkToken user c.arg.otpLen).trace c.handler (c.before user T).2 := by
  have hif : (if exceptMatch c.arg c.ctrl user = true then pure .exceptUser
      else loginUser c.arg c.ctrl user c.time.1 : PamProg Exit) =
        loginUser c.arg c.ctrl user c.time.1 := if_neg (by simp [hex])
  have hlogin : c.trace T =
      ⟨.time, c.time⟩ :: (loginUser c.arg c.ctrl user c.time.1).trace c.handler T := by
    simp only [trace, prog, pamSmAuthenticate, Prog.perform_bind, Prog.trace_ask, hu]
    exact congrArg (fun p : PamProg Exit => _ :: p.trace c.handler T) hif
  rw [hlogin, loginUser_eq, Prog.trace_bind, List.mem_cons, List.mem_append, before]
  cases hb : (beforeToken c.arg c.ctrl user c.time.1).run c.handler T with
  | mk exit T' =>
    have hbefore : e ∉ (beforeToken c.arg c.ctrl user c.time.1).trace c.handler T :=
      fun h => (beforeToken_asks ..).of_mem_trace c.handler h he
    have htime : e ≠ ⟨.time, c.time⟩ := by
      rintro rfl
      cases he
    cases exit with
    | some exit => simp [hbefore, htime]
    | none => simp [hbefore, htime]

theorem checkToken_run_any (hu : (Stmt.selectRowid user).Intact) (otpLen : Nat) :
    (checkToken user otpLen).run c.handler T =
      (match c.typed with
        | none => .otpNotInput
        | some input =>
          match (c.columnRow .getOtp T user).bind (c.columnResult .getOtp .otp) with
          | none => .otpNotFound
          | some otp => .compared input.bytes otp otpLen, T) := by
  have hget := sqliteGetColStr_run_any (c := c) (T := T) .getOtp hu .otp
  have hprompt : c.handler .prompt T = (c.typed, T) := rfl
  simp only [checkToken, Prog.perform_bind, Prog.run_ask, hprompt]
  cases c.typed with
  | none => rfl
  | some input =>
    simp only [pamGetOtp, Prog.run_bind_of c.handler hget]
    cases (c.columnRow .getOtp T user).bind (c.columnResult .getOtp .otp) <;> rfl

/-- The code of the last `SELECT`, when there is one. -/
theorem checkToken_mem_trace (hu : (Stmt.selectRowid user).Intact) (otpLen : Nat) {id : Int}
    {reply : Reply} :
    (⟨.exec .getOtp (.selectData .otp id), reply⟩ : Event pamIface) ∈
        (checkToken user otpLen).trace c.handler T ↔
      c.typed ≠ none ∧ ∃ r, c.columnRow .getOtp T user = some r ∧ id = r.id ∧
        reply = (c.handler (.exec .getOtp (.selectData .otp r.id)) T).1 := by
  have hget := sqliteGetColStr_run_any (c := c) (T := T) .getOtp hu .otp
  have hmem := selectData_mem_trace (c := c) (T := T) .getOtp hu .otp id reply
  have hprompt : c.handler .prompt T = (c.typed, T) := rfl
  simp only [checkToken, Prog.perform_bind, Prog.trace_ask, hprompt]
  cases c.typed with
  | none => simp
  | some input =>
    rw [show (pamGetOtp user >>= _).trace c.handler T = _ from Prog.trace_bind ..,
      show (pamGetOtp user).run c.handler T = _ from hget, List.mem_cons, List.mem_append,
      show _ ∈ (pamGetOtp user).trace c.handler T ↔ _ from hmem]
    cases (c.columnRow .getOtp T user).bind (c.columnResult .getOtp .otp) <;> simp

/-- The call with other contents of the buffer that `pam_get_otp` allocates. -/
def withBuffer (c : Call) (buf : Buffer) : Call :=
  { c with buffer := Function.update c.buffer .getOtp buf }

theorem before_withBuffer (buf : Buffer) : (c.withBuffer buf).before user T = c.before user T := by
  refine Prog.run_congr _ ((beforeToken_asks ..).mono fun op hop T => ?_) T
  cases op with
  | malloc site =>
    have hsite : site ≠ .getOtp := fun h => hop (congrArg some h)
    exact congrArg (·, T) (Function.update_of_ne hsite ..)
  | _ => rfl

end Call

/-! ## What is compared -/

/-- The text is the password, cut to the buffer, of a row of the user. -/
def Table.Holds (T : Table) (user : CString) (text : List Byte) : Prop :=
  ∃ r ∈ T.rows, r.user = user ∧ ∃ value, r.otp = some value ∧ text = value.bytes.take varMaxlen

/-- Whatever the buffer of `pam_get_otp` holds at first, a token that the call accepts was compared
with the password of a row of its user. -/
def Call.ComparesStored (c : Call) (T : Table) (user : CString) : Prop :=
  ∀ (buf : Buffer) (input otp : List Byte) (n : Nat),
    ((c.withBuffer buf).run T).1 = .compared input otp n → otpCmp input otp n = .success →
      ((c.withBuffer buf).run T).2.Holds user (cstr otp)

/-- The `SELECT` of `pam_get_otp` is not answered `SQLITE_BUSY` or `SQLITE_EMPTY`, or the token is
shorter than `otp_len` and is the password of a row of the user. -/
def Call.ColumnDelivered (c : Call) (T : Table) (user : CString) : Prop :=
  (∀ id reply, (⟨.exec .getOtp (.selectData .otp id), reply⟩ : Event pamIface) ∈ c.trace T →
    reply.code ≠ .busy ∧ reply.code ≠ .empty) ∨
  ∃ input, c.typed = some input ∧ input.bytes.length < c.arg.otpLen ∧
    (c.run T).2.Holds user input.bytes

theorem Table.Holds.length_le {T : Table} {user : CString} {text : List Byte}
    (h : T.Holds user text) : text.length ≤ varMaxlen := by
  obtain ⟨r, -, -, value, -, rfl⟩ := h
  exact List.length_take_le _ _

/-- The comparison with a buffer that can hold anything. -/
theorem unfilled_iff (T : Table) (user input : CString) {n : Nat} (hn : n ≤ varMaxlen) :
    (∀ buf : Buffer, otpCmp input.bytes buf.1 n = .success → T.Holds user (cstr buf.1)) ↔
      input.bytes.length < n ∧ T.Holds user input.bytes := by
  simp only [otpCmp_eq_success_iff, CString.cstr_bytes]
  constructor
  · intro h
    by_cases hlt : input.bytes.length < n
    · refine ⟨hlt, ?_⟩
      have hnul : cstr (input.bytes ++ 0 :: List.replicate (varMaxlen - input.bytes.length) 0) =
          input.bytes := cstr_append_nul input.nulFree _
      have := h ⟨input.bytes ++ 0 :: List.replicate (varMaxlen - input.bytes.length) 0, by
        simp; omega⟩ (by rw [hnul])
      rwa [hnul] at this
    · -- a text of 33 characters that begins like the token is no stored password
      have hnul : (0 : Byte) ∉ input.bytes.take n ++ List.replicate (varMaxlen + 1 - n) 1 := by
        rw [List.mem_append]
        rintro (h0 | h0)
        · exact input.nulFree (List.mem_of_mem_take h0)
        · cases (List.mem_replicate.mp h0).2
      have hlen : (input.bytes.take n ++ List.replicate (varMaxlen + 1 - n) 1).length =
          varMaxlen + 1 := by
        simp; omega
      have := h ⟨_, hlen⟩ (by rw [cstr_of_nulFree hnul,
        List.take_append_of_le_length (by simp; omega), List.take_take, Nat.min_self])
      rw [cstr_of_nulFree hnul] at this
      have := this.length_le
      omega
  · rintro ⟨hlt, hholds⟩ buf h
    rw [List.take_of_length_le (by omega)] at h
    have hlen : (cstr buf.1).length < n := by
      have := congrArg List.length h
      rw [List.length_take] at this
      omega
    rw [List.take_of_length_le (by omega)] at h
    rwa [← h]

/-- What the last `SELECT` leaves in the buffer, for each of its codes. -/
theorem Call.columnResult_iff {c : Call} {T : Table} {user : CString} {r : Row} {n : Nat}
    (input : CString) (hn : n ≤ varMaxlen) (hr : r ∈ T.rows ∧ r.user = user) :
    (∀ buf otp, (c.withBuffer buf).columnResult .getOtp .otp r = some otp →
      otpCmp input.bytes otp n = .success → T.Holds user (cstr otp)) ↔
    (c.outcome (.exec .getOtp (.selectData .otp r.id)) ≠ .busy ∧
      c.outcome (.exec .getOtp (.selectData .otp r.id)) ≠ .empty) ∨
    (input.bytes.length < n ∧ T.Holds user input.bytes) := by
  have hout : ∀ buf, (c.withBuffer buf).outcome = c.outcome := fun _ => rfl
  have hbuf : ∀ buf, (c.withBuffer buf).buffer .getOtp = buf := fun buf => by simp [withBuffer]
  have hunfilled := unfilled_iff T user input hn
  simp only [columnResult, hout, hbuf]
  cases c.outcome (.exec .getOtp (.selectData .otp r.id)) with
  | ok =>
    refine iff_of_true (fun buf otp hotp _ => ?_) (.inl ⟨by decide, by decide⟩)
    simp only [Column.cell, Option.map_map, Option.map_eq_some_iff] at hotp
    obtain ⟨value, hvalue, rfl⟩ := hotp
    exact ⟨r, hr.1, hr.2, value, hvalue, by
      simp only [Function.comp_apply, value.cstr_bytes, cstr_fillBuffer]⟩
  | busy => simpa using hunfilled
  | empty => simpa using hunfilled
  | abort => simp
  | error => simp

/-- `sqlite_get_col_str` returns a string only when its `SELECT` delivered a value. -/
def Call.ReturnsDelivered (c : Call) (T : Table) (user : CString) (site : Site) (col : Column) :
    Prop :=
  ((sqliteGetColStr site user col).run c.handler T).1 ≠ none → ∃ id reply data,
    (⟨.exec site (.selectData col id), reply⟩ : Event pamIface) ∈
      (sqliteGetColStr site user col).trace c.handler T ∧ [some data] ∈ reply.rows

theorem returns_delivered_iff {c : Call} {T : Table} {user : CString} {site : Site} {col : Column}
    (hu : (Stmt.selectRowid user).Intact) :
    c.ReturnsDelivered T user site col ↔
      ∀ id reply, (⟨.exec site (.selectData col id), reply⟩ : Event pamIface) ∈
        (sqliteGetColStr site user col).trace c.handler T →
          reply.code ≠ .busy ∧ reply.code ≠ .empty := by
  unfold Call.ReturnsDelivered
  simp only [Call.selectData_mem_trace site hu, Call.sqliteGetColStr_run_any site hu]
  cases hr : c.columnRow site T user with
  | none => simp
  | some r =>
    have hrT := Call.mem_of_columnRow hr
    have hcode := Call.selectData_code (c := c) site col hrT.1
    have hfind : T.find r.id = some r := Table.find_eq_some_iff.mpr ⟨hrT.1, rfl⟩
    have hint := Stmt.intact_selectData col (T.idsFit r hrT.1)
    have hrows : ∀ code, c.outcome (.exec site (.selectData col r.id)) = code → code ≠ .ok →
        (c.handler (.exec site (.selectData col r.id)) T).1.rows = [] :=
      fun code hcode hne => by rw [Call.exec_fail (by rw [hcode]; exact hne)]
    simp only [Option.bind_some, Call.columnResult]
    cases ho : c.outcome (.exec site (.selectData col r.id)) with
    | ok =>
      refine iff_of_true (fun hne => ?_) ?_
      · simp only [ne_eq, Option.map_eq_none_iff] at hne
        obtain ⟨data, hdata⟩ := Option.ne_none_iff_exists'.mp hne
        refine ⟨r.id, _, data, ⟨r, rfl, rfl, rfl⟩, ?_⟩
        rw [Call.exec_ok ho hint, Stmt.eval, T.filter_id, hfind]
        simp [hdata]
      · rintro id reply ⟨s, hs, rfl, rfl⟩
        cases hs
        rw [hcode, ho]
        decide
    | busy | empty =>
      refine iff_of_false (fun h => ?_) fun h => ?_
      · obtain ⟨id, reply, data, ⟨s, hs, rfl, rfl⟩, hmem⟩ := h (by simp)
        cases hs
        rw [hrows _ ho (by decide)] at hmem
        cases hmem
      · have := h r.id _ ⟨r, rfl, rfl, rfl⟩
        rw [hcode, ho] at this
        simp at this
    | abort | error =>
      refine iff_of_true (fun h => absurd rfl h) ?_
      rintro id reply ⟨s, hs, rfl, rfl⟩
      cases hs
      rw [hcode, ho]
      decide

/-- What can be compared, when the column came back as `res`. -/
theorem forall_compared_iff (input : List Byte) (n : Nat) (res : Option (List Byte))
    (P : List Byte → List Byte → Nat → Prop) :
    (∀ input' otp n', (match res with
        | none => .otpNotFound
        | some otp => .compared input otp n) = Exit.compared input' otp n' → P input' otp n') ↔
      ∀ otp, res = some otp → P input otp n := by
  cases res with
  | none => simp
  | some otp =>
    constructor
    · rintro h otp' ⟨⟩
      exact h input otp n rfl
    · rintro h input' otp' n' ⟨⟩
      exact h otp rfl

/-- A call that ends before the prompt compares nothing. -/
theorem Call.ne_compared_of_before {c : Call} {T T' : Table} {user : CString} {exit : Exit}
    (h : c.before user T = (some exit, T')) (input otp : List Byte) (n : Nat) :
    exit ≠ .compared input otp n := by
  have hgives := (beforeToken_gives c.arg c.ctrl user c.time.1).run c.handler T
  rw [show (beforeToken c.arg c.ctrl user c.time.1).run c.handler T = _ from h] at hgives
  have hexit := hgives exit rfl
  rintro rfl
  cases hexit

theorem compares_stored {c : Call} {T : Table} {user : CString} (hfit : NameFits user c.timeExpir)
    (hu : c.user = some user) (hex : exceptMatch c.arg c.ctrl user = false) :
    c.ComparesStored T user ↔ c.ColumnDelivered T user := by
  have hsel := Stmt.intact_selectRowid hfit
  have hlen : c.arg.otpLen ≤ varMaxlen := (parse_inv c.argv).otpLen_le.trans (by decide)
  have hrun := Call.run_eq_before (c := c) (T := T) hu hex
  have hrun' : ∀ buf, (c.withBuffer buf).run T = _ :=
    fun buf => Call.run_eq_before (c := c.withBuffer buf) (T := T) hu hex
  have hmem : ∀ id reply, (⟨.exec .getOtp (.selectData .otp id), reply⟩ : Event pamIface) ∈
      c.trace T ↔ _ := fun id reply => Call.mem_trace_iff_before hu hex rfl
  simp only [Call.before_withBuffer] at hrun'
  unfold Call.ComparesStored Call.ColumnDelivered
  simp only [hmem, hrun, hrun']
  cases hb : c.before user T with
  | mk exit T' =>
    cases exit with
    | some exit =>
      refine iff_of_true (fun buf input otp n h => ?_) (.inl fun id reply h => by cases h.1)
      exact absurd h (Call.ne_compared_of_before hb input otp n)
    | none =>
      have htyped : ∀ buf, (c.withBuffer buf).typed = c.typed := fun _ => rfl
      have hrow : ∀ buf, (c.withBuffer buf).columnRow .getOtp T' user =
          c.columnRow .getOtp T' user := fun _ => rfl
      have hargs : ∀ buf, (c.withBuffer buf).arg = c.arg := fun _ => rfl
      simp only [Call.checkToken_run_any hsel, Call.checkToken_mem_trace hsel, true_and, htyped,
        hrow, hargs]
      cases ht : c.typed with
      | none => simp
      | some input =>
        cases hr : c.columnRow .getOtp T' user with
        | none => simp
        | some r =>
          have hrT := Call.mem_of_columnRow hr
          have hcode := Call.selectData_code (c := c) .getOtp .otp hrT.1
          have hiff := Call.columnResult_iff (c := c) input hlen hrT
          rw [← hcode] at hiff
          simp only [Option.bind_some, forall_compared_iff]
          simpa using hiff

/-- A database failure authenticates nobody exactly when the last `SELECT` delivers its column or
fails as `sqlite_get_col_str` expects. -/
theorem db_failure_iff {c : Call} {T : Table} {user : CString} (hfit : NameFits user c.timeExpir)
    (hu : c.user = some user) (hex : exceptMatch c.arg c.ctrl user = false) :
    (c.ComparesStored T user ↔ c.ColumnDelivered T user) ∧
      ∀ site col, c.ReturnsDelivered T user site col ↔
        ∀ id reply, (⟨.exec site (.selectData col id), reply⟩ : Event pamIface) ∈
          (sqliteGetColStr site user col).trace c.handler T →
            reply.code ≠ .busy ∧ reply.code ≠ .empty :=
  ⟨compares_stored hfit hu hex, fun _ _ => returns_delivered_iff (Stmt.intact_selectRowid hfit)⟩

/-- A call of `ann` whose every `SELECT otp` by `pam_get_otp` is answered with `code`. -/
def Call.annGetOtp (code : Code) (typed : CString) : Call :=
  { Call.annEarly with
    typed := some typed
    outcome := fun op => if op = .exec .getOtp (.selectData .otp 1) then code else .ok }

theorem db_failure_iff_abort :
    let c := Call.annGetOtp .abort (.ofLit "77777")
    (c.ComparesStored .empty (.ofLit "ann") ↔ c.ColumnDelivered .empty (.ofLit "ann")) ∧
      ∀ site col, c.ReturnsDelivered .empty (.ofLit "ann") site col ↔
        ∀ id reply, (⟨.exec site (.selectData col id), reply⟩ : Event pamIface) ∈
          (sqliteGetColStr site (.ofLit "ann") col).trace c.handler .empty →
            reply.code ≠ .busy ∧ reply.code ≠ .empty := by
  intro c
  exact db_failure_iff (by decide) rfl (by decide)

/-- The password of `ann` is `77777`; the last `SELECT` is answered `SQLITE_BUSY`, the fresh buffer
begins with a NUL, and `ann` just presses the return key. -/
theorem db_failure_fails :
    let c := Call.annGetOtp .busy (.ofLit "")
    exceptMatch c.arg c.ctrl (.ofLit "ann") = false ∧ (c.run .empty).1.ret = .success ∧
      ¬ c.ComparesStored .empty (.ofLit "ann") := by
  intro c
  refine ⟨by decide, by decide, fun h => ?_⟩
  have hrows : ((c.withBuffer (c.buffer .getOtp)).run .empty).2.rows =
      [⟨1, .ofLit "ann", some (.ofLit "77777"), 400⟩] := by decide
  obtain ⟨r, hr, -, value, hvalue, htext⟩ := h (c.buffer .getOtp) [] (c.buffer .getOtp).1 5
    (by decide) (by decide)
  rw [hrows, List.mem_singleton] at hr
  subst hr
  cases hvalue
  revert htext
  decide

end PamSmsauth
