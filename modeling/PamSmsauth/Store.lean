import PamSmsauth.Columns
import PamSmsauth.Lib.Stacks

/-!
# The database as a store (`sqlite_client.c`)

What the helpers of `sqlite_client.c` do for their callers, whatever calls are made in whatever
order: for every user name the database is a stack of entries. `sqlite_insert_row` pushes one
without looking whether there is another, what is read or changed is the top, `sqlite_delete_row`
pops it, so that the one that was hidden is seen again, and `sqlite_purge_table` takes out entries
at any depth (`store_refines`). All but the last leave the entries of other names alone
(`StoreOp.spec_of_ne`).

The ids are below it: the next id is above all others, so that the row of the top is the last one
that a scan delivers, until the ids are used up.
-/

namespace PamSmsauth

open CText Eff Stacks

structure Entry where
  otp : Option CString
  timestamp : Int

def Row.entry (r : Row) : Entry := ⟨r.otp, r.timestamp⟩

def Table.store (T : Table) : CString → List Entry := ofRows Row.user Row.entry T.rows

/-! ## The operations -/

/-- A call of one of the helpers; the columns are the ones that they are called with. -/
inductive StoreOp where
  | insertRow (user : CString) (timestamp : Int)
  | getColStr (user : CString) (col : Column)
  | getColInt (user : CString)
  | setColStr (user value : CString)
  | setColInt (user : CString) (value : TimeT)
  | deleteRow (user : CString)
  | isFieldEmpty (user : CString) (col : Column)
  | isTimestampEmpty (user : CString)
  | isRowExpir (user : CString) (timestamp : Int)
  | purgeTable (time : TimeT)

/-- What a helper returns, a buffer as the string in it. -/
inductive StoreValue where
  | int (i : Int)
  | bool (b : Bool)
  | string (s : Option (List Byte))

namespace StoreOp

def prog (site : Site) : StoreOp → PamProg StoreValue
  | insertRow user timestamp => do return .int (← sqliteInsertRow site user timestamp)
  | getColStr user col => do return .string ((← sqliteGetColStr site user col).map cstr)
  | getColInt user => do return .int (← sqliteGetColInt site user .timestamp)
  | setColStr user value => do return .int (← sqliteSetColStr site user value)
  | setColInt user value => do return .int (← sqliteSetColInt site user value.1)
  | deleteRow user => do return .int (← sqliteDeleteRow site user)
  | isFieldEmpty user col => do return .bool (← sqliteIsFieldEmpty site user col .varchar)
  | isTimestampEmpty user => do return .bool (← sqliteIsFieldEmpty site user .timestamp .varint)
  | isRowExpir user timestamp => do return .int (← sqliteIsRowExpir site user timestamp)
  | purgeTable time => do return .int (← sqlitePurgeTable site time.1)

/-- The statements of the call fit their buffer, with any id that is not negative. -/
def Fits : StoreOp → Prop
  | insertRow user timestamp => NameFits user timestamp
  | setColStr user value =>
    (Stmt.selectRowid user).Intact ∧ (Stmt.updateStrData value (2 ^ 31 - 1)).Intact
  | getColStr user _ | getColInt user | setColInt user _ | deleteRow user | isFieldEmpty user _
  | isTimestampEmpty user | isRowExpir user _ => (Stmt.selectRowid user).Intact
  | purgeTable _ => True

end StoreOp

/-! ## What they do to the store -/

/-- The text of a column. -/
def Column.text : Column → CString → Entry → Option (List Byte)
  | .user, name, _ => some name.bytes
  | .otp, _, e => e.otp.map CString.bytes
  | .timestamp, _, e => some (decimal e.timestamp)

/-- The timestamp as `sqlite_get_col_int` hands it out. -/
def Entry.int (e : Option Entry) : Int := e.elim (-2) fun e => storeInt 0 (clampLong e.timestamp)

/-- A change of the top, if there is one. -/
def setTop (s : CString → List Entry) (user : CString) (f : Entry → Entry) :
    StoreValue × (CString → List Entry) :=
  match top s user with
  | none => (.int (-2), s)
  | some _ => (.int 0, modifyTop s user f)

def StoreOp.spec (s : CString → List Entry) : StoreOp → StoreValue × (CString → List Entry)
  | insertRow user timestamp => (.int 0, push s user ⟨none, timestamp⟩)
  | getColStr user col =>
    (.string (((top s user).bind (col.text user)).map fun data => (cstr data).take varMaxlen), s)
  | getColInt user => (.int (Entry.int (top s user)), s)
  | setColStr user value => setTop s user fun e => { e with otp := some value }
  | setColInt user value => setTop s user fun e => { e with timestamp := value.1 }
  | deleteRow user => (.int 0, pop s user)
  | isFieldEmpty user col => (.bool ((top s user).bind (col.text user)).isNone, s)
  | isTimestampEmpty user => (.bool (Entry.int (top s user) ≤ 0), s)
  | isRowExpir user timestamp =>
    (.int (if Entry.int (top s user) ≤ 0 then -1
      else if timestamp ≥ Entry.int (top s user) then 1 else 0), s)
  | purgeTable time => (.int 0, retain s fun e => time.1 ≤ e.timestamp)

/-- The user whose entries a call is about. -/
def StoreOp.user : StoreOp → Option CString
  | insertRow user _ | getColStr user _ | getColInt user | setColStr user _ | setColInt user _
  | deleteRow user | isFieldEmpty user _ | isTimestampEmpty user | isRowExpir user _ => some user
  | purgeTable _ => none

theorem setTop_of_ne {s : CString → List Entry} {user other : CString} (hne : other ≠ user)
    (f : Entry → Entry) : (setTop s user f).2 other = s other := by
  unfold setTop
  split
  · rfl
  · exact Function.update_of_ne hne _ _

/-- Nobody else's entries are touched. -/
theorem StoreOp.spec_of_ne {s : CString → List Entry} {op : StoreOp} {user other : CString}
    (hop : op.user = some user) (hne : other ≠ user) : (op.spec s).2 other = s other := by
  cases op with
  | insertRow => cases hop; exact Function.update_of_ne hne _ _
  | deleteRow => cases hop; exact Function.update_of_ne hne _ _
  | setColStr => cases hop; exact setTop_of_ne hne _
  | setColInt => cases hop; exact setTop_of_ne hne _
  | purgeTable => cases hop
  | _ => rfl

/-! ## The table under the store -/

namespace Table

variable {T : Table} {user : CString} {r : Row}

theorem top_store (T : Table) (user : CString) :
    top T.store user = (T.lookup user).map Row.entry := top_ofRows T.rows user

/-- The row of the top; the rows after it are of other users, and it has its id alone. -/
theorem split_of_lookup (h : T.lookup user = some r) : ∃ front back,
    T.rows = front ++ r :: back ∧ r.user = user ∧ (∀ s ∈ back, s.user ≠ user) ∧
      ∀ s ∈ front ++ back, s.id ≠ r.id := by
  obtain ⟨front, back, hrows, huser, hback⟩ := exists_split Row.user h
  refine ⟨front, back, hrows, huser, hback, ?_⟩
  have hsorted := T.sorted
  rw [hrows, List.pairwise_append, List.pairwise_cons] at hsorted
  obtain ⟨-, ⟨hafter, -⟩, hbefore⟩ := hsorted
  intro s hs
  rcases List.mem_append.mp hs with hs | hs
  · exact Int.ne_of_lt (hbefore s hs r List.mem_cons_self)
  · exact (Int.ne_of_lt (hafter s hs)).symm

theorem map_split {front back : List Row} (hids : ∀ s ∈ front ++ back, s.id ≠ r.id)
    (f : Row → Row) : (front ++ r :: back).map (fun s => if s.id = r.id then f s else s) =
      front ++ f r :: back := by
  have hsame (rows : List Row) (h : ∀ s ∈ rows, s.id ≠ r.id) :
      rows.map (fun s => if s.id = r.id then f s else s) = rows := by
    rw [List.map_congr_left (g := id), List.map_id]
    intro s hs
    rw [if_neg (h s hs), id]
  rw [List.map_append, List.map_cons, if_pos rfl,
    hsame front fun s hs => hids s (List.mem_append_left _ hs),
    hsame back fun s hs => hids s (List.mem_append_right _ hs)]

theorem store_setOtp (h : T.lookup user = some r) (value : CString) :
    (T.setOtp value r.id).store = modifyTop T.store user fun e => { e with otp := some value } := by
  obtain ⟨front, back, hrows, rfl, hback, hids⟩ := split_of_lookup h
  show ofRows Row.user Row.entry (T.rows.map _) = _
  rw [store, hrows, map_split hids]
  exact ofRows_modify hback rfl rfl

theorem store_setTimestamp (h : T.lookup user = some r) (value : Int) :
    (T.setTimestamp value r.id).store =
      modifyTop T.store user fun e => { e with timestamp := value } := by
  obtain ⟨front, back, hrows, rfl, hback, hids⟩ := split_of_lookup h
  show ofRows Row.user Row.entry (T.rows.map _) = _
  rw [store, hrows, map_split hids]
  exact ofRows_modify hback rfl rfl

theorem store_delete (h : T.lookup user = some r) :
    (T.keep fun s => s.id ≠ r.id).store = pop T.store user := by
  obtain ⟨front, back, hrows, rfl, hback, hids⟩ := split_of_lookup h
  have hkeep : (front ++ r :: back).filter (fun s => s.id ≠ r.id) = front ++ back := by
    have hall : (front ++ back).filter (fun s => s.id ≠ r.id) = front ++ back := by
      rw [List.filter_eq_self]
      intro s hs
      simpa using hids s hs
    rw [List.filter_append] at hall ⊢
    rw [List.filter_cons_of_neg (by simp), hall]
  show ofRows Row.user Row.entry (T.rows.filter _) = _
  rw [store, hrows, hkeep]
  exact ofRows_delete hback

theorem store_purge (T : Table) (time : Int) :
    (T.purge time).store = retain T.store fun e => time ≤ e.timestamp := by
  have hsame (r : Row) : decide (time ≤ r.timestamp) = decide (time ≤ r.entry.timestamp) := rfl
  exact ofRows_filter hsame T.rows

theorem insertSorted_of_lt {rows : List Row} (h : ∀ s ∈ rows, s.id < r.id) :
    insertSorted r rows = rows ++ [r] := by
  induction rows with
  | nil => rfl
  | cons s rows ih =>
    have hs := h s List.mem_cons_self
    rw [insertSorted, if_neg (by omega), ih fun t ht => h t (List.mem_cons_of_mem s ht)]
    rfl

theorem store_add (h : 0 ≤ T.nextRowid) (user : CString) (timestamp : Int) :
    (T.add user timestamp).store = push T.store user ⟨none, timestamp⟩ := by
  obtain ⟨-, hfit, hnew, hadd⟩ := add_eval h user timestamp
  have hlast : ∀ s ∈ T.rows, s.id < (⟨T.nextRowid, user, none, timestamp⟩ : Row).id :=
    fun s hs => lt_nextRowid h hs
  rw [hadd]
  show ofRows Row.user Row.entry (insertSorted _ T.rows) = _
  rw [insertSorted_of_lt hlast, ofRows_append]
  rfl

end Table

theorem Entry.int_top {T : Table} (hT : T.Positive) (user : CString) :
    Entry.int (top T.store user) = T.colInt user := by
  rw [Table.top_store, Table.colInt]
  cases h : T.lookup user with
  | none => rfl
  | some r =>
    have hpos := hT r (Table.lookup_mem h).1
    show _ = if r.id ≤ 0 then _ else _
    rw [if_neg (by omega)]
    rfl

/-- The text of a column is the cell of the row. -/
theorem Table.cell_top (T : Table) (user : CString) (col : Column) :
    ((T.lookup user).bind fun r => col.cell r) = (top T.store user).bind (col.text user) := by
  rw [top_store]
  cases h : T.lookup user with
  | none => rfl
  | some r =>
    obtain ⟨-, rfl⟩ := lookup_mem h
    cases col <;> rfl

theorem cstr_fillBuffer_cstr (data result : List Byte) :
    cstr (fillBuffer (cstr data) result) = (cstr data).take varMaxlen :=
  cstr_fillBuffer ⟨cstr data, nul_not_mem_cstr data⟩ result

/-! ## The helpers -/

theorem Stmt.intact_updateStrData_of {value : CString} {id : Int}
    (h : (Stmt.updateStrData value (2 ^ 31 - 1)).Intact) (h0 : 0 ≤ id) (hid : InInt id) :
    (Stmt.updateStrData value id).Intact := by
  refine ⟨h.1, ?_⟩
  have hlen := h.2
  have hid' := length_decimal_le_of_nonneg h0 hid
  have e1 : (decimal (2 ^ 31 - 1)).length = 10 := by decide
  simp only [Stmt.text, List.length_append, Stmt.sqlStatementMaxsize] at hlen ⊢
  omega

namespace Call

variable {c : Call} {T : Table} {user : CString}

theorem sqliteSetColStr_run_none (site : Site) (hc : c.Complete)
    (hu : (Stmt.selectRowid user).Intact) (h : T.lookup user = none) (value : CString) :
    (sqliteSetColStr site user value).run c.handler T = (-2, T) := by
  have hid := sqliteGetRowid_run (T := T) site hc hu
  have hle : T.rowid user ≤ 0 := by simp [Table.rowid, h]
  simp [sqliteSetColStr, hc.openDb, Prog.run_bind_of c.handler hid, hle]

theorem sqliteSetColInt_run_none (site : Site) (hc : c.Complete)
    (hu : (Stmt.selectRowid user).Intact) (h : T.lookup user = none) (value : Int) :
    (sqliteSetColInt site user value).run c.handler T = (-2, T) := by
  have hid := sqliteGetRowid_run (T := T) site hc hu
  have hle : T.rowid user ≤ 0 := by simp [Table.rowid, h]
  simp [sqliteSetColInt, hc.openDb, Prog.run_bind_of c.handler hid, hle]

/-- A name that is not there has the id 0, and no row is deleted. -/
theorem sqliteDeleteRow_run (site : Site) (hc : c.Complete) (hu : (Stmt.selectRowid user).Intact)
    (hT : T.Positive) : (sqliteDeleteRow site user).run c.handler T =
      (0, T.keep fun r => r.id ≠ T.rowid user) := by
  have hid := sqliteGetRowid_run (T := T) site hc hu
  have hrowid : InInt (T.rowid user) ∧ 0 ≤ T.rowid user := by
    cases h : T.lookup user with
    | none =>
      have hzero : T.rowid user = 0 := by simp [Table.rowid, h]
      rw [hzero]
      decide
    | some r =>
      have hmem := (Table.lookup_mem h).1
      rw [T.rowid_of_lookup h]
      exact ⟨T.idsFit r hmem, Int.le_of_lt (hT r hmem)⟩
  have hge : ¬ T.rowid user < 0 := Int.not_lt.mpr hrowid.2
  have hintact : (Stmt.deleteRow (T.rowid user)).Intact := by
    refine ⟨List.not_mem_nil, ?_⟩
    have hlen := length_decimal_le hrowid.1
    have e1 : (lit "DELETE FROM pam_status WHERE id=").length = 32 := by decide
    have e2 : (lit ";").length = 1 := by decide
    simp only [Stmt.text, List.length_append, Stmt.sqlStatementMaxsize]
    omega
  simp [sqliteDeleteRow, hc.openDb, Prog.run_bind_of c.handler hid, hge, hc.exec site hintact,
    Stmt.eval]

end Call

/-! ## Any calls, in any order -/

/-- The ids are positive and not above `n`. -/
def Table.Below (T : Table) (n : Int) : Prop := ∀ r ∈ T.rows, 0 < r.id ∧ r.id ≤ n

namespace Table.Below

variable {T : Table} {n : Int} (hT : T.Below n)

include hT

theorem positive : T.Positive := fun r hr => (hT r hr).1

theorem mono {n' : Int} (h : n ≤ n') : T.Below n' := fun r hr =>
  ⟨(hT r hr).1, (hT r hr).2.trans h⟩

theorem keep (p : Row → Bool) : (T.keep p).Below n := fun r hr => hT r (List.mem_of_mem_filter hr)

theorem modify {f : Row → Row} (hf : ∀ r, (f r).id = r.id) : (T.modify f hf).Below n := by
  intro r hr
  obtain ⟨s, hs, rfl⟩ := List.mem_map.mp hr
  rw [hf]
  exact hT s hs

/-- An id is left. -/
theorem nextRowid (h0 : 0 ≤ n) (hn : n < 2 ^ 31 - 1) : 0 ≤ T.nextRowid ∧ T.nextRowid ≤ n + 1 := by
  have hlast : T.lastId ≤ n := by
    unfold lastId
    cases h : T.maxId with
    | none => exact h0
    | some m =>
      obtain ⟨r, hr, rfl⟩ := maxId_mem h
      exact (hT r hr).2
  have hnonneg := hT.positive.lastId_nonneg
  have hnext : 0 ≤ T.nextRowid := by
    apply Int.not_lt.mp
    rw [nextRowid_neg_iff]
    omega
  refine ⟨hnext, ?_⟩
  rw [nextRowid_eq hnext]
  omega

theorem add (h0 : 0 ≤ n) (hn : n < 2 ^ 31 - 1) (user : CString) (timestamp : Int) :
    (T.add user timestamp).Below (n + 1) := by
  obtain ⟨hnext, hle⟩ := hT.nextRowid h0 hn
  intro r hr
  rcases (mem_add hnext).mp hr with rfl | hr
  · exact ⟨hT.positive.nextRowid_pos hnext, hle⟩
  · exact (hT.mono (by omega)) r hr

end Table.Below

/-- The call did what the store says, and has used up one id at most. -/
def Refines (n : Int) (s : CString → List Entry) (op : StoreOp) (r : StoreValue × Table) : Prop :=
  r.1 = (op.spec s).1 ∧ r.2.store = (op.spec s).2 ∧ r.2.Below (n + 1)

theorem StoreOp.run_refines {c : Call} (hc : c.Complete) (site : Site) {op : StoreOp}
    (hfit : op.Fits) {T : Table} {n : Int} (hT : T.Below n) (h0 : 0 ≤ n) (hn : n < 2 ^ 31 - 1) :
    Refines n T.store op ((op.prog site).run c.handler T) := by
  have hpos := hT.positive
  have hsame : T.Below (n + 1) := hT.mono (by omega)
  cases op with
  | insertRow user timestamp =>
    obtain ⟨hnext, -⟩ := hT.nextRowid h0 hn
    have hrun := Call.sqliteInsertRow_run_add site hc hnext
      (Stmt.intact_insertData hfit hnext (wrap32_inInt _))
    simp only [prog, Prog.run_bind_of c.handler hrun]
    exact ⟨rfl, Table.store_add hnext user timestamp, hT.add h0 hn user timestamp⟩
  | getColStr user col =>
    have hrun := Call.sqliteGetColStr_run (T := T) site hc hfit hpos col
    simp only [prog, Prog.run_bind_of c.handler hrun]
    refine ⟨?_, rfl, hsame⟩
    rw [T.cell_top user col]
    show StoreValue.string _ = StoreValue.string _
    rw [Option.map_map]
    congr 2
    funext data
    exact cstr_fillBuffer_cstr data _
  | getColInt user =>
    have hrun := Call.sqliteGetColInt_run_any (T := T) site hc hfit
    simp only [prog, Prog.run_bind_of c.handler hrun]
    exact ⟨congrArg StoreValue.int (Entry.int_top hpos user).symm, rfl, hsame⟩
  | setColStr user value =>
    obtain ⟨hu, hv⟩ := hfit
    have htop := T.top_store user
    cases h : T.lookup user with
    | none =>
      have hrun := Call.sqliteSetColStr_run_none site hc hu h value
      rw [h] at htop
      simp only [prog, Prog.run_bind_of c.handler hrun, Refines, spec, setTop, htop]
      exact ⟨rfl, rfl, hsame⟩
    | some r =>
      have hmem := (Table.lookup_mem h).1
      have hrun := Call.sqliteSetColStr_run site hc hu h (hpos r hmem)
        (Stmt.intact_updateStrData_of hv (Int.le_of_lt (hpos r hmem)) (T.idsFit r hmem))
      rw [h] at htop
      simp only [prog, Prog.run_bind_of c.handler hrun, Refines, spec, setTop, htop]
      exact ⟨rfl, Table.store_setOtp h value, hsame.modify fun r => by split <;> rfl⟩
  | setColInt user value =>
    have htop := T.top_store user
    cases h : T.lookup user with
    | none =>
      have hrun := Call.sqliteSetColInt_run_none site hc hfit h value.1
      rw [h] at htop
      simp only [prog, Prog.run_bind_of c.handler hrun, Refines, spec, setTop, htop]
      exact ⟨rfl, rfl, hsame⟩
    | some r =>
      have hmem := (Table.lookup_mem h).1
      have hrun := Call.sqliteSetColInt_run site hc hfit h value
      rw [if_neg (Int.not_le.mpr (hpos r hmem))] at hrun
      rw [h] at htop
      simp only [prog, Prog.run_bind_of c.handler hrun, Refines, spec, setTop, htop]
      exact ⟨rfl, Table.store_setTimestamp h value.1, hsame.modify fun r => by split <;> rfl⟩
  | deleteRow user =>
    have hrun := Call.sqliteDeleteRow_run site hc hfit hpos
    simp only [prog, Prog.run_bind_of c.handler hrun]
    refine ⟨rfl, ?_, hsame.keep _⟩
    cases h : T.lookup user with
    | none =>
      have htop : top T.store user = none := by rw [T.top_store, h]; rfl
      have hkeep : (T.keep fun r => r.id ≠ T.rowid user) = T := by
        apply Table.ext
        show T.rows.filter _ = T.rows
        rw [List.filter_eq_self]
        intro r hr
        have hid : T.rowid user = 0 := by simp [Table.rowid, h]
        simpa [hid] using (Int.ne_of_gt (hpos r hr))
      exact (congrArg Table.store hkeep).trans (pop_of_top_eq_none htop).symm
    | some r =>
      rw [T.rowid_of_lookup h]
      exact Table.store_delete h
  | isFieldEmpty user col =>
    have hrun := Call.sqliteGetColStr_run (T := T) site hc hfit hpos col
    simp only [prog, sqliteIsFieldEmpty, Prog.run_bind, hrun, Prog.pure_def, Prog.run_ret]
    refine ⟨?_, rfl, hsame⟩
    rw [T.cell_top user col]
    exact congrArg StoreValue.bool Option.isNone_map
  | isTimestampEmpty user =>
    have hrun := Call.sqliteGetColInt_run_any (T := T) site hc hfit
    simp only [prog, sqliteIsFieldEmpty, Prog.run_bind, hrun, Prog.pure_def, Prog.run_ret]
    refine ⟨?_, rfl, hsame⟩
    rw [← Entry.int_top hpos user]
    rfl
  | isRowExpir user timestamp =>
    have hrun := Call.sqliteGetColInt_run_any (T := T) site hc hfit
    simp only [prog, sqliteIsRowExpir, Prog.run_bind, hrun, Prog.pure_def, Prog.run_ret]
    refine ⟨?_, rfl, hsame⟩
    rw [← Entry.int_top hpos user]
    rfl
  | purgeTable time =>
    have hrun := Call.sqlitePurgeTable_run hc site time T
    simp only [prog, Prog.run_bind_of c.handler hrun]
    exact ⟨rfl, T.store_purge time.1, hsame.keep _⟩

structure StoreStep where
  call : Call
  site : Site
  op : StoreOp

def runOps : List StoreStep → Table → List StoreValue × Table
  | [], T => ([], T)
  | step :: steps, T =>
    let first := (step.op.prog step.site).run step.call.handler T
    let rest := runOps steps first.2
    (first.1 :: rest.1, rest.2)

def specOps : List StoreOp → (CString → List Entry) → List StoreValue × (CString → List Entry)
  | [], s => ([], s)
  | op :: ops, s =>
    let first := op.spec s
    let rest := specOps ops first.2
    (first.1 :: rest.1, rest.2)

theorem runOps_refines {steps : List StoreStep} (hc : ∀ step ∈ steps, step.call.Complete)
    (hfit : ∀ step ∈ steps, step.op.Fits) {T : Table} {n : Int} (hT : T.Below n) (h0 : 0 ≤ n)
    (hn : n + steps.length < 2 ^ 31) :
    (runOps steps T).1 = (specOps (steps.map StoreStep.op) T.store).1 ∧
      (runOps steps T).2.store = (specOps (steps.map StoreStep.op) T.store).2 := by
  induction steps generalizing T n with
  | nil => exact ⟨rfl, rfl⟩
  | cons step steps ih =>
    rw [List.length_cons] at hn
    obtain ⟨hvalue, hstore, hbelow⟩ := StoreOp.run_refines (hc step List.mem_cons_self) step.site
      (hfit step List.mem_cons_self) hT h0 (by omega)
    obtain ⟨hvalues, hend⟩ := ih (fun s hs => hc s (List.mem_cons_of_mem step hs))
      (fun s hs => hfit s (List.mem_cons_of_mem step hs)) hbelow (by omega) (by omega)
    rw [hstore] at hvalues hend
    exact ⟨congrArg₂ List.cons hvalue hvalues, hend⟩

/-- From an empty database, and as long as the ids last, every call returns what the stacks say. -/
theorem store_refines {steps : List StoreStep} (hc : ∀ step ∈ steps, step.call.Complete)
    (hfit : ∀ step ∈ steps, step.op.Fits) (hlen : steps.length < 2 ^ 31) :
    (runOps steps .empty).1 = (specOps (steps.map StoreStep.op) Stacks.empty).1 ∧
      (runOps steps .empty).2.store = (specOps (steps.map StoreStep.op) Stacks.empty).2 :=
  runOps_refines hc hfit (n := 0) (fun r hr => nomatch hr) le_rfl (by omega)

/-- A second row hides the password of the first until it is deleted. -/
def hidingOps (user otp : CString) : List StoreOp :=
  [.insertRow user 160, .setColStr user otp, .insertRow user 220, .getColStr user .otp,
    .deleteRow user, .getColStr user .otp]

theorem store_refines_hiding :
    (runOps ((hidingOps (.ofLit "ann") (.ofLit "77777")).map fun op => ⟨.annEarly, .getOtp, op⟩)
      .empty).1 =
      [.int 0, .int 0, .int 0, .string none, .int 0, .string (some (lit "77777"))] := by
  let ops := hidingOps (.ofLit "ann") (.ofLit "77777")
  have hc : ∀ step ∈ ops.map fun op => (⟨.annEarly, .getOtp, op⟩ : StoreStep),
      step.call.Complete := by
    intro step hstep
    obtain ⟨op, -, rfl⟩ := List.mem_map.mp hstep
    exact Call.annEarly_normal.complete
  have hfit : ∀ step ∈ ops.map fun op => (⟨.annEarly, .getOtp, op⟩ : StoreStep),
      step.op.Fits := by
    simp only [ops, hidingOps, List.map_cons, List.map_nil, List.forall_mem_cons, List.not_mem_nil,
      false_implies, implies_true, and_true, StoreOp.Fits]
    exact ⟨by decide, ⟨by decide, by decide⟩, by decide, by decide, by decide, by decide⟩
  rw [(store_refines hc hfit (by decide)).1]
  rfl

end PamSmsauth
