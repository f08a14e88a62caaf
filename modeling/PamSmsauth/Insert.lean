import PamSmsauth.Failure

/-!
# Inserting a row

`sqlite_insert_row` asks for `max(id)`, adds one and inserts, and any of its three steps can fail.
Its id helper has one `int` for three things: an empty table is the id 0, an error is the id -1, and
one is added to either. So the test for a negative id never sees an error: a `SELECT` that is busy
or fails gives the new row the id 0, which every lookup takes for no row at all (`Call.nextId`).
The other id that does not fit its test is a last id of -1.

Apart from these the function is all-or-nothing (`AllOrNothing`): it returns 0 with one new row that
a lookup finds, or a negative number with the table as it was.
-/

namespace PamSmsauth

open CText Eff

/-- The row with the largest id of a user is the one a lookup by name ends up with. -/
theorem Table.le_rowid {T : Table} {r : Row} (hr : r ∈ T.rows) : r.id ≤ T.rowid r.user := by
  have hmem : r ∈ T.rows.filter (·.user = r.user) := List.mem_filter.mpr ⟨hr, by simp⟩
  obtain ⟨l, hl⟩ : ∃ l, T.lookup r.user = some l := by
    apply Option.ne_none_iff_exists'.mp
    intro h
    exact Table.lookup_eq_none_iff.mp h r hr rfl
  rw [T.rowid_of_lookup hl]
  obtain ⟨init, hinit⟩ := List.getLast?_eq_some_iff.mp hl
  have hs := T.sorted.filter (p := fun s => s.user = r.user)
  rw [hinit] at hs hmem
  rcases List.mem_append.mp hmem with h | h
  · exact Int.le_of_lt ((List.pairwise_append.mp hs).2.2 r h l (by simp))
  · rw [List.mem_singleton.mp h]

theorem Table.nextRowid_inInt (T : Table) : InInt T.nextRowid := wrap32_inInt _

/-- The next id is 0 just when the last one is -1. -/
theorem Table.nextRowid_eq_zero_iff (T : Table) : T.nextRowid = 0 ↔ T.maxId = some (-1) := by
  cases h : T.maxId with
  | none => simp [nextRowid, h, wrap32]
  | some m =>
    obtain ⟨r, hr, rfl⟩ := Table.maxId_mem h
    have hfit := T.idsFit r hr
    unfold InInt at hfit
    simp only [nextRowid, h, Option.getD_some, Option.some.injEq, wrap32]
    omega

namespace Call

variable {c : Call} {T : Table} {user : CString} {site : Site} {timestamp : Int}

/-- The id that `sqlite_insert_row` goes on with, by what becomes of `SELECT max(id)`. -/
def nextId (c : Call) (site : Site) (T : Table) : Int :=
  match c.outcome (.exec site .selectNextRowid) with
  | .ok => T.nextRowid
  | .abort | .empty => 1
  | .busy | .error => 0

theorem sqliteGetNextRowid_run_any (site : Site) :
    (sqliteGetNextRowid site).run c.handler T = (c.nextId site T, T) := by
  simp only [sqliteGetNextRowid, sqlite3Exec, Prog.perform_bind, Prog.ask_bind, Prog.pure_def,
    Prog.ret_bind, Prog.run_ask, Prog.run_ret]
  by_cases h : c.outcome (.exec site .selectNextRowid) = .ok
  · rw [exec_ok h Stmt.intact_selectNextRowid, nextId, h]
    cases hm : T.maxId with
    | none => simp [Stmt.eval, hm, feed, callbackRowid, Table.nextRowid]
    | some m =>
      obtain ⟨r, hr, rfl⟩ := Table.maxId_mem hm
      simp [Stmt.eval, hm, feed, callbackRowid, Table.nextRowid, atoi_decimal (T.idsFit r hr)]
  · rw [exec_fail h, nextId]
    cases hcode : c.outcome (.exec site .selectNextRowid) with
    | ok => exact absurd hcode h
    | busy => rfl
    | abort => rfl
    | empty => rfl
    | error => rfl

theorem nextId_inInt (c : Call) (site : Site) (T : Table) : InInt (c.nextId site T) := by
  unfold nextId
  split
  · exact T.nextRowid_inInt
  · decide
  · decide
  · decide
  · decide

/-- Every step of `sqlite_insert_row` goes well: the row is stored under the id `nextId`. -/
structure Stores (c : Call) (site : Site) (T : Table) (user : CString) (timestamp : Int) :
    Prop where
  opened : c.outcome (.openDb site) = .ok
  id_nonneg : 0 ≤ c.nextId site T
  inserted : c.outcome (.exec site (.insertData (c.nextId site T) user timestamp)) = .ok
  id_new : ∀ s ∈ T.rows, s.id ≠ c.nextId site T

theorem Stores.intact (hfit : NameFits user timestamp) (h : c.Stores site T user timestamp) :
    (Stmt.insertData (c.nextId site T) user timestamp).Intact :=
  Stmt.intact_insertData hfit h.id_nonneg (c.nextId_inInt site T)

theorem sqliteInsertRow_run_stores (h : c.Stores site T user timestamp)
    (hint : (Stmt.insertData (c.nextId site T) user timestamp).Intact) :
    (sqliteInsertRow site user timestamp).run c.handler T =
      (0, T.insert ⟨c.nextId site T, user, none, timestamp⟩ (c.nextId_inInt site T) h.id_new) := by
  have hopen : c.handler (.openDb site) T = (.ok, T) := by simp only [handler, h.opened]
  have hx := exec_ok (T := T) h.inserted hint
  rw [Stmt.eval, dif_pos ⟨c.nextId_inInt site T, h.id_new⟩] at hx
  have hlt : ¬ c.nextId site T < 0 := Int.not_lt.mpr h.id_nonneg
  simp [sqliteInsertRow, hopen, Prog.run_bind_of c.handler (sqliteGetNextRowid_run_any site), hlt,
    hx]

theorem sqliteInsertRow_run_not_stores (hfit : NameFits user timestamp)
    (h : ¬ c.Stores site T user timestamp) :
    ∃ code, code ≠ 0 ∧ (sqliteInsertRow site user timestamp).run c.handler T = (code, T) := by
  have hopen : c.handler (.openDb site) T = (c.outcome (.openDb site), T) := rfl
  have hnext (f : Int → PamProg Int) :=
    Prog.run_bind_of (f := f) c.handler (sqliteGetNextRowid_run_any (c := c) (T := T) site)
  by_cases h1 : c.outcome (.openDb site) = .ok
  · by_cases h2 : c.nextId site T < 0
    · exact ⟨-2, by decide, by simp [sqliteInsertRow, hopen, h1, hnext, h2]⟩
    · refine ⟨-4, by decide, ?_⟩
      by_cases h3 : c.outcome (.exec site (.insertData (c.nextId site T) user timestamp)) = .ok
      · have hx := exec_ok (T := T) h3
          (Stmt.intact_insertData hfit (Int.not_lt.mp h2) (c.nextId_inInt _ _))
        rw [Stmt.eval, dif_neg fun hn => h ⟨h1, Int.not_lt.mp h2, h3, hn.2⟩] at hx
        simp [sqliteInsertRow, hopen, h1, hnext, h2, hx]
      · simp [sqliteInsertRow, hopen, h1, hnext, h2, exec_fail h3, h3]
  · exact ⟨-1, by decide, by simp [sqliteInsertRow, hopen, h1]⟩

/-- What is promised of a run of `sqlite_insert_row`: it returns 0 with one new row, whose id is
positive and which a lookup by name reports, or anything else with the table as it was. -/
structure AllOrNothing (c : Call) (site : Site) (T : Table) (user : CString) (timestamp : Int) :
    Prop where
  all : ((sqliteInsertRow site user timestamp).run c.handler T).1 = 0 →
    ∃ r : Row, r.user = user ∧ r.otp = none ∧ r.timestamp = timestamp ∧ 0 < r.id ∧
      (∀ s ∈ T.rows, s.id ≠ r.id) ∧
      (∀ s, s ∈ ((sqliteInsertRow site user timestamp).run c.handler T).2.rows ↔
        s = r ∨ s ∈ T.rows) ∧
      ∀ (c' : Call) (site' : Site), c'.outcome (.exec site' (.selectRowid user)) = .ok →
        0 < ((sqliteGetRowid site' user).run c'.handler
          ((sqliteInsertRow site user timestamp).run c.handler T).2).1
  nothing : ((sqliteInsertRow site user timestamp).run c.handler T).1 ≠ 0 →
    ((sqliteInsertRow site user timestamp).run c.handler T).2 = T

/-- The open and the `INSERT` go well, no row has the id 0, and `SELECT max(id)` is busy, fails or
finds -1. -/
def InsertsZero (c : Call) (site : Site) (T : Table) (user : CString) (timestamp : Int) : Prop :=
  c.outcome (.openDb site) = .ok ∧ c.outcome (.exec site (.insertData 0 user timestamp)) = .ok ∧
    (∀ s ∈ T.rows, s.id ≠ 0) ∧
    (c.outcome (.exec site .selectNextRowid) = .busy ∨
      c.outcome (.exec site .selectNextRowid) = .error ∨
      c.outcome (.exec site .selectNextRowid) = .ok ∧ T.maxId = some (-1))

theorem nextId_eq_zero_iff : c.nextId site T = 0 ↔
    c.outcome (.exec site .selectNextRowid) = .busy ∨
      c.outcome (.exec site .selectNextRowid) = .error ∨
      c.outcome (.exec site .selectNextRowid) = .ok ∧ T.maxId = some (-1) := by
  unfold nextId
  split
  case h_1 h => simp [h, T.nextRowid_eq_zero_iff]
  all_goals rename_i h; simp [h]

theorem insertsZero_iff : c.InsertsZero site T user timestamp ↔
    c.Stores site T user timestamp ∧ c.nextId site T = 0 := by
  constructor
  · rintro ⟨h1, h2, h3, h4⟩
    have h0 : c.nextId site T = 0 := nextId_eq_zero_iff.mpr h4
    exact ⟨⟨h1, by omega, by rw [h0]; exact h2, by rw [h0]; exact h3⟩, h0⟩
  · rintro ⟨⟨h1, -, h2, h3⟩, h0⟩
    rw [h0] at h2 h3
    exact ⟨h1, h2, h3, nextId_eq_zero_iff.mp h0⟩

theorem InsertsZero.not_allOrNothing (hfit : NameFits user timestamp)
    (h : c.InsertsZero site T user timestamp) : ¬ c.AllOrNothing site T user timestamp := by
  obtain ⟨hst, h0⟩ := insertsZero_iff.mp h
  have hrun := sqliteInsertRow_run_stores hst (hst.intact hfit)
  rintro ⟨hall, -⟩
  obtain ⟨r, -, -, -, hpos, -, hrows, -⟩ := hall (by rw [hrun])
  -- The stored row has the id 0: it is not the promised one, and the table had none.
  rw [hrun] at hrows
  rcases (hrows _).mp (Table.self_mem_insert (c.nextId_inInt site T) hst.id_new) with heq | hmem
  · rw [← heq] at hpos
    exact absurd hpos (by simp [h0])
  · exact hst.id_new _ hmem rfl

theorem insert_row_all_or_nothing_iff (c : Call) (site : Site) (T : Table) (user : CString)
    (timestamp : Int) (hfit : NameFits user timestamp) :
    c.AllOrNothing site T user timestamp ↔ ¬ c.InsertsZero site T user timestamp := by
  constructor
  · exact fun hall hzero => hzero.not_allOrNothing hfit hall
  · intro hzero
    by_cases h : c.Stores site T user timestamp
    · have hrun := sqliteInsertRow_run_stores h (h.intact hfit)
      have hne : c.nextId site T ≠ 0 := fun h0 => hzero (insertsZero_iff.mpr ⟨h, h0⟩)
      have hpos : 0 < c.nextId site T := by have := h.id_nonneg; omega
      refine ⟨fun _ => ?_, fun hne => absurd (by rw [hrun]) hne⟩
      rw [hrun]
      refine ⟨⟨c.nextId site T, user, none, timestamp⟩, rfl, rfl, rfl, hpos, h.id_new,
        fun s => Table.mem_insertSorted, fun c' site' hok => ?_⟩
      rw [sqliteGetRowid_run_any site' (Stmt.intact_selectRowid hfit), if_pos hok]
      exact Int.lt_of_lt_of_le hpos
        (Table.le_rowid (Table.self_mem_insert (c.nextId_inInt site T) h.id_new))
    · obtain ⟨code, hne, hrun⟩ := sqliteInsertRow_run_not_stores hfit h
      constructor
      · intro h0
        rw [hrun] at h0
        exact absurd h0 hne
      · intro _
        rw [hrun]

/-- The database is locked just while `SELECT max(id)` runs. -/
def selectBusy : Call :=
  { Call.annEarly with
    outcome := fun op => if op = .exec .registerInit .selectNextRowid then .busy else .ok }

theorem selectBusy_insertsZero :
    selectBusy.InsertsZero .registerInit .empty (.ofLit "ann") 400 := by
  refine ⟨rfl, rfl, by simp, .inl rfl⟩

theorem insert_row_all_or_nothing_iff_selectBusy : NameFits (.ofLit "ann") 400 ∧
    (selectBusy.AllOrNothing .registerOtp .empty (.ofLit "ann") 400 ↔
      ¬ selectBusy.InsertsZero .registerOtp .empty (.ofLit "ann") 400) :=
  ⟨by decide, insert_row_all_or_nothing_iff _ _ _ _ _ (by decide)⟩

/-- A busy `SELECT max(id)` on the empty table: the function returns 0 and the row has the id 0. -/
theorem insert_row_not_all_or_nothing :
    ¬ ∀ (c : Call) (site : Site) (T : Table) (user : CString) (timestamp : Int),
      NameFits user timestamp → c.AllOrNothing site T user timestamp := by
  intro h
  exact selectBusy_insertsZero.not_allOrNothing (by decide) (h _ _ _ _ _ (by decide))

end Call

end PamSmsauth
